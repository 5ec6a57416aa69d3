import PacketReordering.OneSlot.Defs

/-!
# The two duplicate ACK filters

`dupack_drop` and `dupack_drop_fedora` are one state machine, except that the first compares ACK numbers as plain numbers
and the second by the sign of their difference.

* `Alike` — what the two have in common while they agree;
* `comparesAlike` — the two comparisons give one result;
* `alike_iff` — the filters agree exactly as long as the comparisons do.
-/

namespace PacketReordering.OneSlot

open Lib

/-- The states of the two filters agree: the entry that is retained counts only while `dupack_count` is 1. -/
structure Alike (s : DupackDrop) (t : DupackDropFedora) : Prop where
  verdicts : s.verdicts = t.verdicts
  ackSeqOld : s.ackSeqOld = t.ackSeqOld
  dupackCount : s.dupackCount = t.dupackCount
  retained : t.dupackCount = 1 → s.entrySaved = t.entrySaved ∧ t.entrySaved ≠ none

/-- Both comparisons of the ACK number of the packet with `ack_seq_old` give the same result, or nobody compares. -/
def comparesAlike (t : DupackDropFedora) (e : NfQueueEntry) : Bool :=
  e.syn || (decide (e.ackSeq > t.ackSeqOld) == decide (s32 (e.ackSeq - t.ackSeqOld) > 0))

variable {s s' : DupackDrop} {t t' : DupackDropFedora} {e : NfQueueEntry}

theorem Alike.nfReinject (h : Alike s t) {v : Verdict} :
    Alike { s with toSlot := s.nfReinject e v } { t with toSlot := t.nfReinject e v } :=
  ⟨by simp [Slot.nfReinject, h.verdicts], h.ackSeqOld, h.dupackCount, h.retained⟩

/-- A verdict for the retained entry. -/
theorem Alike.reinjectSaved (h : Alike s t) (hcount : t.dupackCount = 1) (v : Verdict) :
    ∃ r r', s.reinjectSaved v = .ok r ∧ t.reinjectSaved v = .ok r' ∧ r.verdicts = r'.verdicts := by
  obtain ⟨hsaved, hne⟩ := h.retained hcount
  obtain ⟨saved, ht⟩ := Option.ne_none_iff_exists'.1 hne
  rw [ht] at hsaved
  refine ⟨s.nfReinject saved v, t.nfReinject saved v, by rw [Slot.reinjectSaved, hsaved], by rw [Slot.reinjectSaved, ht], ?_⟩
  simp [Slot.nfReinject, h.verdicts]

/-- The packet is ahead of `ack_seq_old`. -/
theorem Alike.advance (h : Alike s t) :
    ∃ r r', (if s.dupackCount = 1 then s.reinjectSaved .nfDrop else .ok s.toSlot) = .ok r ∧
      (if t.dupackCount = 1 then t.reinjectSaved .nfDrop else .ok t.toSlot) = .ok r' ∧ r.verdicts = r'.verdicts := by
  rw [h.dupackCount]
  by_cases hcount : t.dupackCount = 1
  · rw [if_pos hcount, if_pos hcount]
    exact h.reinjectSaved hcount .nfDrop
  · rw [if_neg hcount, if_neg hcount]
    exact ⟨s.toSlot, t.toSlot, rfl, rfl, h.verdicts⟩

theorem zero_ne_one : (0 : U32) ≠ 1 := by decide

theorem two_ne_one : (2 : U32) ≠ 1 := by decide

/-- A packet that both filters compare alike. -/
theorem Alike.keep (h : Alike s t) (hcompare : comparesAlike t e = true) :
    ∃ s' t', DupackDrop.dupackDropEnqueuePacket s e = .ok s' ∧ dupackDropEnqueuePacket t e = .ok t' ∧ Alike s' t' := by
  have hsyn : ∀ t : DupackDropFedora, Alike s t → Alike { s with ackSeqOld := e.ackSeq, dupackCount := 0, toSlot := s.nfReinject e .nfAccept }
      { t with ackSeqOld := e.ackSeq, dupackCount := 0, toSlot := t.nfReinject e .nfAccept } := by
    intro t h
    exact ⟨h.nfReinject.verdicts, rfl, rfl, fun hzero => absurd hzero zero_ne_one⟩
  unfold DupackDrop.dupackDropEnqueuePacket dupackDropEnqueuePacket
  by_cases hs : e.syn = true
  · rw [if_pos hs, if_pos hs]
    exact ⟨_, _, rfl, rfl, hsyn t h⟩
  rw [if_neg hs, if_neg hs]
  have hiff : e.ackSeq > s.ackSeqOld ↔ s32 (e.ackSeq - t.ackSeqOld) > 0 := by
    unfold comparesAlike at hcompare
    rw [Bool.not_eq_true] at hs
    rw [hs, Bool.false_or, beq_iff_eq, decide_eq_decide] at hcompare
    rw [h.ackSeqOld]
    exact hcompare
  by_cases hnew : e.ackSeq > s.ackSeqOld
  · rw [if_pos hnew, if_pos (hiff.1 hnew)]
    obtain ⟨r, r', hr, hr', hverdicts⟩ := h.advance
    refine ⟨{ s with ackSeqOld := e.ackSeq, dupackCount := 0, toSlot := r.nfReinject e .nfAccept },
      { t with ackSeqOld := e.ackSeq, dupackCount := 0, toSlot := r'.nfReinject e .nfAccept }, ?_, ?_, ?_, rfl, rfl,
      fun hzero => absurd hzero zero_ne_one⟩
    · simp only [hr]
      rfl
    · simp only [hr']
      rfl
    · simp [Slot.nfReinject, hverdicts]
  rw [if_neg hnew, if_neg (fun hnew' => hnew (hiff.2 hnew'))]
  by_cases hdup : e.ackSeq = t.ackSeqOld
  · rw [if_pos (hdup.trans h.ackSeqOld.symm), if_pos hdup, h.dupackCount]
    by_cases hzero : t.dupackCount = 0
    · rw [if_pos hzero, if_pos hzero]
      exact ⟨_, _, rfl, rfl, h.verdicts, h.ackSeqOld, rfl, fun _ => ⟨rfl, Option.some_ne_none e⟩⟩
    rw [if_neg hzero, if_neg hzero]
    by_cases hone : t.dupackCount = 1
    · obtain ⟨r, r', hr, hr', hverdicts⟩ := h.reinjectSaved hone .nfAccept
      rw [if_pos hone, if_pos hone, hr, hr']
      refine ⟨_, _, rfl, rfl, ?_, h.ackSeqOld, rfl, fun htwo => absurd htwo two_ne_one⟩
      simp [Slot.nfReinject, hverdicts]
    rw [if_neg hone, if_neg hone]
    have hsame := h.nfReinject (v := .nfAccept) (e := e)
    exact ⟨_, _, rfl, rfl, hsame.verdicts, h.ackSeqOld, rfl, fun hone' => absurd hone' hone⟩
  · rw [if_neg (fun hdup' => hdup (hdup'.trans h.ackSeqOld)), if_neg hdup]
    exact ⟨_, _, rfl, rfl, h.nfReinject⟩

theorem DupackDrop.ackSeqOld_eq (hs : DupackDrop.dupackDropEnqueuePacket s e = .ok s') (hsyn : ¬e.syn = true) :
    s'.ackSeqOld = if e.ackSeq > s.ackSeqOld then e.ackSeq else s.ackSeqOld := by
  unfold DupackDrop.dupackDropEnqueuePacket at hs
  rw [if_neg hsyn] at hs
  by_cases hnew : e.ackSeq > s.ackSeqOld
  · rw [if_pos hnew] at hs ⊢
    obtain ⟨r, -, rfl⟩ := map_ok hs
    rfl
  · rw [if_neg hnew] at hs ⊢
    split at hs
    · split at hs
      · cases hs
        rfl
      · split at hs
        · obtain ⟨r, -, rfl⟩ := map_ok hs
          rfl
        · cases hs
          rfl
    · cases hs
      rfl

theorem DupackDropFedora.ackSeqOld_eq (ht : dupackDropEnqueuePacket t e = .ok t') (hsyn : ¬e.syn = true) :
    t'.ackSeqOld = if s32 (e.ackSeq - t.ackSeqOld) > 0 then e.ackSeq else t.ackSeqOld := by
  unfold dupackDropEnqueuePacket at ht
  rw [if_neg hsyn] at ht
  by_cases hnew : s32 (e.ackSeq - t.ackSeqOld) > 0
  · rw [if_pos hnew] at ht ⊢
    obtain ⟨r, -, rfl⟩ := map_ok ht
    rfl
  · rw [if_neg hnew] at ht ⊢
    split at ht
    · split at ht
      · cases ht
        rfl
      · split at ht
        · obtain ⟨r, -, rfl⟩ := map_ok ht
          rfl
        · cases ht
          rfl
    · cases ht
      rfl

/-- After a packet that the filters compare differently, only one of them has moved `ack_seq_old`. -/
theorem Alike.lose (h : Alike s t) (hcompare : ¬comparesAlike t e = true)
    (hs : DupackDrop.dupackDropEnqueuePacket s e = .ok s') (ht : dupackDropEnqueuePacket t e = .ok t') : ¬Alike s' t' := by
  intro h'
  unfold comparesAlike at hcompare
  simp only [Bool.or_eq_true, beq_iff_eq, decide_eq_decide, not_or] at hcompare
  obtain ⟨hsyn, hiff⟩ := hcompare
  have hackSeqOld := h'.ackSeqOld
  rw [DupackDrop.ackSeqOld_eq hs hsyn, DupackDropFedora.ackSeqOld_eq ht hsyn, h.ackSeqOld] at hackSeqOld
  by_cases hnew : e.ackSeq > t.ackSeqOld
  · rw [if_pos hnew] at hackSeqOld
    by_cases hnew' : s32 (e.ackSeq - t.ackSeqOld) > 0
    · exact hiff ⟨fun _ => hnew', fun _ => hnew⟩
    · rw [if_neg hnew'] at hackSeqOld
      rw [hackSeqOld] at hnew
      exact BitVec.lt_irrefl _ hnew
  · rw [if_neg hnew] at hackSeqOld
    by_cases hnew' : s32 (e.ackSeq - t.ackSeqOld) > 0
    · rw [if_pos hnew'] at hackSeqOld
      rw [hackSeqOld] at hnew'
      simp [s32] at hnew'
    · exact hiff ⟨fun h => absurd h hnew, fun h => absurd h hnew'⟩

/-- **The filters agree exactly as long as the comparisons do.** -/
theorem alike_iff (h : Alike s t) (es : List NfQueueEntry) :
    (∀ ps, ps <+: es → ∃ s' t', runFrom DupackDrop.dupackDropEnqueuePacket s ps = .ok s' ∧
        runFrom dupackDropEnqueuePacket t ps = .ok t' ∧ Alike s' t') ↔
      Steps dupackDropEnqueuePacket (fun t e => comparesAlike t e = true) t es :=
  Steps.iff_lockstep (fun _ _ _ h hC => h.keep hC) (fun _ _ _ _ _ h hC hs ht => h.lose hC hs ht) h

/-- Two packets with one ACK number. -/
def twoAcks : List NfQueueEntry :=
  [⟨1, false, false, false, false, false, 0, 0x100, 40, 5, 5⟩, ⟨2, false, false, false, false, false, 0, 0x100, 40, 5, 5⟩]

/-- The state after a SYN with the ACK number `ack`. -/
def afterSyn (ack : U32) : DupackDropFedora := ⟨⟨none, []⟩, ack, 0⟩

theorem afterSyn_alike (ack : U32) : Alike (afterSyn ack) (afterSyn ack) :=
  ⟨rfl, rfl, rfl, fun hone => absurd hone zero_ne_one⟩

/-- Without a wrap the filters agree. -/
theorem alike_twoAcks :
    (∀ ps, ps <+: twoAcks → ∃ s' t', runFrom DupackDrop.dupackDropEnqueuePacket (afterSyn 0x80) ps = .ok s' ∧
        runFrom dupackDropEnqueuePacket (afterSyn 0x80) ps = .ok t' ∧ Alike s' t') ∧
      Steps dupackDropEnqueuePacket (fun t e => comparesAlike t e = true) (afterSyn 0x80) twoAcks := by
  have hsteps : Steps dupackDropEnqueuePacket (fun t e => comparesAlike t e = true) (afterSyn 0x80) twoAcks := by
    decide +kernel
  exact ⟨(alike_iff (afterSyn_alike 0x80) twoAcks).2 hsteps, hsteps⟩

/-- Only `dupack_drop_fedora` takes the first packet for a new ACK, and so retains the second one. -/
theorem not_alike_twoAcks :
    ¬ ∀ (s : DupackDrop) (t : DupackDropFedora), Alike s t → t.dupackCount = 0 → ∀ es ps : List NfQueueEntry, ps <+: es →
      ∃ s' t', runFrom DupackDrop.dupackDropEnqueuePacket s ps = .ok s' ∧ runFrom dupackDropEnqueuePacket t ps = .ok t' ∧
        Alike s' t' := by
  intro h
  obtain ⟨s', t', hs, ht, halike⟩ :=
    h _ _ (afterSyn_alike 0xFFFFFF00) rfl twoAcks twoAcks (List.prefix_refl _)
  have hs' : runFrom DupackDrop.dupackDropEnqueuePacket (afterSyn 0xFFFFFF00) twoAcks =
      .ok ⟨⟨none, twoAcks.map fun e => (e, .nfAccept)⟩, 0xFFFFFF00, 0⟩ := by decide
  have ht' : runFrom dupackDropEnqueuePacket (afterSyn 0xFFFFFF00) twoAcks =
      .ok ⟨⟨twoAcks[1]?, (twoAcks.take 1).map fun e => (e, .nfAccept)⟩, 0x100, 1⟩ := by decide
  rw [hs'] at hs
  rw [ht'] at ht
  cases hs
  cases ht
  exact absurd halike.dupackCount zero_ne_one

end PacketReordering.OneSlot
