import PacketReordering.ReorderAdvanced.Waiting

/-!
# `seq_next` of the reorder queue

* `run_held` — the invariant of a connection;
* `runReusing_seqNext` — `seq_next` is the serial maximum of the ends of what went up, and never moves backwards;
* `LeavesNoneDue` — the calls after which no segment in sequence stays held, if none did before;
* `runReusing_nothingDue` — exactly in the runs of such calls every held segment starts after `seq_next`.
-/

namespace PacketReordering.ReorderAdvanced

open Lib

/-- The call does not go through the overlap branch in such a way that the node it stops at is in sequence. -/
def LeavesNoneDue (s : State) : Call × Option NodeId → Prop
  | (.timer, _) => True
  | (.packet e, _) =>
    e.IsNew s → ¬ s32 (e.seq - s.seqNext) ≤ 0 → s.reorderCount ≤ maxReorderCount → leavesDue s e = false

instance (s : State) : (c : Call × Option NodeId) → Decidable (LeavesNoneDue s c)
  | (.timer, _) => isTrue trivial
  | (.packet e, _) => by unfold LeavesNoneDue; infer_instance

/-- Every held segment starts strictly after `seq_next`. -/
def NothingDue (s : State) : Prop := ∀ nd ∈ s.queue, 0 < s32 (nd.seq - s.seqNext)

/-- `x` is the serial maximum of `xs`. -/
def SerialMax (x : U32) (xs : List U32) : Prop := x ∈ xs ∧ ∀ y ∈ xs, ¬ s32 (x - y) < 0

section

variable {syn e : NfQueueEntry} {s t : State} {l : List NodeId} {new : NodeId}

/-! ### One call -/

/-- A segment of the connection. -/
theorem Held.packet (r : Option NodeId) (h : Held syn s l) (hpast : NotPast syn s l) (he : e.InWindow syn.isn)
    (hnew : new ∉ l) :
    ∃ t l', reorderQueueEnqueuePacket new s e = .ok t ∧ Outcome syn s t l' ∧
      (NoneDue s l → (NoneDue t l' ↔ LeavesNoneDue s (.packet e, r))) := by
  have hsyn : ¬ e.syn = true := by simp [he.syn]
  unfold reorderQueueEnqueuePacket
  rw [if_neg hsyn]
  by_cases hlen : e.length = 0
  · -- nothing is left to be due
    rw [if_pos hlen]
    obtain ⟨t, ht, hheld, htpast, -, -, hgrows⟩ :=
      @Held.flushReorderQueue syn s l [] (by simpa using h) (by simpa using hpast)
    rw [List.head?_nil] at ht
    refine ⟨(t.raiseSeqNext e.seqNextTmp).nfReinject e, [], by simp only [ht], ?_, fun _ => iff_of_true (by simp [NoneDue]) fun hn => absurd hlen hn.2.1⟩
    rw [raiseSeqNext_nfReinject]
    refine ⟨hheld.reinject he.end_le, htpast.reinject (by simp), ?_⟩
    rw [raiseSeqNext_reinjected]
    exact hgrows.trans (List.prefix_append _ _)
  rw [if_neg hlen]
  have hend := s32_sub_nonpos he.end_le h.seqNext_le
  have hraise := s32_sub_neg h.seqNext_le he.end_le
  by_cases hold : s32 (e.seqNextTmp - s.seqNext) ≤ 0
  · -- an old segment: `seq_next` stays
    rw [if_pos hold]
    have hsame : (s.nfReinject e).raiseSeqNext e.seqNextTmp = s.nfReinject e := by
      refine if_neg ?_
      show ¬ s32 (s.seqNext - e.seqNextTmp) < 0
      omega
    have hheld := h.reinject he.end_le
    rw [hsame] at hheld
    exact ⟨_, l, rfl, ⟨hheld, hpast, List.prefix_append _ _⟩, fun hn => iff_of_true hn fun hnew => absurd hold hnew.2.2⟩
  rw [if_neg hold]
  by_cases hin : s32 (e.seq - s.seqNext) ≤ 0
  · -- in sequence: the loop takes everything that is due
    rw [if_pos hin]
    have hsame : (s.nfReinject e).raiseSeqNext e.seqNextTmp = { s.nfReinject e with seqNext := e.seqNextTmp } := by
      refine if_pos ?_
      show s32 (s.seqNext - e.seqNextTmp) < 0
      omega
    have hheld := h.reinject he.end_le
    rw [hsame] at hheld
    obtain ⟨t, m, ht, htheld, htpast, hnone, hgrows⟩ := hheld.drainInSequence
    exact ⟨t, m, ht, ⟨htheld, htpast, (List.prefix_append _ _).trans hgrows⟩,
      fun _ => iff_of_true hnone fun _ hn => absurd hin hn⟩
  rw [if_neg hin]
  by_cases hfull : s.reorderCount > maxReorderCount
  · rw [if_pos hfull]
    obtain ⟨t, ht, hout⟩ := h.flushAndReinject_all hpast he
    refine ⟨t, [], ht, hout, fun _ => iff_of_true (by simp [NoneDue]) fun _ _ hle => ?_⟩
    exact absurd hle (BitVec.not_le.2 hfull)
  · rw [if_neg hfull]
    have hseq : offset syn.isn s.seqNext < offset syn.isn e.seq := by
      have hle := s32_sub_nonpos he.seq_le h.seqNext_le
      omega
    obtain ⟨t, l', ht, hout, hnone⟩ := h.enqueueOutOfOrder hpast he hlen hnew hseq
    refine ⟨t, l', ht, hout, fun hn => (hnone hn).trans ⟨fun hd _ _ _ => hd, fun hc => ?_⟩⟩
    exact hc ⟨he.syn, hlen, hold⟩ hin (BitVec.not_lt.1 hfull)

/-- Any call of the connection. -/
theorem Held.step {c : Call × Option NodeId} (h : Held syn s l) (hpast : NotPast syn s l) (hc : c.1.InWindow syn.isn) :
    ∃ t l', stepReusing s c = .ok t ∧ Outcome syn s t l' ∧ (NoneDue s l → (NoneDue t l' ↔ LeavesNoneDue s c)) := by
  obtain ⟨c, r⟩ := c
  cases c with
  | packet e =>
    obtain ⟨p, hl⟩ := h.listed
    exact h.packet r hpast hc (hl.block_notMem r)
  | timer =>
    obtain ⟨t, ht, hheld, htpast, -, -, hgrows⟩ :=
      @Held.flushReorderQueue syn s l [] (by simpa using h) (by simpa using hpast)
    exact ⟨t, [], ht, ⟨hheld, htpast, hgrows⟩, fun _ => iff_of_true (by simp [NoneDue]) trivial⟩

/-- The SYN. -/
theorem step_syn (hsyn : syn.syn = true) (r : Option NodeId) :
    ∃ t, stepReusing State.init (.packet syn, r) = .ok t ∧ Held syn t [] := by
  refine ⟨{ State.init with seqNext := syn.seq + 1 }.nfReinject syn, ?_, ?_⟩
  · show reorderQueueEnqueuePacket _ _ _ = _
    unfold reorderQueueEnqueuePacket
    rw [if_pos hsyn]
    rfl
  · refine ⟨⟨none, rfl, by simp, trivial, List.nodup_nil, by simp, by simp⟩, trivial, by simp, [], rfl, ?_⟩
    refine tops_singleton ?_
    show offset (syn.seq + 1) (syn.seq + 1) ≤ 2 ^ 30
    simp [offset]

/-! ### Runs -/

/-- **The invariant of a connection.**  A run of its calls comes to its end with what is held in order, ahead of `seq_next`. -/
theorem run_held {cs : List (Call × Option NodeId)} (h : Held syn s l) (hpast : NotPast syn s l)
    (hcs : ∀ c ∈ cs, c.1.InWindow syn.isn) : ∃ t l', runFrom stepReusing s cs = .ok t ∧ Outcome syn s t l' := by
  induction cs generalizing s l with
  | nil => exact ⟨s, l, rfl, h, hpast, List.prefix_rfl⟩
  | cons c cs ih =>
    obtain ⟨t, m, ht, hout, -⟩ := h.step hpast (hcs c (List.mem_cons_self ..))
    obtain ⟨u, m', hu, hout'⟩ := ih hout.held hout.notPast fun d hd => hcs d (List.mem_cons_of_mem _ hd)
    exact ⟨u, m', (runFrom_cons_ok ht).trans hu, hout'.held, hout'.notPast, hout.grows.trans hout'.grows⟩

theorem Held.serialMax (h : Held syn s l) :
    ∃ rest, s.reinjected = syn :: rest ∧ SerialMax s.seqNext (syn.isn :: rest.map NfQueueEntry.seqNextTmp) := by
  obtain ⟨rest, hre, htops⟩ := h.tops
  exact ⟨rest, hre, htops.mem, htops.not_serialLT⟩

/-- `seq_next` does not move backwards while more goes up. -/
theorem Held.not_before {m : List NodeId} (h : Held syn s l) (ht : Held syn t m) (hgrows : s.reinjected <+: t.reinjected) :
    ¬ s32 (t.seqNext - s.seqNext) < 0 := by
  obtain ⟨rest, hre, htops⟩ := h.tops
  obtain ⟨rest', hre', htops'⟩ := ht.tops
  have hrest : rest <+: rest' := by
    rw [hre, hre'] at hgrows
    exact (List.cons_prefix_cons.1 hgrows).2
  refine htops'.not_serialLT s.seqNext ?_
  rcases List.mem_cons.1 htops.mem with heq | hmem
  · rw [heq]
    exact List.mem_cons_self ..
  · exact List.mem_cons_of_mem _ ((hrest.map _).subset hmem)

end

/-- **`seq_next` is exact.**  In every run over one connection, whatever blocks `kmalloc` returns, `seq_next` is the serial
maximum of the byte after the SYN and of the ends of all segments that were re-injected since; it never moves
backwards. -/
theorem runReusing_seqNext {syn : NfQueueEntry} {r : Option NodeId} {cs : List (Call × Option NodeId)}
    (h : Connection syn cs) :
    ∃ s rest, runReusing ((.packet syn, r) :: cs) = .ok s ∧ s.reinjected = syn :: rest ∧
      SerialMax s.seqNext ((syn.seq + 1) :: rest.map NfQueueEntry.seqNextTmp) ∧
      ∀ ys t, ys <+: cs → runReusing ((.packet syn, r) :: ys) = .ok t → ¬ s32 (s.seqNext - t.seqNext) < 0 := by
  obtain ⟨s₀, hs₀, hheld₀⟩ := step_syn h.opens r
  have hpast₀ : NotPast syn s₀ [] := by simp [NotPast]
  obtain ⟨s, l, hs, hout⟩ := run_held hheld₀ hpast₀ h.window
  obtain ⟨rest, hre, hmax⟩ := hout.held.serialMax
  refine ⟨s, rest, (runFrom_cons_ok hs₀).trans hs, hre, hmax, fun ys t hys ht => ?_⟩
  -- the run over `cs` is the one over `ys` and then one over the rest
  obtain ⟨zs, rfl⟩ := hys
  obtain ⟨t', m, ht', hout'⟩ := run_held hheld₀ hpast₀ fun c hc => h.window c (List.mem_append_left _ hc)
  have hfirst : runReusing ((.packet syn, r) :: ys) = .ok t' := (runFrom_cons_ok hs₀).trans ht'
  obtain rfl : t = t' := by
    rw [ht] at hfirst
    injection hfirst
  obtain ⟨s', l', hs', hout''⟩ :=
    run_held hout'.held hout'.notPast fun c hc => h.window c (List.mem_append_right ys hc)
  obtain rfl : s = s' := by
    rw [runFrom_append, ht'] at hs
    rw [show runFrom stepReusing t zs = .ok s from hs] at hs'
    injection hs'
  exact hout'.held.not_before hout''.held hout''.grows

/-- Segments behind a SYN with the sequence number `2^32 - 6`, counted from the byte after it: `[11, 21)` and `[31, 41)`
are held, `[0, 11)` brings the first in sequence, and its block is used again for `[61, 71)`; `[36, 46)` overlaps
`[31, 41)`, so the two go up, and the timer releases the rest. -/
def aroundZero : List (Call × Option NodeId) :=
  [(.packet ⟨1, false, 6, 50, 5, 5⟩, none), (.packet ⟨2, false, 26, 50, 5, 5⟩, none),
    (.packet ⟨3, false, -5, 51, 5, 5⟩, none), (.packet ⟨4, false, 56, 50, 5, 5⟩, some 0),
    (.packet ⟨5, false, 31, 50, 5, 5⟩, none), (.timer, none)]

theorem runReusing_seqNext_aroundZero :
    ∃ s rest, runReusing ((.packet ⟨0, true, -6, 40, 5, 5⟩, none) :: aroundZero) = .ok s ∧
      s.reinjected = ⟨0, true, -6, 40, 5, 5⟩ :: rest ∧
      SerialMax s.seqNext ((-6 + 1) :: rest.map NfQueueEntry.seqNextTmp) ∧
      ∀ ys t, ys <+: aroundZero → runReusing ((.packet ⟨0, true, -6, 40, 5, 5⟩, none) :: ys) = .ok t →
        ¬ s32 (s.seqNext - t.seqNext) < 0 :=
  runReusing_seqNext ⟨rfl, by decide⟩

/-- **Nothing deliverable is retained**, exactly while no call stops the overlap branch at a node that is in sequence
then. -/
theorem runReusing_nothingDue {syn : NfQueueEntry} {r : Option NodeId} {cs : List (Call × Option NodeId)}
    (h : Connection syn cs) :
    (∀ ys, ys <+: cs → ∃ t, runReusing ((.packet syn, r) :: ys) = .ok t ∧ NothingDue t) ↔
      Steps stepReusing LeavesNoneDue State.init ((.packet syn, r) :: cs) := by
  obtain ⟨s₀, hs₀, hheld₀⟩ := step_syn h.opens r
  have hpast₀ : NotPast syn s₀ [] := by simp [NotPast]
  have hdue : ∀ {s l}, Held syn s l → NotPast syn s l → (NothingDue s ↔ NoneDue s l) :=
    fun h hpast => (h.all_after hpast).symm
  have hbegins := @Steps.iff_prefix _ _ _ stepReusing LeavesNoneDue
    (fun s _ => ∃ l, Held syn s l ∧ NotPast syn s l ∧ NoneDue s l) s₀ cs [] ?_ ?_ ⟨[], hheld₀, hpast₀, by simp [NoneDue]⟩
  · have hsyn : LeavesNoneDue State.init (.packet syn, r) := fun hnew => by
      have := hnew.1
      rw [h.opens] at this
      cases this
    constructor
    · intro hall
      refine ⟨hsyn, fun s' hs' => ?_⟩
      obtain rfl : s₀ = s' := by
        rw [hs₀] at hs'
        injection hs'
      refine hbegins.1 fun ys hys => ?_
      obtain ⟨t, ht, hnone⟩ := hall ys hys
      obtain ⟨t', l, ht', hout⟩ := run_held hheld₀ hpast₀ fun c hc => h.window c (hys.subset hc)
      have hrun : runReusing ((.packet syn, r) :: ys) = .ok t' := (runFrom_cons_ok hs₀).trans ht'
      obtain rfl : t = t' := by
        rw [ht] at hrun
        injection hrun
      exact ⟨t, ht', l, hout.held, hout.notPast, (hdue hout.held hout.notPast).1 hnone⟩
    · rintro ⟨-, hsteps⟩ ys hys
      obtain ⟨t, ht, l, hheld, hpast, hnone⟩ := hbegins.2 (hsteps s₀ hs₀) ys hys
      exact ⟨t, (runFrom_cons_ok hs₀).trans ht, (hdue hheld hpast).2 hnone⟩
  · rintro s c past hc ⟨l, hheld, hpast, hnone⟩ hC
    obtain ⟨t, l', ht, hout, hiff⟩ := hheld.step hpast (h.window c hc)
    exact ⟨t, ht, l', hout.held, hout.notPast, (hiff hnone).2 hC⟩
  · rintro s c s' past hc ⟨l, hheld, hpast, hnone⟩ hC hs' ⟨m, hm, hmpast, hmnone⟩
    obtain ⟨t, l', ht, hout, hiff⟩ := hheld.step hpast (h.window c hc)
    obtain rfl : s' = t := by
      rw [hs'] at ht
      injection ht
    refine hC ((hiff hnone).1 ?_)
    rw [← hdue hout.held hout.notPast, hdue hm hmpast]
    exact hmnone

theorem runReusing_nothingDue_aroundZero :
    (∀ ys, ys <+: aroundZero → ∃ t, runReusing ((.packet ⟨0, true, -6, 40, 5, 5⟩, none) :: ys) = .ok t ∧ NothingDue t) ↔
      Steps stepReusing LeavesNoneDue State.init ((.packet ⟨0, true, -6, 40, 5, 5⟩, none) :: aroundZero) :=
  runReusing_nothingDue ⟨rfl, by decide⟩

/-- `[11, 21)` and `[31, 41)` are held, then `[16, 31)` overlaps the first and ends where the second starts. -/
def endsAtHeld : List (Call × Option NodeId) :=
  [(.packet ⟨1, false, 11, 50, 5, 5⟩, none), (.packet ⟨2, false, 31, 50, 5, 5⟩, none),
    (.packet ⟨3, false, 16, 55, 5, 5⟩, none)]

/-- After `endsAtHeld` the segment `[31, 41)` is held although `seq_next` is 31. -/
theorem not_nothingDue_endsAtHeld :
    ¬ ∀ (syn : NfQueueEntry) (r : Option NodeId) (cs : List (Call × Option NodeId)) (s : State), Connection syn cs →
      runReusing ((.packet syn, r) :: cs) = .ok s → NothingDue s := by
  intro h
  have hdue : ((runReusing ((.packet ⟨0, true, 0, 40, 5, 5⟩, none) :: endsAtHeld)).map fun s =>
      s.queue.map fun nd => s32 (nd.seq - s.seqNext)) = .ok [0] := by decide
  obtain ⟨s, hrun, hqueue⟩ := map_ok hdue
  have hnone := h _ none endsAtHeld s ⟨rfl, by decide⟩ hrun
  have hall : ∀ d ∈ s.queue.map (fun nd => s32 (nd.seq - s.seqNext)), 0 < d := List.forall_mem_map.2 hnone
  rw [hqueue] at hall
  exact absurd (hall 0 (List.mem_singleton_self 0)) (Int.lt_irrefl 0)

end PacketReordering.ReorderAdvanced
