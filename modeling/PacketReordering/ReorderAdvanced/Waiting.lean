import PacketReordering.Lib.Intervals
import PacketReordering.Lib.Serial
import PacketReordering.ReorderAdvanced.Lists

/-!
# What waits in the reorder queue

The segments of one connection, measured from the byte after its SYN: `reorder_count` and the links back out of the queue may
be wrong (a freed node may be read), but the list from `reorder_queue_head` is always sorted, without overlap and ahead
of `seq_next`.

* `Connection` — the calls: segments in a window of 2^30, and expiries of the timer;
* `Held syn s l` — the nodes of `l` are held, in order, and `seq_next` is the maximum of what went up;
* `NotPast`, `NoneDue` — `seq_next` is not past the first held node, and not at its start;
* `leavesDue` — the overlap branch leaves a node that is in sequence;
* `Held.enqueue` — one call keeps all this, and leaves no node in sequence unless `leavesDue`.
-/

namespace PacketReordering.ReorderAdvanced

open Lib

/-- A segment of the connection whose sequence numbers are counted from `base`. -/
structure NfQueueEntry.InWindow (base : U32) (e : NfQueueEntry) : Prop where
  syn : e.syn = false
  window : offset base e.seq + e.length.toNat ≤ 2 ^ 30

/-- The byte after the SYN. -/
def NfQueueEntry.isn (syn : NfQueueEntry) : U32 := syn.seq + 1

/-- A segment of the connection, or an expiry of the timer. -/
def Call.InWindow (base : U32) : Call → Prop
  | .packet e => e.InWindow base
  | .timer => True

/-- The SYN of a connection and the calls after it. -/
structure Connection (syn : NfQueueEntry) (cs : List (Call × Option NodeId)) : Prop where
  opens : syn.syn = true
  window : ∀ c ∈ cs, c.1.InWindow syn.isn

instance (base : U32) (e : NfQueueEntry) : Decidable (e.InWindow base) :=
  decidable_of_iff (e.syn = false ∧ offset base e.seq + e.length.toNat ≤ 2 ^ 30)
    ⟨fun h => ⟨h.1, h.2⟩, fun h => ⟨h.syn, h.window⟩⟩

instance (base : U32) : (c : Call) → Decidable (c.InWindow base)
  | .packet e => inferInstanceAs (Decidable (e.InWindow base))
  | .timer => isTrue trivial

section

variable (syn : NfQueueEntry) (s : State)

/-- Where the held segment starts. -/
def start (i : NodeId) : ℕ := offset syn.isn (s.node i).seq

/-- Where the held segment ends. -/
def stop (i : NodeId) : ℕ := offset syn.isn (s.node i).seqNext

/-- The nodes of `l` are held in order of their sequence numbers, and `seq_next` is the maximum of what went up. -/
structure Held (l : List NodeId) : Prop where
  listed : ∃ p, Listed p s l
  ahead : Ahead (start syn s) (stop syn s) 0 l
  ends : ∀ i ∈ l, (s.node i).entry.seqNextTmp = (s.node i).seqNext ∧ stop syn s i ≤ 2 ^ 30
  tops : ∃ rest, s.reinjected = syn :: rest ∧
    Tops syn.isn s.seqNext (syn.isn :: rest.map NfQueueEntry.seqNextTmp)

/-- `seq_next` is not past the first node. -/
def NotPast (l : List NodeId) : Prop := ∀ i ∈ l.head?, offset syn.isn s.seqNext ≤ start syn s i

/-- The first node is not in sequence. -/
def NoneDue (l : List NodeId) : Prop := ∀ i ∈ l.head?, (s.node i).seq ≠ s.seqNext

/-- The segment overlaps the node in front of the first one that starts at or after its end, and that one is in sequence
once the nodes in front of it and the segment have gone up. -/
def leavesDue (e : NfQueueEntry) : Bool :=
  let isBefore := fun nd : NfQueueEntryNode => !decide (s32 (e.seqNextTmp - nd.seq) ≤ 0)
  (s.queue.dropWhile isBefore).head?.any fun n =>
    n.prev.any fun p =>
      s32 (e.seq - (s.node p).seqNext) < 0 &&
        (e.seqNextTmp == n.seq || (s.queue.takeWhile isBefore).getLast?.any fun m => m.seqNext == n.seq)

end

variable {syn e : NfQueueEntry} {s t : State} {l pre post : List NodeId} {new i : NodeId} {x : U32}

/-! ### Comparisons in the window -/

theorem s32_sub_neg {base a b : U32} (ha : offset base a ≤ 2 ^ 30) (hb : offset base b ≤ 2 ^ 30) :
    s32 (a - b) < 0 ↔ offset base a < offset base b :=
  serialLT_iff_offset (by omega) (by omega)

theorem s32_sub_nonpos {base a b : U32} (ha : offset base a ≤ 2 ^ 30) (hb : offset base b ≤ 2 ^ 30) :
    s32 (a - b) ≤ 0 ↔ offset base a ≤ offset base b := by
  have hzero : s32 (a - b) = 0 ↔ offset base a = offset base b := by
    rw [offset_inj]
    constructor
    · intro h
      have h0 : a - b = 0 := BitVec.eq_of_toInt_eq h
      calc a = a - b + b := (BitVec.sub_add_cancel a b).symm
        _ = b := by rw [h0]; exact BitVec.zero_add b
    · rintro rfl
      rw [BitVec.sub_self]
      rfl
  have hlt := s32_sub_neg ha hb
  omega

theorem NfQueueEntry.InWindow.seq_le {base : U32} (he : e.InWindow base) : offset base e.seq ≤ 2 ^ 30 := by
  have := he.window
  omega

theorem NfQueueEntry.InWindow.seqNextTmp {base : U32} (he : e.InWindow base) :
    offset base e.seqNextTmp = offset base e.seq + e.length.toNat := by
  have hwin := he.window
  have hadd := @offset_add 32 base e.seq e.length.toNat (by omega)
  rwa [BitVec.ofNat_toNat, BitVec.setWidth_eq] at hadd

theorem NfQueueEntry.InWindow.end_le {base : U32} (he : e.InWindow base) : offset base e.seqNextTmp ≤ 2 ^ 30 := by
  rw [he.seqNextTmp]
  exact he.window

theorem NfQueueEntry.InWindow.lt {base : U32} (he : e.InWindow base) (hlen : e.length ≠ 0) :
    offset base e.seq < offset base e.seqNextTmp := by
  have hpos : e.length.toNat ≠ 0 := fun h => hlen (BitVec.eq_of_toNat_eq h)
  rw [he.seqNextTmp]
  omega

/-! ### Where the held segments lie -/

theorem Held.seqNext_le (h : Held syn s l) : offset syn.isn s.seqNext ≤ 2 ^ 30 := by
  obtain ⟨rest, -, htops⟩ := h.tops
  exact htops.window

theorem Held.start_lt_stop (h : Held syn s l) (hi : i ∈ l) : start syn s i < stop syn s i := h.ahead.lo_lt_hi i hi

theorem Held.start_le (h : Held syn s l) (hi : i ∈ l) : start syn s i ≤ 2 ^ 30 := by
  have hlt := h.start_lt_stop hi
  have hle := (h.ends i hi).2
  omega

theorem Held.queue_eq (h : Held syn s l) : s.queue = l.map s.node := by
  obtain ⟨p, hl⟩ := h.listed
  exact hl.queue_eq

/-- The segment ends at or before the start of the node. -/
theorem Held.ends_before (h : Held syn s l) (he : e.InWindow syn.isn) (hi : i ∈ l) :
    s32 (e.seqNextTmp - (s.node i).seq) ≤ 0 ↔ offset syn.isn e.seqNextTmp ≤ start syn s i :=
  s32_sub_nonpos he.end_le (h.start_le hi)

/-- The segment starts before the end of the node. -/
theorem Held.starts_before (h : Held syn s l) (he : e.InWindow syn.isn) (hi : i ∈ l) :
    s32 (e.seq - (s.node i).seqNext) < 0 ↔ offset syn.isn e.seq < stop syn s i :=
  s32_sub_neg he.seq_le (h.ends i hi).2

theorem noneDue_iff (hpast : NotPast syn s l) :
    NoneDue s l ↔ ∀ i ∈ l.head?, offset syn.isn s.seqNext < start syn s i := by
  refine forall₂_congr fun i hi => ?_
  have hle := hpast i hi
  have heq : (s.node i).seq = s.seqNext ↔ start syn s i = offset syn.isn s.seqNext := offset_inj.symm
  rw [ne_eq, heq]
  omega

/-- When the first node is not in sequence, none is. -/
theorem Held.all_after (h : Held syn s l) (hpast : NotPast syn s l) :
    NoneDue s l ↔ ∀ nd ∈ s.queue, 0 < s32 (nd.seq - s.seqNext) := by
  have hahead := h.ahead.from hpast
  rw [noneDue_iff hpast, h.queue_eq, List.forall_mem_map]
  rw [← hahead.forall_lt_iff]
  refine forall₂_congr fun i hi => ?_
  have hle := s32_sub_nonpos (h.start_le hi) h.seqNext_le
  unfold start at hle ⊢
  omega

/-! ### Changes that keep what is held -/

/-- The list, the nodes and what went up matter. -/
theorem Held.congr (h : Held syn s l) (hlist : ∃ p, Listed p t l) (hdata : ∀ i ∈ l, (t.node i).data = (s.node i).data)
    (hre : t.reinjected = s.reinjected) (hseq : t.seqNext = s.seqNext) : Held syn t l := by
  have hfields : ∀ i ∈ l, (t.node i).entry = (s.node i).entry ∧ (t.node i).seq = (s.node i).seq ∧
      (t.node i).seqNext = (s.node i).seqNext := fun i hi => data_eq (hdata i hi)
  refine ⟨hlist, h.ahead.congr fun i hi => ?_, fun i hi => ?_, by rw [hre, hseq]; exact h.tops⟩
  · obtain ⟨-, h1, h2⟩ := hfields i hi
    unfold start stop
    rw [h1, h2]
    exact ⟨rfl, rfl⟩
  · obtain ⟨h0, -, h2⟩ := hfields i hi
    unfold stop
    rw [h0, h2]
    exact h.ends i hi

theorem Held.touch (h : Held syn s l) (i : NodeId) : Held syn (s.touch i) l := by
  obtain ⟨p, hl⟩ := h.listed
  exact h.congr ⟨p, hl.congr rfl rfl rfl rfl rfl⟩ (fun _ _ => rfl) rfl rfl

theorem Held.clearTail (h : Held syn s []) : Held syn { s with reorderQueueTail := none } [] := by
  obtain ⟨p, hl⟩ := h.listed
  exact h.congr ⟨p, hl.clearTail⟩ (by simp) rfl rfl

theorem raiseSeqNext_nfReinject (s : State) (e : NfQueueEntry) (x : U32) :
    (s.raiseSeqNext x).nfReinject e = (s.nfReinject e).raiseSeqNext x := by
  unfold State.raiseSeqNext
  show _ = if s32 (s.seqNext - x) < 0 then _ else _
  split <;> rfl

theorem raiseSeqNext_popHead (s : State) (i : NodeId) (x : U32) :
    (s.raiseSeqNext x).popHead i = { s.popHead i with seqNext := (s.raiseSeqNext x).seqNext } := by
  unfold State.raiseSeqNext
  split <;> rfl

/-- Re-injecting a segment and raising `seq_next` to its end. -/
theorem Held.reinject (h : Held syn s l) (he : offset syn.isn e.seqNextTmp ≤ 2 ^ 30) :
    Held syn ((s.nfReinject e).raiseSeqNext e.seqNextTmp) l := by
  obtain ⟨p, hl⟩ := h.listed
  obtain ⟨rest, hre, htops⟩ := h.tops
  refine ⟨⟨p, (hl.nfReinject e).raiseSeqNext _⟩, ?_, ?_, rest ++ [e], ?_, ?_⟩
  · unfold start stop
    rw [raiseSeqNext_node]
    exact h.ahead
  · unfold stop
    rw [raiseSeqNext_node]
    exact h.ends
  · rw [raiseSeqNext_reinjected]
    simp [State.nfReinject, hre]
  · have hraise := htops.raise he
    rw [raiseSeqNext_seqNext, List.map_append, ← List.cons_append]
    exact hraise

theorem NotPast.reinject (hpast : NotPast syn s l) (he : ∀ i ∈ l.head?, offset syn.isn e.seqNextTmp ≤ start syn s i) :
    NotPast syn ((s.nfReinject e).raiseSeqNext e.seqNextTmp) l := by
  intro i hi
  unfold start
  rw [raiseSeqNext_node, raiseSeqNext_seqNext]
  split
  · exact he i hi
  · exact hpast i hi

/-- Taking off the first node, with `seq_next` at its end. -/
theorem Held.popHead {x : U32} (h : Held syn s (i :: l))
    (hx : x = if s32 (s.seqNext - (s.node i).seqNext) < 0 then (s.node i).seqNext else s.seqNext) :
    Held syn { s.popHead i with seqNext := x } l := by
  have hi : i ∈ i :: l := List.mem_cons_self ..
  obtain ⟨p, hl⟩ := h.listed
  obtain ⟨rest, hre, htops⟩ := h.tops
  obtain ⟨hend, hwin⟩ := h.ends i hi
  refine ⟨⟨_, hl.popHead.setSeqNext x⟩, h.ahead.2.2.mono (Nat.zero_le _), ?_, rest ++ [(s.node i).entry], ?_, ?_⟩
  · exact fun j hj => h.ends j (List.mem_cons_of_mem _ hj)
  · simp [hre]
  · have hraise := htops.raise hwin
    rw [List.map_append, List.map_singleton, hend, ← List.cons_append]
    rw [hx]
    exact hraise

/-! ### The removal loops -/

/-- **Flushing** up to a node of the queue: `seq_next` is the end of what was flushed. -/
theorem Held.flushReorderQueue (h : Held syn s (pre ++ post)) (hpast : NotPast syn s (pre ++ post)) :
    ∃ t, flushReorderQueue post.head? s.allocated s = .ok t ∧ Held syn t post ∧ NotPast syn t post ∧ t.node = s.node ∧
      t.seqNext = reach (fun i => (s.node i).seqNext) s.seqNext pre ∧ s.reinjected <+: t.reinjected := by
  have hfuel : pre.length ≤ s.allocated := by
    obtain ⟨p, hl⟩ := h.listed
    have := hl.length_le
    simp only [List.length_append] at this
    omega
  have hrule := @flushReorderQueue_rule
    (fun u m => Held syn u (m ++ post) ∧ NotPast syn u (m ++ post) ∧ u.node = s.node ∧
      reach (fun i => (s.node i).seqNext) u.seqNext m = reach (fun i => (s.node i).seqNext) s.seqNext pre ∧
      s.reinjected <+: u.reinjected)
    s s.allocated post (fun hP => hP.1.listed) ?_ ?_ pre ⟨h, hpast, rfl, rfl, List.prefix_rfl⟩ hfuel
  · obtain ⟨t, ht, ⟨hheld, hpast, hnode, hreach, hpre⟩, -⟩ := hrule
    exact ⟨t, ht, hheld, hpast, hnode, hreach, hpre⟩
  · rintro u i m ⟨hheld, hpast, hnode, hreach, hpre⟩
    -- the plain assignment raises `seq_next`, since the node is ahead of it
    have hlt : s32 (u.seqNext - (u.node i).seqNext) < 0 := by
      have hi : i ∈ i :: m ++ post := List.mem_cons_self ..
      have hle : offset syn.isn u.seqNext ≤ start syn u i := hpast i rfl
      have hstop := hheld.start_lt_stop hi
      rw [s32_sub_neg hheld.seqNext_le (hheld.ends i hi).2]
      exact Nat.lt_of_le_of_lt hle hstop
    refine ⟨hheld.popHead (if_pos hlt).symm, fun j hj => ?_, hnode, ?_, ?_⟩
    · have hnext := hheld.ahead.2.2
      cases hm : m ++ post with
      | nil => rw [hm] at hj; cases hj
      | cons k m' =>
        rw [hm] at hj
        rw [show i :: m ++ post = i :: (m ++ post) from rfl, hm] at hheld
        obtain rfl : k = j := by simpa using hj
        exact hheld.ahead.2.2.1
    · rw [reach_cons] at hreach
      rw [← hreach, hnode]
    · exact hpre.trans (List.prefix_append _ _)
  · rintro u ⟨hheld, hpast, hnode, hreach, hpre⟩ rfl
    exact ⟨hheld.clearTail, hpast, hnode, hreach, hpre⟩

/-- **Draining**: nothing that is left is in sequence. -/
theorem Held.drainInSequence (h : Held syn s l) :
    ∃ t m, drainInSequence s.allocated s = .ok t ∧ Held syn t m ∧ NotPast syn t m ∧ NoneDue t m ∧
      s.reinjected <+: t.reinjected := by
  have hfuel : l.length ≤ s.allocated := by
    obtain ⟨p, hl⟩ := h.listed
    exact hl.length_le
  have hrule := @drainInSequence_rule (fun u m => Held syn u m ∧ s.reinjected <+: u.reinjected) s s.allocated
    (fun hP => hP.1.listed) ?_ ?_ l ⟨h, List.prefix_rfl⟩ hfuel
  · obtain ⟨t, m, ht, ⟨hheld, hpre⟩, -, hstop⟩ := hrule
    have hlt : ∀ i ∈ m.head?, offset syn.isn t.seqNext < start syn t i := fun i hi => by
      have hi' : i ∈ m := List.mem_of_head? hi
      have hdue := hstop i hi
      have hiff := s32_sub_nonpos (hheld.start_le hi') hheld.seqNext_le
      rw [hiff] at hdue
      exact Nat.lt_of_not_le hdue
    have hpast : NotPast syn t m := fun i hi => Nat.le_of_lt (hlt i hi)
    exact ⟨t, m, ht, hheld, hpast, (noneDue_iff hpast).2 hlt, hpre⟩
  · rintro u i m ⟨hheld, hpre⟩ -
    refine ⟨?_, ?_⟩
    · rw [raiseSeqNext_popHead]
      exact hheld.popHead (raiseSeqNext_seqNext ..)
    · rw [popHead_reinjected, raiseSeqNext_reinjected]
      exact hpre.trans (List.prefix_append _ _)
  · rintro u ⟨hheld, hpre⟩
    exact ⟨hheld.clearTail, hpre⟩

/-! ### One call -/

/-- What a call leaves: the nodes of `l` held, and what went up before still there. -/
structure Outcome (syn : NfQueueEntry) (s t : State) (l : List NodeId) : Prop where
  held : Held syn t l
  notPast : NotPast syn t l
  grows : s.reinjected <+: t.reinjected

theorem Held.flushAndReinject (h : Held syn s (pre ++ post)) (hpast : NotPast syn s (pre ++ post))
    (he : e.InWindow syn.isn) (hafter : ∀ i ∈ post.head?, offset syn.isn e.seqNextTmp ≤ start syn s i) :
    ∃ t, flushAndReinject post.head? s e = .ok t ∧ Outcome syn s t post ∧ t.node = s.node ∧
      t.seqNext = if s32 (reach (fun i => (s.node i).seqNext) s.seqNext pre - e.seqNextTmp) < 0 then e.seqNextTmp
        else reach (fun i => (s.node i).seqNext) s.seqNext pre := by
  obtain ⟨t, ht, hheld, htpast, hnode, hreach, hgrows⟩ := h.flushReorderQueue hpast
  refine ⟨(t.nfReinject e).raiseSeqNext e.seqNextTmp, ?_, ⟨hheld.reinject he.end_le, htpast.reinject ?_, ?_⟩, ?_, ?_⟩
  · simp only [ReorderAdvanced.flushAndReinject, ht]
  · unfold start at hafter ⊢
    rwa [hnode]
  · rw [raiseSeqNext_reinjected]
    exact hgrows.trans (List.prefix_append _ _)
  · rw [raiseSeqNext_node]
    exact hnode
  · rw [raiseSeqNext_seqNext, ← hreach]
    rfl

/-- Flushing everything leaves nothing. -/
theorem Held.flushAndReinject_all (h : Held syn s l) (hpast : NotPast syn s l) (he : e.InWindow syn.isn) :
    ∃ t, ReorderAdvanced.flushAndReinject none s e = .ok t ∧ Outcome syn s t [] := by
  obtain ⟨t, ht, hout, -⟩ := @Held.flushAndReinject syn e s l [] (by simpa using h) (by simpa using hpast) he (by simp)
  exact ⟨t, ht, hout⟩

/-- Linking the segment in where it belongs. -/
theorem Held.linkIn {p : Option NodeId} (h : Held syn s (pre ++ post)) (hpast : NotPast syn s (pre ++ post))
    (he : e.InWindow syn.isn) (hlen : e.length ≠ 0) (hin : LinkedIn p s e new pre post t)
    (hnew : offset syn.isn s.seqNext < offset syn.isn e.seq)
    (hpre : ∀ i ∈ pre.getLast?, stop syn s i ≤ offset syn.isn e.seq)
    (hpost : ∀ i ∈ post.head?, offset syn.isn e.seqNextTmp ≤ start syn s i) :
    Outcome syn s t (pre ++ new :: post) ∧ (NoneDue s (pre ++ post) → NoneDue t (pre ++ new :: post)) := by
  obtain ⟨hentry, hseq, hend⟩ := data_eq hin.added
  have hsame : ∀ i ∈ pre ++ post, (t.node i).entry = (s.node i).entry ∧ (t.node i).seq = (s.node i).seq ∧
      (t.node i).seqNext = (s.node i).seqNext := fun i hi => data_eq (hin.others i hi)
  have hstart : start syn t new = offset syn.isn e.seq := by rw [start, hseq]
  have hstop : stop syn t new = offset syn.isn e.seqNextTmp := by rw [stop, hend]
  have hstarts : ∀ i ∈ pre ++ post, start syn t i = start syn s i := fun i hi => by
    rw [start, (hsame i hi).2.1, start]
  have hstops : ∀ i ∈ pre ++ post, stop syn t i = stop syn s i := fun i hi => by rw [stop, (hsame i hi).2.2, stop]
  have hahead : Ahead (start syn t) (stop syn t) 0 (pre ++ new :: post) := by
    refine (h.ahead.congr fun i hi => ⟨hstarts i hi, hstops i hi⟩).insert ?_ ?_ fun i hi => ?_
    · rw [hstart]
      rcases List.eq_nil_or_concat' pre with rfl | ⟨pre, q, rfl⟩
      · exact Nat.zero_le _
      · rw [reach_concat, hstops q (by simp)]
        exact hpre q (by simp)
    · rw [hstart, hstop]
      exact he.lt hlen
    · rw [hstop, hstarts i (List.mem_append_right _ (List.mem_of_head? hi))]
      exact hpost i hi
  have hends : ∀ i ∈ pre ++ new :: post, (t.node i).entry.seqNextTmp = (t.node i).seqNext ∧ stop syn t i ≤ 2 ^ 30 := by
    intro i hi
    by_cases hio : i ∈ pre ++ post
    · rw [hstops i hio, (hsame i hio).1, (hsame i hio).2.2]
      exact h.ends i hio
    · obtain rfl : i = new := by
        simp only [List.mem_append, List.mem_cons, not_or] at hi hio
        tauto
      rw [hstop, hentry, hend]
      exact ⟨rfl, he.end_le⟩
  -- the first node is the new one or the one that was first
  have hhead : ∀ {P : NodeId → Prop}, P new → (∀ i ∈ (pre ++ post).head?, P i) →
      ∀ i ∈ (pre ++ new :: post).head?, P i := by
    intro P hnew hall i hi
    cases pre with
    | nil =>
      obtain rfl : new = i := by simpa using hi
      exact hnew
    | cons j pre => exact hall i hi
  refine ⟨⟨⟨⟨p, hin.listed⟩, hahead, hends, ?_⟩, ?_, hin.reinjected ▸ List.prefix_rfl⟩, fun hnone => ?_⟩
  · rw [hin.reinjected, hin.seqNext]
    exact h.tops
  · refine hhead ?_ fun i hi => ?_
    · rw [hin.seqNext, hstart]
      exact Nat.le_of_lt hnew
    · rw [hin.seqNext, hstarts i (List.mem_of_head? hi)]
      exact hpast i hi
  · refine hhead ?_ fun i hi => ?_
    · rw [hin.seqNext, hseq]
      intro heq
      rw [heq] at hnew
      omega
    · rw [hin.seqNext, (hsame i (List.mem_of_head? hi)).2.1]
      exact hnone i hi

/-! ### The overlap branch -/

theorem leavesDue_split {n : NodeId} (hqueue : s.queue = (pre ++ n :: post).map s.node)
    (hpre : ∀ i ∈ pre, ¬ s32 (e.seqNextTmp - (s.node i).seq) ≤ 0) (hn : s32 (e.seqNextTmp - (s.node n).seq) ≤ 0) :
    leavesDue s e = (s.node n).prev.any fun p =>
      s32 (e.seq - (s.node p).seqNext) < 0 &&
        (e.seqNextTmp == (s.node n).seq || pre.getLast?.any fun m => (s.node m).seqNext == (s.node n).seq) := by
  have hbefore : ∀ nd ∈ pre.map s.node, (!decide (s32 (e.seqNextTmp - nd.seq) ≤ 0)) = true := by
    simpa using hpre
  have hqueue : s.queue = pre.map s.node ++ s.node n :: post.map s.node := by simpa using hqueue
  have hstop : (!decide (s32 (e.seqNextTmp - (s.node n).seq) ≤ 0)) = false := by simp [hn]
  simp only [leavesDue, hqueue, List.dropWhile_append_of_pos hbefore, List.takeWhile_append_of_pos hbefore]
  rw [List.dropWhile_cons_of_neg (by simp [hn]), List.takeWhile_cons_of_neg (by simp [hn])]
  simp [Option.any_map]

theorem leavesDue_none (hqueue : s.queue = l.map s.node)
    (hall : ∀ i ∈ l, ¬ s32 (e.seqNextTmp - (s.node i).seq) ≤ 0) : leavesDue s e = false := by
  have hbefore : ∀ nd ∈ l.map s.node, (!decide (s32 (e.seqNextTmp - nd.seq) ≤ 0)) = true := by
    simpa using hall
  have hdrop : (l.map s.node).dropWhile (fun nd => !decide (s32 (e.seqNextTmp - nd.seq) ≤ 0)) = [] := by
    simpa using @List.dropWhile_append_of_pos _ _ _ [] hbefore
  simp only [leavesDue, hqueue, hdrop]
  rfl

/-- After the nodes in front of `n` and a segment that ends at or before `n` have gone up, `n` is in sequence exactly if it
starts where the segment or these nodes end. -/
theorem Held.seqNext_eq_iff {n : NodeId} (h : Held syn s (pre ++ n :: post)) (hpast : NotPast syn s (pre ++ n :: post))
    (he : e.InWindow syn.isn) (hnew : offset syn.isn s.seqNext < offset syn.isn e.seqNextTmp)
    (hn : offset syn.isn e.seqNextTmp ≤ start syn s n) (hx : x = reach (fun i => (s.node i).seqNext) s.seqNext pre) :
    (s.node n).seq = (if s32 (x - e.seqNextTmp) < 0 then e.seqNextTmp else x) ↔
      e.seqNextTmp = (s.node n).seq ∨ pre.getLast?.any (fun m => (s.node m).seqNext == (s.node n).seq) = true := by
  have hmem : n ∈ pre ++ n :: post := by simp
  have hwin := he.end_le
  rcases List.eq_nil_or_concat' pre with rfl | ⟨pre, q, rfl⟩
  · obtain rfl : x = s.seqNext := hx
    have hlt : s32 (s.seqNext - e.seqNextTmp) < 0 := (s32_sub_neg h.seqNext_le hwin).2 hnew
    rw [if_pos hlt]
    simp [eq_comm]
  · obtain rfl : x = (s.node q).seqNext := by simpa using hx
    have hq : q ∈ pre ++ [q] ++ n :: post := by simp
    have hqn : stop syn s q ≤ start syn s n := by
      have hahead := h.ahead
      rw [ahead_append] at hahead
      simpa using hahead.2.1
    have hlt := s32_sub_neg (h.ends q hq).2 hwin
    have hinj : ∀ a b : U32, a = b ↔ offset syn.isn a = offset syn.isn b := fun a b => offset_inj.symm
    simp only [List.getLast?_append_of_ne_nil, List.getLast?_singleton, Option.any_some, beq_iff_eq, ne_eq,
      List.cons_ne_nil, not_false_eq_true]
    unfold start stop at *
    split
    · next hc =>
      rw [hlt] at hc
      rw [hinj, hinj e.seqNextTmp, hinj (s.node q).seqNext]
      omega
    · next hc =>
      rw [hlt] at hc
      rw [hinj, hinj e.seqNextTmp, hinj (s.node q).seqNext]
      omega

theorem Held.overlap {n : NodeId} (h : Held syn s (pre ++ n :: post)) (hpast : NotPast syn s (pre ++ n :: post))
    (he : e.InWindow syn.isn) (hnew : offset syn.isn s.seqNext < offset syn.isn e.seqNextTmp)
    (hn : offset syn.isn e.seqNextTmp ≤ start syn s n) :
    ∃ t, ReorderAdvanced.flushAndReinject (some n) s e = .ok t ∧ Outcome syn s t (n :: post) ∧
      (NoneDue t (n :: post) ↔
        ¬ (e.seqNextTmp = (s.node n).seq ∨ pre.getLast?.any (fun m => (s.node m).seqNext == (s.node n).seq) = true)) := by
  obtain ⟨t, ht, hout, hnode, hseq⟩ := h.flushAndReinject hpast he fun i hi => by
    obtain rfl : n = i := by simpa using hi
    exact hn
  refine ⟨t, ht, hout, ?_⟩
  rw [← h.seqNext_eq_iff hpast he hnew hn rfl, ← hseq]
  simp [NoneDue, hnode]

/-- `n` is the first node that starts at or after the end of the segment. -/
theorem Held.enqueueBefore {p : Option NodeId} {n head : NodeId} (h : Held syn s (pre ++ n :: post))
    (hl : Listed p s (pre ++ n :: post)) (hpast : NotPast syn s (pre ++ n :: post)) (he : e.InWindow syn.isn)
    (hlen : e.length ≠ 0) (hnew : new ∉ pre ++ n :: post) (hseq : offset syn.isn s.seqNext < offset syn.isn e.seq)
    (hpre : ∀ i ∈ pre, ¬ s32 (e.seqNextTmp - (s.node i).seq) ≤ 0) (hn : s32 (e.seqNextTmp - (s.node n).seq) ≤ 0)
    (hhead : s.reorderQueueHead = some head) :
    ∃ t l', (match (s.node n).prev with
      | none => Except.ok (linkHead new head s e)
      | some p =>
        let s := s.touch p
        if s32 (e.seq - (s.node p).seqNext) < 0 then ReorderAdvanced.flushAndReinject (some n) s e
        else .ok (linkBetween new p n s e)) = .ok t ∧ Outcome syn s t l' ∧
      (NoneDue s (pre ++ n :: post) → (NoneDue t l' ↔ leavesDue s e = false)) := by
  have hlt := he.lt hlen
  have hdue := leavesDue_split h.queue_eq hpre hn
  have hnstart := (h.ends_before he (by simp)).1 hn
  have hfirst : ∀ j ∈ (n :: post).head?, offset syn.isn e.seqNextTmp ≤ start syn s j := fun j hj => by
    obtain rfl : n = j := by simpa using hj
    exact hnstart
  have hprev : (s.node n).prev = pre.getLast?.or p := by
    have hdll := hl.dll
    rw [dll_append] at hdll
    exact hdll.2.1
  cases hq : (s.node n).prev with
  | none =>
    -- in front of the head
    rw [hq, Option.any_none] at hdue
    rw [hq, eq_comm, Option.or_eq_none_iff, List.getLast?_eq_none_iff] at hprev
    obtain ⟨rfl, rfl⟩ := hprev
    obtain rfl : n = head := by
      have hn := hl.head
      rw [hhead] at hn
      simpa using hn.symm
    obtain ⟨hout, hnone⟩ := Held.linkIn h hpast he hlen (linkHead_linkedIn hl hnew) hseq (by simp) hfirst
    exact ⟨_, _, rfl, hout, fun hn => iff_of_true (hnone hn) hdue⟩
  | some q =>
    rw [hq] at hdue hprev
    show ∃ t l', (if s32 (e.seq - (s.node q).seqNext) < 0 then _ else _) = Except.ok t ∧ _
    by_cases hover : s32 (e.seq - (s.node q).seqNext) < 0
    · -- overlap with what `prev` of the node points to, held or not
      obtain ⟨t, ht, hout, hnone⟩ := Held.overlap (h.touch q) hpast he (Nat.lt_trans hseq hlt) hnstart
      refine ⟨t, n :: post, by rw [if_pos hover]; exact ht, ⟨hout.held, hout.notPast, hout.grows⟩, fun _ => ?_⟩
      rw [hnone, hdue]
      simp [hover, State.touch]
    · have hnot : leavesDue s e = false := by rw [hdue]; simp [hover]
      rcases List.eq_nil_or_concat' pre with rfl | ⟨pre, r, rfl⟩
      · -- behind a node that is not in the queue any more
        have hqmem : q ∉ n :: post := fun hm => by
          have hle : start syn s n ≤ start syn s q := by
            rcases List.mem_cons.1 hm with rfl | hm
            · exact Nat.le_refl _
            · have hafter := h.ahead.2.2.le_lo q hm
              have := h.ahead.2.1
              omega
          have hstop := h.start_lt_stop hm
          rw [h.starts_before he hm] at hover
          omega
        have hl' : Listed p (s.touch q) (n :: post) := hl.congr rfl rfl rfl rfl rfl
        obtain ⟨hlist, hdata⟩ := @linkBetween_lost p (s.touch q) e new post q n hl' hnew hqmem
        have hheld : Held syn (linkBetween new q n (s.touch q) e) (n :: post) := h.congr ⟨_, hlist⟩ hdata rfl rfl
        have hseqn : ((linkBetween new q n (s.touch q) e).node n).seq = (s.node n).seq :=
          (data_eq (hdata n (List.mem_cons_self ..))).2.1
        refine ⟨_, n :: post, by rw [if_neg hover], ⟨hheld, fun j hj => ?_, List.prefix_rfl⟩, fun hn => ?_⟩
        · obtain rfl : n = j := by simpa using hj
          rw [start, hseqn]
          exact hpast n rfl
        · refine iff_of_true (fun j hj => ?_) hnot
          obtain rfl : n = j := by simpa using hj
          rw [hseqn]
          exact hn n rfl
      · obtain rfl : q = r := by simpa using hprev
        have hqmem : q ∈ pre ++ [q] ++ n :: post := by simp
        have hin : LinkedIn p s e new (pre ++ [q]) (n :: post) (linkBetween new q n (s.touch q) e) := by
          rw [hl.touch_eq hqmem]
          exact linkBetween_linkedIn hl hnew (by simp)
        rw [h.starts_before he hqmem] at hover
        obtain ⟨hout, hnone⟩ := h.linkIn hpast he hlen hin hseq
          (fun j hj => by
            obtain rfl : q = j := by simpa using hj
            exact Nat.le_of_not_lt hover) hfirst
        refine ⟨_, _, if_neg ?_, hout, fun hn => iff_of_true (hnone hn) hnot⟩
        rwa [h.starts_before he hqmem]

/-- The out-of-order branch. -/
theorem Held.enqueueOutOfOrder (h : Held syn s l) (hpast : NotPast syn s l) (he : e.InWindow syn.isn)
    (hlen : e.length ≠ 0) (hnew : new ∉ l) (hseq : offset syn.isn s.seqNext < offset syn.isn e.seq) :
    ∃ t l', enqueueOutOfOrder new s e = .ok t ∧ Outcome syn s t l' ∧
      (NoneDue s l → (NoneDue t l' ↔ leavesDue s e = false)) := by
  obtain ⟨p, hl⟩ := h.listed
  have hqueue := h.queue_eq
  have hhead := hl.head
  cases l with
  | nil =>
    obtain ⟨hout, hnone⟩ := Held.linkIn h hpast he hlen (@linkFirst_linkedIn p s e new hl) hseq (by simp) (by simp)
    refine ⟨_, _, ?_, hout, fun hn => iff_of_true (hnone hn) (leavesDue_none hqueue (by simp))⟩
    unfold ReorderAdvanced.enqueueOutOfOrder
    simp only [hhead, List.head?_nil]
  | cons i l =>
    have hfind := hl.findNode_eq e.seqNextTmp
    rw [List.head?_cons] at hhead hfind
    unfold ReorderAdvanced.enqueueOutOfOrder
    simp only [hhead, hfind]
    cases hf : (i :: l).find? fun j => s32 (e.seqNextTmp - (s.node j).seq) ≤ 0 with
    | none =>
      -- every held segment starts before the end of the packet
      have hdue : leavesDue s e = false := leavesDue_none hqueue fun j hj => by simpa using List.find?_eq_none.1 hf j hj
      obtain ⟨tail, htail⟩ := Option.ne_none_iff_exists'.1 (mt List.getLast?_eq_none_iff.1 (List.cons_ne_nil i l))
      have hmem : tail ∈ i :: l := List.mem_of_getLast? htail
      simp only [hl.tail tail htail, hl.touch_eq hmem]
      split
      · obtain ⟨t, ht, hout⟩ := h.flushAndReinject_all hpast he
        exact ⟨t, [], ht, hout, fun _ => iff_of_true (by simp [NoneDue]) hdue⟩
      · next hno =>
        rw [h.starts_before he hmem] at hno
        have h' : Held syn s ((i :: l) ++ []) := by simpa using h
        have hpast' : NotPast syn s ((i :: l) ++ []) := by simpa using hpast
        obtain ⟨hout, hnone⟩ := h'.linkIn hpast' he hlen (linkLast_linkedIn hl hnew htail) hseq
          (fun j hj => by
            obtain rfl : tail = j := by rw [htail] at hj; simpa using hj
            exact Nat.le_of_not_lt hno) (by simp)
        exact ⟨_, _, rfl, hout, fun hn => iff_of_true (hnone (by simpa using hn)) hdue⟩
    | some n =>
      obtain ⟨hn, pre, post, hsplit, hpre⟩ := List.find?_eq_some_iff_append.1 hf
      rw [hsplit] at h hl hpast hnew ⊢
      exact h.enqueueBefore hl hpast he hlen hnew hseq (fun j hj => by simpa using hpre j hj) (by simpa using hn) hhead

end PacketReordering.ReorderAdvanced
