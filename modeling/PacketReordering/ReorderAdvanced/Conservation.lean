import PacketReordering.ReorderAdvanced.Lists

/-!
# The reorder queue holds or re-injects every entry

* `Linked p s l` — the list from `reorder_queue_head` is `l`, `reorder_count` is its length and no freed node was touched;
* `Conserved` — what the module owes its callers: every entry passed in is re-injected or held, once, in a well linked
  list of `reorder_count` nodes, and no freed node is touched;
* `LeavesNoStalePrev` — the calls that do not leave a freed node behind in `head->prev`;
* `conserved_of_leavesNoStalePrev` — runs of such calls conserve.
-/

namespace PacketReordering.ReorderAdvanced

open Lib

/-! ### The list of the queue -/

/-- The list from `reorder_queue_head` is `l`, counted, with the first node pointing back to `p`. -/
structure Linked (p : Option NodeId) (s : State) (l : List NodeId) : Prop extends Listed p s l where
  count : s.reorderCount = BitVec.ofNat 32 l.length
  freedBound : ∀ i ∈ s.freed, i < s.allocated
  stray : s.stray = []

/-- **Conservation.**  Every entry of `passed` is re-injected or held by one node of the list from
`reorder_queue_head` to `reorder_queue_tail`. -/
def Conserved (s : State) (passed : List NfQueueEntry) : Prop :=
  ∃ l : List NodeId,
    s.reorderQueueHead = l.head? ∧ s.reorderQueueTail = l.getLast? ∧
    Dll (fun i => (s.node i).next) (fun i => (s.node i).prev) none l none ∧ l.Nodup ∧
    s.reorderCount.toNat = l.length ∧
    (s.reinjected ++ l.map fun i => (s.node i).entry).Perm passed ∧
    s.stray = []

namespace Linked

variable {p : Option NodeId} {s : State} {l : List NodeId}

/-- Only the list, the store and the bookkeeping of nodes matter. -/
theorem congr (h : Linked p s l) {t : State} (hnode : t.node = s.node) (hall : t.allocated = s.allocated)
    (hfreed : t.freed = s.freed) (hhead : t.reorderQueueHead = s.reorderQueueHead)
    (htail : t.reorderQueueTail = s.reorderQueueTail) (hcount : t.reorderCount = s.reorderCount)
    (hstray : t.stray = s.stray) : Linked p t l where
  toListed := h.toListed.congr hnode hall hfreed hhead htail
  count := hcount.trans h.count
  freedBound := by rw [hfreed, hall]; exact h.freedBound
  stray := hstray.trans h.stray

theorem setSeqNext (h : Linked p s l) (x : U32) : Linked p { s with seqNext := x } l :=
  h.congr rfl rfl rfl rfl rfl rfl rfl

theorem raiseSeqNext (h : Linked p s l) (x : U32) : Linked p (s.raiseSeqNext x) l := by
  unfold State.raiseSeqNext
  split
  · exact h.setSeqNext x
  · exact h

theorem nfReinject (h : Linked p s l) (e : NfQueueEntry) : Linked p (s.nfReinject e) l :=
  h.congr rfl rfl rfl rfl rfl rfl rfl

theorem clearTail (h : Linked p s []) : Linked p { s with reorderQueueTail := none } [] :=
  ⟨h.toListed.clearTail, h.count, h.freedBound, h.stray⟩

theorem forget (h : Linked p s []) : Linked none s [] := ⟨h.toListed.forget, h.count, h.freedBound, h.stray⟩

theorem popHead {i : NodeId} (h : Linked p s (i :: l)) : Linked (some i) (s.popHead i) l := by
  have hi : s.touch i = s := h.touch_eq (List.mem_cons_self ..)
  refine ⟨h.toListed.popHead, ?_, ?_, ?_⟩
  · have hc := h.count
    rw [List.length_cons, BitVec.ofNat_add] at hc
    calc (s.popHead i).reorderCount = s.reorderCount - 1 := by simp [State.popHead, hi]
      _ = _ := by rw [hc]; exact BitVec.add_sub_cancel _ _
  · unfold State.popHead
    rw [hi]
    exact List.forall_mem_cons.2 ⟨h.bound i (List.mem_cons_self ..), h.freedBound⟩
  · simpa [State.popHead, hi] using h.stray

end Linked

/-! ### Flushing and draining -/

/-- What a loop that took the nodes `l` off the queue leaves behind. -/
structure Emptied (s : State) (l : List NodeId) (t : State) : Prop where
  linked : Linked none t []
  tail : t.reorderQueueTail = none
  reinjected : t.reinjected = s.reinjected ++ l.map fun i => (s.node i).entry

theorem Linked.flushReorderQueue {p : Option NodeId} {s : State} {l : List NodeId} (h : Linked p s l) :
    ∃ t, flushReorderQueue none s.allocated s = .ok t ∧ Emptied s l t := by
  have hrule := @flushReorderQueue_rule
    (fun t m => (∃ p, Linked p t m) ∧ t.node = s.node ∧
      t.reinjected ++ m.map (fun i => (s.node i).entry) = s.reinjected ++ l.map fun i => (s.node i).entry)
    s s.allocated [] (fun ⟨⟨p, hp⟩, _⟩ => ⟨p, by simpa using hp.toListed⟩) ?_ ?_ l ⟨⟨p, h⟩, rfl, rfl⟩ h.length_le
  · obtain ⟨t, ht, ⟨⟨q, hq⟩, -, hre⟩, htail⟩ := hrule
    exact ⟨t, ht, hq.forget, htail rfl, by simpa using hre⟩
  · rintro t i m ⟨⟨q, hq⟩, hnode, hre⟩
    refine ⟨⟨_, hq.popHead.setSeqNext _⟩, hnode, ?_⟩
    simpa [hnode] using hre
  · rintro t ⟨⟨q, hq⟩, hnode, hre⟩ -
    exact ⟨⟨q, hq.clearTail⟩, hnode, hre⟩

/-- The nodes that the in-order loop leaves on the queue, when it starts with `seq_next = x`. -/
def drained (x : U32) : List NfQueueEntryNode → List NfQueueEntryNode
  | [] => []
  | nd :: l => if s32 (nd.seq - x) ≤ 0 then drained (if s32 (x - nd.seqNext) < 0 then nd.seqNext else x) l else nd :: l

/-- The loop leaves an end of the queue. -/
theorem Linked.drainInSequence {p : Option NodeId} {s : State} {l : List NodeId} (h : Linked p s l) :
    ∃ t m, drainInSequence s.allocated s = .ok t ∧ (∃ q, Linked q t m) ∧ (m = [] → t.reorderQueueTail = none) ∧
      m <:+ l ∧ m.map s.node = drained s.seqNext (l.map s.node) ∧ t.node = s.node ∧
      t.reinjected ++ m.map (fun i => (s.node i).entry) = s.reinjected ++ l.map fun i => (s.node i).entry := by
  have hrule := @drainInSequence_rule
    (fun t m => (∃ p, Linked p t m) ∧ m <:+ l ∧ t.node = s.node ∧
      drained t.seqNext (m.map s.node) = drained s.seqNext (l.map s.node) ∧
      t.reinjected ++ m.map (fun i => (s.node i).entry) = s.reinjected ++ l.map fun i => (s.node i).entry)
    s s.allocated (fun ⟨⟨p, hp⟩, _⟩ => ⟨p, hp.toListed⟩) ?_ ?_ l ⟨⟨p, h⟩, List.suffix_rfl, rfl, rfl, rfl⟩ h.length_le
  · obtain ⟨t, m, ht, ⟨hq, hsuf, hnode, hdrain, hre⟩, htail, hstop⟩ := hrule
    refine ⟨t, m, ht, hq, htail, hsuf, ?_, hnode, hre⟩
    rw [← hdrain]
    cases m with
    | nil => rfl
    | cons i m =>
      have hi := hstop i rfl
      rw [hnode] at hi
      rw [List.map_cons, drained, if_neg hi]
  · rintro t i m ⟨⟨q, hq⟩, hsuf, hnode, hdrain, hre⟩ hdue
    rw [hnode] at hdue ⊢
    refine ⟨⟨_, (hq.raiseSeqNext _).popHead⟩, (List.suffix_cons i m).trans hsuf, by simpa using hnode, ?_,
      by simpa [hnode] using hre⟩
    rw [← hdrain, List.map_cons, drained, if_pos hdue]
    simp
  · rintro t ⟨⟨q, hq⟩, hsuf, hnode, hdrain, hre⟩
    exact ⟨⟨q, hq.clearTail⟩, hsuf, hnode, hdrain, hre⟩

/-! ### Linking a node in -/

theorem LinkedIn.linked {p q : Option NodeId} {s t : State} {e : NfQueueEntry} {new : NodeId} {pre post : List NodeId}
    (hin : LinkedIn p s e new pre post t) (h : Linked q s (pre ++ post)) : Linked p t (pre ++ new :: post) := by
  refine ⟨hin.listed, ?_, ?_, hin.stray.trans h.stray⟩
  · rw [hin.count, h.count]
    split
    · next hnil => rw [(List.append_eq_nil_iff.1 hnil).1, (List.append_eq_nil_iff.1 hnil).2]; rfl
    · rw [show (pre ++ new :: post).length = (pre ++ post).length + 1 by simp; omega, BitVec.ofNat_add]
      rfl
  · intro i hi
    rw [hin.freed] at hi
    rw [hin.allocated]
    exact Nat.lt_of_lt_of_le (h.freedBound i (List.mem_of_mem_filter hi)) (Nat.le_max_left ..)

/-! ### The invariant of a run -/

/-- What holds between the calls: the queue is well linked and, with what has been re-injected, accounts for every
entry passed in. -/
structure Inv (s : State) (passed : List NfQueueEntry) (l : List NodeId) : Prop where
  linked : Linked none s l
  tail_nil : l = [] → s.reorderQueueTail = none
  length_le : l.length ≤ 11
  perm : (s.reinjected ++ l.map fun i => (s.node i).entry).Perm passed

theorem Inv.conserved {s : State} {passed : List NfQueueEntry} {l : List NodeId} (h : Inv s passed l) :
    Conserved s passed := by
  refine ⟨l, h.linked.head, ?_, h.linked.dll, h.linked.nodup, ?_, h.perm, h.linked.stray⟩
  · cases l with
    | nil => exact h.tail_nil rfl
    | cons i l => exact h.linked.tail_eq (by simp)
  · have hle := h.length_le
    rw [h.linked.count, BitVec.toNat_ofNat, Nat.mod_eq_of_lt (by omega)]

/-- A loop that emptied the queue, and then the entry itself. -/
theorem Inv.reinject_of_emptied {s t : State} {passed : List NfQueueEntry} {l : List NodeId} {e : NfQueueEntry}
    (h : Inv s passed l) {u : State} (hempty : Emptied s l t) (hu : Linked none u []) (htail : u.reorderQueueTail = none)
    (hre : u.reinjected = t.reinjected ++ [e]) : Inv u (passed ++ [e]) [] := by
  refine ⟨hu, fun _ => htail, by simp, ?_⟩
  rw [hre, hempty.reinjected]
  simpa using h.perm.append_right [e]

theorem Inv.flushAndReinject {s : State} {passed : List NfQueueEntry} {l : List NodeId} (e : NfQueueEntry)
    (h : Inv s passed l) : ∃ t, flushAndReinject none s e = .ok t ∧ Inv t (passed ++ [e]) [] := by
  obtain ⟨t, ht, hempty⟩ := h.linked.flushReorderQueue
  refine ⟨(t.nfReinject e).raiseSeqNext e.seqNextTmp, by simp [ReorderAdvanced.flushAndReinject, ht], ?_⟩
  refine h.reinject_of_emptied hempty ((hempty.linked.nfReinject e).raiseSeqNext _) ?_ ?_
  · rw [raiseSeqNext_tail]; exact hempty.tail
  · rw [raiseSeqNext_reinjected]; rfl

/-- Linking the entry in keeps the account. -/
theorem Inv.linkIn {s t : State} {passed : List NfQueueEntry} {e : NfQueueEntry} {new : NodeId} {pre post : List NodeId}
    (h : Inv s passed (pre ++ post)) (hlen : (pre ++ post).length ≤ 10) (hin : LinkedIn none s e new pre post t) :
    Inv t (passed ++ [e]) (pre ++ new :: post) := by
  have hentry : ∀ {nd : NfQueueEntryNode}, nd.entry = nd.data.1 := rfl
  refine ⟨hin.linked h.linked, by simp, by simp only [List.length_append, List.length_cons] at *; omega, ?_⟩
  have hpre : (pre.map fun i => (t.node i).entry) = pre.map fun i => (s.node i).entry :=
    List.map_congr_left fun i hi => by rw [hentry, hin.others i (List.mem_append_left _ hi), hentry]
  have hpost : (post.map fun i => (t.node i).entry) = post.map fun i => (s.node i).entry :=
    List.map_congr_left fun i hi => by rw [hentry, hin.others i (List.mem_append_right _ hi), hentry]
  have hnew : (t.node new).entry = e := by rw [hentry, hin.added]
  rw [hin.reinjected, List.map_append, List.map_cons, hpre, hpost, hnew]
  refine List.Perm.trans ?_ (h.perm.append_right [e])
  rw [List.map_append, List.append_assoc]
  exact List.Perm.append_left _ (List.perm_middle.trans (List.perm_append_singleton _ _).symm)

/-! ### The condition -/

/-- The segment overlaps the node in front of the first node that starts at or after its end. -/
def overlapsMiddle (e : NfQueueEntry) : List NfQueueEntryNode → Bool
  | m :: n :: q =>
    if s32 (e.seqNextTmp - m.seq) ≤ 0 then false
    else if s32 (e.seqNextTmp - n.seq) ≤ 0 then s32 (e.seq - m.seqNext) < 0
    else overlapsMiddle e (n :: q)
  | _ => false

/-- The call leaves no freed node behind in `head->prev`: a segment that advances `seq_next` brings every held
segment in sequence or none, and a segment put between two held ones does not overlap the first of them. -/
def LeavesNoStalePrev (s : State) : Call → Prop
  | .timer => True
  | .packet e =>
    e.IsNew s →
      if s32 (e.seq - s.seqNext) ≤ 0 then drained e.seqNextTmp s.queue = [] ∨ drained e.seqNextTmp s.queue = s.queue
      else s.reorderCount ≤ maxReorderCount → overlapsMiddle e s.queue = false

instance (s : State) : (c : Call) → Decidable (LeavesNoStalePrev s c)
  | .timer => isTrue trivial
  | .packet e => by unfold LeavesNoStalePrev; infer_instance

theorem overlapsMiddle_append {e : NfQueueEntry} {pre post : List NfQueueEntryNode} {m n : NfQueueEntryNode}
    (hpre : ∀ x ∈ pre, ¬ s32 (e.seqNextTmp - x.seq) ≤ 0) (hm : ¬ s32 (e.seqNextTmp - m.seq) ≤ 0)
    (hn : s32 (e.seqNextTmp - n.seq) ≤ 0) :
    overlapsMiddle e (pre ++ m :: n :: post) = decide (s32 (e.seq - m.seqNext) < 0) := by
  induction pre with
  | nil => simp [overlapsMiddle, hm, hn]
  | cons x pre ih =>
    have hx := hpre x (List.mem_cons_self ..)
    have ih := ih fun y hy => hpre y (List.mem_cons_of_mem _ hy)
    cases pre with
    | nil => simpa [overlapsMiddle, hx, hm] using ih
    | cons y pre =>
      have hy := hpre y (by simp)
      simpa [overlapsMiddle, hx, hy] using ih

/-! ### One call -/

/-- The out-of-order branch. -/
theorem Inv.enqueueOutOfOrder {s : State} {passed : List NfQueueEntry} {e : NfQueueEntry} {l : List NodeId} {new : NodeId}
    (h : Inv s passed l) (hnew : new ∉ l) (hlen : l.length ≤ 10) (hmiddle : overlapsMiddle e (l.map s.node) = false) :
    ∃ t l', enqueueOutOfOrder new s e = .ok t ∧ Inv t (passed ++ [e]) l' := by
  have hhead := h.linked.head
  cases l with
  | nil =>
    refine ⟨_, [new], ?_, Inv.linkIn h hlen (linkFirst_linkedIn h.linked.toListed)⟩
    unfold ReorderAdvanced.enqueueOutOfOrder
    simp only [hhead, List.head?_nil]
  | cons i l =>
    have hfind := h.linked.findNode_eq e.seqNextTmp
    rw [List.head?_cons] at hhead hfind
    unfold ReorderAdvanced.enqueueOutOfOrder
    simp only [hhead, hfind]
    cases hf : (i :: l).find? fun j => s32 (e.seqNextTmp - (s.node j).seq) ≤ 0 with
    | none =>
      -- every held segment starts before the end of the packet
      obtain ⟨tail, htail⟩ := Option.ne_none_iff_exists'.1 (mt List.getLast?_eq_none_iff.1 (List.cons_ne_nil i l))
      have htouch : s.touch tail = s := h.linked.touch_eq (List.mem_of_getLast? htail)
      simp only [h.linked.tail tail htail, htouch]
      split
      · obtain ⟨t, ht, hinv⟩ := h.flushAndReinject e
        exact ⟨t, [], ht, hinv⟩
      · have h' : Inv s passed ((i :: l) ++ []) := by simpa using h
        exact ⟨_, _, rfl, h'.linkIn (by simpa using hlen) (linkLast_linkedIn h.linked.toListed hnew htail)⟩
    | some n =>
      obtain ⟨hn, pre, post, hsplit, hpre⟩ := List.find?_eq_some_iff_append.1 hf
      have hn : s32 (e.seqNextTmp - (s.node n).seq) ≤ 0 := by simpa using hn
      have hdll := h.linked.dll
      rw [hsplit, dll_append] at hdll
      have hprev : (s.node n).prev = pre.getLast? := by simpa using hdll.2.1
      rcases List.eq_nil_or_concat' pre with rfl | ⟨pre, p, rfl⟩
      · -- in front of the head
        obtain ⟨rfl, rfl⟩ : i = n ∧ l = post := by simpa using hsplit
        simp only [hprev, List.getLast?_nil]
        exact ⟨_, _, rfl, Inv.linkIn h hlen (linkHead_linkedIn h.linked.toListed hnew)⟩
      · have hp : (pre ++ [p]).getLast? = some p := by simp
        have hmem : p ∈ i :: l := by rw [hsplit]; simp
        have htouch : s.touch p = s := h.linked.touch_eq hmem
        have hno : ¬ s32 (e.seq - (s.node p).seqNext) < 0 := by
          have hmap : (i :: l).map s.node = pre.map s.node ++ s.node p :: s.node n :: post.map s.node := by
            rw [hsplit]; simp
          have hpre' : ∀ x ∈ pre, ¬ s32 (e.seqNextTmp - (s.node x).seq) ≤ 0 := fun x hx => by
            simpa using hpre x (by simp [hx])
          rw [hmap, overlapsMiddle_append (by simpa using hpre') (by simpa using hpre p (by simp)) hn] at hmiddle
          simpa using hmiddle
        simp only [hprev, hp, htouch, if_neg hno]
        rw [hsplit] at h hlen hnew
        exact ⟨_, _, rfl, h.linkIn hlen (linkBetween_linkedIn h.linked.toListed hnew hp)⟩

theorem Inv.step {s : State} {passed : List NfQueueEntry} {l : List NodeId} (h : Inv s passed l) {c : Call}
    (r : Option NodeId) (hc : LeavesNoStalePrev s c) :
    ∃ t l', stepReusing s (c, r) = .ok t ∧ Inv t (passed ++ entries [c]) l' := by
  cases c with
  | timer =>
    obtain ⟨t, ht, hempty⟩ := h.linked.flushReorderQueue
    refine ⟨t, [], ht, hempty.linked, fun _ => hempty.tail, by simp, ?_⟩
    simpa [entries, hempty.reinjected] using h.perm
  | packet e =>
    show ∃ t l', reorderQueueEnqueuePacket (s.block r) s e = .ok t ∧ Inv t (passed ++ [e]) l'
    unfold reorderQueueEnqueuePacket
    by_cases hsyn : e.syn = true
    · obtain ⟨t, ht, hempty⟩ := h.linked.flushReorderQueue
      simp only [hsyn, if_true, ht]
      exact ⟨_, [], rfl, h.reinject_of_emptied hempty ((hempty.linked.setSeqNext _).nfReinject e) hempty.tail rfl⟩
    rw [if_neg hsyn]
    by_cases hlen : e.length = 0
    · obtain ⟨t, ht, hempty⟩ := h.linked.flushReorderQueue
      simp only [hlen, if_true, ht]
      refine ⟨_, [], rfl, h.reinject_of_emptied hempty ((hempty.linked.raiseSeqNext _).nfReinject e) ?_ ?_⟩
      · exact (raiseSeqNext_tail t _).trans hempty.tail
      · show (t.raiseSeqNext _).reinjected ++ [e] = _
        rw [raiseSeqNext_reinjected]
    rw [if_neg hlen]
    -- the entry goes up at once and the queue stays as it is
    have hdirect : ∀ x, Inv { s.nfReinject e with seqNext := x } (passed ++ [e]) l := fun x => by
      refine ⟨(h.linked.nfReinject e).setSeqNext x, h.tail_nil, h.length_le, ?_⟩
      show ((s.reinjected ++ [e]) ++ l.map fun i => (s.node i).entry).Perm _
      refine List.Perm.trans ?_ (h.perm.append_right [e])
      simp only [List.append_assoc]
      exact List.Perm.append_left _ List.perm_append_comm
    by_cases hold : s32 (e.seqNextTmp - s.seqNext) ≤ 0
    · rw [if_pos hold]
      exact ⟨_, l, rfl, hdirect s.seqNext⟩
    have hcond := hc ⟨by simpa using hsyn, hlen, hold⟩
    rw [if_neg hold, h.linked.queue_eq] at *
    by_cases hin : s32 (e.seq - s.seqNext) ≤ 0
    · -- in sequence: the loop takes every held segment or none
      rw [if_pos hin] at hcond ⊢
      have hd := hdirect e.seqNextTmp
      obtain ⟨t, m, ht, ⟨q, hq⟩, htail, hsuf, hmap, hnode, hre⟩ := hd.linked.drainInSequence
      have hmap : m.map s.node = drained e.seqNextTmp (l.map s.node) := hmap
      have hlink : Linked none t m := by
        rcases hcond with hall | hnone
        · rw [show m = [] by simpa [hall] using hmap] at hq ⊢
          exact hq.forget
        · -- nothing was taken off, so the first node still points back to nothing
          have hlen : m.length = l.length := by simpa [hnone] using congrArg List.length hmap
          obtain rfl : m = l := hsuf.eq_of_length hlen
          cases m with
          | nil => exact hq.forget
          | cons i m =>
            have hprev : (t.node i).prev = none := by rw [hnode]; exact hd.linked.dll.1
            have hback : (t.node i).prev = q := hq.dll.1
            rwa [← hback, hprev] at hq
      refine ⟨t, m, ht, hlink, htail, Nat.le_trans hsuf.length_le h.length_le, ?_⟩
      rw [hnode]
      exact hre ▸ hd.perm
    rw [if_neg hin] at hcond ⊢
    by_cases hfull : s.reorderCount > maxReorderCount
    · rw [if_pos hfull]
      obtain ⟨t, ht, hinv⟩ := h.flushAndReinject e
      exact ⟨t, [], ht, hinv⟩
    · rw [if_neg hfull]
      have hcount : s.reorderCount ≤ maxReorderCount := by simpa using hfull
      refine h.enqueueOutOfOrder (h.linked.block_notMem r) ?_ (hcond hcount)
      have hle := h.length_le
      rw [h.linked.count, BitVec.le_def, BitVec.toNat_ofNat, Nat.mod_eq_of_lt (by omega)] at hcount
      simpa [maxReorderCount] using hcount

theorem inv_init : Inv State.init [] [] :=
  ⟨⟨⟨rfl, by simp, trivial, List.nodup_nil, by simp, by simp⟩, rfl, by simp [State.init], rfl⟩, fun _ => rfl, by simp,
    by simp [State.init]⟩

theorem entries_append (cs ds : List Call) : entries (cs ++ ds) = entries cs ++ entries ds := List.filterMap_append

/-- The run in which `kmalloc` uses no block again. -/
theorem runReusing_fresh (cs : List Call) : runReusing (cs.map fun c => (c, none)) = run cs := by
  unfold runReusing run
  generalize State.init = s
  induction cs generalizing s with
  | nil => rfl
  | cons c cs ih =>
    have hstep : stepReusing s (c, none) = step s c := by cases c <;> rfl
    rw [List.map_cons]
    cases hs : step s c with
    | error f => rw [runFrom_cons_error (hstep.trans hs), runFrom_cons_error hs]
    | ok t => rw [runFrom_cons_ok (hstep.trans hs), runFrom_cons_ok hs, ih]

/-- **Conservation.**  A run whose calls leave no stale `head->prev` comes to its end, and then every entry passed in
has been re-injected once or is held by one node of a well linked queue, and no freed node was touched. -/
theorem conserved_of_leavesNoStalePrev (cs : List (Call × Option NodeId))
    (h : Steps stepReusing (fun s c => LeavesNoStalePrev s c.1) State.init cs) :
    ∃ s, runReusing cs = .ok s ∧ Conserved s (entries (cs.map Prod.fst)) := by
  have key : ∀ (cs past : List (Call × Option NodeId)) (s : State) (l : List NodeId),
      Inv s (entries (past.map Prod.fst)) l → Steps stepReusing (fun s c => LeavesNoStalePrev s c.1) s cs →
      ∃ t l', runFrom stepReusing s cs = .ok t ∧ Inv t (entries ((past ++ cs).map Prod.fst)) l' := by
    intro cs
    induction cs with
    | nil =>
      intro past s l hinv _
      exact ⟨s, l, rfl, by simpa using hinv⟩
    | cons c cs ih =>
      intro past s l hinv ⟨hc, hcs⟩
      obtain ⟨t, l', ht, hinv'⟩ := hinv.step c.2 hc
      rw [← entries_append] at hinv'
      have hpast : Inv t (entries ((past ++ [c]).map Prod.fst)) l' := by simpa using hinv'
      obtain ⟨u, m, hu, hinv''⟩ := ih (past ++ [c]) t l' hpast (hcs t ht)
      exact ⟨u, m, by rw [runFrom_cons_ok ht, hu], by simpa using hinv''⟩
  obtain ⟨s, l, hs, hinv⟩ := key cs [] State.init [] inv_init h
  exact ⟨s, hs, hinv.conserved⟩

/-- Packets of 20 byte headers: `[11, 21)` and `[31, 41)` are held out of order, then `[1, 11)` brings the first of
them in sequence. -/
def partialDrain : List Call :=
  [.packet ⟨0, true, 0, 40, 5, 5⟩, .packet ⟨1, false, 11, 50, 5, 5⟩, .packet ⟨2, false, 31, 50, 5, 5⟩,
    .packet ⟨3, false, 1, 50, 5, 5⟩]

/-- The segment that arrives in sequence brings the only held one with it, whose block is used again. -/
def wholeDrain : List (Call × Option NodeId) :=
  [(.packet ⟨0, true, 0, 40, 5, 5⟩, none), (.packet ⟨1, false, 11, 50, 5, 5⟩, none),
    (.packet ⟨2, false, 1, 50, 5, 5⟩, none), (.packet ⟨3, false, 31, 50, 5, 5⟩, some 0)]

theorem conserved_of_leavesNoStalePrev_drain :
    ∃ s, runReusing wholeDrain = .ok s ∧ Conserved s (entries (wholeDrain.map Prod.fst)) :=
  conserved_of_leavesNoStalePrev _ (by decide)

/-- After `partialDrain` the head of the queue still points back to the node that was freed. -/
theorem not_conserved_partialDrain :
    ¬ ∀ (cs : List Call) (s : State), run cs = .ok s → Conserved s (entries cs) := by
  intro h
  have hprev : ((run partialDrain).toOption.bind fun s => s.reorderQueueHead.map fun i => (s.node i).prev) =
      some (some 0) := by decide
  cases hrun : run partialDrain with
  | error f => rw [hrun] at hprev; cases hprev
  | ok s =>
    obtain ⟨l, hhead, -, hdll, -⟩ := h partialDrain s hrun
    rw [hrun] at hprev
    cases l with
    | nil => simp [Except.toOption, hhead] at hprev
    | cons i l => simp [Except.toOption, hhead, hdll.1] at hprev

end PacketReordering.ReorderAdvanced
