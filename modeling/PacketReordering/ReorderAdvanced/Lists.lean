import PacketReordering.Lib.Dll
import Mathlib.Data.List.Perm.Subperm
import PacketReordering.ReorderAdvanced.Defs

/-!
# The list of the reorder queue

* `Listed p s l` — the list from `reorder_queue_head` is `l`, linked both ways, with `head->prev` equal to `p`;
* `State.queue` — the nodes held, from `reorder_queue_head` on;
* `flushReorderQueue_rule`, `drainInSequence_rule` — what each step of a removal loop keeps, the loop keeps;
* `NfQueueEntry.IsNew` — the segments that the queue is for;
* `LinkedIn` — what linking a node in does to the list.
-/

namespace PacketReordering.ReorderAdvanced

open Lib

/-- The list from `reorder_queue_head` is `l`; the first node points back to `p`. -/
structure Listed (p : Option NodeId) (s : State) (l : List NodeId) : Prop where
  head : s.reorderQueueHead = l.head?
  tail : ∀ t, l.getLast? = some t → s.reorderQueueTail = some t
  dll : Dll (fun i => (s.node i).next) (fun i => (s.node i).prev) p l none
  nodup : l.Nodup
  bound : ∀ i ∈ l, i < s.allocated
  live : ∀ i ∈ l, i ∉ s.freed

/-- The nodes that `next` visits from `i`. -/
def State.walk (s : State) : ℕ → Option NodeId → List NodeId
  | 0, _ => []
  | _ + 1, none => []
  | fuel + 1, some i => i :: s.walk fuel (s.node i).next

/-- The nodes held, from `reorder_queue_head` on. -/
def State.queue (s : State) : List NfQueueEntryNode := (s.walk s.allocated s.reorderQueueHead).map s.node

/-- What a node holds besides its links. -/
def NfQueueEntryNode.data (nd : NfQueueEntryNode) : NfQueueEntry × U32 × U32 := (nd.entry, nd.seq, nd.seqNext)

/-- The segment carries data that ends after `seq_next`. -/
def NfQueueEntry.IsNew (e : NfQueueEntry) (s : State) : Prop :=
  e.syn = false ∧ e.length ≠ 0 ∧ ¬ s32 (e.seqNextTmp - s.seqNext) ≤ 0

instance (e : NfQueueEntry) (s : State) : Decidable (e.IsNew s) := by unfold NfQueueEntry.IsNew; infer_instance

theorem data_eq {nd : NfQueueEntryNode} {e : NfQueueEntry} {x y : U32} (h : nd.data = (e, x, y)) :
    nd.entry = e ∧ nd.seq = x ∧ nd.seqNext = y := by
  simpa [NfQueueEntryNode.data] using h

theorem walk_eq {s : State} {p : Option NodeId} {l : List NodeId} {fuel : ℕ} (hl : l.length ≤ fuel)
    (h : Dll (fun i => (s.node i).next) (fun i => (s.node i).prev) p l none) : s.walk fuel l.head? = l := by
  induction l generalizing p fuel with
  | nil => cases fuel <;> rfl
  | cons i l ih =>
    obtain ⟨-, hn, hl'⟩ := h
    cases fuel with
    | zero => simp at hl
    | succ fuel =>
      have hn' : (s.node i).next = l.head? := by simpa using hn
      simp only [List.head?_cons, State.walk, hn', ih (by simpa using hl) hl']

/-! ### What the operations leave alone -/

@[simp] theorem popHead_node (s : State) (i : NodeId) : (s.popHead i).node = s.node := rfl

@[simp] theorem popHead_allocated (s : State) (i : NodeId) : (s.popHead i).allocated = s.allocated := rfl

@[simp] theorem popHead_reinjected (s : State) (i : NodeId) :
    (s.popHead i).reinjected = s.reinjected ++ [(s.node i).entry] := rfl

@[simp] theorem popHead_seqNext (s : State) (i : NodeId) : (s.popHead i).seqNext = s.seqNext := rfl

@[simp] theorem raiseSeqNext_node (s : State) (x : U32) : (s.raiseSeqNext x).node = s.node := by
  unfold State.raiseSeqNext; split <;> rfl

@[simp] theorem raiseSeqNext_reinjected (s : State) (x : U32) : (s.raiseSeqNext x).reinjected = s.reinjected := by
  unfold State.raiseSeqNext; split <;> rfl

@[simp] theorem raiseSeqNext_tail (s : State) (x : U32) :
    (s.raiseSeqNext x).reorderQueueTail = s.reorderQueueTail := by
  unfold State.raiseSeqNext; split <;> rfl

@[simp] theorem raiseSeqNext_seqNext (s : State) (x : U32) :
    (s.raiseSeqNext x).seqNext = if s32 (s.seqNext - x) < 0 then x else s.seqNext := by
  unfold State.raiseSeqNext; split <;> rfl

namespace Listed

variable {p : Option NodeId} {s : State} {l : List NodeId}

theorem length_le (h : Listed p s l) : l.length ≤ s.allocated := by
  have hsub : l ⊆ List.range s.allocated := fun i hi => List.mem_range.2 (h.bound i hi)
  simpa using (List.subperm_of_subset h.nodup hsub).length_le

theorem queue_eq (h : Listed p s l) : s.queue = l.map s.node := by
  rw [State.queue, h.head, walk_eq h.length_le h.dll]

theorem touch_eq (h : Listed p s l) {i : NodeId} (hi : i ∈ l) : s.touch i = s := by
  simp [State.touch, h.live i hi]

theorem tail_eq (h : Listed p s l) (hl : l ≠ []) : s.reorderQueueTail = l.getLast? := by
  obtain ⟨t, ht⟩ := Option.ne_none_iff_exists'.1 (mt List.getLast?_eq_none_iff.1 hl)
  rw [h.tail t ht, ht]

/-- A block that `kmalloc` returns is not one of the queue. -/
theorem block_notMem (h : Listed p s l) (r : Option NodeId) : s.block r ∉ l := by
  have hfresh : s.allocated ∉ l := fun hm => Nat.lt_irrefl _ (h.bound _ hm)
  cases r with
  | none => exact hfresh
  | some i =>
    by_cases hi : i ∈ s.freed
    · rw [show s.block (some i) = i from if_pos hi]
      exact fun hm => h.live i hm hi
    · rw [show s.block (some i) = s.allocated from if_neg hi]
      exact hfresh

/-- Only the list, the store and the bookkeeping of nodes matter. -/
theorem congr (h : Listed p s l) {t : State} (hnode : t.node = s.node) (hall : t.allocated = s.allocated)
    (hfreed : t.freed = s.freed) (hhead : t.reorderQueueHead = s.reorderQueueHead)
    (htail : t.reorderQueueTail = s.reorderQueueTail) : Listed p t l where
  head := hhead.trans h.head
  tail x hx := htail.trans (h.tail x hx)
  dll := by rw [hnode]; exact h.dll
  nodup := h.nodup
  bound := by rw [hall]; exact h.bound
  live := by rw [hfreed]; exact h.live

theorem setSeqNext (h : Listed p s l) (x : U32) : Listed p { s with seqNext := x } l := h.congr rfl rfl rfl rfl rfl

theorem raiseSeqNext (h : Listed p s l) (x : U32) : Listed p (s.raiseSeqNext x) l := by
  unfold State.raiseSeqNext
  split
  · exact h.setSeqNext x
  · exact h

theorem nfReinject (h : Listed p s l) (e : NfQueueEntry) : Listed p (s.nfReinject e) l := h.congr rfl rfl rfl rfl rfl

/-- Without nodes the tail does not matter. -/
theorem clearTail (h : Listed p s []) : Listed p { s with reorderQueueTail := none } [] where
  head := h.head
  tail := by simp
  dll := trivial
  nodup := List.nodup_nil
  bound := by simp
  live := by simp

/-- An empty list has no first node to point back. -/
theorem forget (h : Listed p s []) : Listed none s [] := ⟨h.head, h.tail, trivial, h.nodup, h.bound, h.live⟩

/-- Taking the first node off leaves the rest, whose first node still points back to the freed one. -/
theorem popHead {i : NodeId} (h : Listed p s (i :: l)) : Listed (some i) (s.popHead i) l := by
  have hi : s.touch i = s := h.touch_eq (List.mem_cons_self ..)
  obtain ⟨-, hnext, hrest⟩ := h.dll
  obtain ⟨hil, hnd⟩ := List.nodup_cons.1 h.nodup
  unfold State.popHead
  rw [hi]
  refine ⟨by simpa using hnext, fun t ht => ?_, hrest, hnd, fun j hj => ?_, fun j hj => ?_⟩
  · refine h.tail t ?_
    cases l with
    | nil => simp at ht
    | cons j l => simpa [List.getLast?_cons_cons] using ht
  · exact h.bound j (List.mem_cons_of_mem _ hj)
  · have hne : j ≠ i := fun he => hil (he ▸ hj)
    simpa [hne] using h.live j (List.mem_cons_of_mem _ hj)

end Listed

/-! ### The removal loops -/

section

variable {P : State → List NodeId → Prop} {s : State} {fuel : ℕ}

/-- **Flushing.**  A property of the state and of the nodes in front of `post` that taking the first node off keeps holds
when the loop has come to `post`. -/
theorem flushReorderQueue_rule {post : List NodeId} (hlist : ∀ {s l}, P s l → ∃ p, Listed p s (l ++ post))
    (hpop : ∀ {s i l}, P s (i :: l) → P { s.popHead i with seqNext := (s.node i).seqNext } l)
    (htail : ∀ {s}, P s [] → post = [] → P { s with reorderQueueTail := none } []) {pre : List NodeId}
    (h : P s pre) (hfuel : pre.length ≤ fuel) :
    ∃ t, flushReorderQueue post.head? fuel s = .ok t ∧ P t [] ∧ (post = [] → t.reorderQueueTail = none) := by
  induction pre generalizing s fuel with
  | nil =>
    obtain ⟨p, hl⟩ := hlist h
    have hhead : s.reorderQueueHead = post.head? := hl.head
    unfold flushReorderQueue
    cases post with
    | nil =>
      refine ⟨{ s with reorderQueueTail := none }, ?_, htail h rfl, fun _ => rfl⟩
      rw [hhead]
      rfl
    | cons n post =>
      refine ⟨s, ?_, h, by simp⟩
      rw [hhead]
      simp
  | cons i pre ih =>
    obtain ⟨p, hl⟩ := hlist h
    have hhead : s.reorderQueueHead = some i := hl.head
    obtain ⟨fuel, rfl⟩ : ∃ n, fuel = n + 1 := ⟨fuel - 1, by simp at hfuel; omega⟩
    have hstop : ¬ some i = post.head? := fun he => by
      have hmem : i ∈ post := List.mem_of_head? he.symm
      have hnd := hl.nodup
      rw [List.cons_append, List.nodup_cons] at hnd
      exact hnd.1 (List.mem_append_right _ hmem)
    obtain ⟨t, ht, hP, htail⟩ := ih (hpop h) (by simpa using hfuel)
    refine ⟨t, ?_, hP, htail⟩
    unfold flushReorderQueue
    simp only [hhead, if_neg hstop]
    exact ht

/-- **Draining.**  A property that taking off a first node that is due keeps holds when the loop has stopped in front of
a node that is not. -/
theorem drainInSequence_rule (hlist : ∀ {s l}, P s l → ∃ p, Listed p s l)
    (hpop : ∀ {s i l}, P s (i :: l) → s32 ((s.node i).seq - s.seqNext) ≤ 0 →
      P ((s.raiseSeqNext (s.node i).seqNext).popHead i) l)
    (htail : ∀ {s}, P s [] → P { s with reorderQueueTail := none } []) {l : List NodeId}
    (h : P s l) (hfuel : l.length ≤ fuel) :
    ∃ t m, drainInSequence fuel s = .ok t ∧ P t m ∧ (m = [] → t.reorderQueueTail = none) ∧
      ∀ i ∈ m.head?, ¬ s32 ((t.node i).seq - t.seqNext) ≤ 0 := by
  induction l generalizing s fuel with
  | nil =>
    obtain ⟨p, hl⟩ := hlist h
    have hhead : s.reorderQueueHead = none := hl.head
    refine ⟨{ s with reorderQueueTail := none }, [], ?_, htail h, fun _ => rfl, by simp⟩
    unfold drainInSequence
    rw [hhead]
  | cons i l ih =>
    obtain ⟨p, hl⟩ := hlist h
    have hhead : s.reorderQueueHead = some i := hl.head
    obtain ⟨fuel, rfl⟩ : ∃ n, fuel = n + 1 := ⟨fuel - 1, by simp at hfuel; omega⟩
    unfold drainInSequence
    by_cases hdue : s32 ((s.node i).seq - s.seqNext) ≤ 0
    · obtain ⟨t, m, ht, hP⟩ := ih (hpop h hdue) (by simpa using hfuel)
      refine ⟨t, m, ?_, hP⟩
      simp only [hhead, if_pos hdue]
      exact ht
    · refine ⟨s, i :: l, ?_, h, by simp, fun j hj => ?_⟩
      · simp only [hhead, if_neg hdue, hl.touch_eq (List.mem_cons_self ..)]
      · obtain rfl : i = j := by simpa using hj
        exact hdue

end

/-! ### Finding the place -/

theorem Listed.findNode_eq {p : Option NodeId} {s : State} {l : List NodeId} (h : Listed p s l) (x : U32) :
    findNode x s.allocated l.head? s = .ok (l.find? fun i => s32 (x - (s.node i).seq) ≤ 0, s) := by
  have hall : ∀ (m : List NodeId) (fuel : ℕ) (p : Option NodeId),
      Dll (fun i => (s.node i).next) (fun i => (s.node i).prev) p m none → (∀ i ∈ m, i ∉ s.freed) → m.length ≤ fuel →
      findNode x fuel m.head? s = .ok (m.find? fun i => s32 (x - (s.node i).seq) ≤ 0, s) := by
    intro m
    induction m with
    | nil =>
      intro fuel p _ _ _
      unfold findNode
      rfl
    | cons i m ih =>
      intro fuel p hdll hlive hfuel
      obtain ⟨-, hn, hdll⟩ := hdll
      obtain ⟨fuel, rfl⟩ : ∃ n, fuel = n + 1 := ⟨fuel - 1, by simp at hfuel; omega⟩
      have htouch : s.touch i = s := by simp [State.touch, hlive i (List.mem_cons_self ..)]
      have hn' : (s.node i).next = m.head? := by simpa using hn
      have ih := ih fuel (some i) hdll (fun j hj => hlive j (List.mem_cons_of_mem _ hj)) (by simpa using hfuel)
      unfold findNode
      by_cases hc : s32 (x - (s.node i).seq) ≤ 0
      · simp [hc, htouch]
      · simp [hc, htouch, hn', ih]
  exact hall l s.allocated p h.dll h.live h.length_le

/-! ### Linking a node in -/

/-- The queue reads `pre ++ new :: post` after the node `new` has been linked in between. -/
theorem Listed.insert {p : Option NodeId} {s t : State} (pre post : List NodeId) {new : NodeId}
    (h : Listed p s (pre ++ post)) (hnew : new ∉ pre ++ post)
    (hall : t.allocated = max s.allocated (new + 1)) (hfreed : t.freed = s.freed.filter (· ≠ new))
    (hhead : t.reorderQueueHead = if pre = [] then some new else s.reorderQueueHead)
    (htail : t.reorderQueueTail = if post = [] then some new else s.reorderQueueTail)
    (hprev : (t.node new).prev = pre.getLast?.or p) (hnext : (t.node new).next = post.head?)
    (hpre : ∀ i ∈ pre, (t.node i).prev = (s.node i).prev ∧
      (t.node i).next = if pre.getLast? = some i then some new else (s.node i).next)
    (hpost : ∀ i ∈ post, (t.node i).next = (s.node i).next ∧
      (t.node i).prev = if post.head? = some i then some new else (s.node i).prev) :
    Listed p t (pre ++ new :: post) := by
  have hnd := h.nodup
  have hmem : ∀ i, i ∈ pre ++ new :: post ↔ i = new ∨ i ∈ pre ++ post := by
    intro i; simp only [List.mem_append, List.mem_cons]; tauto
  refine ⟨?_, ?_, ?_, ?_, ?_, ?_⟩
  · rw [hhead, h.head]
    cases pre <;> simp
  · intro x hx
    rw [htail]
    cases post with
    | nil => simpa using hx
    | cons j post =>
      rw [if_neg (by simp)]
      refine h.tail x ?_
      simpa [List.getLast?_append, List.getLast?_cons_cons] using hx
  · have hdll : Dll (fun i => (s.node i).next) (fun i => (s.node i).prev) p (pre ++ ([] ++ post)) none := h.dll
    have : Dll (fun i => (t.node i).next) (fun i => (t.node i).prev) p (pre ++ ([new] ++ post)) none :=
      hdll.replace (List.nodup_append.1 hnd).1 (List.nodup_append.1 hnd).2.1 (by simp [hprev, hnext])
        (fun i hi => by simpa using hpre i hi) (fun i hi => by simpa using hpost i hi)
    simpa using this
  · have hperm : (pre ++ new :: post).Perm (new :: (pre ++ post)) := List.perm_middle
    exact hperm.nodup_iff.2 (List.nodup_cons.2 ⟨hnew, hnd⟩)
  · intro i hi
    rw [hall]
    rcases (hmem i).1 hi with rfl | hi
    · exact Nat.lt_of_lt_of_le (Nat.lt_succ_self _) (Nat.le_max_right ..)
    · exact Nat.lt_of_lt_of_le (h.bound i hi) (Nat.le_max_left ..)
  · intro i hi
    rw [hfreed]
    rcases (hmem i).1 hi with rfl | hi
    · simp
    · exact fun hf => h.live i hi (List.mem_of_mem_filter hf)

/-- What linking the entry in at the node `new` does: the queue reads `pre ++ new :: post`, and the other nodes keep
what they hold. -/
structure LinkedIn (p : Option NodeId) (s : State) (e : NfQueueEntry) (new : NodeId) (pre post : List NodeId)
    (t : State) : Prop where
  listed : Listed p t (pre ++ new :: post)
  added : (t.node new).data = (e, e.seq, e.seqNextTmp)
  others : ∀ i ∈ pre ++ post, (t.node i).data = (s.node i).data
  freed : t.freed = s.freed.filter (· ≠ new)
  allocated : t.allocated = max s.allocated (new + 1)
  reinjected : t.reinjected = s.reinjected
  seqNext : t.seqNext = s.seqNext
  count : t.reorderCount = if pre ++ post = [] then 1 else s.reorderCount + 1
  stray : t.stray = s.stray

section Link

variable {p : Option NodeId} {s : State} {e : NfQueueEntry} {new : NodeId}

theorem linkFirst_linkedIn (h : Listed p s []) : LinkedIn none s e new [] [] (linkFirst new s e) := by
  have h' : Listed none s ([] ++ []) := h.forget
  refine ⟨?_, by simp [linkFirst, State.kmalloc, NfQueueEntryNode.data], by simp, rfl, rfl, rfl, rfl, rfl, rfl⟩
  exact h'.insert [] [] (by simp) rfl rfl rfl rfl (by simp [linkFirst, State.kmalloc])
    (by simp [linkFirst, State.kmalloc]) (by simp) (by simp)

theorem linkLast_linkedIn {pre : List NodeId} {tail : NodeId} (h : Listed p s pre) (hnew : new ∉ pre)
    (htail : pre.getLast? = some tail) : LinkedIn p s e new pre [] (linkLast new tail s e) := by
  have hmem : tail ∈ pre := List.mem_of_getLast? htail
  have hlive : tail ∉ s.freed := h.live tail hmem
  have hne : ∀ i ∈ pre, i ≠ new := fun i hi he => hnew (he ▸ hi)
  have hpre : pre ≠ [] := fun hp => by simp [hp] at hmem
  have h' : Listed p s (pre ++ []) := by simpa using h
  refine ⟨?_, ?_, fun i hi => ?_, rfl, rfl, rfl, rfl, ?_, ?_⟩
  · refine h'.insert _ _ (by simpa using hnew) rfl rfl ?_ rfl ?_ ?_ (fun i hi => ?_) (by simp)
    · simp [hpre, linkLast, State.setNode, State.touch, State.kmalloc]
    · simp [linkLast, State.setNode, State.kmalloc, State.touch, (hne tail hmem).symm, htail]
    · simp [linkLast, State.setNode, State.kmalloc, State.touch, (hne tail hmem).symm]
    · by_cases hit : i = tail
      · simp [linkLast, State.setNode, State.kmalloc, State.touch, hit, hne tail hmem, htail]
      · simp [linkLast, State.setNode, State.kmalloc, State.touch, hit, hne i hi, htail, Ne.symm hit]
  · simp [linkLast, State.setNode, State.kmalloc, State.touch, NfQueueEntryNode.data, (hne tail hmem).symm]
  · have hi : i ∈ pre := by simpa using hi
    by_cases hit : i = tail
    · simp [linkLast, State.setNode, State.kmalloc, State.touch, NfQueueEntryNode.data, hit, hne tail hmem]
    · simp [linkLast, State.setNode, State.kmalloc, State.touch, NfQueueEntryNode.data, hit, hne i hi]
  · simp [linkLast, State.kmalloc, hpre]
  · simp [linkLast, State.setNode, State.kmalloc, State.touch, hlive]

theorem linkHead_linkedIn {head : NodeId} {post : List NodeId} (h : Listed none s (head :: post))
    (hnew : new ∉ head :: post) : LinkedIn none s e new [] (head :: post) (linkHead new head s e) := by
  have hmem : head ∈ head :: post := List.mem_cons_self ..
  have hlive : head ∉ s.freed := h.live head hmem
  have hne : ∀ i ∈ head :: post, i ≠ new := fun i hi he => hnew (he ▸ hi)
  refine ⟨?_, ?_, fun i hi => ?_, rfl, rfl, rfl, rfl, by simp [linkHead, State.kmalloc], ?_⟩
  · refine Listed.insert [] _ h hnew rfl rfl rfl rfl ?_ ?_ (by simp) fun i hi => ?_
    · simp [linkHead, State.setNode, State.kmalloc, State.touch, (hne head hmem).symm]
    · simp [linkHead, State.setNode, State.kmalloc, State.touch, (hne head hmem).symm]
    · by_cases hit : i = head
      · simp [linkHead, State.setNode, State.kmalloc, State.touch, hit, hne head hmem]
      · simp [linkHead, State.setNode, State.kmalloc, State.touch, hit, hne i hi, Ne.symm hit]
  · simp [linkHead, State.setNode, State.kmalloc, State.touch, NfQueueEntryNode.data, (hne head hmem).symm]
  · by_cases hit : i = head
    · simp [linkHead, State.setNode, State.kmalloc, State.touch, NfQueueEntryNode.data, hit, hne head hmem]
    · simp [linkHead, State.setNode, State.kmalloc, State.touch, NfQueueEntryNode.data, hit, hne i hi]
  · simp [linkHead, State.setNode, State.kmalloc, State.touch, hlive]

theorem linkBetween_linkedIn {pre post : List NodeId} {q n : NodeId} (h : Listed p s (pre ++ n :: post))
    (hnew : new ∉ pre ++ n :: post) (hq : pre.getLast? = some q) :
    LinkedIn p s e new pre (n :: post) (linkBetween new q n s e) := by
  have hqm : q ∈ pre := List.mem_of_getLast? hq
  have hql : q ∈ pre ++ n :: post := List.mem_append_left _ hqm
  have hnl : n ∈ pre ++ n :: post := by simp
  have hliveq : q ∉ s.freed := h.live q hql
  have hliven : n ∉ s.freed := h.live n hnl
  have hne : ∀ i ∈ pre ++ n :: post, i ≠ new := fun i hi he => hnew (he ▸ hi)
  have hnd := List.nodup_append.1 h.nodup
  have hnpre : ∀ i ∈ pre, i ≠ n := fun i hi => hnd.2.2 i hi n (List.mem_cons_self ..)
  have hqpost : ∀ i ∈ n :: post, i ≠ q := fun i hi he => hnd.2.2 q hqm i hi he.symm
  have hpre : pre ≠ [] := fun hc => by simp [hc] at hqm
  refine ⟨?_, ?_, fun i hi => ?_, rfl, rfl, rfl, rfl, by simp [linkBetween, State.kmalloc, State.setNode, State.touch], ?_⟩
  · refine h.insert _ _ hnew rfl rfl ?_ ?_ ?_ ?_ (fun i hi => ?_) fun i hi => ?_
    · simp [linkBetween, hpre, State.setNode, State.touch, State.kmalloc]
    · simp [linkBetween, State.setNode, State.touch, State.kmalloc]
    · simp [linkBetween, State.setNode, State.kmalloc, State.touch, (hne q hql).symm, (hne n hnl).symm, hq]
    · simp [linkBetween, State.setNode, State.kmalloc, State.touch, (hne q hql).symm, (hne n hnl).symm]
    · have hi' : i ≠ new := hne i (List.mem_append_left _ hi)
      by_cases hiq : i = q
      · simp [linkBetween, State.setNode, State.kmalloc, State.touch, hiq, hq, hne q hql, hnpre q hqm]
      · simp [linkBetween, State.setNode, State.kmalloc, State.touch, hiq, hq, hi', hnpre i hi, Ne.symm hiq]
    · have hi' : i ≠ new := hne i (List.mem_append_right _ hi)
      by_cases hin : i = n
      · simp [linkBetween, State.setNode, State.kmalloc, State.touch, hin, hne n hnl, hqpost n (List.mem_cons_self ..)]
      · simp [linkBetween, State.setNode, State.kmalloc, State.touch, hin, hi', hqpost i hi, Ne.symm hin]
  · simp [linkBetween, State.setNode, State.kmalloc, State.touch, NfQueueEntryNode.data, (hne q hql).symm,
      (hne n hnl).symm]
  · by_cases hin : i = n
    · simp [linkBetween, State.setNode, State.kmalloc, State.touch, NfQueueEntryNode.data, hin, hne n hnl,
        hqpost n (List.mem_cons_self ..)]
    · by_cases hiq : i = q
      · simp [linkBetween, State.setNode, State.kmalloc, State.touch, NfQueueEntryNode.data, hiq, hne q hql, hnpre q hqm]
      · simp [linkBetween, State.setNode, State.kmalloc, State.touch, NfQueueEntryNode.data, hin, hiq, hne i hi]
  · simp [linkBetween, State.setNode, State.kmalloc, State.touch, hliveq, hliven]

/-- A node linked in front of the first one behind a node that is not in the queue: the queue does not change. -/
theorem linkBetween_lost {post : List NodeId} {q n : NodeId} (h : Listed p s (n :: post)) (hnew : new ∉ n :: post)
    (hq : q ∉ n :: post) :
    Listed (some new) (linkBetween new q n s e) (n :: post) ∧
      ∀ i ∈ n :: post, ((linkBetween new q n s e).node i).data = (s.node i).data := by
  have hne : ∀ i ∈ n :: post, i ≠ new := fun i hi he => hnew (he ▸ hi)
  have hqpost : ∀ i ∈ n :: post, i ≠ q := fun i hi he => hq (he ▸ hi)
  have hn : n ∈ n :: post := List.mem_cons_self ..
  refine ⟨⟨h.head, h.tail, h.dll.entry h.nodup fun i hi => ?_, h.nodup, fun i hi => ?_, fun i hi => ?_⟩, fun i hi => ?_⟩
  · by_cases hin : i = n
    · simp [linkBetween, State.setNode, State.kmalloc, State.touch, hin, hne n hn, hqpost n hn]
    · simp [linkBetween, State.setNode, State.kmalloc, State.touch, hin, hne i hi, hqpost i hi, Ne.symm hin]
  · exact Nat.lt_of_lt_of_le (h.bound i hi) (Nat.le_max_left ..)
  · exact fun hf => h.live i hi (List.mem_of_mem_filter hf)
  · by_cases hin : i = n
    · simp [linkBetween, State.setNode, State.kmalloc, State.touch, NfQueueEntryNode.data, hin, hne n hn, hqpost n hn]
    · simp [linkBetween, State.setNode, State.kmalloc, State.touch, NfQueueEntryNode.data, hin, hne i hi, hqpost i hi]

end Link

end PacketReordering.ReorderAdvanced
