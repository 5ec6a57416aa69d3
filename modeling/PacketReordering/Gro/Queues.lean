import PacketReordering.Gro.Memory
import PacketReordering.Lib.Dll
import Mathlib.Data.List.Perm.Subperm

/-!
# The held flows as lists

What the memory of receive offload means: a list of flows, each with its queue object and the list of its segments, and
a list of free queue objects.

* `Queues` — the lists;
* `flushSegs`, `completeSegs`, `findFree`, `splitFlow` — what the loops over the memory do to the lists;
* `Rep` — the memory represents the lists;
* `Napi.view` — the lists read off the memory.
-/

namespace PacketReordering.Gro

open Lib

variable {γ δ : Type}

/-- A held segment.  `next` is what its `skb->next` was left with; for the first segment of a queue, which is on
`gro_list`, the field has no meaning between calls. -/
structure Seg (γ : Type) where
  id : SkbId
  next : Option SkbId
  body : Body γ

/-- An entry of `gro_list` with its out-of-order queue. -/
structure Flow (γ δ : Type) where
  q : OfoId
  dat : OfoDat δ
  segs : List (Seg γ)

structure FreeQueue (δ : Type) where
  q : OfoId
  dat : OfoDat δ

structure Queues (γ δ : Type) where
  flows : List (Flow γ δ)
  free : List (FreeQueue δ)
  nskb : ℕ
  clock : Clock
  up : List (Up γ)
  stray : List SkbId

/-! ### The loops on lists -/

def Seg.up [GroComplete γ] (x : Seg γ) (via : Via) : Up γ := ⟨x.id, x.next, x.body.complete, via, x.body.completeErr⟩

/-- `skb_gro_flush` of these segments. -/
def flushSegs [GroComplete γ] : OfoDat δ → List (Seg γ) → OfoDat δ × List (Up γ)
  | d, [] => (d, [])
  | d, x :: xs =>
    let r := flushSegs (d.setSeqNext x.body.seqEnd) xs
    (r.1, x.up (.skbGroFlush d.seqNext) :: r.2)

/-- A loop of `dev_gro_complete` over these segments: the queue data, what went up and the segments left. -/
def completeSegs [GroComplete γ] (cond : OfoDat δ → SkbId → Body γ → Bool) :
    OfoDat δ → List (Seg γ) → OfoDat δ × List (Up γ) × List (Seg γ)
  | d, [] => (d, [], [])
  | d, x :: xs =>
    if cond d x.id x.body then
      let r := completeSegs cond (d.setSeqNext (maxSeq d.seqNext x.body.seqEnd)) xs
      (r.1, x.up .devGroComplete :: r.2.1, r.2.2)
    else (d, [], x :: xs)

/-- `napi_get_tcp_ofo_queue` on the list of free queues: the one it takes and the others. -/
def findFree (fits : U32 → Bool) (reset : OfoDat δ → OfoDat δ) :
    List (FreeQueue δ) → Option (FreeQueue δ × List (FreeQueue δ))
  | [] => none
  | x :: xs =>
    if fits x.dat.hash then some (x, xs)
    else
      match findFree fits reset xs with
      | none => some (⟨x.q, reset x.dat⟩, [])
      | some (y, ys) => some (y, x :: ys)

/-- The first flow that `m` picks, with the flows in front of it and behind it. -/
def splitFlow (m : Flow γ δ → Bool) : List (Flow γ δ) → Option (List (Flow γ δ) × Flow γ δ × List (Flow γ δ))
  | [] => none
  | f :: fs => if m f then some ([], f, fs) else (splitFlow m fs).map fun r => (f :: r.1, r.2)

/-- `skb->next` of the first segment. -/
def setHeadNext (n : Option SkbId) : List (Seg γ) → List (Seg γ)
  | [] => []
  | x :: xs => { x with next := n } :: xs

/-- What becomes of a packet: it is in the queue, a held segment has its payload, or it goes up as it is. -/
inductive Fate
  | held
  | merged
  | normal
  deriving DecidableEq, Repr

/-- A segment behind `pre`; without any it is the first one, whose `skb->next` is `p_next`. -/
def behind (pNext : Option SkbId) (pre : List (Seg γ)) (x : Seg γ) : Seg γ :=
  if pre = [] then { x with next := pNext } else x

/-- The step `pull` of `dev_gro_receive` for the packet `k`. -/
def pullSeg (k : SkbId) (x : Seg γ) : Seg γ := if x.id = k then { x with body := x.body.pull } else x

/-! ### The memory and the lists -/

def segIds (segs : List (Seg γ)) : List SkbId := segs.map Seg.id

/-- The number of payload bytes, as `qlen` counts it. -/
def totalLen : List (Seg γ) → U32
  | [] => 0
  | x :: xs => x.body.len + totalLen xs

def Flow.ids (f : Flow γ δ) : List SkbId := segIds f.segs

/-- The first segments, which are on `gro_list`. -/
def heads (fs : List (Flow γ δ)) : List SkbId := fs.filterMap fun f => f.ids.head?

def allIds (fs : List (Flow γ δ)) : List SkbId := fs.flatMap Flow.ids

/-- The queue object `q` holds `segs`, linked up behind `p`. -/
structure QueueRep (s : Napi γ δ) (q : OfoId) (p : Option SkbId) (d : OfoDat δ) (segs : List (Seg γ)) : Prop where
  dll : Dll s.cbNext s.cbPrev p (segIds segs) none
  body : ∀ x ∈ segs, s.body x.id = x.body
  queue : ∀ x ∈ segs, s.outOfOrderQueue x.id = some q
  qlen : s.qlen q = totalLen segs
  skbNum : s.skbNum q = BitVec.ofNat 32 segs.length
  dat : s.ofo q = d

/-- The memory holds the flow `f`. -/
structure Holds (s : Napi γ δ) (f : Flow γ δ) : Prop where
  ne : f.segs ≠ []
  rep : QueueRep s f.q none f.dat f.segs
  next : s.ofoNext f.q = f.ids.head?
  prev : s.ofoPrev f.q = f.ids.getLast?
  stale : ∀ x ∈ f.segs.tail, s.next x.id = x.next

/-- The free queue objects, linked both ways from `out_of_order_queue_list` to `out_of_order_queue_last`. -/
structure FreeRep (s : Napi γ δ) (free : List (FreeQueue δ)) : Prop where
  first : s.outOfOrderQueueList = (free.map FreeQueue.q).head?
  last : s.outOfOrderQueueLast = (free.map FreeQueue.q).getLast?
  dll : Dll s.nextQueue s.prevQueue none (free.map FreeQueue.q) none
  dat : ∀ x ∈ free, s.ofo x.q = x.dat

/-- The memory represents the lists, with the links of `gro_list` followed from `start`. -/
structure Links (s : Napi γ δ) (l : Queues γ δ) (start : Option SkbId) : Prop where
  chain : Chain s.next start (heads l.flows) none
  flows : ∀ f ∈ l.flows, Holds s f
  free : FreeRep s l.free
  nodup : (allIds l.flows).Nodup
  live : ∀ i ∈ allIds l.flows, i < s.nskb ∧ i ∉ s.gone
  gone : ∀ i ∈ s.gone, i < s.nskb
  queues : (l.flows.map Flow.q ++ l.free.map FreeQueue.q).Perm (List.range (maxGroSkbs + 1))
  nskb : s.nskb = l.nskb
  clock : s.clock = l.clock
  up : s.up = l.up
  stray : s.stray = l.stray

/-- **The memory represents the lists.** -/
structure Rep (s : Napi γ δ) (l : Queues γ δ) : Prop where
  links : Links s l s.groList
  count : s.groCount = BitVec.ofNat 32 l.flows.length
  bound : l.flows.length ≤ maxGroSkbs

/-! ### Reading the lists off the memory -/

/-- The cells met from a link on. -/
def cells (nx : ℕ → Option ℕ) : ℕ → Option ℕ → List ℕ
  | _, none => []
  | 0, some _ => []
  | fuel + 1, some i => i :: cells nx fuel (nx i)

/-- The flow that the buffer `i` of `gro_list` stands for. -/
def Napi.viewFlow (s : Napi γ δ) (i : SkbId) : Option (Flow γ δ) :=
  (s.outOfOrderQueue i).map fun q =>
    ⟨q, s.ofo q, (cells s.cbNext s.nskb (s.ofoNext q)).map fun j => ⟨j, none, s.body j⟩⟩

def Napi.view (s : Napi γ δ) : Queues γ δ where
  flows := (cells s.next s.nskb s.groList).filterMap s.viewFlow
  free := (cells s.nextQueue (maxGroSkbs + 1) s.outOfOrderQueueList).map fun q => ⟨q, s.ofo q⟩
  nskb := s.nskb
  clock := s.clock
  up := s.up
  stray := s.stray

def Seg.erase (x : Seg γ) : Seg γ := { x with next := none }

/-- A buffer that went up, without its `skb->next`. -/
def Up.erase (u : Up γ) : Up γ := { u with next := none }

def Flow.erase (f : Flow γ δ) : Flow γ δ := { f with segs := f.segs.map Seg.erase }

/-- The lists without the values of `skb->next`. -/
def Queues.erase (l : Queues γ δ) : Queues γ δ := { l with flows := l.flows.map Flow.erase }

/-! ### Small facts -/

section

variable {s : Napi γ δ} {l : Queues γ δ} {start : Option SkbId}

@[simp] theorem erase_body {x : Seg γ} : x.erase.body = x.body := rfl

@[simp] theorem segIds_nil : segIds ([] : List (Seg γ)) = [] := rfl

@[simp] theorem erase_ids {f : Flow γ δ} : f.erase.ids = f.ids := List.map_map

@[simp] theorem segIds_cons {x : Seg γ} {xs : List (Seg γ)} : segIds (x :: xs) = x.id :: segIds xs := rfl

@[simp] theorem segIds_append {xs ys : List (Seg γ)} : segIds (xs ++ ys) = segIds xs ++ segIds ys := List.map_append

@[simp] theorem segIds_length {xs : List (Seg γ)} : (segIds xs).length = xs.length := List.length_map _

@[simp] theorem totalLen_append {xs ys : List (Seg γ)} : totalLen (xs ++ ys) = totalLen xs + totalLen ys := by
  induction xs with
  | nil => simp [totalLen]
  | cons x xs ih => rw [List.cons_append, totalLen, totalLen, ih, BitVec.add_assoc]

/-- A loop of `dev_gro_complete` gives away the first segments. -/
theorem completeSegs_append [GroComplete γ] (cond : OfoDat δ → SkbId → Body γ → Bool) (d : OfoDat δ) (segs : List (Seg γ)) :
    ∃ rel, segs = rel ++ (completeSegs cond d segs).2.2 ∧ (completeSegs cond d segs).2.1.map Up.id = segIds rel := by
  induction segs generalizing d with
  | nil => exact ⟨[], rfl, rfl⟩
  | cons x segs ih =>
    rw [completeSegs]
    by_cases hcond : cond d x.id x.body = true
    · rw [if_pos hcond]
      obtain ⟨rel, hsegs, hids⟩ := ih (d.setSeqNext (maxSeq d.seqNext x.body.seqEnd))
      refine ⟨x :: rel, ?_, ?_⟩
      · exact congrArg (x :: ·) hsegs
      · simp [hids, Seg.up]
    · rw [if_neg hcond]
      exact ⟨[], rfl, rfl⟩

/-- A loop without a condition gives away everything. -/
theorem completeSegs_all [GroComplete γ] (d : OfoDat δ) (segs : List (Seg γ)) :
    (completeSegs (fun _ _ _ => true) d segs).2.2 = [] := by
  induction segs generalizing d with
  | nil => rfl
  | cons x segs ih => exact ih _

theorem flushSegs_hash [GroComplete γ] (d : OfoDat δ) (segs : List (Seg γ)) : (flushSegs d segs).1.hash = d.hash := by
  induction segs generalizing d with
  | nil => rfl
  | cons x segs ih => exact ih _

theorem flushSegs_ext [GroComplete γ] (d : OfoDat δ) (segs : List (Seg γ)) : (flushSegs d segs).1.ext = d.ext := by
  induction segs generalizing d with
  | nil => rfl
  | cons x segs ih => exact ih _

theorem completeSegs_hash [GroComplete γ] (cond : OfoDat δ → SkbId → Body γ → Bool) (d : OfoDat δ) (segs : List (Seg γ)) :
    (completeSegs cond d segs).1.hash = d.hash := by
  induction segs generalizing d with
  | nil => rfl
  | cons x segs ih =>
    rw [completeSegs]
    split
    · exact ih _
    · rfl

theorem completeSegs_ext [GroComplete γ] (cond : OfoDat δ → SkbId → Body γ → Bool) (d : OfoDat δ) (segs : List (Seg γ)) :
    (completeSegs cond d segs).1.ext = d.ext := by
  induction segs generalizing d with
  | nil => rfl
  | cons x segs ih =>
    rw [completeSegs]
    split
    · exact ih _
    · rfl

theorem flushSegs_via [GroComplete γ] {d : OfoDat δ} {segs : List (Seg γ)} :
    ∀ u ∈ (flushSegs d segs).2, u.via ≠ .normal := by
  induction segs generalizing d with
  | nil => exact fun u hu => absurd hu List.not_mem_nil
  | cons x segs ih =>
    rw [flushSegs]
    exact List.forall_mem_cons.2 ⟨fun h => Via.noConfusion h, ih⟩

theorem completeSegs_via [GroComplete γ] {cond : OfoDat δ → SkbId → Body γ → Bool} {d : OfoDat δ} {segs : List (Seg γ)} :
    ∀ u ∈ (completeSegs cond d segs).2.1, u.via ≠ .normal := by
  induction segs generalizing d with
  | nil => exact fun u hu => absurd hu List.not_mem_nil
  | cons x segs ih =>
    rw [completeSegs]
    split
    · exact List.forall_mem_cons.2 ⟨fun h => Via.noConfusion h, ih⟩
    · exact fun u hu => absurd hu List.not_mem_nil

theorem splitFlow_some {m : Flow γ δ → Bool} {fs A B : List (Flow γ δ)} {f : Flow γ δ}
    (h : splitFlow m fs = some (A, f, B)) : fs = A ++ f :: B ∧ m f = true ∧ ∀ g ∈ A, m g = false := by
  induction fs generalizing A with
  | nil => cases h
  | cons g fs ih =>
    rw [splitFlow] at h
    by_cases hg : m g = true
    · rw [if_pos hg] at h
      cases h
      exact ⟨rfl, hg, fun _ hm => absurd hm (by simp)⟩
    · rw [if_neg hg, Option.map_eq_some_iff] at h
      obtain ⟨⟨A', f', B'⟩, hr, he⟩ := h
      cases he
      obtain ⟨hfs, hf, hA⟩ := ih hr
      refine ⟨by rw [hfs, List.cons_append], hf, fun a ha => ?_⟩
      rcases List.mem_cons.1 ha with rfl | ha
      · simpa using hg
      · exact hA a ha

theorem splitFlow_none {m : Flow γ δ → Bool} {fs : List (Flow γ δ)} (h : splitFlow m fs = none) :
    ∀ f ∈ fs, m f = false := by
  induction fs with
  | nil => exact fun _ hm => absurd hm (by simp)
  | cons g fs ih =>
    rw [splitFlow] at h
    by_cases hg : m g = true
    · rw [if_pos hg] at h
      cases h
    · rw [if_neg hg, Option.map_eq_none_iff] at h
      intro f hf
      rcases List.mem_cons.1 hf with rfl | hf
      · simpa using hg
      · exact ih h f hf

/-- Whoever does not look at `skb->next` finds the same flow without it. -/
theorem splitFlow_erase {m : Flow γ δ → Bool} (hm : ∀ f, m f.erase = m f) (fs : List (Flow γ δ)) :
    splitFlow m (fs.map Flow.erase) =
      (splitFlow m fs).map fun r => (r.1.map Flow.erase, r.2.1.erase, r.2.2.map Flow.erase) := by
  induction fs with
  | nil => rfl
  | cons f fs ih =>
    rw [List.map_cons, splitFlow, splitFlow, hm, ih]
    split
    · rfl
    · cases splitFlow m fs <;> rfl

theorem findFree_none {fits : U32 → Bool} {reset : OfoDat δ → OfoDat δ} {free : List (FreeQueue δ)}
    (h : findFree fits reset free = none) : free = [] := by
  cases free with
  | nil => rfl
  | cons x xs =>
    rw [findFree] at h
    split at h
    · cases h
    · split at h <;> cases h

/-- What `napi_get_tcp_ofo_queue` finds in the list. -/
theorem findFree_some {fits : U32 → Bool} {reset : OfoDat δ → OfoDat δ} {free : List (FreeQueue δ)}
    {x : FreeQueue δ} {rest : List (FreeQueue δ)} (h : findFree fits reset free = some (x, rest)) :
    ∃ xs y ys, free = xs ++ y :: ys ∧ rest = xs ++ ys ∧ (∀ z ∈ xs, fits z.dat.hash = false) ∧
      (fits y.dat.hash = true ∧ x = y ∨ fits y.dat.hash = false ∧ ys = [] ∧ x = ⟨y.q, reset y.dat⟩) := by
  induction free generalizing rest with
  | nil => cases h
  | cons z zs ih =>
    rw [findFree] at h
    by_cases hz : fits z.dat.hash = true
    · rw [if_pos hz] at h
      cases h
      exact ⟨[], _, _, rfl, rfl, fun _ hm => absurd hm List.not_mem_nil, Or.inl ⟨hz, rfl⟩⟩
    · rw [if_neg hz] at h
      rw [Bool.not_eq_true] at hz
      cases hfind : findFree fits reset zs with
      | none =>
        rw [hfind] at h
        cases h
        rw [findFree_none hfind]
        exact ⟨[], z, [], rfl, rfl, fun _ hm => absurd hm List.not_mem_nil, Or.inr ⟨hz, rfl, rfl⟩⟩
      | some r =>
        obtain ⟨x', rest'⟩ := r
        rw [hfind] at h
        cases h
        obtain ⟨xs, y, ys, rfl, rfl, hxs, hy⟩ := ih hfind
        exact ⟨z :: xs, y, ys, rfl, rfl, List.forall_mem_cons.2 ⟨hz, hxs⟩, hy⟩

theorem findFree_sublist {fits : U32 → Bool} {reset : OfoDat δ → OfoDat δ} {free : List (FreeQueue δ)}
    {x : FreeQueue δ} {rest : List (FreeQueue δ)} (h : findFree fits reset free = some (x, rest)) :
    rest.Sublist free := by
  obtain ⟨xs, y, ys, rfl, rfl, -⟩ := findFree_some h
  exact List.Sublist.append_left (List.sublist_cons_self y ys) xs

theorem mem_segIds {x : Seg γ} {xs : List (Seg γ)} (h : x ∈ xs) : x.id ∈ segIds xs := List.mem_map_of_mem h

@[simp] theorem segIds_setHeadNext {n : Option SkbId} {xs : List (Seg γ)} : segIds (setHeadNext n xs) = segIds xs := by
  cases xs <;> rfl

section Behind

variable {n : Option SkbId} {pre : List (Seg γ)} {x : Seg γ} {k : SkbId} {b : Body γ}

theorem behind_new : behind n pre ⟨k, none, b⟩ = ⟨k, if pre = [] then n else none, b⟩ := by
  unfold behind
  by_cases h : pre = [] <;> simp [h]

@[simp] theorem behind_id : (behind n pre x).id = x.id := by
  unfold behind
  split <;> rfl

@[simp] theorem behind_body : (behind n pre x).body = x.body := by
  unfold behind
  split <;> rfl

theorem pull_len : b.pull.len = b.len := by
  unfold Body.pull
  split <;> rfl

/-- Only one segment is the packet `x.id`. -/
theorem map_pullSeg {post : List (Seg γ)} (hnd : (segIds (pre ++ x :: post)).Nodup) :
    (pre ++ x :: post).map (pullSeg x.id) = pre ++ { x with body := x.body.pull } :: post := by
  simp only [segIds_append, segIds_cons] at hnd
  have hmid := List.nodup_middle.1 hnd
  have hne : ∀ y ∈ pre ++ post, pullSeg x.id y = y := by
    intro y hy
    refine if_neg fun he => (List.nodup_cons.1 hmid).1 ?_
    rw [← he, ← segIds_append]
    exact mem_segIds hy
  rw [List.map_append, List.map_cons, pullSeg, if_pos rfl]
  congr 1
  · exact (List.map_congr_left fun y hy => hne y (List.mem_append_left _ hy)).trans (List.map_id _)
  · congr 1
    exact (List.map_congr_left fun y hy => hne y (List.mem_append_right _ hy)).trans (List.map_id _)

end Behind

@[simp] theorem allIds_append {fs gs : List (Flow γ δ)} : allIds (fs ++ gs) = allIds fs ++ allIds gs :=
  List.flatMap_append

@[simp] theorem allIds_cons {f : Flow γ δ} {fs : List (Flow γ δ)} : allIds (f :: fs) = f.ids ++ allIds fs :=
  List.flatMap_cons

@[simp] theorem heads_append {fs gs : List (Flow γ δ)} : heads (fs ++ gs) = heads fs ++ heads gs :=
  List.filterMap_append

theorem heads_cons_eq {f : Flow γ δ} {fs : List (Flow γ δ)} : heads (f :: fs) = f.ids.head?.toList ++ heads fs := by
  cases h : f.ids <;> simp [heads, h]

theorem heads_cons {f : Flow γ δ} {fs : List (Flow γ δ)} {x : Seg γ} {xs : List (Seg γ)} (h : f.segs = x :: xs) :
    heads (f :: fs) = x.id :: heads fs := by
  simp [heads, Flow.ids, h]

theorem heads_mk {q : OfoId} {d : OfoDat δ} {x : Seg γ} {xs : List (Seg γ)} {fs : List (Flow γ δ)} :
    heads (⟨q, d, x :: xs⟩ :: fs) = x.id :: heads fs := heads_cons rfl

@[simp] theorem heads_erase {fs : List (Flow γ δ)} : heads (fs.map Flow.erase) = heads fs := by
  simp [heads, List.filterMap_map]

theorem heads_length {fs : List (Flow γ δ)} (h : ∀ f ∈ fs, f.segs ≠ []) : (heads fs).length = fs.length := by
  induction fs with
  | nil => rfl
  | cons f fs ih =>
    obtain ⟨x, xs, hx⟩ := List.exists_cons_of_ne_nil (h f (List.mem_cons_self ..))
    rw [heads_cons hx, List.length_cons, List.length_cons, ih fun g hg => h g (List.mem_cons_of_mem _ hg)]

theorem mem_allIds {f : Flow γ δ} {fs : List (Flow γ δ)} {x : Seg γ} (hf : f ∈ fs) (hx : x ∈ f.segs) :
    x.id ∈ allIds fs :=
  List.mem_flatMap.2 ⟨f, hf, mem_segIds hx⟩

theorem mem_allIds_of_mem_heads {fs : List (Flow γ δ)} {i : SkbId} (h : i ∈ heads fs) : i ∈ allIds fs := by
  obtain ⟨f, hf, hi⟩ := List.mem_filterMap.1 h
  exact List.mem_flatMap.2 ⟨f, hf, List.mem_of_head? hi⟩

theorem heads_sublist (fs : List (Flow γ δ)) : (heads fs).Sublist (allIds fs) := by
  induction fs with
  | nil => exact List.Sublist.refl _
  | cons f fs ih =>
    rw [allIds_cons, heads_cons_eq]
    refine List.Sublist.append ?_ ih
    cases f.ids <;> simp

theorem length_le_of_nodup {l : List ℕ} {n : ℕ} (hnd : l.Nodup) (hlt : ∀ i ∈ l, i < n) : l.length ≤ n := by
  have hsub : l ⊆ List.range n := fun i hi => List.mem_range.2 (hlt i hi)
  simpa using (List.subperm_of_subset hnd hsub).length_le

theorem touch_eq {i : SkbId} (h : i ∉ s.gone) : s.touch i = s := by
  simp [Napi.touch, h]

/-- A failed `gro_complete` leaves the buffer as it is: it has more than one packet. -/
theorem complete_of_completeErr [GroComplete γ] {b : Body γ} (h : b.completeErr = true) : b.complete = b := by
  rw [Body.completeErr, Bool.and_eq_true, decide_eq_true_eq] at h
  exact if_neg h.1

theorem napiGroComplete_eq [GroComplete γ] {p : SkbId} (via : Via) (h : p ∉ s.gone) :
    s.napiGroComplete p via = { s with
      up := s.up ++ [⟨p, s.next p, (s.body p).complete, via, (s.body p).completeErr⟩]
      gone := p :: s.gone } := by
  unfold Napi.napiGroComplete
  split
  · rename_i herr
    rw [Napi.kfreeSkb, touch_eq h, complete_of_completeErr herr, herr]
  · rename_i herr
    rw [Napi.netifReceive, touch_eq h, Bool.eq_false_of_not_eq_true herr]

theorem touchLink_eq {o : Option SkbId} (h : ∀ i ∈ o, i ∉ s.gone) : s.touchLink o = s := by
  cases o with
  | none => rfl
  | some i => exact touch_eq (h i rfl)

theorem cells_eq {nx : ℕ → Option ℕ} {st : Option ℕ} {is : List ℕ} {fuel : ℕ} (h : Chain nx st is none)
    (hlen : is.length ≤ fuel) : cells nx fuel st = is := by
  induction is generalizing st fuel with
  | nil =>
    obtain rfl : st = none := h
    unfold cells; rfl
  | cons i is ih =>
    obtain ⟨rfl, h⟩ := h
    obtain ⟨fuel, rfl⟩ := Nat.exists_eq_add_of_le' hlen
    rw [List.length_cons, ← Nat.add_assoc, cells, ih h (by omega)]

/-- A list linked both ways is a chain. -/
theorem chain_of_dll {nx pv : ℕ → Option ℕ} {p n : Option ℕ} {is : List ℕ} (h : Dll nx pv p is n) :
    Chain nx (is.head?.or n) is n := by
  induction is generalizing p with
  | nil => rfl
  | cons i is ih =>
    obtain ⟨-, hn, h⟩ := h
    refine ⟨rfl, ?_⟩
    rw [hn]
    exact ih h

theorem Links.length_le (h : Links s l start) : (allIds l.flows).length ≤ s.nskb :=
  length_le_of_nodup h.nodup fun i hi => (h.live i hi).1

theorem Links.heads_length_le (h : Links s l start) : (heads l.flows).length ≤ s.nskb :=
  Nat.le_trans (heads_sublist _).length_le h.length_le

theorem Links.flows_length_le (h : Links s l start) : l.flows.length ≤ s.nskb := by
  rw [← heads_length fun f hf => (h.flows f hf).ne]
  exact h.heads_length_le

theorem Links.gone_cons (h : Links s l start) {k : SkbId} (hk : k < s.nskb) : ∀ i ∈ k :: s.gone, i < s.nskb :=
  List.forall_mem_cons.2 ⟨hk, h.gone⟩

theorem Links.start_eq (h : Links s l start) : start = (heads l.flows).head? := h.chain.head_eq

theorem Holds.ids_length_le (h : Links s l start) {f : Flow γ δ} (hf : f ∈ l.flows) : f.ids.length ≤ s.nskb := by
  obtain ⟨fs, gs, hfs⟩ := List.append_of_mem hf
  have hlen := h.length_le
  rw [hfs, allIds_append, allIds_cons, List.length_append, List.length_append] at hlen
  omega

theorem Holds.viewFlow {f : Flow γ δ} (h : Holds s f) (hlen : f.ids.length ≤ s.nskb) :
    (f.ids.head?.bind s.viewFlow) = some f.erase := by
  obtain ⟨x, xs, hx⟩ := List.exists_cons_of_ne_nil h.ne
  have hhead : f.ids.head? = some x.id := by simp [Flow.ids, hx]
  have hq : s.outOfOrderQueue x.id = some f.q := h.rep.queue x (by simp [hx])
  have hcells : cells s.cbNext s.nskb (s.ofoNext f.q) = f.ids := by
    refine cells_eq ?_ hlen
    have hchain := chain_of_dll h.rep.dll
    rw [h.next]
    simpa [Flow.ids] using hchain
  have hsegs : (f.ids.map fun j => (⟨j, none, s.body j⟩ : Seg γ)) = f.segs.map Seg.erase := by
    rw [Flow.ids, segIds, List.map_map]
    exact List.map_congr_left fun y hy => by simp [Seg.erase, h.rep.body y hy]
  simp [hhead, Napi.viewFlow, hq, hcells, hsegs, h.rep.dat, Flow.erase]

/-- **What the memory represents is what can be read off it.** -/
theorem Rep.view_eq (h : Rep s l) : s.view = l.erase := by
  have hflows : (cells s.next s.nskb s.groList).filterMap s.viewFlow = l.flows.map Flow.erase := by
    rw [cells_eq h.links.chain h.links.heads_length_le]
    have hlen : ∀ f ∈ l.flows, f.ids.length ≤ s.nskb := fun f hf => Holds.ids_length_le h.links hf
    have hholds := h.links.flows
    revert hlen hholds
    generalize l.flows = fs
    intro hlen hholds
    induction fs with
    | nil => rfl
    | cons f fs ih =>
      obtain ⟨x, xs, hx⟩ := List.exists_cons_of_ne_nil (hholds f (List.mem_cons_self ..)).ne
      have hview := (hholds f (List.mem_cons_self ..)).viewFlow (hlen f (List.mem_cons_self ..))
      have hx' : s.viewFlow x.id = some f.erase := by simpa [Flow.ids, hx] using hview
      rw [heads_cons hx, List.filterMap_cons, hx', List.map_cons]
      simp only
      rw [ih (fun g hg => hlen g (List.mem_cons_of_mem _ hg)) fun g hg => hholds g (List.mem_cons_of_mem _ hg)]
  have hfree : (cells s.nextQueue (maxGroSkbs + 1) s.outOfOrderQueueList).map (fun q => (⟨q, s.ofo q⟩ : FreeQueue δ)) =
      l.free := by
    have hchain : Chain s.nextQueue s.outOfOrderQueueList (l.free.map FreeQueue.q) none := by
      rw [h.links.free.first]
      simpa using chain_of_dll h.links.free.dll
    have hle : (l.free.map FreeQueue.q).length ≤ maxGroSkbs + 1 := by
      have := h.links.queues.length_eq
      simp only [List.length_append, List.length_map, List.length_range] at this ⊢
      omega
    rw [cells_eq hchain hle, List.map_map]
    calc l.free.map _ = l.free.map id := List.map_congr_left fun x hx => by simp [h.links.free.dat x hx]
      _ = l.free := List.map_id _
  unfold Napi.view Queues.erase
  rw [hflows, hfree, h.links.nskb, h.links.clock, h.links.up, h.links.stray]

end

end PacketReordering.Gro
