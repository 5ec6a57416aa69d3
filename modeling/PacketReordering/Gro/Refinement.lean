import PacketReordering.Gro.Queues
import Mathlib.Data.List.Pairwise

/-!
# The stores of `tcp_gro_receive` on the lists

What each stretch of pointer code of `Gro.Memory` does to the lists that the memory represents.

* `Frame` — nothing but one queue and some buffers is changed; `Links.update` puts a changed queue back in its place;
* `Focus` — the memory in the middle of `tcp_gro_receive`, with one flow `⟨q, d, segs⟩` between the flows `A` and `B`;
* `Focus.linkBefore`, `linkLast`, `replaceBy`, `absorb`, `flushUpTo` — the queue after each stretch.
-/

namespace PacketReordering.Gro

open Lib

variable {γ δ : Type} {s s' t : Napi γ δ} {l : Queues γ δ} {q : OfoId}

/-! ### Frames -/

/-- The links and the contents of the buffers outside `ids` and of the queue objects other than `q` are as they were. -/
structure CellFrame (s s' : Napi γ δ) (ids : List SkbId) (q : OfoId) : Prop where
  cbNext : ∀ i ∉ ids, s'.cbNext i = s.cbNext i
  cbPrev : ∀ i ∉ ids, s'.cbPrev i = s.cbPrev i
  body : ∀ i ∉ ids, s'.body i = s.body i
  queue : ∀ i ∉ ids, s'.outOfOrderQueue i = s.outOfOrderQueue i
  ofoNext : ∀ r ≠ q, s'.ofoNext r = s.ofoNext r
  ofoPrev : ∀ r ≠ q, s'.ofoPrev r = s.ofoPrev r
  qlen : ∀ r ≠ q, s'.qlen r = s.qlen r
  skbNum : ∀ r ≠ q, s'.skbNum r = s.skbNum r
  ofo : ∀ r ≠ q, s'.ofo r = s.ofo r

/-- The buffers outside `ids` and the queue objects other than `q` are as they were. -/
structure Frame (s s' : Napi γ δ) (ids : List SkbId) (q : OfoId) : Prop where
  cbNext : ∀ i ∉ ids, s'.cbNext i = s.cbNext i
  cbPrev : ∀ i ∉ ids, s'.cbPrev i = s.cbPrev i
  body : ∀ i ∉ ids, s'.body i = s.body i
  queue : ∀ i ∉ ids, s'.outOfOrderQueue i = s.outOfOrderQueue i
  gone : ∀ i ∉ ids, i ∈ s'.gone ↔ i ∈ s.gone
  ofoNext : ∀ r ≠ q, s'.ofoNext r = s.ofoNext r
  ofoPrev : ∀ r ≠ q, s'.ofoPrev r = s.ofoPrev r
  qlen : ∀ r ≠ q, s'.qlen r = s.qlen r
  skbNum : ∀ r ≠ q, s'.skbNum r = s.skbNum r
  ofo : ∀ r ≠ q, s'.ofo r = s.ofo r
  nextQueue : s'.nextQueue = s.nextQueue
  prevQueue : s'.prevQueue = s.prevQueue
  queueList : s'.outOfOrderQueueList = s.outOfOrderQueueList
  queueLast : s'.outOfOrderQueueLast = s.outOfOrderQueueLast
  nskb : s'.nskb = s.nskb
  groCount : s'.groCount = s.groCount

variable {ids : List SkbId}

theorem Frame.cells (h : Frame s s' ids q) : CellFrame s s' ids q :=
  ⟨h.cbNext, h.cbPrev, h.body, h.queue, h.ofoNext, h.ofoPrev, h.qlen, h.skbNum, h.ofo⟩

theorem Frame.refl : Frame s s ids q := by
  constructor <;> intros <;> trivial

theorem Frame.trans (h : Frame s t ids q) (h' : Frame t s' ids q) : Frame s s' ids q where
  cbNext i hi := (h'.cbNext i hi).trans (h.cbNext i hi)
  cbPrev i hi := (h'.cbPrev i hi).trans (h.cbPrev i hi)
  body i hi := (h'.body i hi).trans (h.body i hi)
  queue i hi := (h'.queue i hi).trans (h.queue i hi)
  gone i hi := (h'.gone i hi).trans (h.gone i hi)
  ofoNext r hr := (h'.ofoNext r hr).trans (h.ofoNext r hr)
  ofoPrev r hr := (h'.ofoPrev r hr).trans (h.ofoPrev r hr)
  qlen r hr := (h'.qlen r hr).trans (h.qlen r hr)
  skbNum r hr := (h'.skbNum r hr).trans (h.skbNum r hr)
  ofo r hr := (h'.ofo r hr).trans (h.ofo r hr)
  nextQueue := h'.nextQueue.trans h.nextQueue
  prevQueue := h'.prevQueue.trans h.prevQueue
  queueList := h'.queueList.trans h.queueList
  queueLast := h'.queueLast.trans h.queueLast
  nskb := h'.nskb.trans h.nskb
  groCount := h'.groCount.trans h.groCount

theorem Frame.mono {ids' : List SkbId} (h : Frame s s' ids q) (hsub : ∀ i ∈ ids, i ∈ ids') : Frame s s' ids' q where
  cbNext i hi := h.cbNext i fun hm => hi (hsub i hm)
  cbPrev i hi := h.cbPrev i fun hm => hi (hsub i hm)
  body i hi := h.body i fun hm => hi (hsub i hm)
  queue i hi := h.queue i fun hm => hi (hsub i hm)
  gone i hi := h.gone i fun hm => hi (hsub i hm)
  ofoNext := h.ofoNext
  ofoPrev := h.ofoPrev
  qlen := h.qlen
  skbNum := h.skbNum
  ofo := h.ofo
  nextQueue := h.nextQueue
  prevQueue := h.prevQueue
  queueList := h.queueList
  queueLast := h.queueLast
  nskb := h.nskb
  groCount := h.groCount

theorem QueueRep.congr {r : OfoId} {p : Option SkbId} {d : OfoDat δ} {segs : List (Seg γ)} (h : QueueRep s r p d segs)
    (hfr : CellFrame s s' ids q) (hr : r ≠ q) (hids : ∀ i ∈ segIds segs, i ∉ ids) : QueueRep s' r p d segs where
  dll := h.dll.congr fun i hi => ⟨hfr.cbNext i (hids i hi), hfr.cbPrev i (hids i hi)⟩
  body x hx := (hfr.body _ (hids _ (mem_segIds hx))).trans (h.body x hx)
  queue x hx := (hfr.queue _ (hids _ (mem_segIds hx))).trans (h.queue x hx)
  qlen := (hfr.qlen r hr).trans h.qlen
  skbNum := (hfr.skbNum r hr).trans h.skbNum
  dat := (hfr.ofo r hr).trans h.dat

theorem Holds.congr {f : Flow γ δ} (h : Holds s f) (hfr : CellFrame s s' ids q) (hr : f.q ≠ q)
    (hids : ∀ i ∈ f.ids, i ∉ ids) (hnext : ∀ x ∈ f.segs.tail, s'.next x.id = s.next x.id) : Holds s' f where
  ne := h.ne
  rep := h.rep.congr hfr hr hids
  next := (hfr.ofoNext _ hr).trans h.next
  prev := (hfr.ofoPrev _ hr).trans h.prev
  stale x hx := (hnext x hx).trans (h.stale x hx)

theorem FreeRep.congr {free : List (FreeQueue δ)} (h : FreeRep s free) (hfr : Frame s s' ids q)
    (hq : ∀ x ∈ free, x.q ≠ q) : FreeRep s' free where
  first := hfr.queueList.trans h.first
  last := hfr.queueLast.trans h.last
  dll := h.dll.congr fun i _ => ⟨by rw [hfr.nextQueue], by rw [hfr.prevQueue]⟩
  dat x hx := (hfr.ofo _ (hq x hx)).trans (h.dat x hx)

/-! ### One flow among the others -/

section Update

variable {A B : List (Flow γ δ)} {f : Flow γ δ} {start start' : Option SkbId}

theorem Links.queues_nodup (h : Links s l start) : (l.flows.map Flow.q ++ l.free.map FreeQueue.q).Nodup :=
  h.queues.nodup_iff.2 List.nodup_range

theorem Links.other_queue (h : Links s { l with flows := A ++ f :: B } start) {g : Flow γ δ} (hg : g ∈ A ++ B) :
    g.q ≠ f.q := by
  have hnd := (List.nodup_append.1 h.queues_nodup).1
  simp only [List.map_append, List.map_cons] at hnd
  have hmid := List.nodup_middle.1 hnd
  intro he
  refine (List.nodup_cons.1 hmid).1 ?_
  rw [← he, ← List.map_append]
  exact List.mem_map_of_mem hg

theorem Links.free_queue (h : Links s { l with flows := A ++ f :: B } start) {x : FreeQueue δ} (hx : x ∈ l.free) :
    x.q ≠ f.q := fun he =>
  (List.nodup_append.1 h.queues_nodup).2.2 f.q (List.mem_map_of_mem (by simp)) x.q (List.mem_map_of_mem hx) he.symm

theorem Links.other_ids (h : Links s { l with flows := A ++ f :: B } start) {g : Flow γ δ} (hg : g ∈ A ++ B) {i : SkbId}
    (hi : i ∈ g.ids) : i ∉ f.ids := by
  have hnd := h.nodup
  simp only [allIds_append, allIds_cons] at hnd
  have hperm : (allIds A ++ (f.ids ++ allIds B)).Perm (f.ids ++ (allIds A ++ allIds B)) := by
    rw [← List.append_assoc, ← List.append_assoc]
    exact List.Perm.append_right _ List.perm_append_comm
  have hdis := (List.nodup_append.1 (hperm.nodup_iff.1 hnd)).2.2
  intro hf
  refine hdis i hf i ?_ rfl
  rw [← allIds_append]
  exact List.mem_flatMap.2 ⟨g, hg, hi⟩

theorem Links.ids_nodup (h : Links s { l with flows := A ++ f :: B } start) : f.ids.Nodup := by
  have hnd := h.nodup
  simp only [allIds_append, allIds_cons] at hnd
  exact (List.nodup_append.1 (List.nodup_append.1 hnd).2.1).1

theorem Links.ids_live (h : Links s { l with flows := A ++ f :: B } start) {i : SkbId} (hi : i ∈ f.ids) :
    i < s.nskb ∧ i ∉ s.gone := h.live i (by simp [hi])

/-- A changed queue takes its place among the others. -/
theorem Links.update (h : Links s { l with flows := A ++ f :: B } start) (f' : Flow γ δ) {l' : Queues γ δ}
    (hfr : Frame s s' ids f.q) (hids : ∀ g ∈ A ++ B, ∀ i ∈ g.ids, i ∉ ids) (hlt : ∀ i ∈ ids, i < s.nskb)
    (hnext : ∀ g ∈ A ++ B, ∀ x ∈ g.segs.tail, s'.next x.id = s.next x.id) (hq : f'.q = f.q) (hf : Holds s' f')
    (hchain : Chain s'.next start' (heads (A ++ f' :: B)) none) (hnd : f'.ids.Nodup) (hsub : ∀ i ∈ f'.ids, i ∈ ids)
    (hlive : ∀ i ∈ f'.ids, i < s'.nskb ∧ i ∉ s'.gone) (hflows : l'.flows = A ++ f' :: B) (hfree : l'.free = l.free)
    (hnskb : l'.nskb = l.nskb) (hclock : s'.clock = l'.clock) (hup : s'.up = l'.up) (hstray : s'.stray = l'.stray) :
    Links s' l' start' := by
  refine ⟨by rwa [hflows], ?_, ?_, ?_, ?_, ?_, ?_, ?_, hclock, hup, hstray⟩
  · intro g hg
    rw [hflows, List.mem_append, List.mem_cons] at hg
    have hother : ∀ g ∈ A ++ B, Holds s' g := fun g hg =>
      (h.flows g (by simp at hg ⊢; tauto)).congr hfr.cells (h.other_queue hg) (hids g hg) (hnext g hg)
    rcases hg with hA | rfl | hB
    · exact hother g (List.mem_append_left _ hA)
    · exact hf
    · exact hother g (List.mem_append_right _ hB)
  · rw [hfree]
    exact h.free.congr hfr fun x hx => h.free_queue hx
  · have hndA := h.nodup
    rw [hflows]
    simp only [allIds_append, allIds_cons] at hndA ⊢
    have hperm : ∀ m : List SkbId, (allIds A ++ (m ++ allIds B)).Perm (m ++ (allIds A ++ allIds B)) := by
      intro m
      rw [← List.append_assoc, ← List.append_assoc]
      exact List.Perm.append_right _ List.perm_append_comm
    refine (hperm f'.ids).nodup_iff.2 (List.nodup_append.2 ⟨hnd, ?_, ?_⟩)
    · exact (List.nodup_append.1 ((hperm f.ids).nodup_iff.1 hndA)).2.1
    · rintro i hi j hj rfl
      rw [← allIds_append] at hj
      obtain ⟨g, hg, hig⟩ := List.mem_flatMap.1 hj
      exact hids g hg i hig (hsub i hi)
  · intro i hi
    rw [hflows] at hi
    simp only [allIds_append, allIds_cons, List.mem_append] at hi
    have hother : i ∈ allIds (A ++ B) → i < s'.nskb ∧ i ∉ s'.gone := fun hi => by
      obtain ⟨g, hg, hig⟩ := List.mem_flatMap.1 hi
      have hl := h.live i (by
        simp only [allIds_append, List.mem_append, allIds_cons] at hi ⊢; tauto)
      rw [hfr.nskb, hfr.gone i (hids g hg i hig)]
      exact hl
    rcases hi with hA | hf | hB
    · exact hother (by simp [hA])
    · exact hlive i hf
    · exact hother (by simp [hB])
  · intro i hi
    rw [hfr.nskb]
    by_cases hmem : i ∈ ids
    · exact hlt i hmem
    · exact h.gone i ((hfr.gone i hmem).1 hi)
  · rw [hflows, hfree]
    simpa [hq] using h.queues
  · rw [hfr.nskb, h.nskb, hnskb]

end Update

/-! ### `gro_list` -/

/-- The link that comes after these entries of `gro_list`. -/
def headRef (fs : List (Flow γ δ)) : HeadRef :=
  match (heads fs).getLast? with
  | none => .groList
  | some i => .next i

theorem not_head_of_mem_tail {fs : List (Flow γ δ)} (hnd : (allIds fs).Nodup) {g : Flow γ δ} (hg : g ∈ fs) {x : Seg γ}
    (hx : x ∈ g.segs.tail) : x.id ∉ heads fs := by
  intro hmem
  obtain ⟨f, hf, hhead⟩ := List.mem_filterMap.1 hmem
  obtain ⟨hnodup, hdis⟩ := List.nodup_flatMap.1 hnd
  have hxg : x.id ∈ g.ids := mem_segIds (List.mem_of_mem_tail hx)
  by_cases hfg : f = g
  · subst hfg
    obtain ⟨y, ys, hy⟩ := List.exists_cons_of_ne_nil (List.ne_nil_of_mem (List.mem_of_mem_tail hx))
    have hnd := hnodup f hf
    simp only [Flow.ids, hy, segIds_cons, List.head?_cons, Option.some.injEq] at hhead hnd
    rw [hy] at hx
    exact (List.nodup_cons.1 hnd).1 (hhead ▸ mem_segIds hx)
  · have : Std.Symm (Function.onFun List.Disjoint (Flow.ids (γ := γ) (δ := δ))) := 
      ⟨fun _ _ h i hi hj => h hj hi⟩
    exact hdis.forall hf hg hfg (List.mem_of_head? hhead) hxg

/-- A store through a pointer that may be `NULL`. -/
def setLink (f : SkbId → Option SkbId) (o v : Option SkbId) : SkbId → Option SkbId :=
  match o with
  | none => f
  | some i => Function.update f i v

theorem setLink_apply {f : SkbId → Option SkbId} {o v : Option SkbId} {i : SkbId} :
    setLink f o v i = if o = some i then v else f i := by
  cases o with
  | none => simp [setLink]
  | some j => simp [setLink, Function.update_apply, eq_comm]

/-- `skb->next` after the entry of `gro_list` behind `is` has become `x`, which is followed by `n`. -/
def linkEntry (nx : SkbId → Option SkbId) (is : List SkbId) (x : SkbId) (n : Option SkbId) : SkbId → Option SkbId :=
  Function.update (setLink nx is.getLast? (some x)) x n

section LinkEntry

variable {nx : SkbId → Option SkbId} {st n : Option SkbId} {is hs : List SkbId} {x x' : SkbId}

@[simp] theorem linkEntry_self : linkEntry nx is x n x = n := by simp [linkEntry]

theorem linkEntry_of_notMem {i : SkbId} (hi : i ∉ is) (hne : i ≠ x) : linkEntry nx is x n i = nx i := by
  rw [linkEntry, Function.update_of_ne hne, setLink_apply, if_neg fun hlast => hi (List.mem_of_getLast? hlast)]

theorem chain_linkEntry (h : Chain nx st (is ++ x :: hs) none) (hnd : (is ++ x :: hs).Nodup) (his : x' ∉ is)
    (hhs : x' ∉ hs) : Chain (linkEntry nx is x' hs.head?) (if is = [] then some x' else st) (is ++ x' :: hs) none := by
  obtain ⟨m, h1, -, h2⟩ := chain_append.1 h
  have hnext : nx x = hs.head? := h2.head_eq
  obtain ⟨hnd1, hnd2, hdis⟩ := List.nodup_append.1 hnd
  refine chain_append.2 ⟨some x', ?_, rfl, ?_⟩
  · refine h1.relink hnd1 rfl fun i hi => ?_
    have hne : i ≠ x' := fun he => his (he ▸ hi)
    rw [linkEntry, Function.update_of_ne hne, setLink_apply]
  · rw [linkEntry_self]
    rw [hnext] at h2
    refine h2.congr fun i hi => ?_
    have hne : i ≠ x' := fun he => hhs (he ▸ hi)
    exact linkEntry_of_notMem (fun his => hdis i his i (List.mem_cons_of_mem _ hi) rfl) hne

/-- An entry is taken out. -/
theorem chain_unlinkEntry (h : Chain nx st (is ++ x :: hs) none) (hnd : (is ++ x :: hs).Nodup) :
    Chain (setLink nx is.getLast? hs.head?) (if is = [] then hs.head? else st) (is ++ hs) none := by
  obtain ⟨m, h1, -, h2⟩ := chain_append.1 h
  obtain ⟨hnd1, hnd2, hdis⟩ := List.nodup_append.1 hnd
  refine chain_append.2 ⟨hs.head?, ?_, ?_⟩
  · exact h1.relink hnd1 rfl fun i _ => setLink_apply
  · rw [← h2.head_eq]
    refine h2.congr fun i hi => ?_
    rw [setLink_apply, if_neg]
    exact fun hlast => hdis i (List.mem_of_getLast? hlast) i (List.mem_cons_of_mem _ hi) rfl

end LinkEntry

theorem setHead_eq (s : Napi γ δ) (n : Option SkbId) {fs : List (Flow γ δ)} {x : SkbId} (hfs : ∀ i ∈ heads fs, i ∉ s.gone)
    (hx : x ∉ s.gone) :
    s.setHead (headRef fs) n x =
      { s with
        next := linkEntry s.next (heads fs) x n
        groList := if heads fs = [] then some x else s.groList } := by
  unfold Napi.setHead headRef linkEntry setLink
  cases h : (heads fs).getLast? with
  | none =>
    have hnil : heads fs = [] := List.getLast?_eq_none_iff.1 h
    simp [Napi.writeHead, Napi.touch, hnil, hx]
  | some i =>
    have hmem : i ∈ heads fs := List.mem_of_getLast? h
    have hne : heads fs ≠ [] := List.ne_nil_of_mem hmem
    simp [Napi.writeHead, Napi.touch, hne, hx, hfs i hmem]

/-! ### The memory in the middle of `tcp_gro_receive` -/

/-- The memory holds the flows `A`, `⟨q, d, segs⟩` and `B`, and `skb->next` of every segment of the one in the middle is
what the list says. -/
structure Focus (s : Napi γ δ) (l : Queues γ δ) (A B : List (Flow γ δ)) (q : OfoId) (d : OfoDat δ)
    (segs : List (Seg γ)) : Prop where
  links : Links s { l with flows := A ++ ⟨q, d, segs⟩ :: B } s.groList
  next : ∀ x ∈ segs, s.next x.id = x.next
  count : s.groCount = BitVec.ofNat 32 (A.length + (B.length + 1))

/-- The buffer `k` has been received and is in no queue. -/
structure Loose (s : Napi γ δ) (fs : List (Flow γ δ)) (k : SkbId) (b : Body γ) : Prop where
  lt : k < s.nskb
  live : k ∉ s.gone
  mem : k ∉ allIds fs
  body : s.body k = b
  next : s.next k = none

section Focus

variable {A B : List (Flow γ δ)} {d : OfoDat δ} {segs pre post : List (Seg γ)} {x : Seg γ} {k : SkbId} {b : Body γ}

theorem Focus.holds (h : Focus s l A B q d segs) : Holds s ⟨q, d, segs⟩ := h.links.flows _ (by simp)

theorem Focus.seg_live (h : Focus s l A B q d segs) (hx : x ∈ segs) : x.id ∉ s.gone :=
  (h.links.ids_live (mem_segIds hx)).2

theorem Focus.heads_live (h : Focus s l A B q d segs) {i : SkbId} (hi : i ∈ heads A) : i ∉ s.gone :=
  (h.links.live i (by simp [mem_allIds_of_mem_heads hi])).2

theorem Focus.length_le (h : Focus s l A B q d segs) : segs.length ≤ s.nskb := by
  have := Holds.ids_length_le (f := ⟨q, d, segs⟩) h.links (by simp)
  simpa [Flow.ids] using this

theorem Focus.dll (h : Focus s l A B q d (pre ++ x :: post)) :
    s.cbPrev x.id = (segIds pre).getLast? ∧ s.cbNext x.id = (segIds post).head? := by
  have hdll := h.holds.rep.dll
  simp only [segIds_append, segIds_cons, dll_append, dll_cons] at hdll
  simpa using hdll.2.imp_right And.left

theorem Focus.chain (h : Focus s l A B q d segs) :
    Chain s.next s.groList (heads A ++ ((segIds segs).head?.toList ++ heads B)) none := by
  have hchain := h.links.chain
  rwa [heads_append, heads_cons_eq] at hchain

theorem Focus.heads_nodup (h : Focus s l A B q d segs) :
    (heads A ++ ((segIds segs).head?.toList ++ heads B)).Nodup := by
  have hnd := (heads_sublist _).nodup h.links.nodup
  rwa [heads_append, heads_cons_eq] at hnd

theorem Focus.notMem_heads (h : Focus s l A B q d segs) {i : SkbId} (hi : i ∈ segIds segs) : i ∉ heads A := by
  intro hA
  obtain ⟨f, hf, hhead⟩ := List.mem_filterMap.1 hA
  exact h.links.other_ids (List.mem_append_left _ hf) (List.mem_of_head? hhead) hi

theorem Focus.segs_out (h : Focus s l A B q d segs) : ∀ i ∈ segIds segs, i < s.nskb ∧ i ∉ allIds (A ++ B) := by
  intro i hi
  refine ⟨(h.links.ids_live hi).1, fun hmem => ?_⟩
  obtain ⟨g, hg, hig⟩ := List.mem_flatMap.1 hmem
  exact h.links.other_ids hg hig hi

theorem Focus.ids_out (h : Focus s l A B q d segs) (hlt : k < s.nskb) (hk : k ∉ allIds (A ++ ⟨q, d, segs⟩ :: B)) :
    ∀ i ∈ k :: segIds segs, i < s.nskb ∧ i ∉ allIds (A ++ B) := by
  intro i hi
  rcases List.mem_cons.1 hi with rfl | hi
  · refine ⟨hlt, fun hmem => hk ?_⟩
    simp only [allIds_append, allIds_cons, List.mem_append] at hmem ⊢
    tauto
  · exact h.segs_out i hi

/-- The memory when `tcp_gro_receive` has found the flow `f`. -/
theorem Rep.focus (h : Rep s l) {f : Flow γ δ} (hflows : l.flows = A ++ f :: B) :
    Focus s l A B f.q f.dat (setHeadNext (heads B).head? f.segs) := by
  have hlinks : Links s { l with flows := A ++ f :: B } s.groList := hflows ▸ h.links
  have hf := hlinks.flows f (by simp)
  obtain ⟨x, xs, hx⟩ := List.exists_cons_of_ne_nil hf.ne
  have hsegs : setHeadNext (heads B).head? f.segs = { x with next := (heads B).head? } :: xs := by rw [hx, setHeadNext]
  have hids : f.ids = x.id :: segIds xs := by rw [Flow.ids, hx, segIds_cons]
  have hchain := hlinks.chain
  rw [heads_append, heads_cons hx] at hchain
  obtain ⟨m, -, rfl, hbehind⟩ := chain_append.1 hchain
  have hstale := hf.stale
  have hrep := hf.rep
  rw [hx] at hrep hstale
  rw [hsegs]
  refine ⟨?_, ?_, ?_⟩
  · apply hlinks.update ⟨f.q, f.dat, { x with next := (heads B).head? } :: xs⟩ (Frame.refl : Frame s s f.ids f.q)
    · exact fun g hg i hi => hlinks.other_ids hg hi
    · exact fun i hi => (hlinks.ids_live hi).1
    · exact fun _ _ _ _ => rfl
    · rfl
    · refine ⟨List.cons_ne_nil _ _, ⟨hrep.dll, ?_, ?_, hrep.qlen, hrep.skbNum, hrep.dat⟩, ?_, ?_, hstale⟩
      · intro y hy
        rcases List.mem_cons.1 hy with rfl | hy
        · exact hrep.body x (by simp)
        · exact hrep.body y (List.mem_cons_of_mem _ hy)
      · intro y hy
        rcases List.mem_cons.1 hy with rfl | hy
        · exact hrep.queue x (by simp)
        · exact hrep.queue y (List.mem_cons_of_mem _ hy)
      · exact hf.next.trans (by rw [hids]; rfl)
      · exact hf.prev.trans (by rw [hids]; rfl)
    · rw [heads_append, heads_mk]
      exact hchain
    · rw [Flow.ids, segIds_cons, ← hids]
      exact hlinks.ids_nodup
    · rw [Flow.ids, segIds_cons, ← hids]
      exact fun i hi => hi
    · rw [Flow.ids, segIds_cons, ← hids]
      exact fun i hi => hlinks.ids_live hi
    · rfl
    · rfl
    · rfl
    · exact hlinks.clock
    · exact hlinks.up
    · exact hlinks.stray
  · intro y hy
    rcases List.mem_cons.1 hy with rfl | hy
    · exact hbehind.head_eq
    · exact hstale y hy
  · rw [h.count, hflows, List.length_append, List.length_cons]

theorem Focus.rep (h : Focus s l A B q d segs) (hbound : A.length + (B.length + 1) ≤ maxGroSkbs) :
    Rep s { l with flows := A ++ ⟨q, d, segs⟩ :: B } := by
  refine ⟨h.links, ?_, ?_⟩
  · rw [h.count, List.length_append, List.length_cons]
  · rw [List.length_append, List.length_cons]
    exact hbound

/-- A queue that was changed goes back between the flows `A` and `B`. -/
theorem Focus.rebuild {d' : OfoDat δ} {segs' : List (Seg γ)} {clock : Clock} {up : List (Up γ)}
    (h : Focus s l A B q d segs) (hfr : Frame s s' ids q) (hids : ∀ i ∈ ids, i < s.nskb ∧ i ∉ allIds (A ++ B))
    (hmem : ∀ i ∈ segIds segs', i ∈ ids) (hnd : (segIds segs').Nodup)
    (hlive : ∀ i ∈ segIds segs', i < s.nskb ∧ i ∉ s'.gone) (hrep : QueueRep s' q none d' segs') (hne : segs' ≠ [])
    (hfirst : s'.ofoNext q = (segIds segs').head?) (hlast : s'.ofoPrev q = (segIds segs').getLast?)
    (hnext : ∀ x ∈ segs', s'.next x.id = x.next)
    (hchain : Chain s'.next s'.groList (heads A ++ ((segIds segs').head?.toList ++ heads B)) none)
    (hother : ∀ i ∉ heads A, i ∉ ids → s'.next i = s.next i) (hclock : s'.clock = clock) (hup : s'.up = up)
    (hstray : s'.stray = s.stray) : Focus s' { l with clock := clock, up := up } A B q d' segs' := by
  obtain ⟨y, ys, hy⟩ := List.exists_cons_of_ne_nil hne
  have hout : ∀ g ∈ A ++ B, ∀ i ∈ g.ids, i ∉ ids := fun g hg i hi hmem =>
    (hids i hmem).2 (List.mem_flatMap.2 ⟨g, hg, hi⟩)
  refine ⟨?_, hnext, hfr.groCount.trans h.count⟩
  refine h.links.update ⟨q, d', segs'⟩ hfr hout (fun i hi => (hids i hi).1) ?_ rfl ⟨hne, hrep, hfirst, hlast, ?_⟩ ?_ hnd hmem ?_ rfl
    rfl rfl hclock hup (hstray.trans h.links.stray)
  · intro g hg x hx
    refine hother x.id ?_ (hout g hg x.id (mem_segIds (List.mem_of_mem_tail hx)))
    have hg' : g ∈ A ++ ⟨q, d, segs⟩ :: B := by
      rcases List.mem_append.1 hg with hA | hB
      · exact List.mem_append_left _ hA
      · exact List.mem_append_right _ (List.mem_cons_of_mem _ hB)
    have hhead := not_head_of_mem_tail h.links.nodup hg' hx
    rw [heads_append, List.mem_append] at hhead
    exact fun hA => hhead (Or.inl hA)
  · exact fun x hx => hnext x (List.mem_of_mem_tail hx)
  · rw [heads_append, heads_cons hy]
    simpa [hy] using hchain
  · intro i hi
    rw [hfr.nskb]
    exact hlive i hi

/-- The stretch `mid` of the queue is replaced by `mid'`. -/
theorem Focus.splice {d' : OfoDat δ} (pre mid mid' post : List (Seg γ)) (ids : List SkbId) (h : Focus s l A B q d (pre ++ (mid ++ post)))
    (hfr : Frame s s' ids q) (hids : ∀ i ∈ ids, i < s.nskb ∧ i ∉ allIds (A ++ B))
    (hmem : ∀ i ∈ segIds (pre ++ (mid' ++ post)), i ∈ ids) (hnd : (segIds (pre ++ (mid' ++ post))).Nodup)
    (hlive : ∀ i ∈ segIds (pre ++ (mid' ++ post)), i < s.nskb ∧ i ∉ s'.gone)
    (hmid : Dll s'.cbNext s'.cbPrev (segIds pre).getLast? (segIds mid') (segIds post).head?)
    (hpre : ∀ i ∈ segIds pre, s'.cbPrev i = s.cbPrev i ∧ s'.cbNext i =
      if (segIds pre).getLast? = some i then (segIds mid').head?.or (segIds post).head? else s.cbNext i)
    (hpost : ∀ i ∈ segIds post, s'.cbNext i = s.cbNext i ∧ s'.cbPrev i =
      if (segIds post).head? = some i then (segIds mid').getLast?.or (segIds pre).getLast? else s.cbPrev i)
    (hbody : ∀ x ∈ pre ++ (mid' ++ post), s'.body x.id = x.body)
    (hqueue : ∀ x ∈ pre ++ (mid' ++ post), s'.outOfOrderQueue x.id = some q)
    (hqlen : s'.qlen q = totalLen (pre ++ (mid' ++ post)))
    (hskbNum : s'.skbNum q = BitVec.ofNat 32 (pre ++ (mid' ++ post)).length) (hdat : s'.ofo q = d')
    (hne : pre ++ (mid' ++ post) ≠ []) (hfirst : s'.ofoNext q = (segIds (pre ++ (mid' ++ post))).head?)
    (hlast : s'.ofoPrev q = (segIds (pre ++ (mid' ++ post))).getLast?)
    (hnext : ∀ x ∈ pre ++ (mid' ++ post), s'.next x.id = x.next)
    (hchain : Chain s'.next s'.groList
      (heads A ++ ((segIds (pre ++ (mid' ++ post))).head?.toList ++ heads B)) none)
    (hother : ∀ i ∉ heads A, i ∉ ids → s'.next i = s.next i) (hclock : s'.clock = s.clock) (hup : s'.up = s.up)
    (hstray : s'.stray = s.stray) : Focus s' l A B q d' (pre ++ (mid' ++ post)) := by
  have hdll := h.holds.rep.dll
  have hndold := h.links.ids_nodup
  simp only [Flow.ids, segIds_append] at hdll hndold
  have hdll' : Dll s'.cbNext s'.cbPrev none (segIds (pre ++ (mid' ++ post))) none := by
    simp only [segIds_append] at hnd ⊢
    exact hdll.splice (List.nodup_append.1 hnd).1 (List.nodup_append.1 (List.nodup_append.1 hnd).2.1).2.1 hmid hpre hpost
  exact h.rebuild hfr hids hmem hnd hlive ⟨hdll', hbody, hqueue, hqlen, hskbNum, hdat⟩ hne hfirst hlast hnext hchain
    hother (hclock.trans h.links.clock) (hup.trans h.links.up) hstray

/-- The buffer `k` takes the place of the stretch `mid`. -/
theorem Focus.put (pre mid post : List (Seg γ)) (h : Focus s l A B q d (pre ++ (mid ++ post)))
    (hk : Loose s (A ++ ⟨q, d, pre ++ (mid ++ post)⟩ :: B) k b)
    (hfr : Frame s s' (k :: segIds (pre ++ (mid ++ post))) q)
    (hgone : ∀ i, i ∈ s'.gone → i ∈ s.gone ∨ i ∈ segIds mid) (hcbNext : s'.cbNext k = (segIds post).head?)
    (hcbPrev : s'.cbPrev k = (segIds pre).getLast?)
    (hpre : ∀ i ∈ segIds pre, s'.cbPrev i = s.cbPrev i ∧
      s'.cbNext i = if (segIds pre).getLast? = some i then some k else s.cbNext i)
    (hpost : ∀ i ∈ segIds post, s'.cbNext i = s.cbNext i ∧
      s'.cbPrev i = if (segIds post).head? = some i then some k else s.cbPrev i)
    (hbody : s'.body = s.body) (hqueue : s'.outOfOrderQueue = Function.update s.outOfOrderQueue k (some q))
    (hqlen : s'.qlen q = totalLen (pre ++ post) + b.len)
    (hskbNum : s'.skbNum q = BitVec.ofNat 32 ((pre ++ post).length + 1)) (hdat : s'.ofo q = d)
    (hfirst : s'.ofoNext q = if pre = [] then some k else s.ofoNext q)
    (hlast : s'.ofoPrev q = if post = [] then some k else s.ofoPrev q)
    (hnext : s'.next = if pre = [] then linkEntry s.next (heads A) k (heads B).head? else s.next)
    (hlist : s'.groList = if pre = [] ∧ heads A = [] then some k else s.groList) (hclock : s'.clock = s.clock)
    (hup : s'.up = s.up) (hstray : s'.stray = s.stray) :
    Focus s' l A B q d (pre ++ ⟨k, if pre = [] then (heads B).head? else none, b⟩ :: post) := by
  have hmem := hk.mem
  simp only [allIds_append, allIds_cons, Flow.ids, List.mem_append, not_or] at hmem
  obtain ⟨hkA, hkids, hkB⟩ := hmem
  have hnd := h.links.ids_nodup
  simp only [Flow.ids, segIds_append, List.mem_append, not_or] at hnd hkids
  have hkheads : k ∉ heads A := fun hm => hkA (mem_allIds_of_mem_heads hm)
  have hne : ∀ y ∈ pre ++ post, y.id ≠ k := by
    rintro y hy rfl
    rcases List.mem_append.1 hy with hy | hy
    · exact hkids.1 (mem_segIds hy)
    · exact hkids.2.2 (mem_segIds hy)
  have hold : ∀ y ∈ pre ++ post, y ∈ pre ++ (mid ++ post) := by
    intro y hy
    simp only [List.mem_append] at hy ⊢
    tauto
  -- every segment of the new list is `k` or one of the old ones
  have hcases : ∀ {P : Seg γ → Prop}, P ⟨k, if pre = [] then (heads B).head? else none, b⟩ →
      (∀ y ∈ pre ++ post, P y) → ∀ y ∈ pre ++ ([⟨k, if pre = [] then (heads B).head? else none, b⟩] ++ post), P y := by
    intro P hP hQ y hy
    simp only [List.mem_append, List.mem_singleton] at hy hQ
    rcases hy with hy | rfl | hy
    · exact hQ y (Or.inl hy)
    · exact hP
    · exact hQ y (Or.inr hy)
  have hndnew : (segIds (pre ++ post)).Nodup := by
    rw [segIds_append]
    exact hnd.sublist (List.Sublist.append_left (List.sublist_append_right _ _) _)
  refine Focus.splice pre mid [⟨k, if pre = [] then (heads B).head? else none, b⟩] post _ h hfr (h.ids_out hk.lt hk.mem) ?_ ?_
    ?_ ?_ hpre hpost ?_ ?_ ?_ ?_ hdat (by simp) ?_ ?_ ?_ ?_ ?_ hclock hup hstray
  · intro i hi
    simp only [segIds_append, segIds_cons, segIds_nil, List.mem_append, List.mem_cons, List.not_mem_nil, or_false] at hi ⊢
    tauto
  · simp only [segIds_append, segIds_cons, List.singleton_append] at hndnew ⊢
    refine List.nodup_middle.2 (List.nodup_cons.2 ⟨?_, hndnew⟩)
    simp [hkids]
  · intro i hi
    obtain ⟨y, hy, rfl⟩ := List.mem_map.1 hi
    revert y
    refine hcases ?_ ?_
    · intro _
      exact ⟨hk.lt, fun hg => (hgone k hg).elim hk.live hkids.2.1⟩
    · intro y hy _
      obtain ⟨hlt, hlive⟩ := h.links.ids_live (mem_segIds (hold y hy))
      refine ⟨hlt, fun hg => (hgone _ hg).elim hlive fun hm => ?_⟩
      have hdis1 := (List.nodup_append.1 hnd).2.2
      have hdis2 := (List.nodup_append.1 (List.nodup_append.1 hnd).2.1).2.2
      rcases List.mem_append.1 hy with hy | hy
      · exact hdis1 _ (mem_segIds hy) _ (List.mem_append_left _ hm) rfl
      · exact hdis2 _ hm _ (mem_segIds hy) rfl
  · simp [hcbNext, hcbPrev]
  · refine hcases ?_ fun y hy => ?_
    · rw [hbody]; exact hk.body
    · rw [hbody]; exact h.holds.rep.body y (hold y hy)
  · refine hcases ?_ fun y hy => ?_
    · rw [hqueue]; simp
    · rw [hqueue, Function.update_of_ne (hne y hy)]
      exact h.holds.rep.queue y (hold y hy)
  · rw [hqlen]
    simp only [totalLen_append, totalLen, List.singleton_append]
    ac_rfl
  · rw [hskbNum]
    simp only [List.length_append, List.length_cons, List.length_nil, BitVec.ofNat_add]
    ac_rfl
  · rw [hfirst]
    by_cases hp : pre = []
    · simp [hp]
    · obtain ⟨y, ys, rfl⟩ := List.exists_cons_of_ne_nil hp
      rw [if_neg hp, h.holds.next]
      simp [Flow.ids]
  · rw [hlast]
    by_cases hp : post = []
    · simp [hp]
    · obtain ⟨ys, y, rfl⟩ := List.eq_nil_or_concat' post |>.resolve_left hp
      rw [if_neg hp, h.holds.prev]
      simp [Flow.ids, List.getLast?_append, List.getLast?_cons]
  · rw [hnext]
    refine hcases ?_ fun y hy => ?_
    · by_cases hp : pre = []
      · simp [hp]
      · simp [hp, hk.next]
    · by_cases hp : pre = []
      · rw [if_pos hp, linkEntry_of_notMem (h.notMem_heads (mem_segIds (hold y hy))) (hne y hy)]
        exact h.next y (hold y hy)
      · rw [if_neg hp]
        exact h.next y (hold y hy)
  · rw [hnext, hlist]
    have hchain := h.chain
    by_cases hp : pre = []
    · subst hp
      have hheads := h.heads_nodup
      obtain ⟨x, hx⟩ : ∃ x, (segIds (mid ++ post)).head? = some x := by
        cases hmp : mid ++ post with
        | nil => exact absurd (by simp [hmp]) h.holds.ne
        | cons y ys => exact ⟨y.id, rfl⟩
      simp only [List.nil_append, hx, Option.toList_some, List.singleton_append] at hchain hheads
      have := chain_linkEntry hchain hheads hkheads fun hm => hkB (mem_allIds_of_mem_heads hm)
      simpa using this
    · obtain ⟨y, ys, rfl⟩ := List.exists_cons_of_ne_nil hp
      simpa [hp] using hchain
  · intro i hiA hi
    rw [hnext]
    by_cases hp : pre = []
    · rw [if_pos hp, linkEntry_of_notMem hiA fun he => hi (he ▸ List.mem_cons_self ..)]
    · rw [if_neg hp]

/-- The buffer `k` has not found its place yet; its flow is that of the queue `q`. -/
structure Arriving (s : Napi γ δ) (fs : List (Flow γ δ)) (q : OfoId) (k : SkbId) (b : Body γ) : Prop
    extends Loose s fs k b where
  sameFlow : s.sameFlow k = false
  queue : s.outOfOrderQueue k = some q

theorem Loose.ids_ne (hk : Loose s (A ++ ⟨q, d, segs⟩ :: B) k b) : ∀ i ∈ segIds segs, i ≠ k := by
  rintro i hi rfl
  exact hk.mem (by simp [Flow.ids, hi])

theorem linkBefore_eq (s : Napi γ δ) {k x : SkbId} {len : U32} (hk : k ∉ s.gone) (hx : x ∉ s.gone)
    (hprev : ∀ i ∈ s.cbPrev x, i ∉ s.gone) (hheads : ∀ i ∈ heads A, i ∉ s.gone) :
    s.linkBefore q k len (headRef A) (heads B).head? x =
      { s with
        outOfOrderQueue := Function.update s.outOfOrderQueue k (some q)
        cbPrev := Function.update (Function.update s.cbPrev k (s.cbPrev x)) x (some k)
        cbNext := setLink (Function.update s.cbNext k (some x)) (s.cbPrev x) (some k)
        qlen := Function.update s.qlen q (s.qlen q + len)
        skbNum := Function.update s.skbNum q (s.skbNum q + 1)
        sameFlow := Function.update s.sameFlow k true
        ofoNext := if s.cbPrev x = none then Function.update s.ofoNext q (some k) else s.ofoNext
        next := if s.cbPrev x = none then linkEntry s.next (heads A) k (heads B).head? else s.next
        groList := if s.cbPrev x = none ∧ heads A = [] then some k else s.groList } := by
  simp only [Napi.linkBefore, touch_eq hk, touch_eq hx, touchLink_eq hprev]
  cases hpx : s.cbPrev x with
  | none =>
    simp only [setLink, if_true, true_and]
    rw [setHead_eq _ _ (by exact hheads) (by exact hk)]
  | some p => simp [setLink]

theorem Focus.linkBefore (h : Focus s l A B q d (pre ++ x :: post))
    (hk : Loose s (A ++ ⟨q, d, pre ++ x :: post⟩ :: B) k b) :
    Focus (s.linkBefore q k b.len (headRef A) (heads B).head? x.id) l A B q d
      (pre ++ ⟨k, if pre = [] then (heads B).head? else none, b⟩ :: x :: post) := by
  have hids := hk.ids_ne
  have hxk : x.id ≠ k := hids x.id (by simp)
  obtain ⟨hprev, -⟩ := h.dll
  have hnd : (segIds pre ++ x.id :: segIds post).Nodup := by simpa [Flow.ids] using h.links.ids_nodup
  have hdis := (List.nodup_append.1 hnd).2.2
  have hpre : s.cbPrev x.id = none ↔ pre = [] := by rw [hprev]; simp [segIds]
  have hplive : ∀ i ∈ s.cbPrev x.id, i ∉ s.gone := fun i hi => by
    rw [hprev] at hi
    exact (h.links.ids_live (by simp [Flow.ids, List.mem_of_getLast? hi])).2
  rw [linkBefore_eq s hk.live (h.seg_live (by simp)) hplive fun i hi => h.heads_live hi]
  refine Focus.put pre [] (x :: post) h hk ?_ ?_ ?_ ?_ ?_ ?_ rfl rfl ?_ ?_ h.holds.rep.dat ?_ ?_ ?_ ?_ rfl rfl rfl
  · have hlast : ∀ i ∉ segIds pre, s.cbPrev x.id ≠ some i := fun i hi he => hi (List.mem_of_getLast? (hprev ▸ he))
    constructor <;> simp +contextual [setLink_apply, hlast]
    intro r hr
    by_cases hp : s.cbPrev x.id = none <;> simp [hp, hr]
  · simp
  · have hkp : s.cbPrev x.id ≠ some k := fun he =>
      hids k (by simp [List.mem_of_getLast? (hprev ▸ he)]) rfl
    simp [setLink_apply, hkp]
  · simp [hxk.symm, hprev]
  · intro i hi
    have hix : i ≠ x.id := hdis i hi x.id (by simp)
    have hik : i ≠ k := hids i (by simp [hi])
    simp [setLink_apply, hix, hik, hprev]
  · intro i hi
    have hik : i ≠ k := hids i (by simp at hi ⊢; tauto)
    have hip : s.cbPrev x.id ≠ some i := fun he => hdis i (List.mem_of_getLast? (hprev ▸ he)) i (by simpa using hi) rfl
    by_cases hix : i = x.id
    · simp [setLink_apply, hix, hxk, hix ▸ hip]
    · simp [setLink_apply, hix, hip, hik, Ne.symm hix]
  · simpa using congrArg (· + b.len) h.holds.rep.qlen
  · have := congrArg (· + 1) h.holds.rep.skbNum
    simpa [BitVec.ofNat_add] using this
  · simp only [hpre]
    by_cases hp : pre = [] <;> simp [hp]
  · simp
  · simp only [hpre]
  · simp only [hpre]

theorem Focus.linkLast (h : Focus s l A B q d (pre ++ [x])) (hk : Loose s (A ++ ⟨q, d, pre ++ [x]⟩ :: B) k b) :
    Focus (s.linkLast q k b.len x.id) l A B q d (pre ++ [x, ⟨k, none, b⟩]) := by
  have hids := hk.ids_ne
  have hxk : x.id ≠ k := hids x.id (by simp)
  have hxlive := h.seg_live (x := x) (by simp)
  have hnd : (segIds pre ++ [x.id]).Nodup := by simpa [Flow.ids] using h.links.ids_nodup
  have hlast := h.holds.prev
  have hput : Focus (s.linkLast q k b.len x.id) l A B q d
      ((pre ++ [x]) ++ ⟨k, if pre ++ [x] = [] then (heads B).head? else none, b⟩ :: []) := by
    have h : Focus s l A B q d ((pre ++ [x]) ++ ([] ++ [])) := by simpa using h
    have hk : Loose s (A ++ ⟨q, d, (pre ++ [x]) ++ ([] ++ [])⟩ :: B) k b := by simpa using hk
    simp only [Napi.linkLast, touch_eq hk.live, touch_eq hxlive]
    refine Focus.put (pre ++ [x]) [] [] h hk ?_ ?_ ?_ ?_ ?_ ?_ rfl rfl ?_ ?_ h.holds.rep.dat ?_ ?_ ?_ ?_ rfl rfl rfl
    · constructor <;> simp +contextual
    · simp
    · simp [hxk.symm]
    · simp
    · intro i hi
      have hik := hids i (by simpa using hi)
      by_cases hix : i = x.id
      · simp [hix, hxk]
      · simp [hix, hik, Ne.symm hix]
    · simp
    · simpa using congrArg (· + b.len) h.holds.rep.qlen
    · have := congrArg (· + 1) h.holds.rep.skbNum
      simpa [BitVec.ofNat_add] using this
    · simp
    · simp
    · simp
    · simp
  simpa using hput

theorem replaceBy_eq (s : Napi γ δ) {k x : SkbId} {len : U32} (hk : k ∉ s.gone) (hx : x ∉ s.gone)
    (hprev : ∀ i ∈ s.cbPrev x, i ∉ s.gone) (hnext : ∀ i ∈ s.cbNext x, i ∉ s.gone)
    (hheads : ∀ i ∈ heads A, i ∉ s.gone) :
    s.replaceBy q k len (headRef A) (heads B).head? x =
      { s with
        outOfOrderQueue := Function.update s.outOfOrderQueue k (some q)
        cbPrev := setLink (Function.update s.cbPrev k (s.cbPrev x)) (s.cbNext x) (some k)
        cbNext := setLink (Function.update s.cbNext k (s.cbNext x)) (s.cbPrev x) (some k)
        qlen := Function.update s.qlen q (s.qlen q + len)
        sameFlow := Function.update s.sameFlow k true
        ofoNext := if s.cbPrev x = none then Function.update s.ofoNext q (some k) else s.ofoNext
        ofoPrev := if s.cbNext x = none then Function.update s.ofoPrev q (some k) else s.ofoPrev
        next := if s.cbPrev x = none then linkEntry s.next (heads A) k (heads B).head? else s.next
        groList := if s.cbPrev x = none ∧ heads A = [] then some k else s.groList
        gone := x :: s.gone } := by
  simp only [Napi.replaceBy, touch_eq hk, touch_eq hx, touchLink_eq hprev, touchLink_eq hnext]
  cases hpx : s.cbPrev x with
  | none =>
    cases hnx : s.cbNext x <;>
    · simp only [setLink, if_true, true_and]
      rw [setHead_eq _ _ (by exact hheads) (by exact hk)]
      simp [Napi.skbGroFree, Napi.touch, hx]
  | some p => cases hnx : s.cbNext x <;> simp [setLink, Napi.skbGroFree, Napi.touch, hx]

theorem Focus.replaceBy {len : U32} (h : Focus s l A B q d (pre ++ x :: post))
    (hk : Loose s (A ++ ⟨q, d, pre ++ x :: post⟩ :: B) k b) (hlen : b.len = len + x.body.len) :
    Focus (s.replaceBy q k len (headRef A) (heads B).head? x.id) l A B q d
      (pre ++ ⟨k, if pre = [] then (heads B).head? else none, b⟩ :: post) := by
  have hids := hk.ids_ne
  obtain ⟨hprev, hnext⟩ := h.dll
  have hnd : (segIds pre ++ x.id :: segIds post).Nodup := by simpa [Flow.ids] using h.links.ids_nodup
  have hdis := (List.nodup_append.1 hnd).2.2
  have hpostx : x.id ∉ segIds post := (List.nodup_cons.1 (List.nodup_append.1 hnd).2.1).1
  have hpre : s.cbPrev x.id = none ↔ pre = [] := by rw [hprev]; simp [segIds]
  have hpost : s.cbNext x.id = none ↔ post = [] := by rw [hnext]; simp [segIds]
  have hprevmem : ∀ {i}, s.cbPrev x.id = some i → i ∈ segIds pre := fun he => List.mem_of_getLast? (hprev ▸ he)
  have hnextmem : ∀ {i}, s.cbNext x.id = some i → i ∈ segIds post := fun he => List.mem_of_head? (hnext ▸ he)
  rw [replaceBy_eq s hk.live (h.seg_live (by simp))
    (fun i hi => (h.links.ids_live (by simp [Flow.ids, hprevmem hi])).2)
    (fun i hi => (h.links.ids_live (by simp [Flow.ids, hnextmem hi])).2) fun i hi => h.heads_live hi]
  refine Focus.put pre [x] post h hk ?_ ?_ ?_ ?_ ?_ ?_ rfl rfl ?_ ?_ h.holds.rep.dat ?_ ?_ ?_ ?_ rfl rfl rfl
  · have hlast : ∀ i ∉ segIds pre, s.cbPrev x.id ≠ some i := fun i hi he => hi (hprevmem he)
    have hfirst : ∀ i ∉ segIds post, s.cbNext x.id ≠ some i := fun i hi he => hi (hnextmem he)
    constructor <;> simp +contextual [setLink_apply, hlast, hfirst]
    · intro r hr
      by_cases hp : s.cbPrev x.id = none <;> simp [hp, hr]
    · intro r hr
      by_cases hp : s.cbNext x.id = none <;> simp [hp, hr]
  · simp; tauto
  · have hkp : s.cbPrev x.id ≠ some k := fun he => hids k (by simp [hprevmem he]) rfl
    simp [setLink_apply, hkp, hnext]
  · have hkn : s.cbNext x.id ≠ some k := fun he => hids k (by simp [hnextmem he]) rfl
    simp [setLink_apply, hkn, hprev]
  · intro i hi
    have hik : i ≠ k := hids i (by simp [hi])
    have hin : s.cbNext x.id ≠ some i := fun he => hdis i hi i (List.mem_cons_of_mem _ (hnextmem he)) rfl
    simp [setLink_apply, hik, hin, hprev]
  · intro i hi
    have hik : i ≠ k := hids i (by simp [hi])
    have hip : s.cbPrev x.id ≠ some i := fun he => hdis i (hprevmem he) i (List.mem_cons_of_mem _ hi) rfl
    simp [setLink_apply, hik, hip, hnext]
  · have hrep := h.holds.rep.qlen
    simp only [totalLen_append, totalLen, Function.update_self] at hrep ⊢
    rw [hrep, hlen]
    ac_rfl
  · have hrep := h.holds.rep.skbNum
    simpa [Nat.add_assoc] using hrep
  · simp only [hpre]
    by_cases hp : pre = [] <;> simp [hp]
  · simp only [hpost]
    by_cases hp : post = [] <;> simp [hp]
  · simp only [hpre]
  · simp only [hpre]

/-- The bodies of the segment `x` and of `k` change, and `qlen` with them. -/
theorem Focus.withBody (body : SkbId → Body γ) (sameFlow : SkbId → Bool) (qlen : OfoId → U32)
    (h : Focus s l A B q d (pre ++ x :: post)) (hlt : k < s.nskb)
    (hk : k ∉ allIds (A ++ ⟨q, d, pre ++ x :: post⟩ :: B))
    (hx : body x.id = b) (hbody : ∀ i, i ≠ x.id → i ≠ k → body i = s.body i) (hother : ∀ r ≠ q, qlen r = s.qlen r)
    (hqlen : qlen q = totalLen (pre ++ { x with body := b } :: post)) :
    Focus { s with body := body, sameFlow := sameFlow, qlen := qlen } l A B q d (pre ++ { x with body := b } :: post) := by
  have hids : segIds (pre ++ { x with body := b } :: post) = segIds (pre ++ x :: post) := by simp
  have hnd := h.links.ids_nodup
  have hsplit : ∀ {P : Seg γ → Prop}, P { x with body := b } → (∀ y ∈ pre ++ post, P y) →
      ∀ y ∈ pre ++ { x with body := b } :: post, P y := by
    intro P hP hQ y hy
    simp only [List.mem_append, List.mem_cons] at hy hQ
    rcases hy with hy | rfl | hy
    · exact hQ y (Or.inl hy)
    · exact hP
    · exact hQ y (Or.inr hy)
  have hold : ∀ y ∈ pre ++ post, y ∈ pre ++ x :: post := by
    intro y hy
    simp only [List.mem_append, List.mem_cons] at hy ⊢
    tauto
  have hne : ∀ y ∈ pre ++ post, y.id ≠ x.id ∧ y.id ≠ k := by
    intro y hy
    refine ⟨fun he => ?_, fun he => hk ?_⟩
    · have hnd : (segIds pre ++ x.id :: segIds post).Nodup := by simpa [Flow.ids] using hnd
      refine (List.nodup_cons.1 (List.nodup_middle.1 hnd)).1 ?_
      rw [← he, ← segIds_append]
      exact mem_segIds hy
    · rw [← he]
      exact mem_allIds (f := ⟨q, d, pre ++ x :: post⟩) (by simp) (hold y hy)
  have hxk : x.id ≠ k := fun he => hk (he ▸ mem_allIds (f := ⟨q, d, pre ++ x :: post⟩) (by simp) (by simp))
  have hrep := h.holds.rep
  refine h.rebuild ?_ (h.ids_out hlt hk) ?_ (hids ▸ hnd) ?_
    ⟨hids ▸ hrep.dll, ?_, ?_, hqlen, ?_, hrep.dat⟩ (by simp) ?_ ?_ ?_ ?_ ?_ h.links.clock h.links.up rfl
  · constructor
    case body =>
      intro i hi
      simp only [segIds_append, segIds_cons, List.mem_cons, List.mem_append, not_or] at hi
      exact hbody i hi.2.2.1 hi.1
    case qlen => exact hother
    all_goals intros; rfl
  · rw [hids]
    exact fun i hi => List.mem_cons_of_mem _ hi
  · rw [hids]
    exact fun i hi => h.links.ids_live hi
  · exact hsplit hx fun y hy => (hbody _ (hne y hy).1 (hne y hy).2).trans (hrep.body y (hold y hy))
  · exact hsplit (hrep.queue x (by simp)) fun y hy => hrep.queue y (hold y hy)
  · have hnum := hrep.skbNum
    simpa using hnum
  · rw [hids]; exact h.holds.next
  · rw [hids]; exact h.holds.prev
  · exact hsplit (h.next x (by simp)) fun y hy => h.next y (hold y hy)
  · rw [hids]; exact h.chain
  · exact fun _ _ _ => rfl

theorem absorb_eq (s : Napi γ δ) {x y : SkbId} (hx : x ∉ s.gone) (hy : y ∉ s.gone)
    (hnext : ∀ i ∈ s.cbNext y, i ∉ s.gone) :
    s.absorb q x y =
      { s with
        skbNum := Function.update s.skbNum q (s.skbNum q - 1)
        cbNext := Function.update s.cbNext x (s.cbNext y)
        cbPrev := setLink s.cbPrev (s.cbNext y) (some x)
        ofoPrev := if s.cbNext y = none then Function.update s.ofoPrev q (some x) else s.ofoPrev
        gone := y :: s.gone } := by
  simp only [Napi.absorb, touch_eq hx, touch_eq hy, touchLink_eq hnext]
  cases hny : s.cbNext y <;> simp [setLink, Napi.skbGroFree, Napi.touch, hy]

/-- The payload of `y` goes to the segment `x` in front of it. -/
theorem Focus.absorb {y : Seg γ} (body : SkbId → Body γ) (sameFlow : SkbId → Bool)
    (h : Focus s l A B q d (pre ++ x :: y :: post)) (hx : body x.id = b)
    (hbody : ∀ i, i ≠ x.id → i ≠ y.id → body i = s.body i) (hlen : b.len = x.body.len + y.body.len) :
    Focus ({ s with body := body, sameFlow := sameFlow }.absorb q x.id y.id) l A B q d
      (pre ++ { x with body := b } :: post) := by
  have hnd : (segIds pre ++ x.id :: y.id :: segIds post).Nodup := by simpa [Flow.ids] using h.links.ids_nodup
  obtain ⟨hndpre, hndx, hdis⟩ := List.nodup_append.1 hnd
  obtain ⟨hxnot, hndy⟩ := List.nodup_cons.1 hndx
  obtain ⟨hynot, hndpost⟩ := List.nodup_cons.1 hndy
  have hxy : x.id ≠ y.id := fun he => hxnot (by simp [he])
  have hnext : s.cbNext y.id = (segIds post).head? := by
    have h' : Focus s l A B q d ((pre ++ [x]) ++ y :: post) := by simpa using h
    exact h'.dll.2
  have hpost : s.cbNext y.id = none ↔ post = [] := by rw [hnext]; simp [segIds]
  have hnextmem : ∀ {i}, s.cbNext y.id = some i → i ∈ segIds post := fun he => List.mem_of_head? (hnext ▸ he)
  have hmid : Focus s l A B q d (pre ++ ([x, y] ++ post)) := by simpa using h
  have hold : ∀ z ∈ pre ++ post, z ∈ pre ++ x :: y :: post := by
    intro z hz
    simp only [List.mem_append, List.mem_cons] at hz ⊢
    tauto
  have hne : ∀ z ∈ pre ++ post, z.id ≠ x.id ∧ z.id ≠ y.id := by
    intro z hz
    rcases List.mem_append.1 hz with hz | hz
    · exact ⟨hdis _ (mem_segIds hz) _ (by simp), hdis _ (mem_segIds hz) _ (by simp)⟩
    · exact ⟨fun he => hxnot (List.mem_cons_of_mem _ (he ▸ mem_segIds hz)), fun he => hynot (he ▸ mem_segIds hz)⟩
  have hsplit : ∀ {P : Seg γ → Prop}, P { x with body := b } → (∀ z ∈ pre ++ post, P z) →
      ∀ z ∈ pre ++ ([{ x with body := b }] ++ post), P z := by
    intro P hP hQ z hz
    simp only [List.mem_append, List.mem_singleton] at hz hQ
    rcases hz with hz | rfl | hz
    · exact hQ z (Or.inl hz)
    · exact hP
    · exact hQ z (Or.inr hz)
  rw [absorb_eq { s with body := body, sameFlow := sameFlow } (h.seg_live (by simp)) (h.seg_live (by simp))
    fun i hi => (h.links.ids_live (by simp [Flow.ids, hnextmem hi])).2]
  have hrep := h.holds.rep
  have hsplice : Focus { s with
      body := body, sameFlow := sameFlow
      skbNum := Function.update s.skbNum q (s.skbNum q - 1)
      cbNext := Function.update s.cbNext x.id (s.cbNext y.id)
      cbPrev := setLink s.cbPrev (s.cbNext y.id) (some x.id)
      ofoPrev := if s.cbNext y.id = none then Function.update s.ofoPrev q (some x.id) else s.ofoPrev
      gone := y.id :: s.gone } l A B q d (pre ++ ([{ x with body := b }] ++ post)) := by
    refine Focus.splice pre [x, y] [{ x with body := b }] post (segIds (pre ++ x :: y :: post)) hmid ?_ ?_ ?_ ?_ ?_ ?_ ?_
      ?_ ?_ ?_ ?_ ?_ hrep.dat (by simp) ?_ ?_ ?_ ?_ ?_ rfl rfl rfl
    · have hfirst : ∀ i ∉ segIds post, s.cbNext y.id ≠ some i := fun i hi he => hi (hnextmem he)
      constructor <;> simp +contextual [setLink_apply, hfirst, hbody]
      intro r hr
      by_cases hp : s.cbNext y.id = none <;> simp [hp, hr]
    · exact h.segs_out
    · intro i hi
      simp only [segIds_append, segIds_cons, segIds_nil, List.mem_append, List.mem_cons, List.not_mem_nil, or_false]
        at hi ⊢
      tauto
    · have hsub : (segIds pre ++ x.id :: segIds post).Sublist (segIds pre ++ x.id :: y.id :: segIds post) :=
        List.Sublist.append_left (List.Sublist.cons_cons _ (List.sublist_cons_self _ _)) _
      simpa using hnd.sublist hsub
    · intro i hi
      have hiy : i ≠ y.id := by
        obtain ⟨z, hz, rfl⟩ := List.mem_map.1 hi
        revert z
        exact hsplit (fun _ => hxy) fun z hz _ => (hne z hz).2
      have hi' : i ∈ segIds (pre ++ x :: y :: post) := by
        simp only [segIds_append, segIds_cons, segIds_nil, List.mem_append, List.mem_cons, List.not_mem_nil, or_false]
          at hi ⊢
        tauto
      obtain ⟨hlt, hlive⟩ := h.links.ids_live hi'
      exact ⟨hlt, by simp [hiy, hlive]⟩
    · have hxn : (segIds post).head? ≠ some x.id := fun he => hxnot (List.mem_cons_of_mem _ (List.mem_of_head? he))
      simp [setLink_apply, hnext, hxn, h.dll.1]
    · intro i hi
      have hix : i ≠ x.id := hdis i hi _ (by simp)
      have hin : s.cbNext y.id ≠ some i := fun he => hdis i hi i (by simp [hnextmem he]) rfl
      refine ⟨by simp [setLink_apply, hin], ?_⟩
      have hlink := h.holds.rep.dll
      simp only [segIds_append, segIds_cons, dll_append] at hlink
      by_cases hil : (segIds pre).getLast? = some i
      · obtain ⟨ys, z, hz⟩ := List.eq_nil_or_concat' (segIds pre) |>.resolve_left (List.ne_nil_of_mem hi)
        obtain rfl : z = i := by simpa [hz] using hil
        have hz' := hlink.1
        rw [hz, dll_append] at hz'
        have : s.cbNext z = some x.id := by simpa using hz'.2.2.1
        simp [hil, hix, this]
      · simp [hil, hix]
    · intro i hi
      have hix : i ≠ x.id := fun he => hxnot (List.mem_cons_of_mem _ (he ▸ hi))
      simp [setLink_apply, hix, hnext]
    · exact hsplit hx fun z hz => (hbody _ (hne z hz).1 (hne z hz).2).trans (hrep.body z (hold z hz))
    · exact hsplit (hrep.queue x (by simp)) fun z hz => hrep.queue z (hold z hz)
    · have hqlen := hrep.qlen
      simp only [totalLen_append, totalLen, List.singleton_append] at hqlen ⊢
      rw [hqlen, hlen]
      ac_rfl
    · have hnum := hrep.skbNum
      simp only [List.length_append, List.length_cons, List.length_nil, Function.update_self] at hnum ⊢
      rw [hnum]
      have : pre.length + (post.length + 1 + 1) = pre.length + (0 + 1 + post.length) + 1 := by omega
      rw [this, BitVec.ofNat_add]
      exact BitVec.add_sub_cancel _ _
    · have hfirst := h.holds.next
      cases pre <;> simpa [Flow.ids] using hfirst
    · have hlast := h.holds.prev
      simp only [hpost]
      by_cases hp : post = []
      · simp [hp, List.getLast?_append]
      · obtain ⟨zs, z, rfl⟩ := List.eq_nil_or_concat' post |>.resolve_left hp
        rw [if_neg hp, hlast]
        simp [Flow.ids, List.getLast?_append, List.getLast?_cons]
    · exact hsplit (h.next x (by simp)) fun z hz => h.next z (hold z hz)
    · have hchain := h.chain
      cases pre <;> simpa using hchain
    · exact fun _ _ _ => rfl
  simpa using hsplice

end Focus

end PacketReordering.Gro
