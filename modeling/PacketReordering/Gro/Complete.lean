import PacketReordering.Gro.GroList

/-!
# A flow that goes up

What `dev_gro_complete` leaves of a flow, and the flows around it.

* `Completing`, `Completed` — the queue in front of `dev_gro_complete` and after it;
* `Links.shortened`, `Links.emptied` — the held flows when some of the segments of one have gone up, or all of them;
* `Links.dropOldest` — the last flow of `gro_list` has gone up;
* `Flushing` — the memory in the middle of `napi_gro_flush`.
-/

namespace PacketReordering.Gro

open Lib

variable {γ δ : Type} {s t u : Napi γ δ} {l : Queues γ δ} {A B : List (Flow γ δ)} {f : Flow γ δ} {q : OfoId}
  {d : OfoDat δ} {segs : List (Seg γ)} {start n : Option SkbId} {c : Clock}
  {r : OfoDat δ × List (Up γ) × List (Seg γ)}

/-! ### `dev_gro_complete` -/

/-- The queue `q` in front of `dev_gro_complete`. -/
structure Completing (s : Napi γ δ) (q : OfoId) (d : OfoDat δ) (segs : List (Seg γ)) : Prop where
  rep : QueueRep s q none d segs
  nodup : (segIds segs).Nodup
  live : ∀ i ∈ segIds segs, i ∉ s.gone
  next : ∀ x ∈ segs, s.next x.id = x.next
  length : segs.length ≤ s.nskb
  first : s.ofoNext q = (segIds segs).head?
  last : s.ofoPrev q = (segIds segs).getLast?

/-- The queue `q` after `dev_gro_complete`, but for the list of free queues; `c` is the clock then. -/
structure Completed (s u : Napi γ δ) (c : Clock) (q : OfoId) (segs : List (Seg γ))
    (r : OfoDat δ × List (Up γ) × List (Seg γ)) : Prop where
  frame : Frame s u (segIds segs) q
  released : Released { s with clock := c } u (r.2.1.map Up.id) r.2.1
  rep : QueueRep u q none r.1 r.2.2
  ofoPrev : u.ofoPrev q = s.ofoPrev q
  ofoNext : r.2.2 ≠ [] → u.ofoNext q = (segIds r.2.2).head?

/-- The outcome of `dev_gro_complete` when `r` is left of the queue. -/
def completeResult (u : Napi γ δ) (q : OfoId) (r : OfoDat δ × List (Up γ) × List (Seg γ)) : Option SkbId × Napi γ δ :=
  if r.2.2 = [] then (none, u.pushQueue q) else ((segIds r.2.2).head?, u)

/-- The segments of a flow, with `skb->next` of the first one, have given way to the rest of them. -/
structure Shortened (f : Flow γ δ) (n : Option SkbId) (r : OfoDat δ × List (Up γ) × List (Seg γ)) : Prop where
  split : ∃ rel, setHeadNext n f.segs = rel ++ r.2.2 ∧ r.2.1.map Up.id = segIds rel

theorem Shortened.ids (h : Shortened f n r) : f.ids = r.2.1.map Up.id ++ segIds r.2.2 := by
  obtain ⟨rel, hsegs, hids⟩ := h.split
  rw [Flow.ids, ← segIds_setHeadNext (n := n), hsegs, segIds_append, hids]

theorem Shortened.setDat (h : Shortened f n r) (d : OfoDat δ) : Shortened f n (d, r.2) := ⟨h.split⟩

/-- The flow `f`, when `skb->next` has been changed to `nx₀` and `gro_list` to `list₀`. -/
theorem Links.completing (nx₀ : SkbId → Option SkbId) (list₀ : Option SkbId)
    (h : Links s { l with flows := A ++ f :: B } start) {x : Seg γ} {xs : List (Seg γ)} (hx : f.segs = x :: xs)
    (hnext : nx₀ x.id = n) (htail : ∀ y ∈ xs, nx₀ y.id = s.next y.id) :
    Completing { s with next := nx₀, groList := list₀ } f.q f.dat (setHeadNext n f.segs) := by
  have hf := h.flows f (by simp)
  have hids : f.ids = x.id :: segIds xs := by rw [Flow.ids, hx, segIds_cons]
  have hsegs : setHeadNext n f.segs = { x with next := n } :: xs := by rw [hx, setHeadNext]
  have hfids : segIds ({ x with next := n } :: xs) = f.ids := by rw [hids, segIds_cons]
  have hlen := Holds.ids_length_le h (f := f) (by simp)
  rw [hsegs]
  refine ⟨?_, ?_, ?_, ?_, ?_, ?_, ?_⟩
  · have hrep := hf.rep
    rw [hx] at hrep
    refine ⟨hrep.dll, fun y hy => ?_, fun y hy => ?_, hrep.qlen, hrep.skbNum, hrep.dat⟩
    · rcases List.mem_cons.1 hy with rfl | hy
      · exact hrep.body x (by simp)
      · exact hrep.body y (List.mem_cons_of_mem _ hy)
    · rcases List.mem_cons.1 hy with rfl | hy
      · exact hrep.queue x (by simp)
      · exact hrep.queue y (List.mem_cons_of_mem _ hy)
  · rw [hfids]
    exact h.ids_nodup
  · rw [hfids]
    exact fun i hi => (h.ids_live hi).2
  · intro y hy
    rcases List.mem_cons.1 hy with rfl | hy
    · exact hnext
    · exact (htail y hy).trans (hf.stale y (by simpa [hx] using hy))
  · simpa [hids] using hlen
  · exact hf.next.trans (by rw [hfids])
  · exact hf.prev.trans (by rw [hfids])

/-! ### The flows around it -/

/-- Some of the segments of the flow `f` stay. -/
theorem Links.shortened (nx : SkbId → Option SkbId) (list start' : Option SkbId)
    (h : Links s { l with flows := A ++ f :: B } start) (hshort : Shortened f n r)
    (hc : Completed s u c f.q (setHeadNext n f.segs) r) (hne : r.2.2 ≠ [])
    (hnext : ∀ g ∈ A ++ B, ∀ x ∈ g.segs.tail, nx x.id = s.next x.id) (hstale : ∀ x ∈ r.2.2.tail, nx x.id = x.next)
    (hchain : Chain nx start' (heads (A ++ ⟨f.q, r.1, r.2.2⟩ :: B)) none) :
    Links { u with next := nx, groList := list }
      { l with flows := A ++ ⟨f.q, r.1, r.2.2⟩ :: B, clock := c, up := l.up ++ r.2.1 } start' := by
  have hids := hshort.ids
  have hnd := h.ids_nodup
  rw [hids] at hnd
  obtain ⟨-, hndrest, hdis⟩ := List.nodup_append.1 hnd
  have hsub : ∀ i ∈ segIds r.2.2, i ∈ f.ids := by
    intro i hi
    rw [hids]
    exact List.mem_append_right _ hi
  have hfids : segIds (setHeadNext n f.segs) = f.ids := segIds_setHeadNext
  have hframe := hc.frame
  rw [hfids] at hframe
  have hrep := hc.rep
  apply h.update ⟨f.q, r.1, r.2.2⟩
  · exact ⟨hframe.cbNext, hframe.cbPrev, hframe.body, hframe.queue, hframe.gone, hframe.ofoNext, hframe.ofoPrev,
      hframe.qlen, hframe.skbNum, hframe.ofo, hframe.nextQueue, hframe.prevQueue, hframe.queueList, hframe.queueLast,
      hframe.nskb, hframe.groCount⟩
  · exact fun g hg i hi => h.other_ids hg hi
  · exact fun i hi => (h.ids_live hi).1
  · exact hnext
  · rfl
  · refine ⟨hne, ⟨hrep.dll, hrep.body, hrep.queue, hrep.qlen, hrep.skbNum, hrep.dat⟩, hc.ofoNext hne, ?_, hstale⟩
    have hlast := (h.flows f (by simp)).prev
    obtain ⟨ys, y, hy⟩ := List.eq_nil_or_concat' r.2.2 |>.resolve_left hne
    refine hc.ofoPrev.trans (hlast.trans ?_)
    rw [hids, Flow.ids, hy]
    simp [List.getLast?_append]
  · exact hchain
  · exact hndrest
  · exact hsub
  · intro i hi
    obtain ⟨hlt, hlive⟩ := h.ids_live (hsub i hi)
    refine ⟨hframe.nskb.symm ▸ hlt, fun hg => ?_⟩
    rcases (hc.released.gone i).1 hg with hm | hg
    · exact hdis i hm i hi rfl
    · exact hlive hg
  · rfl
  · rfl
  · rfl
  · exact hc.released.clock
  · exact hc.released.up.trans (congrArg (· ++ r.2.1) h.up)
  · exact hc.released.stray.trans h.stray

/-- All segments of the flow `f` have gone.  `nx₀` and `list₀` are `skb->next` and `gro_list` when `dev_gro_complete` was
called. -/
theorem Links.emptied (nx₀ : SkbId → Option SkbId) (list₀ : Option SkbId) (nx : SkbId → Option SkbId)
    {list start' : Option SkbId} {count : U32} (h : Links s { l with flows := A ++ f :: B } start) (hshort : Shortened f n r)
    (hc : Completed { s with next := nx₀, groList := list₀ } u c f.q (setHeadNext n f.segs) r)
    (hnext : ∀ g ∈ A ++ B, ∀ x ∈ g.segs.tail, nx x.id = s.next x.id) (hchain : Chain nx start' (heads (A ++ B)) none) :
    Links { u.pushQueue f.q with next := nx, groList := list, groCount := count }
      { l with flows := A ++ B, free := ⟨f.q, r.1⟩ :: l.free, clock := c, up := l.up ++ r.2.1 } start' := by
  have hfids : segIds (setHeadNext n f.segs) = f.ids := segIds_setHeadNext
  have hframe := hc.frame
  rw [hfids] at hframe
  have hndq := h.queues_nodup
  have hfree : FreeRep u l.free := by
    refine h.free.of_eq hframe.nextQueue hframe.prevQueue hframe.queueList hframe.queueLast fun x hx => ?_
    exact hframe.ofo _ (h.free_queue hx)
  have hpush : FreeRep (u.pushQueue f.q) (⟨f.q, r.1⟩ :: l.free) := by
    have hnd : (f.q :: l.free.map FreeQueue.q).Nodup := by
      refine List.nodup_cons.2 ⟨fun hm => ?_, h.free_nodup⟩
      obtain ⟨x, hx, he⟩ := List.mem_map.1 hm
      exact h.free_queue hx he
    have := hfree.pushQueue hnd
    rwa [hc.rep.dat] at this
  rw [pushQueue_eq] at hpush ⊢
  apply h.remove
  · exact ⟨hframe.cbNext, hframe.cbPrev, hframe.body, hframe.queue, hframe.ofoNext, hframe.ofoPrev, hframe.qlen,
      hframe.skbNum, hframe.ofo⟩
  · exact fun g hg i hi => h.other_ids hg hi
  · exact hnext
  · intro i hi hg
    obtain ⟨g, hgm, hig⟩ := List.mem_flatMap.1 hi
    rcases (hc.released.gone i).1 hg with hm | hg
    · refine h.other_ids hgm hig ?_
      rw [hshort.ids]
      exact List.mem_append_left _ hm
    · refine (h.live i ?_).2 hg
      simp only [allIds_append, allIds_cons, List.mem_append] at hi ⊢
      tauto
  · exact Nat.le_of_eq hframe.nskb.symm
  · intro i hi
    refine Nat.lt_of_lt_of_eq ?_ hframe.nskb.symm
    rcases (hc.released.gone i).1 hi with hm | hg
    · refine (h.ids_live ?_).1
      rw [hshort.ids]
      exact List.mem_append_left _ hm
    · exact h.gone i hg
  · exact hchain
  · exact hpush.of_eq rfl rfl rfl rfl fun _ _ => rfl
  · exact List.Perm.refl _
  · rfl
  · exact hframe.nskb.trans h.nskb
  · exact hc.released.clock
  · exact hc.released.up.trans (congrArg (· ++ r.2.1) h.up)
  · exact hc.released.stray.trans h.stray

theorem writeHead_eq (s : Napi γ δ) (n : Option SkbId) (hA : ∀ i ∈ heads A, i ∉ s.gone) :
    s.writeHead n (headRef A) = { s with
      next := setLink s.next (heads A).getLast? n
      groList := if heads A = [] then n else s.groList } := by
  unfold headRef setLink
  cases hlast : (heads A).getLast? with
  | none => simp [Napi.writeHead, List.getLast?_eq_none_iff.1 hlast]
  | some i =>
    have hmem : i ∈ heads A := List.mem_of_getLast? hlast
    simp [Napi.writeHead, Napi.touch, hA i hmem, List.ne_nil_of_mem hmem]

/-- The flow `f` is taken off `gro_list`, and when `dev_gro_complete` has released all of it, it is gone. -/
theorem Links.takeOut (h : Links s { l with flows := A ++ f :: B } s.groList) {x : Seg γ} {xs : List (Seg γ)}
    (hx : f.segs = x :: xs) :
    ∃ nx list, ({ s.writeHead (heads B).head? (headRef A) with
        next := Function.update (s.writeHead (heads B).head? (headRef A)).next x.id none } : Napi γ δ) =
        { s with next := nx, groList := list } ∧
      (∀ i ∉ heads (A ++ f :: B), nx i = s.next i) ∧
      Completing { s with next := nx, groList := list } f.q f.dat (setHeadNext none f.segs) ∧
      ∀ u c r, Completed { s with next := nx, groList := list } u c f.q (setHeadNext none f.segs) r →
        Shortened f none r →
        Links (u.pushQueue f.q) { l with
          flows := A ++ B, free := ⟨f.q, r.1⟩ :: l.free, clock := c, up := l.up ++ r.2.1 } (u.pushQueue f.q).groList ∧
        (u.pushQueue f.q).groCount = s.groCount := by
  have hheads : heads (A ++ f :: B) = heads A ++ x.id :: heads B := by rw [heads_append, heads_cons hx]
  have hchain := h.chain
  simp only [hheads] at hchain
  have hnd : (heads A ++ x.id :: heads B).Nodup := hheads ▸ (heads_sublist _).nodup h.nodup
  have hunlink := chain_unlinkEntry hchain hnd
  obtain ⟨-, hndx, hdis⟩ := List.nodup_append.1 hnd
  have hliveA : ∀ i ∈ heads A, i ∉ s.gone := fun i hi =>
    (h.live i (by simp [mem_allIds_of_mem_heads hi])).2
  have hother : ∀ i ∉ heads (A ++ f :: B),
      Function.update (setLink s.next (heads A).getLast? (heads B).head?) x.id none i = s.next i := by
    intro i hi
    simp only [hheads, List.mem_append, List.mem_cons, not_or] at hi
    rw [Function.update_of_ne hi.2.1, setLink_apply, if_neg]
    exact fun hlast => hi.1 (List.mem_of_getLast? hlast)
  have htail : ∀ e ∈ A ++ f :: B, ∀ z ∈ e.segs.tail,
      Function.update (setLink s.next (heads A).getLast? (heads B).head?) x.id none z.id = s.next z.id :=
    fun e he z hz => hother z.id (not_head_of_mem_tail h.nodup he hz)
  refine ⟨Function.update (setLink s.next (heads A).getLast? (heads B).head?) x.id none,
    if heads A = [] then (heads B).head? else s.groList, by rw [writeHead_eq s _ hliveA], hother, ?_, ?_⟩
  · exact h.completing _ _ hx (Function.update_self ..) fun z hz => htail f (by simp) z (by rw [hx]; exact hz)
  intro u c r hu hshort
  have hnext : (u.pushQueue f.q).next = Function.update (setLink s.next (heads A).getLast? (heads B).head?) x.id none := by
    rw [pushQueue_eq]
    exact hu.released.next
  have hlist : (u.pushQueue f.q).groList = if heads A = [] then (heads B).head? else s.groList := by
    rw [pushQueue_eq]
    exact hu.released.groList
  refine ⟨?_, ?_⟩
  · refine Links.emptied _ _ (u.pushQueue f.q).next h hshort hu ?_ ?_
    · intro e he z hz
      rw [hnext]
      refine htail e ?_ z hz
      simp only [List.mem_append, List.mem_cons] at he ⊢
      tauto
    · rw [hnext, hlist, heads_append]
      refine hunlink.congr fun i hi => Function.update_of_ne ?_ _ _
      rcases List.mem_append.1 hi with hi | hi
      · exact hdis i hi x.id (List.mem_cons_self ..)
      · exact fun he => (List.nodup_cons.1 hndx).1 (he ▸ hi)
  · rw [pushQueue_eq]
    exact hu.frame.groCount

/-- There is one flow too many, and the oldest one goes up: `findOldest` finds it, it is taken off `gro_list`, and when
`dev_gro_complete` has released all of it, it is gone. -/
theorem Links.dropOldest {g : Flow γ δ} {P : List (Flow γ δ)} (h : Links s { l with flows := f :: (P ++ [g]) } s.groList)
    {x : Seg γ} {xs : List (Seg γ)} (hf : f.segs = x :: xs) :
    ∃ pp m nx list, s.findOldest s.nskb none x.id = .ok (some pp, m) ∧ g.ids.head? = some m ∧
      ({ (s.writeHead none pp).touch m with next := Function.update (s.writeHead none pp).next m none } : Napi γ δ) =
        { s with next := nx, groList := list } ∧
      Completing { s with next := nx, groList := list } g.q g.dat (setHeadNext none g.segs) ∧
      ∀ u c r, Completed { s with next := nx, groList := list } u c g.q (setHeadNext none g.segs) r →
        Shortened g none r → Links (u.pushQueue g.q)
          { l with flows := f :: P, free := ⟨g.q, r.1⟩ :: l.free, clock := c, up := l.up ++ r.2.1 }
          (u.pushQueue g.q).groList ∧ (u.pushQueue g.q).groCount = s.groCount := by
  have hmid : Links s { l with flows := (f :: P) ++ g :: [] } s.groList := h
  obtain ⟨y, ys, hg⟩ := List.exists_cons_of_ne_nil (h.flows g (by simp)).ne
  have hheads : heads (f :: (P ++ [g])) = x.id :: (heads P ++ [y.id]) := by
    rw [heads_cons hf, heads_append, heads_cons hg]
    rfl
  have hchain := h.chain
  simp only [hheads] at hchain
  have hfuel : (heads P).length < s.nskb := by
    have hle := h.heads_length_le
    simp only [hheads, List.length_cons, List.length_append, List.length_nil] at hle
    omega
  have hold := findOldest_spec none hchain.2 hfuel
  have href : headRef (f :: P) = .next ((x.id :: heads P).getLast (List.cons_ne_nil _ _)) := by
    rw [headRef, heads_cons hf, List.getLast?_eq_some_getLast (List.cons_ne_nil _ _)]
  rw [← href] at hold
  have hy : y.id ∉ s.gone := (hmid.ids_live (by simp [Flow.ids, hg])).2
  have hlive : ∀ i ∈ heads (f :: P), i ∉ s.gone := by
    intro i hi
    refine (hmid.live i ?_).2
    rw [allIds_append]
    exact List.mem_append_left _ (mem_allIds_of_mem_heads hi)
  have htouch : (s.writeHead none (headRef (f :: P))).touch y.id = s.writeHead none (headRef (f :: P)) := by
    rw [writeHead_eq s none hlive, touch_eq (by exact hy)]
  obtain ⟨nx, list, heq, -, hcompleting, hdone⟩ := hmid.takeOut hg
  have hnil : (heads ([] : List (Flow γ δ))).head? = none := rfl
  rw [hnil] at heq
  refine ⟨headRef (f :: P), y.id, nx, list, hold, by simp [Flow.ids, hg], ?_, hcompleting, ?_⟩
  · rw [htouch]
    exact heq
  · simpa only [List.append_nil] using hdone

/-! ### `napi_gro_flush` -/

/-- The memory in the middle of `napi_gro_flush`: the flows `A` are still to be looked at, and those of `l` stay. -/
structure Flushing (s : Napi γ δ) (l : Queues γ δ) (A : List (Flow γ δ)) : Prop where
  links : Links s { l with flows := A ++ l.flows } (heads (A ++ l.flows)).head?
  list : s.groList = (heads l.flows).head?
  count : s.groCount = BitVec.ofNat 32 (A ++ l.flows).length
  bound : (A ++ l.flows).length ≤ maxGroSkbs
  prev : ∃ nx e, Dll nx s.prev none (heads A) e

theorem Flushing.links_mid (h : Flushing s l (A ++ [f])) :
    Links s { l with flows := A ++ f :: l.flows } (heads (A ++ f :: l.flows)).head? := by
  have hlinks := h.links
  rwa [List.append_assoc] at hlinks

/-- The memory at the start of the second loop of `napi_gro_flush`. -/
theorem Rep.flushing (h : Rep s l) :
    ∃ pv, s.reverseChain s.nskb s.groList none = .ok ((heads l.flows).getLast?, { s with prev := pv }) ∧
      Flushing { s with prev := pv, groList := none } { l with flows := [] } l.flows := by
  have hlinks := h.links
  obtain ⟨pv, hrev, hdll, -⟩ := reverseChain_spec (p := none) hlinks.chain ((heads_sublist _).nodup hlinks.nodup)
    (fun i hi => (hlinks.live i (mem_allIds_of_mem_heads hi)).2) hlinks.heads_length_le
  refine ⟨pv, by rw [hrev, Option.or_none], ?_, rfl, ?_, ?_, s.next, none, hdll⟩
  · rw [List.append_nil, ← hlinks.start_eq]
    exact hlinks.setControl ..
  · simpa using h.count
  · simpa using h.bound

theorem heads_concat_getLast? {x : Seg γ} {xs : List (Seg γ)} (hx : f.segs = x :: xs) :
    (heads (A ++ [f])).getLast? = some x.id := by
  rw [heads_append, heads_cons hx]
  simp [heads]

/-- The entry of `gro_list` for the flow `f`, and its neighbours. -/
theorem Flushing.entry (h : Flushing s l (A ++ [f])) {x : Seg γ} {xs : List (Seg γ)} (hx : f.segs = x :: xs) :
    s.next x.id = (heads l.flows).head? ∧ s.prev x.id = (heads A).getLast? ∧ s.outOfOrderQueue x.id = some f.q ∧
      s.body x.id = x.body ∧ x.id ∉ s.gone := by
  have hlinks := h.links_mid
  have hchain := hlinks.chain
  rw [heads_append, heads_cons hx] at hchain
  obtain ⟨m, -, rfl, hchain⟩ := chain_append.1 hchain
  obtain ⟨nx, e, hprev⟩ := h.prev
  rw [heads_append, dll_append, heads_cons hx, dll_cons] at hprev
  have hrep := (hlinks.flows f (by simp)).rep
  exact ⟨hchain.head_eq, by simpa using hprev.2.1, hrep.queue x (by simp [hx]), hrep.body x (by simp [hx]),
    (hlinks.ids_live (by simp [Flow.ids, hx])).2⟩

theorem Flushing.completing (h : Flushing s l (A ++ [f])) {x : Seg γ} {xs : List (Seg γ)} (hx : f.segs = x :: xs) :
    Completing s f.q f.dat (setHeadNext (heads l.flows).head? f.segs) :=
  h.links_mid.completing s.next s.groList hx (h.entry hx).1 fun _ _ => rfl

/-- The clock is read in the middle of `napi_gro_flush`. -/
theorem Flushing.setClock (h : Flushing s l A) (c : Clock) : Flushing { s with clock := c } { l with clock := c } A :=
  ⟨⟨h.links.chain, fun f hf => let g := h.links.flows f hf
    ⟨g.ne, ⟨g.rep.dll, g.rep.body, g.rep.queue, g.rep.qlen, g.rep.skbNum, g.rep.dat⟩, g.next, g.prev, g.stale⟩,
    ⟨h.links.free.first, h.links.free.last, h.links.free.dll, h.links.free.dat⟩, h.links.nodup, h.links.live,
    h.links.gone, h.links.queues, h.links.nskb, rfl, h.links.up, h.links.stray⟩, h.list, h.count, h.bound, h.prev⟩

section

variable {x : Seg γ} {xs : List (Seg γ)}

/-- The first segments of the flows that are still to be looked at are where they were. -/
theorem Flushing.rest_live (h : Flushing s l (A ++ [f])) (hshort : Shortened f (heads l.flows).head? r)
    (hu : Completed s u c f.q (setHeadNext (heads l.flows).head? f.segs) r) : ∀ i ∈ (heads A).getLast?, i ∉ u.gone := by
  intro i hi hg
  have hiA : i ∈ allIds A := mem_allIds_of_mem_heads (List.mem_of_getLast? hi)
  obtain ⟨g, hgA, hig⟩ := List.mem_flatMap.1 hiA
  rcases (hu.released.gone i).1 hg with hm | hg
  · refine h.links_mid.other_ids (List.mem_append_left _ hgA) hig ?_
    rw [hshort.ids]
    exact List.mem_append_left _ hm
  · exact (h.links_mid.live i (by simp [hiA])).2 hg

theorem Flushing.tails (h : Flushing s l (A ++ [f])) : ∀ g ∈ A ++ l.flows, ∀ y ∈ g.segs.tail, y.id ∉ heads A := by
  intro g hg y hy hm
  have hgmem : g ∈ A ++ f :: l.flows := by
    simp only [List.mem_append, List.mem_cons] at hg ⊢
    tauto
  have hnot := not_head_of_mem_tail h.links_mid.nodup hgmem hy
  rw [heads_append] at hnot
  exact hnot (List.mem_append_left _ hm)

theorem Flushing.prev_left (h : Flushing s l (A ++ [f]))
    (hu : Completed s u c f.q (setHeadNext (heads l.flows).head? f.segs) r) : ∃ nx e, Dll nx u.prev none (heads A) e := by
  obtain ⟨nx, e, hdll⟩ := h.prev
  rw [heads_append, dll_append] at hdll
  exact ⟨nx, _, hu.released.prev.symm ▸ hdll.1⟩

theorem Flushing.count_left (h : Flushing s l (A ++ [f]))
    (hu : Completed s u c f.q (setHeadNext (heads l.flows).head? f.segs) r) :
    u.groCount = BitVec.ofNat 32 ((A ++ l.flows).length + 1) := by
  rw [hu.frame.groCount, h.count]
  simp [Nat.add_comm, Nat.add_left_comm]

/-- All segments of the flow `f` have gone up. -/
theorem Flushing.emptied (h : Flushing s l (A ++ [f])) (hx : f.segs = x :: xs)
    (hshort : Shortened f (heads l.flows).head? r)
    (hu : Completed s u c f.q (setHeadNext (heads l.flows).head? f.segs) r) :
    Flushing { (u.pushQueue f.q).setPrevNext (heads A).getLast? (heads l.flows).head? with
        groCount := (u.pushQueue f.q).groCount - 1 }
      { l with free := ⟨f.q, r.1⟩ :: l.free, clock := c, up := l.up ++ r.2.1 } A := by
  have hlinks := h.links_mid
  have hchain := hlinks.chain
  have hheads : heads (A ++ f :: l.flows) = heads A ++ x.id :: heads l.flows := by rw [heads_append, heads_cons hx]
  have hnd : (heads A ++ x.id :: heads l.flows).Nodup := hheads ▸ (heads_sublist _).nodup hlinks.nodup
  simp only [hheads] at hchain
  have hnextu : (u.pushQueue f.q).next = s.next := by
    rw [pushQueue_eq]
    exact hu.released.next
  have hrest := h.rest_live hshort hu
  have hprev := h.prev_left hu
  have hlive : ∀ i ∈ (heads A).getLast?, i ∉ (u.pushQueue f.q).gone := by
    rw [pushQueue_eq]
    exact hrest
  have hbound := h.bound
  simp only [List.length_append, List.length_singleton] at hbound
  rw [setPrevNext_eq _ _ _ hlive]
  refine ⟨?_, ?_, ?_, ?_, ?_⟩
  · apply Links.emptied s.next s.groList _ hlinks hshort hu
    · intro g hg z hz
      refine setLink_apply.trans ?_
      rw [hnextu, if_neg]
      exact fun hlast => h.tails g hg z hz (List.mem_of_getLast? hlast)
    · rw [hnextu, heads_append]
      have hunlink := chain_unlinkEntry hchain hnd
      cases hA : heads A <;> simpa [hA] using hunlink
  · rw [pushQueue_eq]
    exact hu.released.groList.trans h.list
  · rw [pushQueue_eq]
    simp only [h.count_left hu, BitVec.ofNat_add]
    exact BitVec.add_sub_cancel _ _
  · simp only [List.length_append]
    omega
  · rw [pushQueue_eq]
    exact hprev

/-- Some of the segments of the flow `f` stay, and `y` is the first of them. -/
theorem Flushing.shortened (h : Flushing s l (A ++ [f])) (hx : f.segs = x :: xs)
    (hshort : Shortened f (heads l.flows).head? r)
    (hu : Completed s u c f.q (setHeadNext (heads l.flows).head? f.segs) r) {y : Seg γ} {ys : List (Seg γ)}
    (hy : r.2.2 = y :: ys) :
    Flushing { u.setPrevNext (heads A).getLast? (some y.id) with
        next := Function.update (u.setPrevNext (heads A).getLast? (some y.id)).next y.id (heads l.flows).head?
        groList := some y.id }
      { l with flows := ⟨f.q, r.1, r.2.2⟩ :: l.flows, clock := c, up := l.up ++ r.2.1 } A := by
  have hlinks := h.links_mid
  have hchain := hlinks.chain
  have hheads : heads (A ++ f :: l.flows) = heads A ++ x.id :: heads l.flows := by rw [heads_append, heads_cons hx]
  have hnd : (heads A ++ x.id :: heads l.flows).Nodup := hheads ▸ (heads_sublist _).nodup hlinks.nodup
  simp only [hheads] at hchain
  have hnextu : u.next = s.next := hu.released.next
  have hprev := h.prev_left hu
  have hbound := h.bound
  simp only [List.length_append, List.length_singleton] at hbound
  have hrest : r.2.2 ≠ [] := by
    rw [hy]
    exact List.cons_ne_nil y ys
  have hy' : y.id ∈ f.ids := by
    rw [hshort.ids, hy]
    simp
  have hyA : y.id ∉ heads A := by
    intro hm
    obtain ⟨g, hg, hhead⟩ := List.mem_filterMap.1 hm
    exact hlinks.other_ids (List.mem_append_left _ hg) (List.mem_of_head? hhead) hy'
  have hyB : y.id ∉ heads l.flows := by
    intro hm
    obtain ⟨g, hg, hhead⟩ := List.mem_filterMap.1 hm
    exact hlinks.other_ids (List.mem_append_right _ hg) (List.mem_of_head? hhead) hy'
  rw [setPrevNext_eq _ _ _ (h.rest_live hshort hu)]
  refine ⟨?_, ?_, ?_, ?_, ?_⟩
  · have hlink := Links.shortened (linkEntry s.next (heads A) y.id (heads l.flows).head?) (some y.id)
      (heads (A ++ ⟨f.q, r.1, r.2.2⟩ :: l.flows)).head? hlinks hshort hu hrest ?_ ?_ ?_
    · rw [← hnextu] at hlink
      exact hlink
    · intro g hg z hz
      refine linkEntry_of_notMem (h.tails g hg z hz) fun he => ?_
      have hgf := hlinks.other_ids hg (mem_segIds (List.mem_of_mem_tail hz))
      exact hgf (he ▸ hy')
    · intro z hz
      rw [hy, List.tail_cons] at hz
      have hztail : z ∈ f.segs.tail := by
        obtain ⟨rel, hsegs, -⟩ := hshort.split
        have hz' : z ∈ (setHeadNext (heads l.flows).head? f.segs).tail := by
          rw [hsegs, hy]
          cases rel <;> simp [hz]
        rwa [hx] at hz' ⊢
      have hzf : z.id ∈ f.ids := mem_segIds (List.mem_of_mem_tail hztail)
      have hzA : z.id ∉ heads A := by
        intro hm
        obtain ⟨g, hg, hhead⟩ := List.mem_filterMap.1 hm
        exact hlinks.other_ids (List.mem_append_left _ hg) (List.mem_of_head? hhead) hzf
      have hzy : z.id ≠ y.id := by
        intro he
        have hndf := hlinks.ids_nodup
        rw [hshort.ids, hy, segIds_cons] at hndf
        exact (List.nodup_cons.1 (List.nodup_append.1 hndf).2.1).1 (he ▸ mem_segIds hz)
      exact (linkEntry_of_notMem hzA hzy).trans ((hlinks.flows f (by simp)).stale z hztail)
    · have hlinked := chain_linkEntry hchain hnd hyA hyB
      rw [hy, heads_append, heads_mk]
      cases hA : heads A <;> simpa [hA] using hlinked
  · rw [hy]
    exact (congrArg List.head? heads_mk).symm
  · simp only [h.count_left hu]
    simp [Nat.add_assoc]
  · simp only [List.length_append, List.length_cons]
    omega
  · exact hprev

end

end PacketReordering.Gro
