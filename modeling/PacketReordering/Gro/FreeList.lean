import PacketReordering.Gro.Release

/-!
# The free queue objects

* `FreeRep.unlinkQueue`, `FreeRep.pushQueue` — the stores to the list of free queue objects;
* `findQueue_spec` — `napi_get_tcp_ofo_queue` takes a queue when there is one;
* `Links.requeue`, `Links.insert`, `Links.remove` — a queue object goes from the free ones to a flow and back.
-/

namespace PacketReordering.Gro

open Lib

variable {γ δ : Type} {s s' t : Napi γ δ} {l : Queues γ δ} {q : OfoId}

section Stores

theorem unlinkQueue_eq (s : Napi γ δ) (q : OfoId) :
    s.unlinkQueue q = { s with
      nextQueue := setLink s.nextQueue (s.prevQueue q) (s.nextQueue q)
      prevQueue := setLink s.prevQueue (s.nextQueue q) (s.prevQueue q)
      outOfOrderQueueList := if s.prevQueue q = none then s.nextQueue q else s.outOfOrderQueueList
      outOfOrderQueueLast := if s.nextQueue q = none then s.prevQueue q else s.outOfOrderQueueLast } := by
  unfold Napi.unlinkQueue setLink
  cases hp : s.prevQueue q with
  | none => cases hn : s.nextQueue q <;> simp [hp, hn]
  | some p =>
    by_cases hpq : p = q
    · subst hpq
      cases s.nextQueue p <;> simp [hp]
    · cases hn : s.nextQueue q <;> simp [hp, hn, Ne.symm hpq]

theorem pushQueue_eq (s : Napi γ δ) (q : OfoId) :
    s.pushQueue q = { s with
      nextQueue := Function.update s.nextQueue q s.outOfOrderQueueList
      prevQueue := setLink (Function.update s.prevQueue q none) s.outOfOrderQueueList (some q)
      outOfOrderQueueList := some q
      outOfOrderQueueLast := if s.outOfOrderQueueList = none then some q else s.outOfOrderQueueLast } := by
  unfold Napi.pushQueue setLink
  cases s.outOfOrderQueueList <;> simp

/-- The free queue objects change only with these fields. -/
theorem FreeRep.of_eq {free : List (FreeQueue δ)} (h : FreeRep s free) (hn : t.nextQueue = s.nextQueue)
    (hp : t.prevQueue = s.prevQueue) (hf : t.outOfOrderQueueList = s.outOfOrderQueueList)
    (hl : t.outOfOrderQueueLast = s.outOfOrderQueueLast) (hdat : ∀ x ∈ free, t.ofo x.q = s.ofo x.q) :
    FreeRep t free where
  first := hf.trans h.first
  last := hl.trans h.last
  dll := by rw [hn, hp]; exact h.dll
  dat x hx := (hdat x hx).trans (h.dat x hx)

theorem FreeRep.unlinkQueue {xs ys : List (FreeQueue δ)} {x : FreeQueue δ} (h : FreeRep s (xs ++ x :: ys))
    (hnd : ((xs ++ x :: ys).map FreeQueue.q).Nodup) : FreeRep (s.unlinkQueue x.q) (xs ++ ys) := by
  have hdll := h.dll
  rw [List.map_append, List.map_cons] at hnd hdll
  obtain ⟨hndx, hndy, hdis⟩ := List.nodup_append.1 hnd
  obtain ⟨hxy, hndy⟩ := List.nodup_cons.1 hndy
  have hlink := hdll
  rw [dll_append, dll_cons] at hlink
  have hprev : s.prevQueue x.q = (xs.map FreeQueue.q).getLast? := by simpa using hlink.2.1
  have hnext : s.nextQueue x.q = (ys.map FreeQueue.q).head? := by simpa using hlink.2.2.1
  rw [unlinkQueue_eq]
  constructor
  · rw [hprev, hnext]
    have hfirst := h.first
    cases xs with
    | nil => simp
    | cons z xs => simpa [List.getLast?_cons] using hfirst
  · rw [hprev, hnext]
    have hlast := h.last
    rcases List.eq_nil_or_concat' ys with rfl | ⟨zs, z, rfl⟩
    · simp
    · cases zs <;> simpa [List.getLast?_append, List.getLast?_cons] using hlast
  · rw [List.map_append]
    have h' : Dll s.nextQueue s.prevQueue none (xs.map FreeQueue.q ++ ([x.q] ++ ys.map FreeQueue.q)) none := by
      simpa using hdll
    have hsplice : Dll (setLink s.nextQueue (s.prevQueue x.q) (s.nextQueue x.q))
        (setLink s.prevQueue (s.nextQueue x.q) (s.prevQueue x.q)) none
        (xs.map FreeQueue.q ++ ([] ++ ys.map FreeQueue.q)) none := by
      refine h'.splice hndx hndy trivial (fun i hi => ?_) fun i hi => ?_
      · have hne : (ys.map FreeQueue.q).head? ≠ some i := fun he =>
          hdis i hi i (List.mem_cons_of_mem _ (List.mem_of_head? he)) rfl
        rw [setLink_apply, setLink_apply, hprev, hnext, if_neg hne]
        exact ⟨rfl, rfl⟩
      · have hne : (xs.map FreeQueue.q).getLast? ≠ some i := fun he =>
          hdis i (List.mem_of_getLast? he) i (List.mem_cons_of_mem _ hi) rfl
        rw [setLink_apply, setLink_apply, hprev, hnext, if_neg hne]
        exact ⟨rfl, rfl⟩
    simpa using hsplice
  · intro y hy
    refine h.dat y ?_
    rcases List.mem_append.1 hy with hy | hy <;> simp [hy]

theorem FreeRep.pushQueue {free : List (FreeQueue δ)} (h : FreeRep s free) (hnd : (q :: free.map FreeQueue.q).Nodup) :
    FreeRep (s.pushQueue q) (⟨q, s.ofo q⟩ :: free) := by
  obtain ⟨hq, hndfree⟩ := List.nodup_cons.1 hnd
  rw [pushQueue_eq]
  have hfirst := h.first
  have hlast := h.last
  constructor
  · rfl
  · rw [hfirst, hlast]
    cases free <;> simp [List.getLast?_cons]
  · rw [List.map_cons, dll_cons]
    have hqfirst : s.outOfOrderQueueList ≠ some q := fun he => hq (List.mem_of_head? (hfirst ▸ he))
    refine ⟨by simp [setLink_apply, hqfirst], by simp [hfirst], h.dll.entry hndfree fun i hi => ?_⟩
    have hiq : i ≠ q := fun he => hq (he ▸ hi)
    refine ⟨Function.update_of_ne hiq _ _, setLink_apply.trans ?_⟩
    rw [hfirst, Function.update_of_ne hiq]
  · intro x hx
    rcases List.mem_cons.1 hx with rfl | hx
    · rfl
    · exact h.dat x hx

end Stores

/-! ### `napi_get_tcp_ofo_queue` -/

/-- The queue object `x` was chosen from `free`, which leaves `rest`. -/
structure Found (s t : Napi γ δ) (free : List (FreeQueue δ)) (x : FreeQueue δ) (rest : List (FreeQueue δ)) : Prop where
  split : ∃ xs y ys, free = xs ++ y :: ys ∧ y.q = x.q ∧ rest = xs ++ ys
  mem : ∃ qlen skbNum, (∀ r ≠ x.q, qlen r = s.qlen r ∧ skbNum r = s.skbNum r) ∧
    t = { s with qlen := qlen, skbNum := skbNum, ofo := Function.update s.ofo x.q x.dat }

theorem findQueue_some (s : Napi γ δ) (fits : U32 → Bool) (reset : OfoDat δ → OfoDat δ) (fuel : ℕ) (q : OfoId)
    (last : Option OfoId) :
    s.findQueue fits reset fuel (some q) last =
      if fits (s.ofo q).hash then .ok (q, s)
      else
        match fuel with
        | 0 => .error .diverges
        | fuel + 1 => s.findQueue fits reset fuel (s.nextQueue q) (some q) := by
  cases fuel <;> cases last <;> rfl

theorem findQueue_loop {fits : U32 → Bool} {reset : OfoDat δ → OfoDat δ} {a : FreeQueue δ} {free : List (FreeQueue δ)}
    {p last : Option OfoId} {fuel : ℕ} (hdll : Dll s.nextQueue s.prevQueue p ((a :: free).map FreeQueue.q) none)
    (hdat : ∀ x ∈ a :: free, s.ofo x.q = x.dat) (hfuel : free.length < fuel) :
    ∃ x rest t, findFree fits reset (a :: free) = some (x, rest) ∧ Found s t (a :: free) x rest ∧
      s.findQueue fits reset fuel (some a.q) last = .ok (x.q, t) := by
  induction free generalizing a p last fuel with
  | nil =>
    rw [findQueue_some, findFree, hdat a (by simp)]
    by_cases hfits : fits a.dat.hash = true
    · rw [if_pos hfits, if_pos hfits]
      refine ⟨_, _, _, rfl, ⟨⟨[], a, [], rfl, rfl, rfl⟩, s.qlen, s.skbNum, fun _ _ => ⟨rfl, rfl⟩, rfl⟩, ?_⟩
      rw [← hdat a (by simp), Function.update_eq_self]
    · rw [if_neg hfits, if_neg hfits]
      obtain ⟨fuel, rfl⟩ := Nat.exists_eq_add_of_le' hfuel
      have hnext : s.nextQueue a.q = none := by simpa using hdll.2.1
      refine ⟨_, _, _, rfl, ⟨⟨[], a, [], rfl, rfl, rfl⟩, Function.update s.qlen a.q 0, Function.update s.skbNum a.q 0,
        fun r hr => ⟨Function.update_of_ne hr _ _, Function.update_of_ne hr _ _⟩, rfl⟩, ?_⟩
      simp only [hnext, List.length_nil]
      rw [Napi.findQueue.eq_def]
      simp only [hdat a (by simp)]
  | cons b free ih =>
    rw [findQueue_some, findFree, hdat a (by simp)]
    by_cases hfits : fits a.dat.hash = true
    · rw [if_pos hfits, if_pos hfits]
      refine ⟨_, _, _, rfl, ⟨⟨[], a, _, rfl, rfl, rfl⟩, s.qlen, s.skbNum, fun _ _ => ⟨rfl, rfl⟩, rfl⟩, ?_⟩
      rw [← hdat a (by simp), Function.update_eq_self]
    · rw [if_neg hfits, if_neg hfits]
      obtain ⟨fuel, rfl⟩ := Nat.exists_eq_add_of_le' (Nat.le_trans (by simp : 1 ≤ (b :: free).length + 1) hfuel)
      have hnext : s.nextQueue a.q = some b.q := by simpa using hdll.2.1
      obtain ⟨x, rest, t, hfree, ⟨⟨xs, y, ys, hsplit, hy, hrest⟩, hmem⟩, ht⟩ := @ih b (some a.q) (some a.q) fuel hdll.2.2
        (fun x hx => hdat x (List.mem_cons_of_mem _ hx)) (by simpa using hfuel)
      refine ⟨x, a :: rest, t, by rw [hfree], ⟨⟨a :: xs, y, ys, ?_, hy, ?_⟩, hmem⟩, ?_⟩
      · rw [hsplit, List.cons_append]
      · rw [hrest, List.cons_append]
      · simpa [hnext] using ht

/-- **There is a queue object to take as long as one is free.** -/
theorem FreeRep.findQueue (fits : U32 → Bool) (reset : OfoDat δ → OfoDat δ) {free : List (FreeQueue δ)} {fuel : ℕ}
    (h : FreeRep s free) (hne : free ≠ []) (hfuel : free.length ≤ fuel) :
    ∃ x rest t, findFree fits reset free = some (x, rest) ∧ Found s t free x rest ∧
      s.findQueue fits reset fuel s.outOfOrderQueueList none = .ok (x.q, t) := by
  obtain ⟨a, free, rfl⟩ := List.exists_cons_of_ne_nil hne
  rw [h.first]
  exact findQueue_loop h.dll h.dat hfuel

/-- The data of one free queue object is written. -/
theorem FreeRep.setDat {xs ys : List (FreeQueue δ)} {x y : FreeQueue δ} (h : FreeRep s (xs ++ y :: ys))
    (hnd : ((xs ++ y :: ys).map FreeQueue.q).Nodup) (hq : y.q = x.q) (hn : t.nextQueue = s.nextQueue)
    (hp : t.prevQueue = s.prevQueue) (hf : t.outOfOrderQueueList = s.outOfOrderQueueList)
    (hl : t.outOfOrderQueueLast = s.outOfOrderQueueLast) (hofo : t.ofo = Function.update s.ofo x.q x.dat) :
    FreeRep t (xs ++ x :: ys) := by
  have hids : (xs ++ x :: ys).map FreeQueue.q = (xs ++ y :: ys).map FreeQueue.q := by simp [hq]
  refine ⟨?_, ?_, ?_, ?_⟩
  · rw [hf, hids]
    exact h.first
  · rw [hl, hids]
    exact h.last
  · rw [hn, hp, hids]
    exact h.dll
  · intro z hz
    rw [hofo]
    rw [List.map_append, List.map_cons, hq] at hnd
    have hnot := (List.nodup_cons.1 (List.nodup_middle.1 hnd)).1
    rw [← List.map_append] at hnot
    have hother : z ∈ xs ++ ys → Function.update s.ofo x.q x.dat z.q = z.dat := by
      intro hmem
      have hne : z.q ≠ x.q := fun he => hnot (he ▸ List.mem_map_of_mem hmem)
      rw [Function.update_of_ne hne]
      refine h.dat z ?_
      rcases List.mem_append.1 hmem with hz | hz <;> simp [hz]
    rcases List.mem_append.1 hz with hz | hz
    · exact hother (List.mem_append_left _ hz)
    · rcases List.mem_cons.1 hz with rfl | hz
      · exact Function.update_self ..
      · exact hother (List.mem_append_right _ hz)

section Found

variable {free rest : List (FreeQueue δ)} {x : FreeQueue δ}

theorem Found.perm (hf : Found s t free x rest) : (x.q :: rest.map FreeQueue.q).Perm (free.map FreeQueue.q) := by
  obtain ⟨xs, y, ys, rfl, hy, rfl⟩ := hf.split
  rw [List.map_append, List.map_append, List.map_cons, hy]
  exact List.perm_middle.symm

theorem Found.unlink (hf : Found s t free x rest) (h : FreeRep s free) (hnd : (free.map FreeQueue.q).Nodup) :
    FreeRep (t.unlinkQueue x.q) rest := by
  obtain ⟨⟨xs, y, ys, rfl, hy, rfl⟩, qlen, skbNum, -, rfl⟩ := hf
  have hids : (xs ++ x :: ys).map FreeQueue.q = (xs ++ y :: ys).map FreeQueue.q := by simp [hy]
  refine FreeRep.unlinkQueue ?_ (hids ▸ hnd)
  exact h.setDat hnd hy rfl rfl rfl rfl rfl

theorem Found.requeue (hf : Found s t free x rest) (h : FreeRep s free) (hnd : (free.map FreeQueue.q).Nodup)
    (d : OfoDat δ) : FreeRep (((t.unlinkQueue x.q).setOfo x.q d).pushQueue x.q) (⟨x.q, d⟩ :: rest) := by
  have hndx : (x.q :: rest.map FreeQueue.q).Nodup := hf.perm.nodup_iff.2 hnd
  have hset : FreeRep ((t.unlinkQueue x.q).setOfo x.q d) rest := by
    refine (hf.unlink h hnd).of_eq rfl rfl rfl rfl fun z hz => ?_
    have hne : z.q ≠ x.q := fun he => (List.nodup_cons.1 hndx).1 (he ▸ List.mem_map_of_mem hz)
    exact Function.update_of_ne hne _ _
  have hpush := hset.pushQueue hndx
  have hself : ((t.unlinkQueue x.q).setOfo x.q d).ofo x.q = d := Function.update_self ..
  rwa [hself] at hpush

end Found

/-! ### Queue objects come and go -/

section Links

variable {A B : List (Flow γ δ)} {f : Flow γ δ} {start start' : Option SkbId} {ids : List SkbId}

/-- The queue objects are numbered from zero. -/
theorem Links.notMem_queues (h : Links s l start) : maxGroSkbs + 1 ∉ l.flows.map Flow.q := by
  intro hmem
  have hrange := h.queues.subset (List.mem_append_left _ hmem)
  simp at hrange

theorem Links.free_nodup (h : Links s l start) : (l.free.map FreeQueue.q).Nodup :=
  (List.nodup_append.1 h.queues_nodup).2.1

/-- At most eight flows are held, so one of the nine queue objects is free. -/
theorem Rep.free_ne_nil (h : Rep s l) : l.free ≠ [] := by
  intro hnil
  have hlen := h.links.queues.length_eq
  rw [hnil] at hlen
  simp only [List.map_nil, List.append_nil, List.length_map, List.length_range] at hlen
  have := h.bound
  omega

theorem Rep.free_length_le (h : Rep s l) : l.free.length ≤ maxGroSkbs + 1 := by
  have hlen := h.links.queues.length_eq
  simp only [List.length_append, List.length_map, List.length_range] at hlen
  omega

/-- Nothing that the held flows consist of has changed. -/
theorem Links.frame (h : Links s l start) (ids : List SkbId) (hfr : CellFrame s t ids q) (hids : ∀ i ∈ allIds l.flows, i ∉ ids)
    (hq : q ∉ l.flows.map Flow.q) (hnext : ∀ i ∈ allIds l.flows, t.next i = s.next i)
    (hgone : ∀ i ∈ allIds l.flows, i ∉ t.gone) (hlt : s.nskb ≤ t.nskb) (hold : ∀ i ∈ t.gone, i < t.nskb)
    {l' : Queues γ δ} (hfree : FreeRep t l'.free)
    (hperm : (l'.free.map FreeQueue.q).Perm (l.free.map FreeQueue.q)) (hflows : l'.flows = l.flows)
    (hnskb : t.nskb = l'.nskb) (hclock : t.clock = l'.clock) (hup : t.up = l'.up) (hstray : t.stray = l'.stray) :
    Links t l' start where
  chain := by
    rw [hflows]
    exact h.chain.congr fun i hi => hnext i (mem_allIds_of_mem_heads hi)
  flows f hf := by
    rw [hflows] at hf
    refine (h.flows f hf).congr hfr (fun he => hq (he ▸ List.mem_map_of_mem hf)) ?_ ?_
    · exact fun i hi => hids i (List.mem_flatMap.2 ⟨f, hf, hi⟩)
    · exact fun x hx => hnext x.id (mem_allIds hf (List.mem_of_mem_tail hx))
  free := hfree
  nodup := by
    rw [hflows]
    exact h.nodup
  live i hi := by
    rw [hflows] at hi
    exact ⟨Nat.lt_of_lt_of_le (h.live i hi).1 hlt, hgone i hi⟩
  gone := hold
  queues := by
    rw [hflows]
    exact (List.Perm.append_left _ hperm).trans h.queues
  nskb := hnskb
  clock := hclock
  up := hup
  stray := hstray

/-- The new flow `f` takes a free queue object. -/
theorem Links.insert (h : Links s l start) (hfr : CellFrame s t ids f.q) (hids : ∀ i ∈ allIds l.flows, i ∉ ids)
    (hnext : ∀ i ∈ allIds l.flows, t.next i = s.next i) (hgone : ∀ i ∈ allIds l.flows, i ∉ t.gone)
    (hlt : s.nskb ≤ t.nskb) (hold : ∀ i ∈ t.gone, i < t.nskb) (hf : Holds t f) (hnd : f.ids.Nodup) (hsub : ∀ i ∈ f.ids, i ∈ ids)
    (hlive : ∀ i ∈ f.ids, i < t.nskb ∧ i ∉ t.gone) (hchain : Chain t.next start' (heads (f :: l.flows)) none)
    {l' : Queues γ δ} (hfree : FreeRep t l'.free)
    (hperm : (f.q :: l'.free.map FreeQueue.q).Perm (l.free.map FreeQueue.q)) (hflows : l'.flows = f :: l.flows)
    (hnskb : t.nskb = l'.nskb) (hclock : t.clock = l'.clock) (hup : t.up = l'.up) (hstray : t.stray = l'.stray) :
    Links t l' start' where
  chain := hflows ▸ hchain
  flows g hg := by
    rw [hflows] at hg
    rcases List.mem_cons.1 hg with rfl | hg
    · exact hf
    · have hne : g.q ≠ f.q := by
        intro he
        have hmem : f.q ∈ l.free.map FreeQueue.q := hperm.subset (List.mem_cons_self ..)
        exact (List.nodup_append.1 h.queues_nodup).2.2 g.q (List.mem_map_of_mem hg) f.q hmem he
      refine (h.flows g hg).congr hfr hne ?_ ?_
      · exact fun i hi => hids i (List.mem_flatMap.2 ⟨g, hg, hi⟩)
      · exact fun x hx => hnext x.id (mem_allIds hg (List.mem_of_mem_tail hx))
  free := hfree
  nodup := by
    rw [hflows, allIds_cons]
    refine List.nodup_append.2 ⟨hnd, h.nodup, ?_⟩
    rintro i hi j hj rfl
    exact hids i hj (hsub i hi)
  live i hi := by
    rw [hflows, allIds_cons, List.mem_append] at hi
    rcases hi with hi | hi
    · exact hlive i hi
    · exact ⟨Nat.lt_of_lt_of_le (h.live i hi).1 hlt, hgone i hi⟩
  gone := hold
  queues := by
    rw [hflows]
    refine List.Perm.trans ?_ h.queues
    have hmid : (f.q :: (l.flows.map Flow.q ++ l'.free.map FreeQueue.q)).Perm
        (l.flows.map Flow.q ++ f.q :: l'.free.map FreeQueue.q) := List.perm_middle.symm
    exact hmid.trans (List.Perm.append_left _ hperm)
  nskb := hnskb
  clock := hclock
  up := hup
  stray := hstray

/-- The flow `f` has gone and its queue object is free again. -/
theorem Links.remove (h : Links s { l with flows := A ++ f :: B } start) (hfr : CellFrame s t ids f.q)
    (hids : ∀ g ∈ A ++ B, ∀ i ∈ g.ids, i ∉ ids)
    (hnext : ∀ g ∈ A ++ B, ∀ x ∈ g.segs.tail, t.next x.id = s.next x.id)
    (hgone : ∀ i ∈ allIds (A ++ B), i ∉ t.gone) (hlt : s.nskb ≤ t.nskb) (hold : ∀ i ∈ t.gone, i < t.nskb)
    (hchain : Chain t.next start' (heads (A ++ B)) none) {l' : Queues γ δ} (hfree : FreeRep t l'.free)
    (hperm : (l'.free.map FreeQueue.q).Perm (f.q :: l.free.map FreeQueue.q)) (hflows : l'.flows = A ++ B)
    (hnskb : t.nskb = l'.nskb) (hclock : t.clock = l'.clock) (hup : t.up = l'.up) (hstray : t.stray = l'.stray) :
    Links t l' start' where
  chain := hflows ▸ hchain
  flows g hg := by
    rw [hflows] at hg
    have hmem : g ∈ A ++ f :: B := by
      simp only [List.mem_append, List.mem_cons] at hg ⊢
      tauto
    exact (h.flows g hmem).congr hfr (h.other_queue hg) (hids g hg) (hnext g hg)
  free := hfree
  nodup := by
    rw [hflows]
    refine h.nodup.sublist ?_
    simp only [allIds_append, allIds_cons]
    exact List.Sublist.append_left (List.sublist_append_right _ _) _
  live i hi := by
    rw [hflows] at hi
    refine ⟨Nat.lt_of_lt_of_le (h.live i ?_).1 hlt, hgone i hi⟩
    simp only [allIds_append, allIds_cons, List.mem_append] at hi ⊢
    tauto
  gone := hold
  queues := by
    rw [hflows]
    refine List.Perm.trans ?_ h.queues
    simp only [List.map_append, List.map_cons]
    calc ((A.map Flow.q ++ B.map Flow.q) ++ l'.free.map FreeQueue.q).Perm
          ((A.map Flow.q ++ B.map Flow.q) ++ f.q :: l.free.map FreeQueue.q) := List.Perm.append_left _ hperm
      _ |>.Perm (f.q :: ((A.map Flow.q ++ B.map Flow.q) ++ l.free.map FreeQueue.q)) := List.perm_middle
      _ |>.Perm ((A.map Flow.q ++ f.q :: B.map Flow.q) ++ l.free.map FreeQueue.q) := by
          rw [← List.cons_append]
          exact List.Perm.append_right _ List.perm_middle.symm
  nskb := hnskb
  clock := hclock
  up := hup
  stray := hstray

/-- The contents of the segment `x` are written. -/
theorem Links.setBody {d : OfoDat δ} {pre post : List (Seg γ)} {x : Seg γ} {b : Body γ}
    (h : Links s { l with flows := A ++ ⟨q, d, pre ++ x :: post⟩ :: B } start) (hlen : b.len = x.body.len) :
    Links (s.setBody x.id b) { l with flows := A ++ ⟨q, d, pre ++ { x with body := b } :: post⟩ :: B } start := by
  have hids : segIds (pre ++ { x with body := b } :: post) = segIds (pre ++ x :: post) := by simp
  have hxmem : x.id ∈ (⟨q, d, pre ++ x :: post⟩ : Flow γ δ).ids := mem_segIds (by simp)
  rw [Napi.setBody, touch_eq (h.ids_live hxmem).2]
  have hf := h.flows ⟨q, d, pre ++ x :: post⟩ (by simp)
  have hrep := hf.rep
  have hnd := h.ids_nodup
  -- a segment of the new queue is `x` or one of the others
  have hsplit : ∀ {P : Seg γ → Prop}, P { x with body := b } → (∀ y ∈ pre ++ post, P y) →
      ∀ y ∈ pre ++ { x with body := b } :: post, P y := by
    intro P hP hQ y hy
    simp only [List.mem_append, List.mem_cons] at hy hQ
    rcases hy with hy | rfl | hy
    · exact hQ y (Or.inl hy)
    · exact hP
    · exact hQ y (Or.inr hy)
  have hold : ∀ y ∈ pre ++ post, y ∈ pre ++ x :: post := by
    intro y hy
    simp only [List.mem_append, List.mem_cons] at hy ⊢
    tauto
  have hne : ∀ y ∈ pre ++ post, y.id ≠ x.id := by
    intro y hy he
    have hnd : (segIds pre ++ x.id :: segIds post).Nodup := by simpa [Flow.ids] using hnd
    refine (List.nodup_cons.1 (List.nodup_middle.1 hnd)).1 ?_
    rw [← he, ← segIds_append]
    exact mem_segIds hy
  apply h.update ⟨q, d, pre ++ { x with body := b } :: post⟩
  · show Frame _ _ (segIds (pre ++ x :: post)) q
    constructor
    case body =>
      intro i hi
      refine Function.update_of_ne ?_ _ _
      rintro rfl
      exact hi hxmem
    all_goals intros; rfl
  · exact fun g hg i hi => h.other_ids hg hi
  · exact fun i hi => (h.ids_live hi).1
  · exact fun _ _ _ _ => rfl
  · rfl
  · refine ⟨by simp, ⟨hids ▸ hrep.dll, ?_, ?_, ?_, ?_, hrep.dat⟩, ?_, ?_, ?_⟩
    · refine hsplit (Function.update_self ..) fun y hy => ?_
      exact (Function.update_of_ne (hne y hy) _ _).trans (hrep.body y (hold y hy))
    · exact hsplit (hrep.queue x (by simp)) fun y hy => hrep.queue y (hold y hy)
    · have hqlen := hrep.qlen
      simpa [totalLen, hlen] using hqlen
    · have hnum := hrep.skbNum
      simpa using hnum
    · rw [Flow.ids, hids]
      exact hf.next
    · rw [Flow.ids, hids]
      exact hf.prev
    · have hstale := hf.stale
      cases pre with
      | nil => exact hstale
      | cons z zs =>
        intro y hy
        simp only [List.cons_append, List.tail_cons] at hstale hy
        simp only [List.mem_append, List.mem_cons] at hy
        rcases hy with hy | rfl | hy
        · exact hstale y (by simp [hy])
        · exact hstale x (by simp)
        · exact hstale y (by simp [hy])
  · have hheads : heads (A ++ ⟨q, d, pre ++ { x with body := b } :: post⟩ :: B) =
        heads (A ++ ⟨q, d, pre ++ x :: post⟩ :: B) := by
      simp only [heads_append, heads_cons_eq, Flow.ids, hids]
    rw [hheads]
    exact h.chain
  · rw [Flow.ids, hids]
    exact hnd
  · rw [Flow.ids, hids]
    exact fun i hi => hi
  · rw [Flow.ids, hids]
    exact fun i hi => h.ids_live hi
  · rfl
  · rfl
  · rfl
  · exact h.clock
  · exact h.up
  · exact h.stray

end Links

end PacketReordering.Gro
