import PacketReordering.Gro.FreeList

/-!
# The loops over `gro_list`

* `groListPrepare_spec`, `findSameFlow_spec` — the search for the flow of a packet;
* `findOldest_spec`, `reverseChain_spec` — the loops that end at the oldest flow;
* `addQueues_spec` — the queue objects that `netif_napi_add` sets up.
-/

namespace PacketReordering.Gro

open Lib

variable {γ δ : Type} {s t : Napi γ δ} {l : Queues γ δ}

/-! ### The search for a flow -/

theorem groListPrepare_some (s : Napi γ δ) (link : LinkHdr) (fuel : ℕ) (p : SkbId) (hp : p ∉ s.gone) :
    s.groListPrepare link fuel (some p) =
      match fuel with
      | 0 => .error .diverges
      | fuel + 1 => ({ s with
          flush := Function.update s.flush p false
          sameFlow := Function.update s.sameFlow p (decide ((s.body p).link = link)) } : Napi γ δ).groListPrepare link
            fuel (s.next p) := by
  cases fuel <;> simp only [Napi.groListPrepare, touch_eq hp]

theorem groListPrepare_spec (link : LinkHdr) {is : List SkbId} {st : Option SkbId} {fuel : ℕ}
    (h : Chain s.next st is none) (hlive : ∀ i ∈ is, i ∉ s.gone) (hfuel : is.length ≤ fuel) :
    ∃ fl sf, s.groListPrepare link fuel st = .ok { s with flush := fl, sameFlow := sf } ∧
      (∀ i ∈ is, fl i = false ∧ sf i = decide ((s.body i).link = link)) ∧
      ∀ i ∉ is, fl i = s.flush i ∧ sf i = s.sameFlow i := by
  induction is generalizing s st fuel with
  | nil =>
    obtain rfl : st = none := h
    refine ⟨s.flush, s.sameFlow, ?_, by simp, fun _ _ => ⟨rfl, rfl⟩⟩
    rw [Napi.groListPrepare.eq_def]
  | cons p is ih =>
    obtain ⟨rfl, hnext⟩ := h
    obtain ⟨fuel, rfl⟩ := Nat.exists_eq_add_of_le' (Nat.le_trans (by simp : 1 ≤ (p :: is).length) hfuel)
    rw [groListPrepare_some s link _ p (hlive p (by simp))]
    obtain ⟨fl, sf, hrun, hin, hout⟩ := @ih { s with
      flush := Function.update s.flush p false
      sameFlow := Function.update s.sameFlow p (decide ((s.body p).link = link)) } (s.next p) fuel hnext
      (fun i hi => hlive i (List.mem_cons_of_mem _ hi)) (by simpa using hfuel)
    refine ⟨fl, sf, hrun, fun i hi => ?_, fun i hi => ?_⟩
    · by_cases hmem : i ∈ is
      · exact hin i hmem
      · obtain rfl : i = p := (List.mem_cons.1 hi).resolve_right hmem
        simpa using hout i hmem
    · rw [List.mem_cons, not_or] at hi
      simpa [hi.1] using hout i hi.2

theorem headRef_concat {P : List (Flow γ δ)} {f : Flow γ δ} {x : Seg γ} {xs : List (Seg γ)} (hx : f.segs = x :: xs) :
    headRef (P ++ [f]) = .next x.id := by
  have hheads : (heads (P ++ [f])).getLast? = some x.id := by
    rw [heads_append, heads_cons hx]
    simp [heads]
  rw [headRef, hheads]

theorem readHead_headRef {P fs : List (Flow γ δ)} (h : Chain s.next s.groList (heads (P ++ fs)) none) :
    s.readHead (headRef P) = (heads fs).head? := by
  rw [heads_append] at h
  obtain ⟨m, h1, h2⟩ := chain_append.1 h
  rw [← h2.head_eq]
  unfold headRef
  cases hlast : (heads P).getLast? with
  | none =>
    rw [List.getLast?_eq_none_iff.1 hlast] at h1
    exact h1
  | some i => exact h1.last_eq hlast

theorem findSameFlow_some (s : Napi γ δ) (ports : U32) (fuel : ℕ) (head : HeadRef) (p : SkbId)
    (hread : s.readHead head = some p) (hp : p ∉ s.gone) :
    s.findSameFlow ports fuel head =
      if s.sameFlow p && ports == (s.body p).tcp.ports then .ok (some (head, p), s)
      else
        match fuel with
        | 0 => .error .diverges
        | fuel + 1 =>
          ({ s with sameFlow := Function.update s.sameFlow p false } : Napi γ δ).findSameFlow ports fuel (.next p) := by
  rw [Napi.findSameFlow.eq_def]
  cases fuel with
  | zero => simp only [hread, touch_eq hp]
  | succ fuel => simp only [hread, touch_eq hp]

/-- What `findSameFlow` returns for what `splitFlow` finds behind the flows `P`. -/
def Searched (s : Napi γ δ) (P : List (Flow γ δ)) (is : List SkbId) (r : Except Fault (Option (HeadRef × SkbId) × Napi γ δ)) :
    Option (List (Flow γ δ) × Flow γ δ × List (Flow γ δ)) → Prop
  | none => ∃ sf, r = .ok (none, { s with sameFlow := sf }) ∧ ∀ i ∉ is, sf i = s.sameFlow i
  | some (A, f, _) => ∃ sf p, r = .ok (some (headRef (P ++ A), p), { s with sameFlow := sf }) ∧ f.ids.head? = some p ∧
      ∀ i ∉ is, sf i = s.sameFlow i

theorem findSameFlow_loop {ports : U32} {m : Flow γ δ → Bool} {P fs : List (Flow γ δ)} {fuel : ℕ}
    (hchain : Chain s.next s.groList (heads (P ++ fs)) none) (hlive : ∀ i ∈ heads fs, i ∉ s.gone)
    (hnd : (heads fs).Nodup) (hne : ∀ f ∈ fs, f.segs ≠ [])
    (hm : ∀ f ∈ fs, ∀ i, f.ids.head? = some i → (s.sameFlow i && ports == (s.body i).tcp.ports) = m f)
    (hfuel : fs.length ≤ fuel) :
    Searched s P (heads fs) (s.findSameFlow ports fuel (headRef P)) (splitFlow m fs) := by
  induction fs generalizing s P fuel with
  | nil =>
    refine ⟨s.sameFlow, ?_, fun _ _ => rfl⟩
    rw [Napi.findSameFlow.eq_def]
    simp only [readHead_headRef hchain]
    rfl
  | cons f fs ih =>
    obtain ⟨x, xs, hx⟩ := List.exists_cons_of_ne_nil (hne f (by simp))
    have hhead : f.ids.head? = some x.id := by simp [Flow.ids, hx]
    rw [heads_cons hx] at hlive hnd ⊢
    have hread : s.readHead (headRef P) = some x.id := by
      rw [readHead_headRef hchain, heads_cons hx, List.head?_cons]
    have hmf := hm f (by simp) x.id hhead
    rw [findSameFlow_some s ports fuel _ x.id hread (hlive x.id (by simp)), splitFlow, hmf]
    by_cases hfm : m f = true
    · rw [if_pos hfm, if_pos hfm]
      refine ⟨s.sameFlow, x.id, ?_, hhead, fun _ _ => rfl⟩
      rw [List.append_nil]
    · rw [if_neg hfm, if_neg hfm]
      obtain ⟨fuel, rfl⟩ := Nat.exists_eq_add_of_le' (Nat.le_trans (by simp : 1 ≤ (f :: fs).length) hfuel)
      obtain ⟨hxnot, hnd'⟩ := List.nodup_cons.1 hnd
      have hchain' : Chain s.next s.groList (heads ((P ++ [f]) ++ fs)) none := by simpa using hchain
      have hrest := @ih { s with sameFlow := Function.update s.sameFlow x.id false } (P ++ [f]) fuel hchain'
        (fun i hi => hlive i (List.mem_cons_of_mem _ hi)) hnd' (fun g hg => hne g (List.mem_cons_of_mem _ hg)) ?_
        (by simpa using hfuel)
      · rw [headRef_concat hx] at hrest
        cases hsplit : splitFlow m fs with
        | none =>
          rw [hsplit] at hrest
          obtain ⟨sf, hrun, hout⟩ := hrest
          refine ⟨sf, hrun, fun i hi => ?_⟩
          rw [List.mem_cons, not_or] at hi
          simpa [hi.1] using hout i hi.2
        | some r =>
          obtain ⟨A, g, B⟩ := r
          rw [hsplit] at hrest
          obtain ⟨sf, p, hrun, hp, hout⟩ := hrest
          refine ⟨sf, p, ?_, hp, fun i hi => ?_⟩
          · rw [List.append_assoc] at hrun
            exact hrun
          · rw [List.mem_cons, not_or] at hi
            simpa [hi.1] using hout i hi.2
      · intro g hg i hi
        have hix : i ≠ x.id := by
          rintro rfl
          exact hxnot (List.mem_filterMap.2 ⟨g, hg, hi⟩)
        simpa [hix] using hm g (List.mem_cons_of_mem _ hg) i hi

/-- **The search of `tcp_gro_receive` finds the first flow that matches.** -/
theorem findSameFlow_spec {ports : U32} {m : Flow γ δ → Bool} {fuel : ℕ} (h : Links s l s.groList)
    (hm : ∀ f ∈ l.flows, ∀ i, f.ids.head? = some i → (s.sameFlow i && ports == (s.body i).tcp.ports) = m f)
    (hfuel : l.flows.length ≤ fuel) :
    Searched s [] (heads l.flows) (s.findSameFlow ports fuel .groList) (splitFlow m l.flows) :=
  findSameFlow_loop (P := []) h.chain (fun i hi => (h.live i (mem_allIds_of_mem_heads hi)).2)
    ((heads_sublist _).nodup h.nodup) (fun f hf => (h.flows f hf).ne) hm hfuel

/-! ### The oldest flow -/

theorem findOldest_spec (pp : Option HeadRef) {is : List SkbId} {x n : SkbId} {fuel : ℕ}
    (h : Chain s.next (s.next n) (is ++ [x]) none) (hfuel : is.length < fuel) :
    s.findOldest fuel pp n = .ok (some (.next ((n :: is).getLast (List.cons_ne_nil n is))), x) := by
  induction is generalizing n fuel pp with
  | nil =>
    obtain ⟨hn, hx⟩ := h
    obtain ⟨fuel, rfl⟩ := Nat.exists_eq_add_of_le' hfuel
    rw [Napi.findOldest.eq_def]
    simp only [hn, List.length_nil]
    rw [Napi.findOldest.eq_def]
    simp only [show s.next x = none from hx]
    rfl
  | cons y is ih =>
    obtain ⟨hn, hx⟩ := h
    obtain ⟨fuel, rfl⟩ := Nat.exists_eq_add_of_le' (Nat.le_trans (by simp : 1 ≤ (y :: is).length + 1) hfuel)
    rw [Napi.findOldest.eq_def]
    simp only [hn]
    rw [ih _ hx (by simpa using hfuel)]
    simp

theorem reverseChain_some (s : Napi γ δ) (fuel : ℕ) (i : SkbId) (p : Option SkbId) (hi : i ∉ s.gone) :
    s.reverseChain fuel (some i) p =
      match fuel with
      | 0 => .error .diverges
      | fuel + 1 =>
        ({ s with prev := Function.update s.prev i p } : Napi γ δ).reverseChain fuel (s.next i) (some i) := by
  cases fuel <;> simp only [Napi.reverseChain, touch_eq hi]

/-- The first loop of `napi_gro_flush` links the buffers back. -/
theorem reverseChain_spec {is : List SkbId} {st p : Option SkbId} {fuel : ℕ} (h : Chain s.next st is none)
    (hnd : is.Nodup) (hlive : ∀ i ∈ is, i ∉ s.gone) (hfuel : is.length ≤ fuel) :
    ∃ pv, s.reverseChain fuel st p = .ok (is.getLast?.or p, { s with prev := pv }) ∧ Dll s.next pv p is none ∧
      ∀ i ∉ is, pv i = s.prev i := by
  induction is generalizing s st p fuel with
  | nil =>
    obtain rfl : st = none := h
    refine ⟨s.prev, ?_, trivial, fun _ _ => rfl⟩
    rw [Napi.reverseChain.eq_def]
    rfl
  | cons i is ih =>
    obtain ⟨rfl, hnext⟩ := h
    obtain ⟨hi, hnd⟩ := List.nodup_cons.1 hnd
    obtain ⟨fuel, rfl⟩ := Nat.exists_eq_add_of_le' (Nat.le_trans (by simp : 1 ≤ (i :: is).length) hfuel)
    rw [reverseChain_some s _ i p (hlive i (by simp))]
    obtain ⟨pv, hrun, hdll, hout⟩ := @ih { s with prev := Function.update s.prev i p } (s.next i) (some i) fuel hnext hnd
      (fun j hj => hlive j (List.mem_cons_of_mem _ hj)) (by simpa using hfuel)
    refine ⟨pv, ?_, ⟨?_, ?_, hdll⟩, fun j hj => ?_⟩
    · refine hrun.trans ?_
      cases is <;> simp [List.getLast?_cons]
    · simpa using hout i hi
    · simpa using hnext.head_eq
    · rw [List.mem_cons, not_or] at hj
      simpa [hj.1] using hout j hj.2

theorem setPrevNext_eq (s : Napi γ δ) (prev x : Option SkbId) (hlive : ∀ i ∈ prev, i ∉ s.gone) :
    s.setPrevNext prev x = { s with next := setLink s.next prev x } := by
  cases prev with
  | none => rfl
  | some p => simp only [Napi.setPrevNext, setLink, touch_eq (hlive p rfl)]

/-! ### The queue objects -/

/-- The loop of `netif_napi_add` puts the new queue objects on the list of free ones. -/
theorem addQueues_spec (clear : OfoDat δ → OfoDat δ) (n : ℕ) (hfirst : s.outOfOrderQueueList = none)
    (hlast : s.outOfOrderQueueLast = none) :
    FreeRep (s.addQueues clear n) ((List.range n).reverse.map fun q => ⟨q, clear (s.ofo q)⟩) ∧
      (∀ q ≥ n, (s.addQueues clear n).ofo q = s.ofo q) ∧ (s.addQueues clear n).groList = s.groList ∧
      (s.addQueues clear n).groCount = s.groCount ∧ (s.addQueues clear n).nskb = s.nskb ∧
      (s.addQueues clear n).clock = s.clock ∧ (s.addQueues clear n).up = s.up ∧
      (s.addQueues clear n).gone = s.gone ∧ (s.addQueues clear n).stray = s.stray := by
  induction n with
  | zero => exact ⟨⟨hfirst, hlast, trivial, by simp⟩, fun _ _ => rfl, rfl, rfl, rfl, rfl, rfl, rfl, rfl⟩
  | succ n ih =>
    obtain ⟨hfree, hdat, hlist, hcount, hnskb, hclock, hup, hgone, hstray⟩ := ih
    rw [Napi.addQueues]
    revert hfree hdat hlist hcount hnskb hclock hup hgone hstray
    generalize s.addQueues clear n = t
    intro hfree hdat hlist hcount hnskb hclock hup hgone hstray
    have hids : ((List.range n).reverse.map fun q => (⟨q, clear (s.ofo q)⟩ : FreeQueue δ)).map FreeQueue.q =
        (List.range n).reverse := by
      simp [Function.comp_def]
    -- the memory in front of `pushQueue`
    let u : Napi γ δ := { t with
      ofoNext := Function.update t.ofoNext n none
      ofoPrev := Function.update t.ofoPrev n none
      qlen := Function.update t.qlen n 0
      skbNum := Function.update t.skbNum n 0
      ofo := Function.update t.ofo n (clear (t.ofo n)) }
    have hu : FreeRep u ((List.range n).reverse.map fun q => ⟨q, clear (s.ofo q)⟩) := by
      refine hfree.of_eq rfl rfl rfl rfl fun x hx => ?_
      obtain ⟨r, hr, rfl⟩ := List.mem_map.1 hx
      have hlt : r < n := by simpa using hr
      exact Function.update_of_ne (Nat.ne_of_lt hlt) _ _
    have hpush := hu.pushQueue (q := n) (by rw [hids]; simp [List.nodup_range])
    have hself : u.ofo n = clear (s.ofo n) := by
      rw [← hdat n (Nat.le_refl n)]
      exact Function.update_self ..
    rw [hself] at hpush
    rw [List.range_succ, List.reverse_append, List.reverse_singleton, List.singleton_append, List.map_cons]
    refine ⟨hpush, fun q hq => ?_, ?_⟩
    · have hne : q ≠ n := by omega
      rw [pushQueue_eq]
      exact (Function.update_of_ne hne _ _).trans (hdat q (by omega))
    · rw [pushQueue_eq]
      exact ⟨hlist, hcount, hnskb, hclock, hup, hgone, hstray⟩

/-- What `out_of_order_queue_last` was does not matter. -/
theorem addQueues_last {clear : OfoDat δ → OfoDat δ} (n : ℕ) (hfirst : s.outOfOrderQueueList = none) :
    s.addQueues clear (n + 1) = ({ s with outOfOrderQueueLast := none } : Napi γ δ).addQueues clear (n + 1) := by
  induction n with
  | zero => simp [Napi.addQueues, pushQueue_eq, hfirst]
  | succ n ih =>
    rw [Napi.addQueues, ih]
    rfl

end PacketReordering.Gro
