import PacketReordering.Gro.Release

/-!
# A packet on its way along a queue

Where the memory has a packet while `tcp_gro_receive` goes along the queue of its flow, and when it is through with it.

* `Absorbed`, `Settled` — where the packet is in the end;
* `ends_drop`, `ends_holdBefore`, `ends_holdLast` — the ways to end that both kernels have.
-/

namespace PacketReordering.Gro

open Lib

variable {γ δ : Type} {s t : Napi γ δ} {l : Queues γ δ} {A B : List (Flow γ δ)} {q : OfoId} {d : OfoDat δ}
  {segs pre rest : List (Seg γ)} {x : Seg γ} {k : SkbId} {b : Body γ}

/-- The payload of the packet `k` is in a held segment; `k` is in no queue. -/
structure Absorbed (s : Napi γ δ) (fs : List (Flow γ δ)) (k : SkbId) : Prop where
  mem : k ∉ allIds fs
  sameFlow : s.sameFlow k = true
  free : (s.body k).free ≠ .no
  lt : k < s.nskb
  live : k ∉ s.gone

/-- Where the packet `k` is when `tcp_gro_receive` is through with it. -/
def Settled (t : Napi γ δ) (fs : List (Flow γ δ)) (q : OfoId) (k : SkbId) (b : Body γ) : Fate → Prop
  | .held => k ∈ allIds fs ∧ t.sameFlow k = true ∧ (t.body k).free = .no
  | .merged => Absorbed t fs k
  | .normal => Arriving t fs q k b ∧ t.flush k = true

/-- The memory `t` holds the flow `⟨q, d, segs⟩` and has the packet where `fate` says. -/
def Ends (l : Queues γ δ) (A B : List (Flow γ δ)) (q : OfoId) (k : SkbId) (b : Body γ) (t : Napi γ δ) (d : OfoDat δ)
    (segs : List (Seg γ)) (fate : Fate) : Prop :=
  Focus t l A B q d segs ∧ Settled t (A ++ ⟨q, d, segs⟩ :: B) q k b fate

/-- The packet goes up as it is. -/
theorem ends_drop (h : Focus s l A B q d segs) (hk : Arriving s (A ++ ⟨q, d, segs⟩ :: B) q k b) :
    Ends l A B q k b (s.setFlush k) d segs .normal :=
  ⟨h.setFlush hk.live, hk.setFlush⟩

/-- The bit `flush` of the packet is set once more. -/
theorem Ends.setFlush {fate : Fate} (h : Ends l A B q k b s d segs fate) : Ends l A B q k b (s.setFlush k) d segs fate := by
  obtain ⟨hfocus, hset⟩ := h
  have hlive : k ∉ s.gone := by
    cases fate with
    | held => exact (hfocus.links.live k hset.1).2
    | merged => exact hset.live
    | normal => exact hset.1.live
  refine ⟨hfocus.setFlush hlive, ?_⟩
  have hkeep : (s.setFlush k).sameFlow = s.sameFlow ∧ (s.setFlush k).body = s.body ∧ (s.setFlush k).nskb = s.nskb ∧
      (s.setFlush k).gone = s.gone := by
    rw [Napi.setFlush, touch_eq hlive]
    exact ⟨rfl, rfl, rfl, rfl⟩
  obtain ⟨hsame, hbody, hnskb, hgone⟩ := hkeep
  cases fate with
  | held => exact ⟨hset.1, by rw [hsame]; exact hset.2.1, by rw [hbody]; exact hset.2.2⟩
  | merged =>
    exact ⟨hset.mem, by rw [hsame]; exact hset.sameFlow, by rw [hbody]; exact hset.free, hnskb.symm ▸ hset.lt,
      hgone.symm ▸ hset.live⟩
  | normal => exact hset.1.setFlush

theorem settled_held (h : Focus t l A B q d segs) (hx : x ∈ segs) (hsame : t.sameFlow x.id = true)
    (hfree : x.body.free = .no) : Settled t (A ++ ⟨q, d, segs⟩ :: B) q x.id b .held :=
  ⟨mem_allIds (f := ⟨q, d, segs⟩) (by simp) hx, hsame, by rw [h.holds.rep.body x hx]; exact hfree⟩

theorem linkBefore_sameFlow (s : Napi γ δ) (len : U32) (head : HeadRef) (pNext : Option SkbId) (p2 : SkbId) :
    (s.linkBefore q k len head pNext p2).sameFlow k = true := by
  unfold Napi.linkBefore
  cases hp : s.cbPrev p2 <;> cases head <;> simp [Napi.setHead, Napi.writeHead, Napi.touch]

theorem linkLast_sameFlow (s : Napi γ δ) (len : U32) (p2 : SkbId) : (s.linkLast q k len p2).sameFlow k = true := by
  simp [Napi.linkLast]

theorem replaceBy_sameFlow (s : Napi γ δ) (len : U32) (head : HeadRef) (pNext : Option SkbId) (p2 : SkbId) :
    (s.replaceBy q k len head pNext p2).sameFlow k = true := by
  unfold Napi.replaceBy
  cases hp : s.cbPrev p2 <;> cases hn : s.cbNext p2 <;> cases head <;>
    simp [Napi.setHead, Napi.writeHead, Napi.touch, Napi.skbGroFree]

/-- The packet is linked in front of the segment `x`. -/
theorem ends_holdBefore (h : Focus s l A B q d (pre ++ x :: rest))
    (hk : Arriving s (A ++ ⟨q, d, pre ++ x :: rest⟩ :: B) q k b) (hfree : b.free = .no) :
    Ends l A B q k b (s.linkBefore q k b.len (headRef A) (heads B).head? x.id) d
      (pre ++ behind (heads B).head? pre ⟨k, none, b⟩ :: x :: rest) .held := by
  rw [behind_new]
  have hfocus := h.linkBefore hk.toLoose
  exact ⟨hfocus, settled_held hfocus (List.mem_append_right _ (List.mem_cons_self ..))
    (linkBefore_sameFlow ..) hfree⟩

/-- The packet is linked behind the last segment `x`. -/
theorem ends_holdLast (h : Focus s l A B q d (pre ++ [x]))
    (hk : Arriving s (A ++ ⟨q, d, pre ++ [x]⟩ :: B) q k b) (hfree : b.free = .no) :
    Ends l A B q k b (s.linkLast q k b.len x.id) d (pre ++ [x, ⟨k, none, b⟩]) .held := by
  have hfocus := h.linkLast hk.toLoose
  exact ⟨hfocus, settled_held hfocus (List.mem_append_right _ (by simp : (⟨k, none, b⟩ : Seg γ) ∈ [x, ⟨k, none, b⟩]))
    (linkLast_sameFlow ..) hfree⟩

/-! ### The packet is in a held segment -/

theorem Absorbed.congr {fs fs' : List (Flow γ δ)} {ids : List SkbId} (h : Absorbed s fs k) (hkept : Kept s t ids)
    (hids : k ∉ ids) (hmem : k ∉ allIds fs') (hnskb : t.nskb = s.nskb) : Absorbed t fs' k where
  mem := hmem
  sameFlow := by rw [hkept.sameFlow]; exact h.sameFlow
  free := by rw [hkept.body]; exact h.free
  lt := hnskb ▸ h.lt
  live hk := h.live ((hkept.gone k hids).1 hk)

/-- The segments up to the last of `pre` have gone. -/
theorem Absorbed.release {d' : OfoDat δ} {n : Option SkbId} (h : Absorbed s (A ++ ⟨q, d, pre ++ rest⟩ :: B) k)
    (hkept : Kept s t (segIds pre)) (hnskb : t.nskb = s.nskb) :
    Absorbed t (A ++ ⟨q, d', setHeadNext n rest⟩ :: B) k := by
  have hmem := h.mem
  simp only [allIds_append, allIds_cons, Flow.ids, List.mem_append, not_or, segIds_append] at hmem
  refine h.congr hkept (by tauto) ?_ hnskb
  simp only [allIds_append, allIds_cons, Flow.ids, List.mem_append, segIds_setHeadNext]
  tauto

/-- The payload of `y` goes to `x`; the packet `k` is where it was. -/
theorem Absorbed.absorb {b' y' : Body γ} {x' y : Seg γ} (h : Focus s l A B q d (pre ++ x :: y :: rest))
    (hk : Absorbed s (A ++ ⟨q, d, pre ++ x :: y :: rest⟩ :: B) k) (hx' : x'.id = x.id) :
    Absorbed ({ s with
      body := Function.update (Function.update s.body x.id b') y.id y'
      sameFlow := Function.update s.sameFlow y.id true }.absorb q x.id y.id)
      (A ++ ⟨q, d, pre ++ x' :: rest⟩ :: B) k := by
  have hmem := hk.mem
  simp only [allIds_append, allIds_cons, Flow.ids, List.mem_append, not_or, segIds_append, segIds_cons, List.mem_cons]
    at hmem
  obtain ⟨hA, ⟨hpre, hkx, hky, hrest⟩, hB⟩ := hmem
  have hnext : ∀ i ∈ s.cbNext y.id, i ∉ s.gone := by
    intro i hi
    have h' : Focus s l A B q d ((pre ++ [x]) ++ y :: rest) := by simpa using h
    rw [h'.dll.2] at hi
    exact (h.links.ids_live (by simp [Flow.ids, List.mem_of_head? hi])).2
  rw [absorb_eq { s with
      body := Function.update (Function.update s.body x.id b') y.id y'
      sameFlow := Function.update s.sameFlow y.id true } (h.seg_live (by simp)) (h.seg_live (by simp)) hnext]
  constructor
  · simp only [allIds_append, allIds_cons, Flow.ids, List.mem_append, segIds_append, segIds_cons, List.mem_cons, hx']
    tauto
  · simp [hky, hk.sameFlow]
  · simpa [hkx, hky] using hk.free
  · exact hk.lt
  · simp [hky, hk.live]

/-- `skb_gro_merge` of two live buffers. -/
theorem skbGroMerge_eq {merge : Body γ → Body γ → MergeResult γ} {p skb : SkbId} (hp : p ∉ s.gone)
    (hskb : skb ∉ s.gone) :
    s.skbGroMerge merge p skb =
      match merge (s.body p) (s.body skb) with
      | .overrun => .error .copyOverrun
      | .failed err => .ok (some err, s)
      | .merged b b' =>
        .ok (none, { s with
          body := Function.update (Function.update s.body p b) skb b'
          sameFlow := Function.update s.sameFlow skb true }) := by
  cases hmerge : merge (s.body p) (s.body skb) <;> simp only [Napi.skbGroMerge, touch_eq hp, touch_eq hskb, hmerge]

end PacketReordering.Gro
