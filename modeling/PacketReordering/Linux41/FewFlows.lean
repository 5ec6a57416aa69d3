import PacketReordering.Linux41.Recent
import PacketReordering.Linux41.Spacing

/-!
# `linux-4.1`: as many flows as there is room for

`gro_list` has room for `MAX_GRO_SKBS` flows, and `netif_napi_add` makes one queue object more.  As long as no more flows
than these send packets, no flow has to go before its time, and no queue object is taken from a flow that may come back.

* `keyOf`, `hashes` — whose the held flows and the queue objects are;
* `Roomy` — every held flow is another one, and no more queue objects have a hash than there are flows with these ports;
* `Roomy.unfilled`, `Roomy.fits` — a new flow finds room on `gro_list` and a queue object;
* `Settled.step` — every call keeps this.
-/

namespace PacketReordering.Linux41

open Lib Gro

/-- The buffer is of the flow `key`. -/
def OfKey (key : FlowKey) (b : Skb) : Prop := b.flowKey = key

/-- The flow whose packets are held in `f`. -/
def keyOf (f : Flow GsoEnd OfoExt) : Option FlowKey := f.segs.head?.map fun x => x.body.flowKey

/-- The hashes of all queue objects. -/
def hashes (l : Lists) : List U32 := l.flows.map (fun f => f.dat.hash) ++ l.free.map fun x => x.dat.hash

/-- The held flow is one of `keys`, and its queue object has its ports. -/
def Known (keys : List FlowKey) (f : Flow GsoEnd OfoExt) : Prop :=
  ∃ key ∈ keys, Bodies (OfKey key) f.segs ∧ f.dat.hash = key.ports

/-- The held flows are different ones of `keys`, and so are the flows that the queue objects are kept for. -/
structure Roomy (keys : List FlowKey) (l : Lists) : Prop where
  known : ∀ f ∈ l.flows, Known keys f
  distinct : (l.flows.map keyOf).Nodup
  room : ∀ h : U32, h ≠ 0 → (hashes l).count h ≤ (keys.map FlowKey.ports).count h
  objects : (hashes l).length = maxGroSkbs + 1

variable {keys : List FlowKey} {key : FlowKey} {l l' : Lists} {pkt : Packet} {b : Skb} {h : U32} {f : Flow GsoEnd OfoExt}
  {x : FreeQueue OfoExt} {rest : List (FreeQueue OfoExt)} {past : List Call}

theorem ofKey_rule : HeldRule (fun _ => True) OfKey where
  pull key b h := by
    unfold Body.pull
    split <;> exact h
  merge key p skb p' skb' hp _ _ hmerge := by
    obtain ⟨-, -, -, -, frags, rfl⟩ := skbGroMerge_merged hmerge
    exact hp
  fresh pkt b flush linear _ _ _ := ⟨b.flowKey, rfl⟩
  join key pkt b flush linear f p segs _ _ hsegs hp hmatch _ := (sameFlowAs_flowKey hsegs hmatch).trans hp

/-! ### Counting queue objects -/

theorem keyOf_eq (hf : Bodies (OfKey key) f.segs) (hne : f.segs ≠ []) : keyOf f = some key := by
  obtain ⟨x, xs, hx⟩ := List.exists_cons_of_ne_nil hne
  rw [keyOf, hx, List.head?_cons, Option.map_some, Option.some.injEq]
  exact hf x (hx ▸ List.mem_cons_self ..)

/-- A packet that no held flow matches is of another flow than those held. -/
theorem keyOf_ne (hunmatched : ∀ f ∈ l.flows, sameFlowAs b f = false) : some b.flowKey ∉ l.flows.map keyOf := by
  rintro hmem
  obtain ⟨f, hf, hkey⟩ := List.mem_map.1 hmem
  obtain ⟨x, hx, hxkey⟩ := Option.map_eq_some_iff.1 hkey
  obtain ⟨xs, hxs⟩ := List.head?_eq_some_iff.1 hx
  have hnot := hunmatched f hf
  rw [Body.flowKey, Body.flowKey, FlowKey.mk.injEq] at hxkey
  obtain ⟨hlink, hproto, hsaddr, hdaddr, hports⟩ := hxkey
  unfold sameFlowAs at hnot
  rw [hxs] at hnot
  simp [sameAddresses, hlink, hproto, hsaddr, hdaddr, hports] at hnot

/-- The ports of a flow, if there is one. -/
def portsOf (key : Option FlowKey) : U32 := (key.map FlowKey.ports).getD 0

theorem Roomy.flows_hashes (hl : Roomy keys l) (hne : ∀ f ∈ l.flows, f.segs ≠ []) :
    l.flows.map (fun f => f.dat.hash) = (l.flows.map keyOf).map portsOf := by
  rw [List.map_map]
  refine List.map_congr_left fun f hf => ?_
  obtain ⟨key, -, hbodies, hhash⟩ := hl.known f hf
  rw [Function.comp_apply, keyOf_eq hbodies (hne f hf)]
  exact hhash

/-- With one flow more there are still no more than `keys`. -/
theorem Roomy.subperm (hl : Roomy keys l) (hne : ∀ f ∈ l.flows, f.segs ≠ []) (hkey : key ∈ keys)
    (hnew : some key ∉ l.flows.map keyOf) : (some key :: l.flows.map keyOf).Subperm (keys.map some) := by
  refine List.subperm_of_subset (List.nodup_cons.2 ⟨hnew, hl.distinct⟩) (List.cons_subset.2 ⟨?_, ?_⟩)
  · exact List.mem_map_of_mem hkey
  · intro o ho
    obtain ⟨f, hf, rfl⟩ := List.mem_map.1 ho
    obtain ⟨key', hkey', hbodies, -⟩ := hl.known f hf
    rw [keyOf_eq hbodies (hne f hf)]
    exact List.mem_map_of_mem hkey'

/-- **A new flow finds room on `gro_list`.** -/
theorem Roomy.unfilled (hl : Roomy keys l) (hne : ∀ f ∈ l.flows, f.segs ≠ []) (hkey : key ∈ keys)
    (hnew : some key ∉ l.flows.map keyOf) (hfew : keys.length ≤ maxGroSkbs) : l.flows.length < maxGroSkbs := by
  have hlen := (hl.subperm hne hkey hnew).length_le
  rw [List.length_cons, List.length_map, List.length_map] at hlen
  omega

/-- If no free queue object has the ports of a new flow, there are fewer with these ports than flows. -/
theorem Roomy.count_lt (hl : Roomy keys l) (hne : ∀ f ∈ l.flows, f.segs ≠ []) (hkey : key ∈ keys)
    (hnew : some key ∉ l.flows.map keyOf) (hnone : ∀ x ∈ l.free, x.dat.hash ≠ key.ports) :
    (hashes l).count key.ports < (keys.map FlowKey.ports).count key.ports := by
  have hfree : (l.free.map fun x => x.dat.hash).count key.ports = 0 := by
    rw [List.count_eq_zero]
    rintro hmem
    obtain ⟨x, hx, hhash⟩ := List.mem_map.1 hmem
    exact hnone x hx hhash
  obtain ⟨os, hperm, hsub⟩ := hl.subperm hne hkey hnew
  have hle := ((hperm.map portsOf).symm.subperm.trans (hsub.map portsOf).subperm).count_le key.ports
  have hsome : (keys.map some).map portsOf = keys.map FlowKey.ports := by
    rw [List.map_map]
    rfl
  rw [hsome, List.map_cons, show portsOf (some key) = key.ports from rfl, List.count_cons_self,
    ← hl.flows_hashes hne] at hle
  rw [hashes, List.count_append, hfree]
  omega

/-- Some queue object has no hash. -/
theorem Roomy.zero_mem (hl : Roomy keys l) (hfew : keys.length ≤ maxGroSkbs) : (0 : U32) ∈ hashes l := by
  by_contra hzero
  have hsub : (hashes l).Subperm (keys.map FlowKey.ports) := by
    refine List.subperm_ext_iff.2 fun h hh => hl.room h ?_
    rintro rfl
    exact hzero hh
  have hlen := hsub.length_le
  rw [hl.objects, List.length_map] at hlen
  omega

/-! ### What `napi_get_tcp_ofo_queue` finds -/

/-- The queue object for a packet with the ports `h`: one that has them, or one without a hash if there is none. -/
inductive FitsQueue (h : U32) (free : List (FreeQueue OfoExt)) (x : FreeQueue OfoExt) (rest : List (FreeQueue OfoExt)) : Prop
  | own {pre post : List (FreeQueue OfoExt)} (hfree : free = pre ++ x :: post) (hrest : rest = pre ++ post)
      (hhash : x.dat.hash = h) (hpre : ∀ y ∈ pre, y.dat.hash ≠ h)
  | unassigned {pre post : List (FreeQueue OfoExt)} (hfree : free = pre ++ x :: post) (hrest : rest = pre ++ post)
      (hzero : x.dat.hash = 0) (hno : ∀ y ∈ free, y.dat.hash ≠ h)

/-- **No queue object is taken from its flow.** -/
theorem Roomy.fits (hl : Roomy keys l) (hfew : keys.length ≤ maxGroSkbs) (horder : FreeOrder l.free)
    (hflows : ∀ f ∈ l.flows, f.dat.hash ≠ 0) (hqueue : findFree (fitsHash h) resetOfo l.free = some (x, rest)) :
    FitsQueue h l.free x rest := by
  obtain ⟨y, hy, hyzero⟩ : ∃ y ∈ l.free, y.dat.hash = 0 := by
    rcases List.mem_append.1 (hl.zero_mem hfew) with hmem | hmem
    · obtain ⟨f, hf, hhash⟩ := List.mem_map.1 hmem
      exact absurd hhash (hflows f hf)
    · exact List.mem_map.1 hmem
  obtain ⟨pre, z, post, hfree, hrest, hpre, hz⟩ := findFree_some hqueue
  rcases hz with ⟨hfits, rfl⟩ | ⟨hfits, rfl, rfl⟩
  · by_cases hhash : x.dat.hash = h
    · exact FitsQueue.own hfree hrest hhash fun y hy => (fitsHash_eq_false.1 (hpre y hy)).1
    · have hzero : x.dat.hash = 0 := by simpa [fitsHash, hhash] using hfits
      refine FitsQueue.unassigned hfree hrest hzero fun y hy => ?_
      rw [hfree] at hy horder
      obtain ⟨-, hafter, -⟩ := List.pairwise_append.1 horder.unassigned
      rcases List.mem_append.1 hy with hy | hy
      · exact (fitsHash_eq_false.1 (hpre y hy)).1
      · rcases List.mem_cons.1 hy with rfl | hy
        · exact hhash
        · rw [List.rel_of_pairwise_cons hafter hy hzero, ← hzero]
          exact hhash
  · -- the last one does not fit, but there is one without a hash
    rw [hfree] at hy
    rcases List.mem_append.1 hy with hy | hy
    · exact absurd hyzero (fitsHash_eq_false.1 (hpre y hy)).2
    · rw [List.mem_singleton.1 hy] at hyzero
      exact absurd hyzero (fitsHash_eq_false.1 hfits).2

/-! ### The calls -/

/-- The hashes are those of `l` in another order, but one queue object without a hash may have got the ports of `key`. -/
theorem Roomy.assign (l' : Lists) (hl : Roomy keys l) (hne : ∀ f ∈ l.flows, f.segs ≠ []) (hkey : key ∈ keys)
    (hnew : some key ∉ l.flows.map keyOf) (hfits : FitsQueue key.ports l.free x rest)
    (hhashes : (hashes l').Perm (key.ports :: (l.flows.map (fun f => f.dat.hash) ++ rest.map fun x => x.dat.hash))) :
    (∀ h : U32, h ≠ 0 → (hashes l').count h ≤ (keys.map FlowKey.ports).count h) ∧
      (hashes l').length = maxGroSkbs + 1 := by
  have hold : ∀ {pre post : List (FreeQueue OfoExt)}, l.free = pre ++ x :: post → rest = pre ++ post →
      (hashes l).Perm (x.dat.hash :: (l.flows.map (fun f => f.dat.hash) ++ rest.map fun x => x.dat.hash)) := by
    intro pre post hfree hrest
    rw [hashes, hfree, hrest, List.map_append, List.map_cons, List.map_append, ← List.append_assoc, ← List.append_assoc]
    exact List.perm_middle
  cases hfits with
  | own hfree hrest hhash hpre =>
    have hsame := hold hfree hrest
    rw [hhash] at hsame
    have hperm := hhashes.trans hsame.symm
    exact ⟨fun h hh => (hperm.count_eq h).trans_le (hl.room h hh), hperm.length_eq.trans hl.objects⟩
  | unassigned hfree hrest hzero hno =>
    have hsame := hold hfree hrest
    rw [hzero] at hsame
    have hlt := hl.count_lt hne hkey hnew hno
    constructor
    · intro h hh
      have hroom := hl.room h hh
      rw [hsame.count_eq, List.count_cons_of_ne hh.symm] at hroom
      rw [hsame.count_eq] at hlt
      rw [hhashes.count_eq]
      by_cases heq : key.ports = h
      · subst heq
        rw [List.count_cons_of_ne hh.symm] at hlt
        rw [List.count_cons_self]
        omega
      · rwa [List.count_cons_of_ne heq]
    · have hlen := hsame.length_eq
      rw [hl.objects, List.length_cons] at hlen
      rw [hhashes.length_eq, List.length_cons, ← hlen]

/-- The packet is not TCP, or it is of one of the flows. -/
def Packet.isOf (keys : List FlowKey) (pkt : Packet) : Bool :=
  match pkt.parse with
  | .tcp b _ _ => decide (b.flowKey ∈ keys)
  | _ => true

theorem Packet.mem_keys {flush linear : Bool} (hpkt : pkt.isOf keys = true) (hparse : pkt.parse = .tcp b flush linear) :
    b.flowKey ∈ keys := by
  unfold Packet.isOf at hpkt
  rw [hparse] at hpkt
  exact of_decide_eq_true hpkt

section

variable {A B : List (Flow GsoEnd OfoExt)} {g : Flow GsoEnd OfoExt} {flush linear : Bool} {k : SkbId} {w : Walked}

theorem Roomy.hash_eq (hl : Roomy keys l) (hmem : f ∈ l.flows) (hf : Bodies (OfKey key) f.segs) (hne : f.segs ≠ []) :
    f.dat.hash = key.ports := by
  obtain ⟨key', -, hf', hhash⟩ := hl.known f hmem
  have hsame := (keyOf_eq hf hne).symm.trans (keyOf_eq hf' hne)
  rw [Option.some.injEq] at hsame
  rw [hhash, hsame]

theorem Roomy.replace (hl : Roomy keys l) (hflows : l.flows = A ++ f :: B) (hflows' : l'.flows = A ++ g :: B)
    (hfree : l'.free = l.free) (hkey : key ∈ keys) (hf : Bodies (OfKey key) f.segs) (hfne : f.segs ≠ [])
    (hg : Bodies (OfKey key) g.segs) (hgne : g.segs ≠ []) (hhash : g.dat.hash = f.dat.hash) : Roomy keys l' := by
  have hmem : f ∈ l.flows := hflows ▸ List.mem_append_right _ (List.mem_cons_self ..)
  have hkeys : l'.flows.map keyOf = l.flows.map keyOf := by
    rw [hflows, hflows', List.map_append, List.map_append, List.map_cons, List.map_cons, keyOf_eq hf hfne, keyOf_eq hg hgne]
  have hhashes : hashes l' = hashes l := by
    rw [hashes, hashes, hfree, hflows, hflows', List.map_append, List.map_append, List.map_cons, List.map_cons, hhash]
  have hports := hl.hash_eq hmem hf hfne
  constructor
  · rw [hflows']
    exact forall_mem_replace hflows hl.known ⟨key, hkey, hg, hhash.trans hports⟩
  · rw [hkeys]
    exact hl.distinct
  · rw [hhashes]
    exact hl.room
  · rw [hhashes]
    exact hl.objects

/-- What the walk leaves of a flow. -/
theorem walkedFlow_of {n : Option SkbId} {q : OfoId} {tr : Track} {segs : List Segment} {inSeq : U32}
    (hb : OfKey key b) (hsegs : Bodies (OfKey key) segs) (hwalk : walkSegs n k (walker b) segs [] inSeq tr = .ok w) :
    Bodies (OfKey key) (walkedFlow k b q w).segs ∧ (walkedFlow k b q w).dat.hash = tr.dat.hash := by
  obtain ⟨hhash, -⟩ := walkSegs_hash hwalk
  have hwalker : OfKey key (walker b) := hb
  obtain ⟨hbodies, -⟩ :=
    walkSegs_keeps (R := fun _ => True) ofKey_rule (fun _ _ _ _ => trivial) hwalker trivial hsegs hwalk
  unfold walkedFlow
  cases w.fate with
  | held => exact ⟨hbodies.pull (ofKey_rule.pull key), hhash⟩
  | merged => exact ⟨hbodies, hhash⟩
  | normal => exact ⟨hbodies, (normalDat_hash _ _ _).1.trans hhash⟩

/-- The flow that a packet is found to be of. -/
theorem Found.ofKey (hl : Roomy keys l) (hne : ∀ f ∈ l.flows, f.segs ≠ []) (hfound : Found l pkt b flush linear A f B) :
    l.flows = A ++ f :: B ∧ b.flowKey ∈ keys ∧ Bodies (OfKey b.flowKey) f.segs ∧ f.segs ≠ [] := by
  obtain ⟨hflows, hmatch, -⟩ := splitFlow_some hfound.split
  have hmem : f ∈ l.flows := hflows ▸ List.mem_append_right _ (List.mem_cons_self ..)
  obtain ⟨key, hkey, hbodies, -⟩ := hl.known f hmem
  obtain ⟨x, xs, hx⟩ := List.exists_cons_of_ne_nil (hne f hmem)
  have hb : b.flowKey = key := (sameFlowAs_flowKey hx hmatch).trans (hbodies x (hx ▸ List.mem_cons_self ..))
  rw [hb]
  exact ⟨hflows, hkey, hbodies, hne f hmem⟩

theorem Arrival.roomy (hl : Roomy keys l) (hfew : keys.length ≤ maxGroSkbs) (horder : FreeOrder l.free)
    (hhash : ∀ f ∈ l.flows, f.dat.hash ≠ 0) (hne : ∀ f ∈ l.flows, f.segs ≠ []) (hports : pkt.hasPorts = true)
    (hpkt : pkt.isOf keys = true) (hne' : ∀ f ∈ l'.flows, f.segs ≠ []) (harrival : Arrival l pkt l') : Roomy keys l' := by
  have hnew : ∀ {b : Skb} {flush linear : Bool}, pkt.parse = .tcp b flush linear →
      splitFlow (sameFlowAs b) l.flows = none → some b.flowKey ∉ l.flows.map keyOf ∧ b.tcpHash = b.flowKey.ports := by
    intro b flush linear hparse hsplit
    exact ⟨keyOf_ne (splitFlow_none hsplit), (parse_tcp hparse).tcpHash⟩
  cases harrival with
  | other hparse => exact ⟨hl.known, hl.distinct, hl.room, hl.objects⟩
  | @unheld b x rest hwhy hqueue =>
    cases hwhy with
    | badHeader hparse => simp [Packet.hasPorts, hparse] at hports
    | tcp hparse hsplit hwhy =>
      obtain ⟨hnot, hb⟩ := hnew hparse hsplit
      rw [hb] at hqueue
      have hfits := hl.fits hfew horder hhash hqueue
      obtain ⟨hroom, hobjects⟩ := hl.assign { l with
        nskb := l.nskb + 1
        free := ⟨x.q, (normalDat (flushDat x.dat b (l.clock.ktime 0)) l.clock.tickKtime b).1⟩ :: rest
        clock := (normalDat (flushDat x.dat b (l.clock.ktime 0)) l.clock.tickKtime b).2
        up := l.up ++ [Parsed.up l.nskb b] } hne (Packet.mem_keys hpkt hparse) hnot hfits (by
          rw [hashes, List.map_cons, (normalDat_hash _ _ _).1, ← hb]
          exact List.perm_middle)
      exact ⟨hl.known, hl.distinct, hroom, hobjects⟩
  | @late b x rest hold hlate =>
    obtain ⟨flush, linear, hparse, -⟩ := hold.parse
    obtain ⟨hnot, hb⟩ := hnew hparse hold.split
    have hqueue := hold.queue
    rw [hb] at hqueue
    have hfits := hl.fits hfew horder hhash hqueue
    have hx : (takenDat x.dat b (l.clock.ktime 0)).hash = b.flowKey.ports := by
      have hsome := takenDat_hash hlate
      have hkeep : (takenDat x.dat b (l.clock.ktime 0)).hash = x.dat.hash := by
        unfold takenDat
        split <;> rfl
      rw [hkeep] at hsome ⊢
      cases hfits with
      | own hfree hrest hhash hpre => exact hhash
      | unassigned hfree hrest hzero hno => exact absurd hzero hsome
    obtain ⟨hroom, hobjects⟩ := hl.assign { l with
      nskb := l.nskb + 1
      free := ⟨x.q, (normalDat (takenDat x.dat b (l.clock.ktime 0)) l.clock.tickKtime b).1⟩ :: rest
      clock := (normalDat (takenDat x.dat b (l.clock.ktime 0)) l.clock.tickKtime b).2
      up := l.up ++ [Parsed.up l.nskb b] } hne (Packet.mem_keys hpkt hparse) hnot hfits (by
        rw [hashes, List.map_cons, (normalDat_hash _ _ _).1, hx]
        exact List.perm_middle)
    exact ⟨hl.known, hl.distinct, hroom, hobjects⟩
  | @fresh b x rest hold hlate hfull =>
    obtain ⟨flush, linear, hparse, -⟩ := hold.parse
    obtain ⟨hnot, hb⟩ := hnew hparse hold.split
    have hqueue := hold.queue
    rw [hb] at hqueue
    have hfits := hl.fits hfew horder hhash hqueue
    have hkey : b.flowKey ∈ keys := Packet.mem_keys hpkt hparse
    have hbodies : Bodies (OfKey b.flowKey) (newFlow x l.nskb b (l.clock.ktime 0)).segs :=
      bodies_cons.2 ⟨ofKey_rule.pull _ _ rfl, bodies_nil⟩
    obtain ⟨hroom, hobjects⟩ := hl.assign { l with
      nskb := l.nskb + 1
      flows := newFlow x l.nskb b (l.clock.ktime 0) :: l.flows
      free := rest
      clock := l.clock.tickKtime } hne hkey hnot hfits (by
        rw [hashes, List.map_cons, ← hb]
        exact List.Perm.refl _)
    refine ⟨List.forall_mem_cons.2 ⟨⟨_, hkey, hbodies, hb⟩, hl.known⟩, ?_, hroom, hobjects⟩
    rw [List.map_cons, keyOf_eq hbodies (List.cons_ne_nil _ _)]
    exact List.nodup_cons.2 ⟨hnot, hl.distinct⟩
  | @evict b x rest P g hold hlate hflows hfull =>
    obtain ⟨flush, linear, hparse, -⟩ := hold.parse
    obtain ⟨hnot, -⟩ := hnew hparse hold.split
    have hlt := hl.unfilled hne (Packet.mem_keys hpkt hparse) hnot hfew
    omega
  | @drop b flush linear A B f hfound hwhy =>
    obtain ⟨hflows, hkey, hf, hfne⟩ := hfound.ofKey hl hne
    refine Roomy.replace (l := { l with nskb := l.nskb + 1 }) ⟨hl.known, hl.distinct, hl.room, hl.objects⟩ hflows rfl rfl
      hkey hf hfne (bodies_setHeadNext.2 hf) (hne' _ (by simp [normalLists])) ((normalDat_hash _ _ _).1.trans dropDat_hash)
  | @walked b flush linear A B f w hfound hwhy hwalk =>
    obtain ⟨hflows, hkey, hf, hfne⟩ := hfound.ofKey hl hne
    obtain ⟨hbodies, hsame⟩ := walkedFlow_of (q := f.q) (b := b) rfl hf hwalk
    have hdat : (walkDat f.dat b).hash = f.dat.hash := by
      unfold walkDat
      split <;> rfl
    have hmem : walkedFlow l.nskb b f.q w ∈ (walkedLists { l with nskb := l.nskb + 1 } l.nskb b A B f.q w).flows := by
      rw [walkedLists_flows]
      simp
    refine Roomy.replace (l := { l with nskb := l.nskb + 1 }) ⟨hl.known, hl.distinct, hl.room, hl.objects⟩ hflows
      walkedLists_flows ?_ hkey hf hfne hbodies (hne' _ hmem) (hsame.trans hdat)
    unfold walkedLists
    cases w.fate <;> rfl

/-- What `napi_gro_flush` has made of the flows `fs` and the lists `l`. -/
structure Flushed (fs : List (Flow GsoEnd OfoExt)) (l l' : Lists) : Prop where
  keys : (l'.flows.map keyOf).Sublist (fs.map keyOf ++ l.flows.map keyOf)
  hashes : (hashes l').Perm (fs.map (fun f => f.dat.hash) ++ hashes l)

theorem flushFlow_flushed {flushOld : Bool} {groOfoTimeout groInseqTimeout : U64} (hf : Bodies (OfKey key) f.segs)
    (hne : f.segs ≠ []) : Flushed [f] l (flushFlow flushOld groOfoTimeout groInseqTimeout f l) := by
  have hhash := completeFlow_hash flushOld groOfoTimeout groInseqTimeout (l.clock.ktime 0) f.dat
    (setHeadNext (heads l.flows).head? f.segs)
  have hrest := (completeFlow_upFrom flushOld groOfoTimeout groInseqTimeout (l.clock.ktime 0) f.dat
    (bodies_setHeadNext (n := (heads l.flows).head?).2 hf)).2
  unfold flushFlow
  simp only
  split
  · constructor
    · exact (List.nil_sublist _).append (List.Sublist.refl _)
    · rw [hashes, List.map_cons, hhash]
      exact List.perm_middle
  · rename_i hstays
    have hstays' := fun hnil => hstays (List.isEmpty_iff.2 hnil)
    constructor
    · rw [List.map_cons, List.map_singleton, List.singleton_append, keyOf_eq hf hne, keyOf_eq (f := ⟨_, _, _⟩) hrest hstays']
    · rw [hashes, List.map_cons, hhash]
      exact List.Perm.refl _

theorem Flushed.cons {fs : List (Flow GsoEnd OfoExt)} {m : Lists} (hfs : Flushed fs l m) (hf : Flushed [f] m l') :
    Flushed (f :: fs) l l' := by
  constructor
  · refine hf.keys.trans ?_
    rw [List.map_singleton, List.singleton_append, List.map_cons, List.cons_append]
    exact hfs.keys.cons_cons _
  · refine hf.hashes.trans ?_
    rw [List.map_singleton, List.singleton_append, List.map_cons, List.cons_append]
    exact hfs.hashes.cons _

theorem flushLists_roomy {flushOld : Bool} {groOfoTimeout groInseqTimeout : U64} (hl : Roomy keys l)
    (hne : ∀ f ∈ l.flows, f.segs ≠ []) : Roomy keys (flushLists l flushOld groOfoTimeout groInseqTimeout) := by
  have hknown : ∀ f ∈ (flushLists l flushOld groOfoTimeout groInseqTimeout).flows, Known keys f := by
    refine flushLists_forall_flows flushOld groOfoTimeout groInseqTimeout (fun f n timestamp r hr hf => ?_) hl.known
    obtain ⟨key, hkey, hbodies, hhash⟩ := hf
    refine ⟨key, hkey, ?_, ?_⟩
    · rw [← hr]
      exact (completeFlow_upFrom _ _ _ _ _ (bodies_setHeadNext.2 hbodies)).2
    · rw [← hr, completeFlow_hash, hhash]
  have hfold : ∀ (fs : List (Flow GsoEnd OfoExt)) (m : Lists), (∀ f ∈ fs, Known keys f ∧ f.segs ≠ []) →
      Flushed fs m (fs.foldr (flushFlow flushOld groOfoTimeout groInseqTimeout) m) := by
    intro fs m hfs
    induction fs with
    | nil => exact ⟨List.Sublist.refl _, List.Perm.refl _⟩
    | cons f fs ih =>
      obtain ⟨⟨⟨key, hkey, hbodies, hhash⟩, hfne⟩, hfs⟩ := List.forall_mem_cons.1 hfs
      exact (ih hfs).cons (flushFlow_flushed hbodies hfne)
  have hflushed := hfold l.flows { l with flows := [] } fun f hf => ⟨hl.known f hf, hne f hf⟩
  have hkeys := hflushed.keys
  rw [List.map_nil, List.append_nil] at hkeys
  have hperm : (hashes (flushLists l flushOld groOfoTimeout groInseqTimeout)).Perm (hashes l) := hflushed.hashes
  exact ⟨hknown, hl.distinct.sublist hkeys, fun h hh => (hperm.count_eq h).trans_le (hl.room h hh),
    hperm.length_eq.trans hl.objects⟩

theorem cleanLists_roomy (hl : Roomy keys l) : Roomy keys (cleanLists l) := by
  have hclean : ∀ (free : List (FreeQueue OfoExt)) (t : U64) {h : U32}, h ≠ 0 →
      ((free.map (cleanQueue t)).map fun x => x.dat.hash).count h ≤ (free.map fun x => x.dat.hash).count h := by
    intro free t h hh
    induction free with
    | nil => exact Nat.le_refl _
    | cons x free ih =>
      rw [List.map_cons, List.map_cons, List.map_cons]
      by_cases hold : 100000000 < t - x.dat.ext.timestamp
      · rw [(cleanQueue_old hold).2, List.count_cons_of_ne hh.symm]
        exact Nat.le_trans ih List.count_le_count_cons
      · rw [cleanQueue_young hold, List.count_cons, List.count_cons]
        omega
  refine ⟨hl.known, hl.distinct, fun h hh => ?_, ?_⟩
  · refine Nat.le_trans ?_ (hl.room h hh)
    rw [hashes, hashes, List.count_append, List.count_append]
    exact Nat.add_le_add_left (hclean _ _ hh) _
  · rw [← hl.objects, hashes, hashes, List.length_append, List.length_append, cleanLists]
    simp

end

/-! ### Runs -/

/-- No more than `MAX_GRO_SKBS` flows send packets, all of them with ports, and the clock does not go back. -/
structure FewFlows (keys : List FlowKey) (cs : List Call) : Prop where
  timely : Timely cs
  known : ∀ c ∈ cs, c.Meets fun pkt => pkt.isOf keys = true
  few : keys.length ≤ maxGroSkbs

/-- The lists between two calls of such a run. -/
structure Settled (keys : List FlowKey) (past : List Call) (l : Lists) : Prop where
  rep : ∃ s, Rep s l
  aged : Aged l past
  roomy : Roomy keys l

theorem Settled.ne (hl : Settled keys past l) : ∀ f ∈ l.flows, f.segs ≠ [] := by
  obtain ⟨s, hrep⟩ := hl.rep
  exact fun f hf => (hrep.links.flows f hf).ne

theorem Settled.init (keys : List FlowKey) (mem : Mem) : Settled keys [] (initLists mem) := by
  refine ⟨⟨_, netifNapiAdd_rep mem⟩, Aged.init mem, fun f hf => absurd hf List.not_mem_nil, List.nodup_nil, ?_, ?_⟩
  · intro h hh
    have hzero : (hashes (initLists mem)).count h = 0 := by
      rw [List.count_eq_zero]
      intro hmem
      obtain ⟨x, hx, rfl⟩ := List.mem_map.1 (show h ∈ (initLists mem).free.map fun x => x.dat.hash from hmem)
      obtain ⟨q, -, rfl⟩ := List.mem_map.1 hx
      exact hh rfl
    rw [hzero]
    exact Nat.zero_le _
  · simp [hashes, initLists]

theorem stepLists_rep {c : Call} (hl : ∃ s, Rep s l) (hstep : stepLists l c = .ok l') : ∃ s, Rep s l' := by
  obtain ⟨s, hrep⟩ := hl
  have hagree := step_spec s l c hrep
  rw [hstep] at hagree
  cases hs : step s c with
  | error e =>
    rw [hs] at hagree
    exact absurd hagree id
  | ok s' =>
    rw [hs] at hagree
    exact ⟨s', hagree⟩

/-- **Every call keeps this.** -/
theorem Settled.step {c : Call} (hl : Settled keys past l) (hcs : FewFlows keys (past ++ [c]))
    (hstep : stepLists l c = .ok l') : Settled keys (past ++ [c]) l' := by
  obtain ⟨s', hrep'⟩ := stepLists_rep hl.rep hstep
  have hne := hl.ne
  have hne' : ∀ f ∈ l'.flows, f.segs ≠ [] := fun f hf => (hrep'.links.flows f hf).ne
  refine ⟨⟨s', hrep'⟩, hl.aged.step hcs.timely hne hstep, ?_⟩
  have hc : c ∈ past ++ [c] := List.mem_append_right _ (List.mem_singleton_self c)
  have hports := hcs.timely.ports c hc
  have hknown := hcs.known c hc
  cases c with
  | receive pkt ktime =>
    have hroomy : Roomy keys { l with clock := { l.clock with ktime := ktime } } :=
      ⟨hl.roomy.known, hl.roomy.distinct, hl.roomy.room, hl.roomy.objects⟩
    exact (receiveLists_ok hstep).roomy hroomy hcs.few hl.aged.order hl.aged.flows hne hports hknown hne'
  | flush flushOld groOfoTimeout groInseqTimeout ktime =>
    cases hstep
    exact flushLists_roomy (l := { l with clock := { l.clock with ktime := ktime } })
      ⟨hl.roomy.known, hl.roomy.distinct, hl.roomy.room, hl.roomy.objects⟩ hne
  | clean ktime =>
    cases hstep
    exact cleanLists_roomy (l := { l with clock := { l.clock with ktime := ktime } })
      ⟨hl.roomy.known, hl.roomy.distinct, hl.roomy.room, hl.roomy.objects⟩

end PacketReordering.Linux41
