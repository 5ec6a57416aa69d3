import PacketReordering.Linux41.Alike
import PacketReordering.Linux41.BadHeader
import PacketReordering.Linux41.BuildUp
import PacketReordering.Linux41.FewFlows

/-!
# `linux-4.1`: flows do not disturb each other

What happens to the packets with the ports `h` does not depend on the packets with other ports, as long as there are few
flows and no flow is opened with nothing to hold.  Two flows with the same ports, though, may get each other's queue object:
`napi_get_tcp_ofo_queue` compares nothing else.

* `portView` — what there is to see of the packets with the ports `h`;
* `Arrival.portView_eq` — the packet of another flow leaves this as it is;
* `Arrival.alike`, `flushLists_alike`, `cleanLists_alike` — the calls do the same to what looks the same;
* `run_isolated` — a run shows the same as the one without the other flows;
* `keyView`, `run_undisturbed` — the same of one flow, and the run without another one;
* `not_undisturbed_samePorts` — which has to have other ports.
-/

namespace PacketReordering.Linux41

open Lib Gro

/-- The data of the queue and the buffers. -/
def flowView (f : Flow GsoEnd OfoExt) : Dat × List Skb := (f.dat, f.segs.map Seg.body)

/-- The held flows with the ports `h`. -/
def heldView (h : U32) (fs : List (Flow GsoEnd OfoExt)) : List (Dat × List Skb) :=
  (fs.filter fun f => f.dat.hash == h).map flowView

/-- The free queue objects that are kept for flows with the ports `h`. -/
def cachedView (h : U32) (free : List (FreeQueue OfoExt)) : List Dat :=
  (free.filter fun x => x.dat.hash == h).map FreeQueue.dat

/-- What is held with the ports `h`, what is kept for later, and what went up and on which way. -/
structure PortView where
  held : List (Dat × List Skb)
  cached : List Dat
  up : List (Via × Skb)

def portView (h : U32) (l : Lists) : PortView := ⟨heldView h l.flows, cachedView h l.free, upView h l.up⟩

/-- The packet is not TCP, or it has the ports `h`. -/
def Packet.concerns (h : U32) (pkt : Packet) : Bool :=
  match pkt.parse with
  | .tcp b _ _ => b.tcp.ports == h
  | _ => true

/-- The call is not about a packet with other ports than `h`. -/
def Call.concerns (h : U32) : Call → Bool
  | .receive pkt _ => pkt.concerns h
  | _ => true

/-- The clock stands still while `napi_gro_flush` runs. -/
def Call.Steady : Call → Prop
  | .flush _ _ _ ktime => ∀ n, ktime n = ktime 0
  | _ => True

variable {h : U32} {keys keys' : List FlowKey} {past past' : List Call} {l l' m m' : Lists} {pkt : Packet} {b : Skb}
  {fs fs' A B : List (Flow GsoEnd OfoExt)} {f f' : Flow GsoEnd OfoExt} {x x' : FreeQueue OfoExt}
  {free free' rest rest' : List (FreeQueue OfoExt)} {us : List (Up GsoEnd)} {key : FlowKey} {d d' : Dat}

/-! ### The views -/

theorem heldView_append : heldView h (fs ++ fs') = heldView h fs ++ heldView h fs' := by
  rw [heldView, List.filter_append, List.map_append]
  rfl

theorem heldView_cons_self (hf : f.dat.hash = h) :
    heldView h (f :: fs) = flowView f :: heldView h fs := by
  rw [heldView, List.filter_cons_of_pos (by simp [hf]), List.map_cons]
  rfl

theorem heldView_cons_ne (hf : f.dat.hash ≠ h) : heldView h (f :: fs) = heldView h fs := by
  rw [heldView, List.filter_cons_of_neg (by simp [hf])]
  rfl

theorem cachedView_cons_self (hx : x.dat.hash = h) : cachedView h (x :: free) = x.dat :: cachedView h free := by
  rw [cachedView, List.filter_cons_of_pos (by simp [hx]), List.map_cons]
  rfl

theorem cachedView_cons_ne (hx : x.dat.hash ≠ h) : cachedView h (x :: free) = cachedView h free := by
  rw [cachedView, List.filter_cons_of_neg (by simp [hx])]
  rfl

theorem cachedView_append : cachedView h (free ++ free') = cachedView h free ++ cachedView h free' := by
  rw [cachedView, List.filter_append, List.map_append]
  rfl

theorem cachedView_eq_nil (hfree : ∀ x ∈ free, x.dat.hash ≠ h) : cachedView h free = [] := by
  rw [cachedView, List.map_eq_nil_iff, List.filter_eq_nil_iff]
  intro x hx
  simpa using hfree x hx

/-- What goes up of a flow with other ports. -/
theorem upView_eq_nil (hkey : key.ports ≠ h) (hus : ∀ u ∈ us, UpFrom (OfKey key) u) : upView h us = [] := by
  rw [upView, List.map_eq_nil_iff, List.filter_eq_nil_iff]
  intro u hu
  obtain ⟨c, hc, hbody, -⟩ := hus u hu
  have hports : u.body.tcp.ports = key.ports := by
    rw [hbody, ← hc]
    unfold Body.complete
    split <;> rfl
  simpa [hports] using hkey

theorem upView_normal {k : SkbId} : upView h [Parsed.up k b] = if b.tcp.ports = h then [(.normal, b.pull)] else [] := by
  have hports : b.pull.tcp.ports = b.tcp.ports := by
    unfold Body.pull
    split <;> rfl
  rw [upView]
  by_cases heq : b.tcp.ports = h
  · rw [if_pos heq, List.filter_cons_of_pos (by simpa [Parsed.up, hports] using heq)]
    rfl
  · rw [if_neg heq, List.filter_cons_of_neg (by simpa [Parsed.up, hports] using heq)]
    rfl

/-- The queue object that `napi_get_tcp_ofo_queue` finds is the first one to be seen, if there is one. -/
theorem FitsQueue.cachedView_eq (hfits : FitsQueue h free x rest) :
    x.dat.hash = h ∧ cachedView h free = x.dat :: cachedView h rest ∨
      x.dat.hash = 0 ∧ cachedView h free = [] ∧ cachedView h rest = [] := by
  cases hfits with
  | own hfree hrest hhash hpre =>
    refine Or.inl ⟨hhash, ?_⟩
    rw [hfree, hrest, cachedView_append, cachedView_append, cachedView_cons_self hhash, cachedView_eq_nil hpre]
    rfl
  | unassigned hfree hrest hzero hno =>
    refine Or.inr ⟨hzero, cachedView_eq_nil hno, cachedView_eq_nil fun y hy => hno y ?_⟩
    rw [hrest] at hy
    rw [hfree]
    rcases List.mem_append.1 hy with hy | hy
    · exact List.mem_append_left _ hy
    · exact List.mem_append_right _ (List.mem_cons_of_mem _ hy)

/-- The queue object for other ports is not to be seen. -/
theorem FitsQueue.cachedView_of_ne {g : U32} (hfits : FitsQueue g free x rest) (hg : g ≠ h) (hh : h ≠ 0) :
    x.dat.hash ≠ h ∧ cachedView h rest = cachedView h free := by
  have hboth : ∀ {pre post : List (FreeQueue OfoExt)}, free = pre ++ x :: post → rest = pre ++ post → x.dat.hash ≠ h →
      x.dat.hash ≠ h ∧ cachedView h rest = cachedView h free := by
    intro pre post hfree hrest hx
    refine ⟨hx, ?_⟩
    rw [hfree, hrest, cachedView_append, cachedView_append, cachedView_cons_ne hx]
  cases hfits with
  | own hfree hrest hhash hpre => exact hboth hfree hrest (hhash ▸ hg)
  | unassigned hfree hrest hzero hno => exact hboth hfree hrest (hzero ▸ hh.symm)

/-! ### The packet of another flow -/

/-- Nothing of what is seen is replaced. -/
theorem heldView_replace (hf : f.dat.hash ≠ h) (hf' : f'.dat.hash ≠ h) :
    heldView h (A ++ f' :: B) = heldView h (A ++ f :: B) := by
  rw [heldView_append, heldView_append, heldView_cons_ne hf, heldView_cons_ne hf']

/-- The lists in the middle of a call, when there are few flows. -/
structure Fit (keys : List FlowKey) (l : Lists) : Prop where
  roomy : Roomy keys l
  few : keys.length ≤ maxGroSkbs
  order : FreeOrder l.free
  hash : ∀ f ∈ l.flows, f.dat.hash ≠ 0
  ne : ∀ f ∈ l.flows, f.segs ≠ []
  old : ∀ f ∈ l.flows, ∀ x ∈ f.segs, x.id ≠ l.nskb
  free : l.free ≠ []

theorem Settled.fit (hl : Settled keys past l) (hfew : keys.length ≤ maxGroSkbs) (clock : Clock) :
    Fit keys { l with clock := clock } := by
  obtain ⟨s, hrep⟩ := hl.rep
  refine ⟨⟨hl.roomy.known, hl.roomy.distinct, hl.roomy.room, hl.roomy.objects⟩, hfew, hl.aged.order, hl.aged.flows, hl.ne,
    fun f hf x hx => ?_, hrep.free_ne_nil⟩
  have hlt := (hrep.links.live x.id (mem_allIds hf hx)).1
  rw [hrep.links.nskb] at hlt
  exact Nat.ne_of_lt hlt

/-- **The packet of another flow changes nothing of what is seen.** -/
theorem Arrival.portView_eq (hl : Fit keys l) (hh : h ≠ 0) (hpkt : pkt.isOf keys = true) (hother : pkt.concerns h = false)
    (harrival : Arrival l pkt l') : portView h l' = portView h l := by
  obtain ⟨b, flush, linear, hparse, hb⟩ : ∃ b flush linear, pkt.parse = .tcp b flush linear ∧ b.tcp.ports ≠ h := by
    unfold Packet.concerns at hother
    cases hparse : pkt.parse with
    | other b | badHeader b =>
      rw [hparse] at hother
      cases hother
    | tcp b flush linear =>
      rw [hparse] at hother
      exact ⟨b, flush, linear, rfl, by simpa using hother⟩
  have hnormal : ∀ us : List (Up GsoEnd), upView h (us ++ [Parsed.up l.nskb b]) = upView h us := by
    intro us
    rw [upView_append, upView_normal, if_neg hb, List.append_nil]
  have hhash : b.tcpHash = b.tcp.ports := (parse_tcp hparse).tcpHash
  have hbhash : b.tcpHash ≠ h := by rwa [hhash]
  have hqueue : ∀ {x : FreeQueue OfoExt} {rest : List (FreeQueue OfoExt)},
      findFree (fitsHash b.tcpHash) resetOfo l.free = some (x, rest) →
      x.dat.hash ≠ h ∧ cachedView h rest = cachedView h l.free := by
    intro x rest hfind
    rw [hhash] at hfind
    exact (hl.roomy.fits hl.few hl.order hl.hash hfind).cachedView_of_ne hb hh
  have hparsed : ∀ {c : Skb} {fl li : Bool}, pkt.parse = .tcp c fl li → c = b := by
    intro c fl li hc
    rw [hparse, Parsed.tcp.injEq] at hc
    exact hc.1.symm
  cases harrival with
  | other hparse' =>
    rw [hparse] at hparse'
    cases hparse'
  | @unheld b' x rest hwhy hfind =>
    cases hwhy with
    | badHeader hparse' =>
      rw [hparse] at hparse'
      cases hparse'
    | tcp hparse' hsplit hwhy =>
      obtain rfl := hparsed hparse'
      obtain ⟨-, hrest⟩ := hqueue hfind
      have hdat : (normalDat (flushDat x.dat b' (l.clock.ktime 0)) l.clock.tickKtime b').1.hash ≠ h := by
        rw [(normalDat_hash _ _ _).1]
        exact hbhash
      show PortView.mk _ (cachedView h (_ :: rest)) (upView h (l.up ++ _)) = _
      rw [cachedView_cons_ne hdat, hrest, hnormal]
      rfl
  | @late b' x rest hold hlate =>
    obtain ⟨fl, li, hparse', -⟩ := hold.parse
    obtain rfl := hparsed hparse'
    obtain ⟨hx, hrest⟩ := hqueue hold.queue
    have hdat : (normalDat (takenDat x.dat b' (l.clock.ktime 0)) l.clock.tickKtime b').1.hash ≠ h := by
      have hkeep : (takenDat x.dat b' (l.clock.ktime 0)).hash = x.dat.hash := by
        unfold takenDat
        split <;> rfl
      rw [(normalDat_hash _ _ _).1, hkeep]
      exact hx
    show PortView.mk _ (cachedView h (_ :: rest)) (upView h (l.up ++ _)) = _
    rw [cachedView_cons_ne hdat, hrest, hnormal]
    rfl
  | @fresh b' x rest hold hlate hfull =>
    obtain ⟨fl, li, hparse', -⟩ := hold.parse
    obtain rfl := hparsed hparse'
    obtain ⟨-, hrest⟩ := hqueue hold.queue
    have hdat : (newFlow x l.nskb b' (l.clock.ktime 0)).dat.hash ≠ h := hbhash
    show PortView.mk (heldView h (_ :: l.flows)) (cachedView h rest) _ = _
    rw [heldView_cons_ne hdat, hrest]
    rfl
  | @evict b' x rest P g hold hlate hflows hfull =>
    obtain ⟨fl, li, hparse', -⟩ := hold.parse
    have hnew := keyOf_ne (splitFlow_none hold.split)
    have hlt := hl.roomy.unfilled hl.ne (Packet.mem_keys hpkt hparse') hnew hl.few
    omega
  | @drop b' fl li A B f hfound hwhy =>
    obtain rfl := hparsed hfound.parse
    obtain ⟨hflows, -, hf, hfne⟩ := hfound.ofKey hl.roomy hl.ne
    have hfhash : f.dat.hash ≠ h := by
      rw [hl.roomy.hash_eq (hflows ▸ List.mem_append_right _ (List.mem_cons_self ..)) hf hfne]
      exact hb
    have hdat : (normalDat (dropDat f b' fl li) l.clock (walker b')).1.hash ≠ h := by
      rw [(normalDat_hash _ _ _).1, dropDat_hash]
      exact hfhash
    show PortView.mk (heldView h (A ++ _ :: B)) _ (upView h (l.up ++ [Parsed.up l.nskb (walker b')])) = _
    rw [heldView_replace hfhash hdat, ← hflows, upView_append, upView_normal, if_neg (show (walker b').tcp.ports ≠ h from hb),
      List.append_nil]
    rfl
  | @walked b' fl li A B f w hfound hwhy hwalk =>
    obtain rfl := hparsed hfound.parse
    obtain ⟨hflows, -, hf, hfne⟩ := hfound.ofKey hl.roomy hl.ne
    have hfhash : f.dat.hash ≠ h := by
      rw [hl.roomy.hash_eq (hflows ▸ List.mem_append_right _ (List.mem_cons_self ..)) hf hfne]
      exact hb
    obtain ⟨-, hsame⟩ := walkedFlow_of (q := f.q) (b := b') rfl hf hwalk
    have hdat : (walkedFlow l.nskb b' f.q w).dat.hash ≠ h := by
      rw [hsame, walkDat]
      split <;> exact hfhash
    have hwalker : OfKey b'.flowKey (walker b') := rfl
    have hrelease : ∀ (tr : Track) xs, Bodies (OfKey b'.flowKey) xs → upView h tr.up = upView h l.up →
        upView h (tr.release xs).up = upView h l.up := by
      intro tr xs hxs htr
      unfold Track.release
      split
      · exact htr
      · show upView h (tr.up ++ _) = _
        rw [upView_append, htr, upView_eq_nil (show b'.flowKey.ports ≠ h from hb) (flushSegs_upFrom hxs), List.append_nil]
    obtain ⟨-, hup⟩ := walkSegs_keeps (R := fun tr => upView h tr.up = upView h l.up) ofKey_rule hrelease hwalker rfl hf hwalk
    have hups : upView h (walkedLists { l with nskb := l.nskb + 1 } l.nskb b' A B f.q w).up = upView h l.up := by
      unfold walkedLists
      cases w.fate with
      | held | merged => exact hup
      | normal =>
        show upView h (w.track.up ++ [Parsed.up l.nskb (walker b')]) = _
        rw [upView_append, upView_normal, if_neg (show (walker b').tcp.ports ≠ h from hb), List.append_nil, hup]
    rw [portView, walkedLists_flows, walkedLists_free, hups, heldView_replace hfhash hdat, ← hflows]
    rfl

/-! ### A packet with the ports `h` -/

theorem sameFlowAs_alike (hview : flowView f = flowView f') : sameFlowAs b f = sameFlowAs b f' := by
  have hf : f.segs.map Seg.body = f'.segs.map Seg.body := congrArg Prod.snd hview
  unfold sameFlowAs
  cases hsegs : f.segs with
  | nil =>
    rw [hsegs] at hf
    rw [List.map_eq_nil_iff.1 hf.symm]
  | cons p ps =>
    rw [hsegs] at hf
    obtain ⟨p', ps', hsegs', hp, -⟩ := List.map_eq_cons_iff.1 hf.symm
    rw [hsegs']
    simp only [hp]

theorem heldView_replace_alike (hA : heldView h A = heldView h fs) (hB : heldView h B = heldView h fs')
    (hf : flowView f = flowView f') (hhash : f.dat.hash = h) : heldView h (A ++ f :: B) = heldView h (fs ++ f' :: fs') := by
  have hdat : f.dat = f'.dat := congrArg Prod.fst hf
  rw [heldView_append, heldView_append, heldView_cons_self hhash, heldView_cons_self (hdat ▸ hhash), hA, hB, hf]

/-- A search that does not find what is not seen does not need it. -/
theorem splitFlow_filter {m : Flow GsoEnd OfoExt → Bool} (hmatch : ∀ f ∈ fs, m f = true → f.dat.hash = h) :
    splitFlow m (fs.filter fun f => f.dat.hash == h) = (splitFlow m fs).map fun r =>
      (r.1.filter fun f => f.dat.hash == h, r.2.1, r.2.2.filter fun f => f.dat.hash == h) := by
  induction fs with
  | nil => rfl
  | cons g fs ih =>
    obtain ⟨hg, hfs⟩ := List.forall_mem_cons.1 hmatch
    by_cases hhash : g.dat.hash = h
    · rw [List.filter_cons_of_pos (by simpa using hhash), splitFlow, splitFlow, ih hfs]
      by_cases hm : m g = true
      · rw [if_pos hm, if_pos hm]
        rfl
      · rw [if_neg hm, if_neg hm]
        cases splitFlow m fs with
        | none => rfl
        | some r =>
          simp only [Option.map_some, List.filter_cons_of_pos (p := fun f => f.dat.hash == h) (a := g) (by simpa using hhash)]
    · rw [List.filter_cons_of_neg (by simpa using hhash), splitFlow, ih hfs, if_neg (fun hm => hhash (hg hm))]
      cases splitFlow m fs with
      | none => rfl
      | some r =>
        simp only [Option.map_some, List.filter_cons_of_neg (p := fun f => f.dat.hash == h) (a := g) (by simpa using hhash)]

/-- The search for the flow of a packet does the same on lists of the same flows. -/
theorem splitFlow_map (hview : fs.map flowView = fs'.map flowView) :
    splitFlow (sameFlowAs b) fs = none ∧ splitFlow (sameFlowAs b) fs' = none ∨
      ∃ A f B A' f' B', splitFlow (sameFlowAs b) fs = some (A, f, B) ∧ splitFlow (sameFlowAs b) fs' = some (A', f', B') ∧
        A.map flowView = A'.map flowView ∧ flowView f = flowView f' ∧ B.map flowView = B'.map flowView := by
  induction fs generalizing fs' with
  | nil =>
    rw [List.map_eq_nil_iff.1 hview.symm]
    exact Or.inl ⟨rfl, rfl⟩
  | cons g fs ih =>
    obtain ⟨g', fs', rfl, hg, hfs⟩ := List.map_eq_cons_iff.1 hview.symm
    rw [splitFlow, splitFlow, sameFlowAs_alike hg]
    by_cases hm : sameFlowAs b g = true
    · rw [if_pos hm, if_pos hm]
      exact Or.inr ⟨[], g, fs, [], g', fs', rfl, rfl, rfl, hg.symm, hfs.symm⟩
    · rw [if_neg hm, if_neg hm]
      rcases ih hfs.symm with ⟨hnone, hnone'⟩ | ⟨A, f, B, A', f', B', hsome, hsome', hA, hf, hB⟩
      · rw [hnone, hnone']
        exact Or.inl ⟨rfl, rfl⟩
      · rw [hsome, hsome']
        refine Or.inr ⟨g :: A, f, B, g' :: A', f', B', rfl, rfl, ?_, hf, hB⟩
        rw [List.map_cons, List.map_cons, hg, hA]

/-- The search for the flow of a packet does the same on both lists. -/
theorem splitFlow_alike (hview : heldView h fs = heldView h fs') (hmatch : ∀ f ∈ fs, sameFlowAs b f = true → f.dat.hash = h)
    (hmatch' : ∀ f ∈ fs', sameFlowAs b f = true → f.dat.hash = h) :
    splitFlow (sameFlowAs b) fs = none ∧ splitFlow (sameFlowAs b) fs' = none ∨
      ∃ A f B A' f' B', splitFlow (sameFlowAs b) fs = some (A, f, B) ∧ splitFlow (sameFlowAs b) fs' = some (A', f', B') ∧
        heldView h A = heldView h A' ∧ flowView f = flowView f' ∧ heldView h B = heldView h B' := by
  have hfilter := splitFlow_filter hmatch
  have hfilter' := splitFlow_filter hmatch'
  rcases splitFlow_map (b := b) hview with ⟨hnone, hnone'⟩ | ⟨A, f, B, A', f', B', hsome, hsome', hA, hf, hB⟩
  · rw [hnone] at hfilter
    rw [hnone'] at hfilter'
    exact Or.inl ⟨Option.map_eq_none_iff.1 hfilter.symm, Option.map_eq_none_iff.1 hfilter'.symm⟩
  · rw [hsome] at hfilter
    rw [hsome'] at hfilter'
    obtain ⟨⟨A₁, f₁, B₁⟩, hsplit, heq⟩ := Option.map_eq_some_iff.1 hfilter.symm
    obtain ⟨⟨A₂, f₂, B₂⟩, hsplit', heq'⟩ := Option.map_eq_some_iff.1 hfilter'.symm
    simp only [Prod.mk.injEq] at heq heq'
    obtain ⟨rfl, rfl, rfl⟩ := heq
    obtain ⟨rfl, rfl, rfl⟩ := heq'
    exact Or.inr ⟨A₁, f₁, B₁, A₂, f₂, B₂, hsplit, hsplit', hA, hf, hB⟩

/-- What `napi_get_tcp_ofo_queue` finds on both lists. -/
inductive QueuesAlike (h : U32) (x x' : FreeQueue OfoExt) : Prop
  | own (hhash : x.dat.hash = h) (hdat : x.dat = x'.dat)
  | unassigned (hzero : x.dat.hash = 0) (hzero' : x'.dat.hash = 0)

theorem findFree_alike (hl : Fit keys l) (hl' : Fit keys' l') (hview : cachedView h l.free = cachedView h l'.free)
    (hfind : findFree (fitsHash h) resetOfo l.free = some (x, rest)) :
    ∃ x' rest', findFree (fitsHash h) resetOfo l'.free = some (x', rest') ∧ QueuesAlike h x x' ∧
      cachedView h rest = cachedView h rest' := by
  cases hfind' : findFree (fitsHash h) resetOfo l'.free with
  | none => exact absurd (findFree_none hfind') hl'.free
  | some r =>
    obtain ⟨x', rest'⟩ := r
    have hfits := (hl.roomy.fits hl.few hl.order hl.hash hfind).cachedView_eq
    have hfits' := (hl'.roomy.fits hl'.few hl'.order hl'.hash hfind').cachedView_eq
    refine ⟨x', rest', rfl, ?_⟩
    rcases hfits with ⟨hhash, hfree⟩ | ⟨hzero, hfree, hrest⟩
    · rcases hfits' with ⟨hhash', hfree'⟩ | ⟨hzero', hfree', hrest'⟩
      · rw [hfree, hfree', List.cons.injEq] at hview
        exact ⟨QueuesAlike.own hhash hview.1, hview.2⟩
      · rw [hfree, hfree'] at hview
        cases hview
    · rcases hfits' with ⟨hhash', hfree'⟩ | ⟨hzero', hfree', hrest'⟩
      · rw [hfree, hfree'] at hview
        cases hview
      · exact ⟨QueuesAlike.unassigned hzero hzero', hrest.trans hrest'.symm⟩

theorem normalDat_alike {clock clock' : Clock} (hktime : clock.ktime = clock'.ktime) :
    (normalDat d clock b).1 = (normalDat d clock' b).1 := by
  rw [normalDat_dat, normalDat_dat, hktime]

/-- The data of the queue object that a packet with nothing to hold opens. -/
theorem flushDat_alike {clock clock' : Clock} (timestamp : U64) (hx : QueuesAlike h x x')
    (hktime : clock.ktime = clock'.ktime) (hopens : x.dat.hash = 0 → before b.seq b.seqEnd = true) :
    (normalDat (flushDat x.dat b timestamp) clock b).1 = (normalDat (flushDat x'.dat b timestamp) clock' b).1 := by
  cases hx with
  | own hhash hdat => rw [hdat, normalDat_alike hktime]
  | unassigned hzero hzero' =>
    have hmove := hopens hzero
    rw [flushDat_unassigned hzero, flushDat_unassigned hzero', normalDat_dat, normalDat_dat, if_pos hmove, if_pos hmove, hktime]
    rfl

theorem takenDat_alike (timestamp : U64) (hx : QueuesAlike h x x') :
    { takenDat x.dat b timestamp with hash := h } = { takenDat x'.dat b timestamp with hash := h } ∧
      (takenDat x.dat b timestamp).seqNext = (takenDat x'.dat b timestamp).seqNext := by
  cases hx with
  | own hhash hdat =>
    rw [hdat]
    exact ⟨rfl, rfl⟩
  | unassigned hzero hzero' =>
    simp only [takenDat, hzero, hzero']
    exact ⟨rfl, rfl⟩

theorem upView_concat_alike {k k' : SkbId} {us' : List (Up GsoEnd)} (hus : upView h us = upView h us') :
    upView h (us ++ [Parsed.up k b]) = upView h (us' ++ [Parsed.up k' b]) := by
  rw [upView_append, upView_append, hus, upView_normal, upView_normal]

theorem portView_eq_iff : portView h l = portView h l' ↔
    heldView h l.flows = heldView h l'.flows ∧ cachedView h l.free = cachedView h l'.free ∧ upView h l.up = upView h l'.up := by
  rw [portView, portView, PortView.mk.injEq]

/-- The ways of `Arrival` are those that `dev_gro_receive` takes. -/
theorem Arrival.receiveLists_eq (harrival : Arrival l pkt m) : receiveLists l pkt = .ok m := by
  unfold receiveLists
  cases harrival with
  | other hparse =>
    rw [hparse]
  | unheld hwhy hfind =>
    cases hwhy with
    | badHeader hparse =>
      rw [hparse]
      simp only [receiveFlushLists, hfind]
    | tcp hparse hsplit hwhy =>
      rw [hparse]
      simp only [receiveTcpLists, hsplit, hwhy, if_true, receiveFlushLists, hfind]
  | late hold hlate =>
    obtain ⟨flush, linear, hparse, hwhy⟩ := hold.parse
    have hcount := Parsed.up_pull_eq (parse_tcp hparse).count
    rw [hparse]
    simp only [receiveTcpLists, hold.split, hwhy, Bool.false_eq_true, if_false, receiveNewLists, hcount, hold.queue, hlate,
      if_true]
  | @fresh b x rest hold hlate hfull =>
    obtain ⟨flush, linear, hparse, hwhy⟩ := hold.parse
    have hcount := (parse_tcp hparse).count
    rw [hparse]
    simp only [receiveTcpLists, hold.split, hwhy, Bool.false_eq_true, if_false, receiveNewLists, Parsed.up_pull_eq hcount,
      hold.queue, hlate, receiveHeldLists, if_neg (Nat.not_le.2 hfull), newFlow, hcount]
  | @evict b x rest P g hold hlate hflows hfull =>
    obtain ⟨flush, linear, hparse, hwhy⟩ := hold.parse
    have hcount := (parse_tcp hparse).count
    have hlast : l.flows.getLast? = some g := by rw [hflows, List.getLast?_concat]
    have hinit : l.flows.dropLast = P := by rw [hflows, List.dropLast_concat]
    rw [hparse]
    simp only [receiveTcpLists, hold.split, hwhy, Bool.false_eq_true, if_false, receiveNewLists, Parsed.up_pull_eq hcount,
      hold.queue, hlate, receiveHeldLists, if_pos hfull, hlast, hinit, newFlow, hcount]
    rfl
  | drop hfound hwhy =>
    rw [hfound.parse]
    unfold notHeld isLate at hwhy
    simp only [receiveTcpLists, hfound.split, receiveFoundLists, hwhy, if_true]
    rfl
  | @walked b flush linear A B f w hfound hwhy hwalk =>
    rw [hfound.parse]
    unfold notHeld isLate at hwhy
    have hwalk' := hwalk
    unfold walker walkDat at hwalk'
    simp only [receiveTcpLists, hfound.split, receiveFoundLists, hwhy, Bool.false_eq_true, if_false, hwalk']
    unfold walkedLists
    cases w.fate <;> rfl

/-- A flow that a packet matches has its ports. -/
theorem Fit.hash_of_match (hl : Fit keys l) : ∀ f ∈ l.flows, sameFlowAs b f = true → f.dat.hash = b.tcp.ports := by
  intro f hf hmatch
  obtain ⟨key, -, hbodies, hhash⟩ := hl.roomy.known f hf
  obtain ⟨x, xs, hx⟩ := List.exists_cons_of_ne_nil (hl.ne f hf)
  have hkey : b.flowKey = key := (sameFlowAs_flowKey hx hmatch).trans (hbodies x (hx ▸ List.mem_cons_self ..))
  rw [hhash, ← hkey]
  rfl

theorem notHeld_alike {flush linear : Bool} (hview : flowView f = flowView f') :
    notHeld f b flush linear = notHeld f' b flush linear := by
  have hsegs : f.segs.map Seg.body = f'.segs.map Seg.body := congrArg Prod.snd hview
  have hhead : f.segs.head?.map Seg.body = f'.segs.head?.map Seg.body := by rw [← List.head?_map, hsegs, List.head?_map]
  have hany : ∀ o : Option Segment, o.any (fun p => ttlOrDfDiffer b.ip p.body.ip) =
      (o.map Seg.body).any fun c => ttlOrDfDiffer b.ip c.ip := by
    intro o
    cases o <;> rfl
  rw [notHeld, notHeld, hany, hany, hhead]

/-- What the walk leaves of two flows that look the same. -/
theorem walkedFlow_alike {k k' : SkbId} {q q' : OfoId} {w w' : Walked} (hw : WalkedAlike h k k' w w') :
    flowView (walkedFlow k b q w) = flowView (walkedFlow k' b q' w') := by
  have hfate := hw.fate
  unfold walkedFlow flowView
  rw [← hfate]
  cases w.fate with
  | held => simp only [hw.track.dat, hw.segs.pull]
  | merged => simp only [hw.track.dat, hw.segs.bodies]
  | normal => simp only [hw.track.dat, hw.segs.bodies, normalDat_alike hw.track.ktime]

theorem walkedLists_alike {k k' : SkbId} {q q' : OfoId} {w w' : Walked} {A' B' : List (Flow GsoEnd OfoExt)}
    (hw : WalkedAlike h k k' w w') :
    upView h (walkedLists l k b A B q w).up = upView h (walkedLists l' k' b A' B' q' w').up := by
  have hfate := hw.fate
  unfold walkedLists
  rw [← hfate]
  cases w.fate with
  | held | merged => exact hw.track.up
  | normal => exact upView_concat_alike hw.track.up

/-- **A packet with the ports `h` finds the same on both lists**, and does the same to them. -/
theorem Arrival.alike (hl : Fit keys l) (hl' : Fit keys' l') (hh : h ≠ 0) (hview : portView h l = portView h l')
    (hktime : l.clock.ktime = l'.clock.ktime) (hpkt : pkt.isOf keys = true) (hpkt' : pkt.isOf keys' = true)
    (hconcerns : pkt.concerns h = true) (hports : pkt.hasPorts = true) (hopens : opensFlow l pkt)
    (harrival : Arrival l pkt m) : ∃ m', Arrival l' pkt m' ∧ portView h m = portView h m' := by
  obtain ⟨hheld, hcached, hup⟩ := portView_eq_iff.1 hview
  have hb : ∀ {b : Skb} {flush linear : Bool}, pkt.parse = .tcp b flush linear → b.tcp.ports = h ∧ b.tcpHash = h := by
    intro b flush linear hparse
    unfold Packet.concerns at hconcerns
    rw [hparse] at hconcerns
    have hbports : b.tcp.ports = h := by simpa using hconcerns
    exact ⟨hbports, (parse_tcp hparse).tcpHash.trans hbports⟩
  have hsplits := fun {b : Skb} (hbports : b.tcp.ports = h) =>
    splitFlow_alike (b := b) hheld (hbports ▸ hl.hash_of_match) (hbports ▸ hl'.hash_of_match)
  have hnone : ∀ {b : Skb}, b.tcp.ports = h → splitFlow (sameFlowAs b) l.flows = none →
      splitFlow (sameFlowAs b) l'.flows = none := by
    intro b hbports hsplit
    rcases hsplits hbports with ⟨-, hnone⟩ | ⟨A, f, B, A', f', B', hsome, -⟩
    · exact hnone
    · rw [hsplit] at hsome
      cases hsome
  have htick : l.clock.tickKtime.ktime = l'.clock.tickKtime.ktime := by
    unfold Clock.tickKtime
    rw [hktime]
  cases harrival with
  | other hparse => exact ⟨_, Arrival.other hparse, portView_eq_iff.2 ⟨hheld, hcached, upView_concat_alike hup⟩⟩
  | @unheld b x rest hwhy hfind =>
    cases hwhy with
    | badHeader hparse => simp [Packet.hasPorts, hparse] at hports
    | tcp hparse hsplit hwhy =>
      obtain ⟨hbports, hbhash⟩ := hb hparse
      rw [hbhash] at hfind
      obtain ⟨x', rest', hfind', hx, hrest⟩ := findFree_alike hl hl' hcached hfind
      have hmove : x.dat.hash = 0 → before b.seq b.seqEnd = true := fun hzero =>
        opensMarked_of_unassigned (hopens b (Unheld.tcp hparse hsplit hwhy)) (hbhash.symm ▸ hfind) hzero (hbhash.symm ▸ hh)
      have hdat := flushDat_alike (b := b) (l'.clock.ktime 0) hx htick hmove
      have hhash := (normalDat_hash (flushDat x.dat b (l'.clock.ktime 0)) l.clock.tickKtime b).1.trans hbhash
      refine ⟨_, Arrival.unheld (Unheld.tcp hparse (hnone hbports hsplit) hwhy) (hbhash.symm ▸ hfind'),
        portView_eq_iff.2 ⟨hheld, ?_, upView_concat_alike hup⟩⟩
      show cachedView h (_ :: rest) = cachedView h (_ :: rest')
      rw [hktime, cachedView_cons_self hhash, cachedView_cons_self (hdat ▸ hhash), hrest]
      exact congrArg (· :: _) hdat
  | @late b x rest hold hlate =>
    obtain ⟨flush, linear, hparse, hwhy⟩ := hold.parse
    obtain ⟨hbports, hbhash⟩ := hb hparse
    obtain ⟨x', rest', hfind', hx, hrest⟩ := findFree_alike hl hl' hcached (hbhash ▸ hold.queue)
    have hsome := takenDat_hash hlate
    cases hx with
    | unassigned hzero hzero' =>
      refine absurd ?_ hsome
      unfold takenDat
      split <;> exact hzero
    | own hhash hdat =>
      have hold' : Holdable l' pkt b x' rest' :=
        ⟨⟨flush, linear, hparse, hwhy⟩, hnone hbports hold.split, hbhash.symm ▸ hfind'⟩
      have hdatEq : (normalDat (takenDat x.dat b (l.clock.ktime 0)) l.clock.tickKtime b).1 =
          (normalDat (takenDat x'.dat b (l'.clock.ktime 0)) l'.clock.tickKtime b).1 := by
        rw [hdat, hktime, normalDat_alike htick]
      have hhash' : (normalDat (takenDat x.dat b (l.clock.ktime 0)) l.clock.tickKtime b).1.hash = h := by
        rw [(normalDat_hash _ _ _).1, ← hhash]
        unfold takenDat
        split <;> rfl
      refine ⟨_, Arrival.late hold' (by rw [← hdat, ← hktime]; exact hlate),
        portView_eq_iff.2 ⟨hheld, ?_, upView_concat_alike hup⟩⟩
      show cachedView h (_ :: rest) = cachedView h (_ :: rest')
      rw [cachedView_cons_self hhash', cachedView_cons_self (hdatEq ▸ hhash'), hrest]
      exact congrArg (· :: _) hdatEq
  | @fresh b x rest hold hlate hfull =>
    obtain ⟨flush, linear, hparse, hwhy⟩ := hold.parse
    obtain ⟨hbports, hbhash⟩ := hb hparse
    obtain ⟨x', rest', hfind', hx, hrest⟩ := findFree_alike hl hl' hcached (hbhash ▸ hold.queue)
    obtain ⟨hdat, hseq⟩ := takenDat_alike (b := b) (l'.clock.ktime 0) hx
    have hsplit' := hnone hbports hold.split
    have hold' : Holdable l' pkt b x' rest' := ⟨⟨flush, linear, hparse, hwhy⟩, hsplit', hbhash.symm ▸ hfind'⟩
    have hfull' := hl'.roomy.unfilled hl'.ne (Packet.mem_keys hpkt' hparse) (keyOf_ne (splitFlow_none hsplit')) hl'.few
    have hnew : flowView (newFlow x l.nskb b (l.clock.ktime 0)) = flowView (newFlow x' l'.nskb b (l'.clock.ktime 0)) := by
      rw [flowView, flowView, newFlow, newFlow, hktime, hbhash]
      exact Prod.ext hdat rfl
    refine ⟨_, Arrival.fresh hold' (by rw [← hseq, ← hktime]; exact hlate) hfull', portView_eq_iff.2 ⟨?_, hrest, hup⟩⟩
    show heldView h (_ :: l.flows) = heldView h (_ :: l'.flows)
    rw [heldView_cons_self hbhash, heldView_cons_self hbhash, hnew, hheld]
  | @evict b x rest P g hold hlate hflows hfull =>
    obtain ⟨flush, linear, hparse, -⟩ := hold.parse
    have hlt := hl.roomy.unfilled hl.ne (Packet.mem_keys hpkt hparse) (keyOf_ne (splitFlow_none hold.split)) hl.few
    omega
  | @drop b flush linear A B f hfound hwhy =>
    obtain ⟨hbports, -⟩ := hb hfound.parse
    rcases hsplits hbports with ⟨hnot, -⟩ | ⟨A₁, f₁, B₁, A', f', B', hsome, hsome', hA, hf, hB⟩
    · rw [hfound.split] at hnot
      cases hnot
    rw [hfound.split, Option.some.injEq, Prod.mk.injEq, Prod.mk.injEq] at hsome
    obtain ⟨rfl, rfl, rfl⟩ := hsome
    have hdat : f.dat = f'.dat := congrArg Prod.fst hf
    have hsegs : f.segs.map Seg.body = f'.segs.map Seg.body := congrArg Prod.snd hf
    obtain ⟨hflows, hmatch, -⟩ := splitFlow_some hfound.split
    have hhash := (hl.hash_of_match f (hflows ▸ List.mem_append_right _ (List.mem_cons_self ..)) hmatch).trans hbports
    refine ⟨_, Arrival.drop ⟨hfound.parse, hsome'⟩ (by rw [← notHeld_alike hf, ← hdat]; exact hwhy),
      portView_eq_iff.2 ⟨?_, hcached, upView_concat_alike hup⟩⟩
    have hsame : dropDat f b flush linear = dropDat f' b flush linear := by
      rw [dropDat, dropDat, notHeld_alike hf, hdat]
    refine heldView_replace_alike hA hB ?_ ((normalDat_hash _ _ _).1.trans (dropDat_hash.trans hhash))
    have hbodies : ∀ (n : Option SkbId) (xs : List Segment), (setHeadNext n xs).map Seg.body = xs.map Seg.body := by
      intro n xs
      cases xs <;> rfl
    show ((normalDat (dropDat f b flush linear) l.clock (walker b)).1, (setHeadNext _ f.segs).map Seg.body) =
      ((normalDat (dropDat f' b flush linear) l'.clock (walker b)).1, (setHeadNext _ f'.segs).map Seg.body)
    rw [hsame, normalDat_alike hktime, hbodies, hbodies, hsegs]
  | @walked b flush linear A B f w hfound hwhy hwalk =>
    obtain ⟨hbports, -⟩ := hb hfound.parse
    rcases hsplits hbports with ⟨hnot, -⟩ | ⟨A₁, f₁, B₁, A', f', B', hsome, hsome', hA, hf, hB⟩
    · rw [hfound.split] at hnot
      cases hnot
    rw [hfound.split, Option.some.injEq, Prod.mk.injEq, Prod.mk.injEq] at hsome
    obtain ⟨rfl, rfl, rfl⟩ := hsome
    have hdat : f.dat = f'.dat := congrArg Prod.fst hf
    have hsegs : f.segs.map Seg.body = f'.segs.map Seg.body := congrArg Prod.snd hf
    obtain ⟨hflows, hmatch, -⟩ := splitFlow_some hfound.split
    have hmem : f ∈ l.flows := hflows ▸ List.mem_append_right _ (List.mem_cons_self ..)
    have hmem' : f' ∈ l'.flows := (splitFlow_some hsome').1 ▸ List.mem_append_right _ (List.mem_cons_self ..)
    have hhash := (hl.hash_of_match f hmem hmatch).trans hbports
    have halike : SegsAlike l.nskb l'.nskb f.segs f'.segs := SegsAlike.of_bodies hsegs (hl.old f hmem) (hl'.old f' hmem')
    have htrack : TrackAlike h ⟨walkDat f.dat b, l.clock, l.up⟩ ⟨walkDat f'.dat b, l'.clock, l'.up⟩ :=
      ⟨by rw [hdat], hktime, hup⟩
    have hagree : Agree (WalkedAlike h l.nskb l'.nskb)
        (walkSegs (heads B).head? l.nskb (walker b) f.segs [] (walkDat f.dat b).seqNext ⟨walkDat f.dat b, l.clock, l.up⟩)
        (walkSegs (heads B').head? l'.nskb (walker b) f'.segs [] (walkDat f'.dat b).seqNext
          ⟨walkDat f'.dat b, l'.clock, l'.up⟩) := by
      rw [← hdat]
      exact walkSegs_alike (hdat ▸ htrack) SegsAlike.nil halike
    rw [hwalk] at hagree
    obtain ⟨w', hwalk', hw⟩ := hagree.exists_ok
    refine ⟨_, Arrival.walked ⟨hfound.parse, hsome'⟩ (by rw [← notHeld_alike hf, ← hdat]; exact hwhy) hwalk',
      portView_eq_iff.2 ⟨?_, ?_, walkedLists_alike hw⟩⟩
    · rw [walkedLists_flows, walkedLists_flows]
      refine heldView_replace_alike hA hB (walkedFlow_alike hw) ?_
      obtain ⟨hwhash, -⟩ := walkSegs_hash hwalk
      have hwdat : (walkedFlow l.nskb b f.q w).dat.hash = w.track.dat.hash := by
        unfold walkedFlow
        cases w.fate with
        | held | merged => rfl
        | normal => exact (normalDat_hash _ _ _).1
      rw [hwdat, hwhash, ← hhash]
      show (walkDat f.dat b).hash = f.dat.hash
      unfold walkDat
      split <;> rfl
    · rw [walkedLists_free, walkedLists_free]
      exact hcached

/-! ### `napi_gro_flush` -/

/-- Lists that show the same, at a time `t` that does not pass. -/
structure ShowsSame (h : U32) (t : U64) (l l' : Lists) : Prop where
  view : portView h l = portView h l'
  clock : ∀ n, l.clock.ktime n = t
  clock' : ∀ n, l'.clock.ktime n = t

section

variable {flushOld : Bool} {groOfoTimeout groInseqTimeout t : U64}

/-- The loop over a flow with other ports does not change what is seen. -/
theorem ShowsSame.flushOther (hsame : ShowsSame h t l l') (hf : Known keys f) (hne : f.dat.hash ≠ h) :
    ShowsSame h t (flushFlow flushOld groOfoTimeout groInseqTimeout f l) l' := by
  obtain ⟨key, -, hbodies, hhash⟩ := hf
  have hup := upView_eq_nil (hhash ▸ hne) (completeFlow_upFrom flushOld groOfoTimeout groInseqTimeout (l.clock.ktime 0)
    f.dat (bodies_setHeadNext (n := (heads l.flows).head?).2 hbodies)).1
  have hleft : (completeFlow flushOld groOfoTimeout groInseqTimeout (l.clock.ktime 0) f.dat
      (setHeadNext (heads l.flows).head? f.segs)).1.hash ≠ h := by
    rw [completeFlow_hash]
    exact hne
  have hview : portView h (flushFlow flushOld groOfoTimeout groInseqTimeout f l) = portView h l := by
    unfold flushFlow
    simp only
    split
    · refine portView_eq_iff.2 ⟨rfl, cachedView_cons_ne hleft, ?_⟩
      rw [upView_append, hup, List.append_nil]
    · refine portView_eq_iff.2 ⟨heldView_cons_ne hleft, rfl, ?_⟩
      rw [upView_append, hup, List.append_nil]
  have hclock : ∀ n, (flushFlow flushOld groOfoTimeout groInseqTimeout f l).clock.ktime n = t := by
    intro n
    unfold flushFlow
    simp only
    split <;> exact hsame.clock (n + 1)
  exact ⟨hview.trans hsame.view, hclock, hsame.clock'⟩

/-- The loop does the same to two flows with the same buffers. -/
theorem ShowsSame.flushOwn (hsame : ShowsSame h t l l') (hview : flowView f = flowView f') (hf : f.dat.hash = h) :
    ShowsSame h t (flushFlow flushOld groOfoTimeout groInseqTimeout f l)
      (flushFlow flushOld groOfoTimeout groInseqTimeout f' l') := by
  obtain ⟨hheld, hcached, hup⟩ := portView_eq_iff.1 hsame.view
  have hdat : f.dat = f'.dat := congrArg Prod.fst hview
  have hsegs : f.segs.map Seg.body = f'.segs.map Seg.body := congrArg Prod.snd hview
  have hbodies : ∀ (n : Option SkbId) (xs : List Segment), (setHeadNext n xs).map Seg.body = xs.map Seg.body := by
    intro n xs
    cases xs <;> rfl
  have hsegs' : (setHeadNext (heads l.flows).head? f.segs).map Seg.body =
      (setHeadNext (heads l'.flows).head? f'.segs).map Seg.body := by rw [hbodies, hbodies, hsegs]
  have hflow := completeFlow_alike (d := f.dat) flushOld groOfoTimeout groInseqTimeout t hsegs'
  have hhash := completeFlow_hash flushOld groOfoTimeout groInseqTimeout t f.dat (setHeadNext (heads l.flows).head? f.segs)
  have htick : ∀ m : Lists, (∀ n, m.clock.ktime n = t) →
      ∀ n, (flushFlow flushOld groOfoTimeout groInseqTimeout f m).clock.ktime n = t := by
    intro m hm n
    unfold flushFlow
    simp only
    split <;> exact hm (n + 1)
  unfold flushFlow
  rw [hsame.clock, hsame.clock', ← hdat]
  revert hflow hhash
  generalize completeFlow flushOld groOfoTimeout groInseqTimeout t f.dat (setHeadNext (heads l.flows).head? f.segs) = r
  generalize completeFlow flushOld groOfoTimeout groInseqTimeout t f.dat (setHeadNext (heads l'.flows).head? f'.segs) = r'
  rintro ⟨hd, hus, hleft⟩ hhash
  have hup' : upView h (l.up ++ r.2.1) = upView h (l'.up ++ r'.2.1) := by
    rw [upView_append, upView_append, hup, upView_of_map hus]
  have hrhash : r.1.hash = h := hhash.trans hf
  have hempty : r.2.2.isEmpty = r'.2.2.isEmpty := by
    rw [← List.isEmpty_map (f := Seg.body), hleft, List.isEmpty_map]
  simp only [← hempty]
  split
  · refine ⟨portView_eq_iff.2 ⟨hheld, ?_, hup'⟩, fun n => hsame.clock (n + 1), fun n => hsame.clock' (n + 1)⟩
    show cachedView h (_ :: l.free) = cachedView h (_ :: l'.free)
    rw [cachedView_cons_self hrhash, cachedView_cons_self (hd ▸ hrhash), hcached]
    exact congrArg (· :: _) hd
  · refine ⟨portView_eq_iff.2 ⟨?_, hcached, hup'⟩, fun n => hsame.clock (n + 1), fun n => hsame.clock' (n + 1)⟩
    show heldView h (_ :: l.flows) = heldView h (_ :: l'.flows)
    rw [heldView_cons_self hrhash, heldView_cons_self (hd ▸ hrhash), hheld]
    exact congrArg (· :: _) (Prod.ext hd hleft)

/-- Only the flows with the ports `h` count. -/
theorem ShowsSame.flushFilter (hfs : ∀ f ∈ fs, Known keys f) (hsame : ShowsSame h t l l') :
    ShowsSame h t (fs.foldr (flushFlow flushOld groOfoTimeout groInseqTimeout) l)
      ((fs.filter fun f => f.dat.hash == h).foldr (flushFlow flushOld groOfoTimeout groInseqTimeout) l') := by
  induction fs with
  | nil => exact hsame
  | cons f fs ih =>
    obtain ⟨hf, hfs⟩ := List.forall_mem_cons.1 hfs
    rw [List.foldr_cons]
    by_cases hhash : f.dat.hash = h
    · rw [List.filter_cons_of_pos (by simpa using hhash), List.foldr_cons]
      exact (ih hfs).flushOwn rfl hhash
    · rw [List.filter_cons_of_neg (by simpa using hhash)]
      exact (ih hfs).flushOther hf hhash

/-- Flows with the same buffers. -/
theorem ShowsSame.flushMap (hview : fs.map flowView = fs'.map flowView) (hfs : ∀ f ∈ fs, f.dat.hash = h)
    (hsame : ShowsSame h t l l') :
    ShowsSame h t (fs.foldr (flushFlow flushOld groOfoTimeout groInseqTimeout) l)
      (fs'.foldr (flushFlow flushOld groOfoTimeout groInseqTimeout) l') := by
  induction fs generalizing fs' with
  | nil =>
    rw [List.map_eq_nil_iff.1 hview.symm]
    exact hsame
  | cons f fs ih =>
    obtain ⟨f', fs', rfl, hf, hfs'⟩ := List.map_eq_cons_iff.1 hview.symm
    obtain ⟨hhash, hfs⟩ := List.forall_mem_cons.1 hfs
    exact (ih hfs'.symm hfs).flushOwn hf.symm hhash

/-- **`napi_gro_flush` shows the same of both.** -/
theorem flushLists_alike (hl : ∀ f ∈ l.flows, Known keys f) (hl' : ∀ f ∈ l'.flows, Known keys' f)
    (hsame : ShowsSame h t l l') :
    portView h (flushLists l flushOld groOfoTimeout groInseqTimeout) =
      portView h (flushLists l' flushOld groOfoTimeout groInseqTimeout) := by
  obtain ⟨hheld, hcached, hup⟩ := portView_eq_iff.1 hsame.view
  have hstart : ShowsSame h t { l with flows := [] } { l' with flows := [] } :=
    ⟨portView_eq_iff.2 ⟨rfl, hcached, hup⟩, hsame.clock, hsame.clock'⟩
  have hsecond : ShowsSame h t { l' with flows := [] } { l' with flows := [] } := ⟨rfl, hsame.clock', hsame.clock'⟩
  have hfilter : ∀ f ∈ l.flows.filter fun f => f.dat.hash == h, f.dat.hash = h := by
    intro f hf
    simpa using (List.mem_filter.1 hf).2
  calc portView h (flushLists l flushOld groOfoTimeout groInseqTimeout)
    _ = portView h ((l.flows.filter fun f => f.dat.hash == h).foldr
          (flushFlow flushOld groOfoTimeout groInseqTimeout) { l' with flows := [] }) := (hstart.flushFilter hl).view
    _ = portView h ((l'.flows.filter fun f => f.dat.hash == h).foldr
          (flushFlow flushOld groOfoTimeout groInseqTimeout) { l' with flows := [] }) :=
      (hsecond.flushMap hheld hfilter).view
    _ = portView h (flushLists l' flushOld groOfoTimeout groInseqTimeout) := (hsecond.flushFilter hl').view.symm

end

/-! ### `napi_clean_tcp_ofo_queue` -/

/-- A queue object that is given up is not kept for anyone. -/
theorem cachedView_clean (hh : h ≠ 0) (t : U64) : cachedView h (free.map (cleanQueue t)) =
    (cachedView h free).filter fun d => !decide (100000000 < t - d.ext.timestamp) := by
  induction free with
  | nil => rfl
  | cons x free ih =>
    rw [List.map_cons]
    by_cases hold : 100000000 < t - x.dat.ext.timestamp
    · rw [cachedView_cons_ne ((cleanQueue_old hold).2 ▸ hh.symm), ih]
      by_cases hhash : x.dat.hash = h
      · rw [cachedView_cons_self hhash, List.filter_cons_of_neg (by simpa using hold)]
      · rw [cachedView_cons_ne hhash]
    · rw [cleanQueue_young hold]
      by_cases hhash : x.dat.hash = h
      · rw [cachedView_cons_self hhash, cachedView_cons_self hhash, ih, List.filter_cons_of_pos (by simpa using hold)]
      · rw [cachedView_cons_ne hhash, cachedView_cons_ne hhash, ih]

/-- **`napi_clean_tcp_ofo_queue` shows the same of both.** -/
theorem cleanLists_alike (hh : h ≠ 0) (hview : portView h l = portView h l') (hktime : l.clock.ktime = l'.clock.ktime) :
    portView h (cleanLists l) = portView h (cleanLists l') := by
  obtain ⟨hheld, hcached, hup⟩ := portView_eq_iff.1 hview
  refine portView_eq_iff.2 ⟨hheld, ?_, hup⟩
  show cachedView h (l.free.map _) = cachedView h (l'.free.map _)
  rw [cachedView_clean hh, cachedView_clean hh, hcached, hktime]

/-! ### Runs -/

theorem portView_erase : portView h l.erase = portView h l := by
  refine portView_eq_iff.2 ⟨?_, rfl, rfl⟩
  rw [heldView, heldView, Queues.erase, List.filter_map, List.map_map]
  refine List.map_congr_left fun f _ => ?_
  rw [Function.comp_apply, flowView, flowView, Flow.erase, List.map_map]
  rfl

/-- The flows with the ports `h`. -/
def withPorts (h : U32) (keys : List FlowKey) : List FlowKey := keys.filter fun key => key.ports == h

theorem Packet.isOf_withPorts (hpkt : pkt.isOf keys = true) (hconcerns : pkt.concerns h = true) :
    pkt.isOf (withPorts h keys) = true := by
  unfold Packet.isOf Packet.concerns at *
  cases hparse : pkt.parse with
  | other b | badHeader b => rfl
  | tcp b flush linear =>
    rw [hparse] at hpkt hconcerns
    exact decide_eq_true (List.mem_filter.2 ⟨of_decide_eq_true hpkt, hconcerns⟩)

theorem FewFlows.filter {cs : List Call} (hcs : FewFlows keys cs) (keep : Call → Bool) : FewFlows keys (cs.filter keep) := by
  have hsub : cs.filter keep ⊆ cs := List.filter_subset_self ..
  exact ⟨⟨fun c hc => hcs.timely.ports c (hsub hc), fun c hc => hcs.timely.within c (hsub hc),
    hcs.timely.between.sublist List.filter_sublist⟩, fun c hc => hcs.known c (hsub hc), hcs.few⟩

theorem FewFlows.concerns {cs : List Call} (hcs : FewFlows keys cs) :
    FewFlows (withPorts h keys) (cs.filter (Call.concerns h)) := by
  obtain ⟨htimely, hknown, hfew⟩ := hcs.filter (Call.concerns h)
  refine ⟨htimely, fun c hc => ?_, Nat.le_trans (List.length_filter_le ..) hfew⟩
  have hpkt := hknown c hc
  have hconcerns := (List.mem_filter.1 hc).2
  cases c with
  | receive pkt ktime => exact Packet.isOf_withPorts hpkt hconcerns
  | flush | clean => trivial

theorem FewFlows.beginning {cs : List Call} (hcs : FewFlows keys cs) (hpast : past <+: cs) : FewFlows keys past :=
  ⟨⟨fun c hc => hcs.timely.ports c (hpast.subset hc), fun c hc => hcs.timely.within c (hpast.subset hc),
    hcs.timely.between.sublist hpast.sublist⟩, fun c hc => hcs.known c (hpast.subset hc), hcs.few⟩

/-- What a run and the one from which some packets with other ports than `h` are gone have in common.  `stays` says which
calls do, and `keys'` are the flows that are left. -/
def Isolated (h : U32) (keys keys' : List FlowKey) (stays : Call → Bool) (past : List Call) (s s' : Mem) : Prop :=
  ∃ l l', Rep s l ∧ Rep s' l' ∧ Settled keys past l ∧ Settled keys' (past.filter stays) l' ∧ portView h l = portView h l'

section

variable {s s' t t' : Mem} {c : Call} {stays : Call → Bool}

theorem Isolated.init (h : U32) (keys keys' : List FlowKey) (stays : Call → Bool) (mem : Mem) :
    Isolated h keys keys' stays [] (netifNapiAdd mem) (netifNapiAdd mem) :=
  ⟨_, _, netifNapiAdd_rep mem, netifNapiAdd_rep mem, Settled.init keys mem, Settled.init keys' mem, rfl⟩

theorem Isolated.portView_eq (hs : Isolated h keys keys' stays past s s') : portView h s'.view = portView h s.view := by
  obtain ⟨l, l', hrep, hrep', -, -, hview⟩ := hs
  rw [hrep.view_eq, hrep'.view_eq, portView_erase, portView_erase, hview]

theorem filter_concat (hkeep : stays c = true) : (past ++ [c]).filter stays = past.filter stays ++ [c] := by
  rw [List.filter_append, List.filter_cons_of_pos hkeep, List.filter_nil]

/-- A call for a packet of another flow shows the same. -/
theorem stepLists_other {m : Lists} (hl : Settled keys past l) (hh : h ≠ 0) (hcs : FewFlows keys (past ++ [c]))
    (hc : c.concerns h = false) (hm : stepLists l c = .ok m) : portView h m = portView h l := by
  cases c with
  | receive pkt ktime =>
    have hpkt := hcs.known _ (List.mem_append_right _ (List.mem_singleton_self _))
    have hsame := (receiveLists_ok hm).portView_eq (hl.fit hcs.few _) hh hpkt hc
    exact hsame
  | flush | clean => cases hc

/-- The packet of another flow is not missed. -/
theorem Isolated.skip (hs : Isolated h keys keys' stays past s s') (hh : h ≠ 0) (hcs : FewFlows keys (past ++ [c]))
    (hkeep : stays c = false) (hc : c.concerns h = false) (hstep : step s c = .ok t) :
    Isolated h keys keys' stays (past ++ [c]) t s' := by
  obtain ⟨l, l', hrep, hrep', hl, hl', hview⟩ := hs
  have hagree := step_spec s l c hrep
  rw [hstep] at hagree
  obtain ⟨m, hm, hrepm⟩ := hagree.exists_ok
  have hfilter : (past ++ [c]).filter stays = past.filter stays := by
    rw [List.filter_append, List.filter_cons_of_neg (Bool.eq_false_iff.1 hkeep), List.filter_nil, List.append_nil]
  exact ⟨m, l', hrepm, hrep', hl.step hcs hm, hfilter ▸ hl', (stepLists_other hl hh hcs hc hm).trans hview⟩

/-- The packet of another flow that comes in both runs. -/
theorem Isolated.other (hs : Isolated h keys keys' stays past s s') (hh : h ≠ 0) (hcs : FewFlows keys (past ++ [c]))
    (hcs' : FewFlows keys' ((past ++ [c]).filter stays)) (hkeep : stays c = true) (hc : c.concerns h = false)
    (hstep : step s c = .ok t) (hstep' : step s' c = .ok t') : Isolated h keys keys' stays (past ++ [c]) t t' := by
  obtain ⟨l, l', hrep, hrep', hl, hl', hview⟩ := hs
  have hagree := step_spec s l c hrep
  have hagree' := step_spec s' l' c hrep'
  rw [hstep] at hagree
  rw [hstep'] at hagree'
  obtain ⟨m, hm, hrepm⟩ := hagree.exists_ok
  obtain ⟨m', hm', hrepm'⟩ := hagree'.exists_ok
  rw [filter_concat hkeep] at hcs'
  refine ⟨m, m', hrepm, hrepm', hl.step hcs hm, filter_concat hkeep ▸ hl'.step hcs' hm', ?_⟩
  rw [stepLists_other hl hh hcs hc hm, stepLists_other hl' hh hcs' hc hm', hview]

/-- A call that concerns the flow does the same in both runs. -/
theorem Isolated.keep {E : Fault → Prop} (hs : Isolated h keys keys' stays past s s') (hh : h ≠ 0)
    (hcs : FewFlows keys (past ++ [c])) (hcs' : FewFlows keys' ((past ++ [c]).filter stays)) (hkeep : stays c = true)
    (hc : c.concerns h = true) (hsteady : c.Steady) (hopens : marksFlow s c = true) (hstep : step s c = .ok t) :
    Yields (Isolated h keys keys' stays (past ++ [c]) t) E (step s' c) := by
  obtain ⟨l, l', hrep, hrep', hl, hl', hview⟩ := hs
  have hagree := step_spec s l c hrep
  rw [hstep] at hagree
  obtain ⟨m, hm, hrepm⟩ := hagree.exists_ok
  rw [filter_concat hkeep] at hcs'
  -- what the call does on the lists of the second run
  obtain ⟨m', hm', hviewm⟩ : ∃ m', stepLists l' c = .ok m' ∧ portView h m = portView h m' := by
    cases c with
    | receive pkt ktime =>
      have hmem := List.mem_append_right past (List.mem_singleton_self (Call.receive pkt ktime))
      have hmem' := List.mem_append_right (past.filter stays) (List.mem_singleton_self (Call.receive pkt ktime))
      obtain ⟨m', harrival, hsame⟩ := Arrival.alike (hl.fit hcs.few { l.clock with ktime := ktime })
        (hl'.fit hcs'.few { l'.clock with ktime := ktime }) hh hview rfl (hcs.known _ hmem) (hcs'.known _ hmem') hc
        (hcs.timely.ports _ hmem) (opensFlow_of_marksFlow hrep hopens) (receiveLists_ok hm)
      exact ⟨m', harrival.receiveLists_eq, hsame⟩
    | flush flushOld groOfoTimeout groInseqTimeout ktime =>
      cases hm
      exact ⟨_, rfl, flushLists_alike hl.roomy.known hl'.roomy.known ⟨hview, hsteady, hsteady⟩⟩
    | clean ktime =>
      cases hm
      exact ⟨_, rfl, cleanLists_alike hh hview rfl⟩
  have hagree' := step_spec s' l' c hrep'
  cases ht' : step s' c with
  | error e =>
    rw [ht', hm'] at hagree'
    exact absurd hagree' id
  | ok t' =>
    rw [ht', hm'] at hagree'
    exact ⟨m, m', hrepm, hagree', hl.step hcs hm, filter_concat hkeep ▸ hl'.step hcs' hm', hviewm⟩

end

/-- **Flows do not disturb each other.**  When there are no more flows than there is room for, and no flow with the ports `h`
is opened with nothing to hold, what is held of these flows, what is kept for them and what goes up of them is what it would
be if the packets of the other flows had not come. -/
theorem run_isolated {mem s : Mem} {cs : List Call} (hh : h ≠ 0) (hcs : FewFlows keys cs) (hsteady : ∀ c ∈ cs, c.Steady)
    (hopens : Steps step (fun s c => c.concerns h = true → marksFlow s c = true) (netifNapiAdd mem) cs)
    (hrun : run mem cs = .ok s) :
    ∃ s', run mem (cs.filter (Call.concerns h)) = .ok s' ∧ portView h s'.view = portView h s.view := by
  have hyields := Steps.unwind (R := Isolated h keys (withPorts h keys) (Call.concerns h)) (E := fun _ => False)
    (fun past s t c s' hpast hc hR _ hstep => hR.skip hh (hcs.beginning hpast) hc hc hstep)
    (fun past s t c s' hpast hc hR hC hstep =>
      hR.keep hh (hcs.beginning hpast) (hcs.beginning hpast).concerns hc hc hC.2 (hC.1 hc) hstep)
    (Isolated.init h keys (withPorts h keys) (Call.concerns h) mem) (hopens.and_mem hsteady) hrun
  cases hrun' : runFrom step (netifNapiAdd mem) (cs.filter (Call.concerns h)) with
  | error e =>
    rw [hrun'] at hyields
    exact hyields.elim
  | ok s' =>
    rw [hrun'] at hyields
    exact ⟨s', hrun', Isolated.portView_eq hyields⟩

/-- Packets of two flows, those of the first one out of order. -/
def entwined : List Call :=
  [.receive (.plain 0 1 7 100 10 0) fun _ => 5, .receive (.plain 1 1 8 500 10 0) fun _ => 5,
    .receive (.plain 2 1 7 120 10 0) fun _ => 6, .receive (.plain 3 1 8 510 10 0) fun _ => 6,
    .receive (.plain 4 1 7 110 10 0) fun _ => 7, .flush false 0 0 fun _ => 8]

theorem entwined_fewFlows : FewFlows [⟨default, 6, 1, 0, 7⟩, ⟨default, 6, 1, 0, 8⟩] entwined := by
  refine ⟨⟨?_, ?_, ?_⟩, ?_, by decide⟩
  · intro c hc
    simp only [entwined, List.mem_cons, List.not_mem_nil, or_false] at hc
    rcases hc with rfl | rfl | rfl | rfl | rfl | rfl
    all_goals
      simp only [Call.Meets]
      try decide +kernel
  · intro c hc m n _
    simp only [entwined, List.mem_cons, List.not_mem_nil, or_false] at hc
    rcases hc with rfl | rfl | rfl | rfl | rfl | rfl <;> exact Nat.le_refl _
  · simp [entwined, Call.ktime]
  · intro c hc
    simp only [entwined, List.mem_cons, List.not_mem_nil, or_false] at hc
    rcases hc with rfl | rfl | rfl | rfl | rfl | rfl
    all_goals
      simp only [Call.Meets]
      try decide +kernel

/-- The three packets of the first flow go up as one, and its queue object is kept. -/
theorem run_isolated_entwined :
    ∃ s s', run default entwined = .ok s ∧ run default (entwined.filter (Call.concerns 7)) = .ok s' ∧
      portView 7 s'.view = portView 7 s.view ∧ (portView 7 s.view).up.map (fun u => u.2.dataLen) = [30] := by
  have hend : (run default entwined).map (fun s => (portView 7 s.view).up.map fun u => u.2.dataLen) = .ok [30] := by
    decide +kernel
  have hopens : Steps step (fun s c => c.concerns 7 = true → marksFlow s c = true) (netifNapiAdd default) entwined := by
    decide +kernel
  have hsteady : ∀ c ∈ entwined, c.Steady := by
    intro c hc
    simp only [entwined, List.mem_cons, List.not_mem_nil, or_false] at hc
    rcases hc with rfl | rfl | rfl | rfl | rfl | rfl <;> simp [Call.Steady]
  obtain ⟨s, hrun, hup⟩ := map_ok hend
  obtain ⟨s', hrun', hview⟩ := run_isolated (by decide) entwined_fewFlows hsteady hopens hrun
  exact ⟨s, s', hrun, hrun', hview, hup⟩

end PacketReordering.Linux41
