import PacketReordering.Linux41.BadHeader
import PacketReordering.Linux41.Gso
import PacketReordering.Linux41.Staged

/-!
# `linux-4.1`: one flow in a run

What a call does to a flow with given ports, when all packets with these ports are of one flow.  Other flows do not come
into it, not even when there are too many of them.

* `Lane` — the packets of the flow that went up, and the buffers of it that are held;
* `Lane.Drains` — the first of these buffers go up;
* `Lane.Takes` — what becomes of an arriving packet;
* `Arrival.takes`, `flushLists_drains` — there are no other ways.
-/

namespace PacketReordering.Linux41

open Lib Gro

/-- The packets with payload of a flow that went up, and the buffers of the flow that are held. -/
structure Lane where
  up : List Part
  held : List Skb

def lane (h : U32) (l : Lists) : Lane := ⟨upsData h l.up, (laneOf h l.flows).map Seg.body⟩

/-- The packets with payload: what went up, then what is held. -/
def Lane.data (h : U32) (s : Lane) : List Part := s.up ++ s.held.flatMap (Body.data h)

/-- The first of the held buffers go up. -/
def Lane.Drains (h : U32) (s s' : Lane) : Prop :=
  ∃ rel, s.held = rel ++ s'.held ∧ s'.up = s.up ++ rel.flatMap (Body.data h)

/-- All packets of the flow `key` lie in its window, and at most one held flow has its ports. -/
structure Laned (base : U32) (key : FlowKey) (l : Lists) : Prop where
  held : AllHeld (OfFlow base key) l
  sole : Sole key.ports l.flows

/-- What becomes of the packet `pkt`. -/
inductive Lane.Takes (h : U32) (l : Lists) (pkt : Packet) (s' : Lane) : Prop
  /-- it is of another flow, and may make this one go -/
  | other (harrived : pkt.arrived h = []) (hdrains : (lane h l).Drains h s')
  /-- nothing of the flow is held, and the packet goes up -/
  | passed {b : Skb} (harrived : pkt.arrived h = [b]) (hnil : (lane h l).held = [])
      (hs' : s' = ⟨(lane h l).up ++ b.data h, []⟩)
  /-- nothing of the flow is held but the packet -/
  | opened {b c : Skb} (harrived : pkt.arrived h = [b]) (hnil : (lane h l).held = [])
      (hc : c.seq = b.seq ∧ c.len = b.len ∧ c.data h = b.data h) (hs' : s' = ⟨(lane h l).up, [c]⟩)
  /-- the packet is not held for what it is or because it comes late -/
  | dropped {b : Skb} {flush linear : Bool} {A : List (Flow GsoEnd OfoExt)} {f : Flow GsoEnd OfoExt}
      {B : List (Flow GsoEnd OfoExt)} (harrived : pkt.arrived h = [b]) (hfound : Found l pkt b flush linear A f B)
      (hf : laneOf h l.flows = f.segs) (hwhy : (notHeld f b flush linear || isLate f.dat b) = true)
      (hs' : s' = ⟨(lane h l).up ++ b.data h, (lane h l).held⟩)
  /-- the packet is walked along the queue -/
  | walked {b : Skb} {flush linear : Bool} {A : List (Flow GsoEnd OfoExt)} {f : Flow GsoEnd OfoExt}
      {B : List (Flow GsoEnd OfoExt)} {w : Walked} (harrived : pkt.arrived h = [b])
      (hfound : Found l pkt b flush linear A f B) (hf : laneOf h l.flows = f.segs)
      (hwhy : (notHeld f b flush linear || isLate f.dat b) = false)
      (hwalk : walkSegs (heads B).head? l.nskb (walker b) f.segs [] (walkDat f.dat b).seqNext
        ⟨walkDat f.dat b, l.clock, l.up⟩ = .ok w)
      (hs' : s' = ⟨upsData h w.track.up ++ if w.fate = .normal then b.data h else [],
        (walkedFlow l.nskb b f.q w).segs.map Seg.body⟩)

section

variable {base : U32} {key : FlowKey} {h κ : U32} {l l' : Lists} {pkt : Packet} {n : Option SkbId} {k : SkbId} {b : Skb}
  {tr : Track} {w : Walked} {segs : List Segment} {inSeq : U32} {s s' s'' : Lane}
  {f : Flow GsoEnd OfoExt} {A B : List (Flow GsoEnd OfoExt)} {flush linear : Bool}

theorem Lane.Drains.refl (s : Lane) : s.Drains h s := ⟨[], rfl, (List.append_nil _).symm⟩

theorem Lane.Drains.trans (hs : s.Drains h s') (hs' : s'.Drains h s'') : s.Drains h s'' := by
  obtain ⟨rel, hheld, hup⟩ := hs
  obtain ⟨rel', hheld', hup'⟩ := hs'
  refine ⟨rel ++ rel', ?_, ?_⟩
  · rw [hheld, hheld', List.append_assoc]
  · rw [hup', hup, List.flatMap_append, List.append_assoc]

theorem Lane.Drains.data (hs : s.Drains h s') : s'.data h = s.data h := by
  obtain ⟨rel, hheld, hup⟩ := hs
  rw [Lane.data, Lane.data, hheld, hup, List.flatMap_append, List.append_assoc]

theorem ported_of_ofFlow (hsegs : Bodies (OfFlow base key κ) segs) : Bodies (Body.Ported κ) segs :=
  hsegs.imp fun _ hb => hb.ported

theorem map_body_setHeadNext : (setHeadNext n segs).map Seg.body = segs.map Seg.body := by
  cases segs <;> rfl

theorem laneOf_of_filter {fs : List (Flow GsoEnd OfoExt)} (hfs : fs.filter (Flow.hasPorts h) = []) : laneOf h fs = [] := by
  rw [laneOf, hfs]
  rfl

theorem lane_congr (hflows : l'.flows.filter (Flow.hasPorts h) = l.flows.filter (Flow.hasPorts h))
    (hup : upsData h l'.up = upsData h l.up) : lane h l' = lane h l := by
  have hlane : laneOf h l'.flows = laneOf h l.flows := congrArg (List.flatMap Flow.segs) hflows
  rw [lane, lane, hlane, hup]

theorem Laned.congr (hl : Laned base key l) (hheld : AllHeld (OfFlow base key) l')
    (hflows : l'.flows.filter (Flow.hasPorts key.ports) = l.flows.filter (Flow.hasPorts key.ports)) : Laned base key l' := by
  refine ⟨hheld, ?_⟩
  unfold Sole
  rw [hflows]
  exact hl.sole

/-- The segments of the flow `f` go up in part, and `g` is what is left of it. -/
theorem Laned.shorten {m : Lists} {g : Flow GsoEnd OfoExt} {us : List (Up GsoEnd)} {rel : List Segment} (hl : Laned base key l)
    (hflows : l.flows = A ++ f :: B) (hsegs : setHeadNext n f.segs = rel ++ g.segs)
    (hdata : upsData key.ports us ++ segsData key.ports g.segs = segsData key.ports f.segs)
    (hheld : AllHeld (OfFlow base key) m) (hflows' : m.flows = A ++ g :: B) (hup : m.up = l.up ++ us) :
    Laned base key m ∧ (lane key.ports l).Drains key.ports (lane key.ports m) := by
  obtain ⟨κ, hf⟩ := hl.held.flows f (hflows ▸ by simp)
  have hall := bodies_setHeadNext (n := n).2 hf
  rw [hsegs] at hall
  obtain ⟨-, hg⟩ := bodies_append.1 hall
  have hus : upsData key.ports us = segsData key.ports rel := by
    have hwhole := @segsData_setHeadNext _ key.ports f.segs n
    rw [hsegs, segsData_append, ← hdata] at hwhole
    exact (List.append_cancel_right hwhole).symm
  have hsole := hl.sole
  rw [hflows] at hsole
  have hports : g.hasPorts key.ports = true → f.hasPorts key.ports = true := by
    intro hgports
    obtain ⟨hκ, hne⟩ := (hasPorts_iff (ported_of_ofFlow hg)).1 hgports
    refine (hasPorts_iff (ported_of_ofFlow hf)).2 ⟨hκ, ?_⟩
    rintro hnil
    rw [hnil] at hsegs
    exact hne (List.append_eq_nil_iff.1 hsegs.symm).2
  refine ⟨⟨hheld, hflows' ▸ hsole.replace hports⟩, ?_⟩
  by_cases hfports : f.hasPorts key.ports = true
  · obtain ⟨rfl, -⟩ := (hasPorts_iff (ported_of_ofFlow hf)).1 hfports
    refine ⟨rel.map Seg.body, ?_, ?_⟩
    · show (laneOf _ l.flows).map Seg.body = _ ++ (laneOf _ m.flows).map Seg.body
      rw [hflows, hflows', hsole.laneOf_eq hfports, hsole.laneOf_replace hfports (ported_of_ofFlow hg), ← List.map_append,
        ← hsegs, map_body_setHeadNext]
    · show upsData _ m.up = upsData _ l.up ++ _
      rw [hup, upsData_append, hus, segsData_eq]
  · -- a flow with other ports has no data with these
    have hgports : ¬ g.hasPorts key.ports = true := fun he => hfports (hports he)
    have hnone : upsData key.ports us = [] := by
      by_cases hκ : κ = key.ports
      · have hnil : f.segs = [] := by
          by_contra hne
          exact hfports ((hasPorts_iff (ported_of_ofFlow hf)).2 ⟨hκ, hne⟩)
        rw [hnil] at hdata
        exact (List.append_eq_nil_iff.1 hdata).1
      · rw [segsData_of_ported (ported_of_ofFlow hf) hκ] at hdata
        exact (List.append_eq_nil_iff.1 hdata).1
    have hsame : lane key.ports m = lane key.ports l := by
      refine lane_congr ?_ (by rw [hup, upsData_append, hnone, List.append_nil])
      rw [hflows, hflows', List.filter_append, List.filter_append, List.filter_cons_of_neg hgports,
        List.filter_cons_of_neg hfports]
    rw [hsame]
    exact Lane.Drains.refl _

/-- A packet of no held flow: no held flow is its flow. -/
theorem Laned.unmatched (hl : Laned base key l) (hne : ∀ f ∈ l.flows, f.segs ≠ []) (hkey : b.flowKey = key)
    (hother : ∀ f ∈ l.flows, sameFlowAs b f = false) : l.flows.filter (Flow.hasPorts key.ports) = [] := by
  rw [List.filter_eq_nil_iff]
  intro f hf hports
  obtain ⟨κ, hbodies⟩ := hl.held.flows f hf
  obtain ⟨p, segs, hsegs⟩ := List.exists_cons_of_ne_nil (hne f hf)
  obtain ⟨rfl, -⟩ := (hasPorts_iff (ported_of_ofFlow hbodies)).1 hports
  have hp : p.body.flowKey = key := ((hbodies p (hsegs ▸ List.mem_cons_self ..)).keyed rfl).1
  have hmatch := hother f hf
  unfold sameFlowAs at hmatch
  rw [hsegs] at hmatch
  rw [← hp, Body.flowKey, Body.flowKey, FlowKey.mk.injEq] at hkey
  obtain ⟨hlink, hproto, hsaddr, hdaddr, hports'⟩ := hkey
  simp [sameAddresses, hlink, hproto, hsaddr, hdaddr, hports'] at hmatch

/-- The flow that a packet is found to be of has the ports of the packet. -/
theorem Found.hasPorts (hfound : Found l pkt b flush linear A f B) (hf : Bodies (OfFlow base key κ) f.segs)
    (hne : f.segs ≠ []) : κ = b.tcp.ports ∧ f.hasPorts h = decide (b.tcp.ports = h) := by
  obtain ⟨-, hmatch, -⟩ := splitFlow_some hfound.split
  obtain ⟨p, segs, hsegs⟩ := List.exists_cons_of_ne_nil hne
  have hκ : κ = b.tcp.ports :=
    (hf p (hsegs ▸ List.mem_cons_self ..)).ported.1.symm.trans (congrArg FlowKey.ports (sameFlowAs_flowKey hsegs hmatch)).symm
  refine ⟨hκ, ?_⟩
  rw [Bool.eq_iff_iff, hasPorts_iff (ported_of_ofFlow hf), decide_eq_true_iff, hκ]
  exact and_iff_left hne

theorem completeFlow_data {flushOld : Bool} {groOfoTimeout groInseqTimeout timestamp : U64} {d : Dat} :
    upsData h (completeFlow flushOld groOfoTimeout groInseqTimeout timestamp d segs).2.1 ++
      segsData h (completeFlow flushOld groOfoTimeout groInseqTimeout timestamp d segs).2.2 = segsData h segs := by
  cases segs with
  | nil => rfl
  | cons x segs =>
    have hstamp : ∀ r, (stamp timestamp r).2 = r.2 := by
      intro r
      unfold stamp
      split <;> rfl
    simp only [completeFlow, ← stamp.eq_def, hstamp]
    split
    · exact completeSegs_data _ _
    · split
      · exact completeSegs_data _ _
      · rfl

/-! ### Arrivals -/

theorem arrived_other (hparse : pkt.parse = .tcp b flush linear) (hports : b.tcp.ports ≠ h) : pkt.arrived h = [] := by
  unfold Packet.arrived
  rw [hparse]
  simp only [if_neg hports]

/-- A packet of another flow, or without data, goes up as it is. -/
theorem Lane.takes_none (harrived : pkt.arrived h = []) (hdata : b.data h = []) (hflows : l'.flows = l.flows)
    (hup : l'.up = l.up ++ [Parsed.up k b]) : Lane.Takes h l pkt (lane h l') := by
  refine Lane.Takes.other harrived ?_
  have hsame : lane h l' = lane h l := by
    refine lane_congr (by rw [hflows]) ?_
    rw [hup, upsData_append, upsData_singleton, Parsed.up, pull_data, hdata, List.append_nil]
  rw [hsame]
  exact Lane.Drains.refl _

/-- A packet of no held flow goes up as it is. -/
theorem Laned.passed (hl : Laned base key l) (hne : ∀ f ∈ l.flows, f.segs ≠ [])
    (hpkt : ∀ b ∈ pkt.arrived key.ports, Keyed (fun _ => base) key b) (hparse : pkt.parse = .tcp b flush linear)
    (hother : ∀ f ∈ l.flows, sameFlowAs b f = false) (hflows : l'.flows = l.flows)
    (hup : l'.up = l.up ++ [Parsed.up k b]) : Lane.Takes key.ports l pkt (lane key.ports l') := by
  by_cases hports : b.tcp.ports = key.ports
  · have harrived := arrived_tcp hparse hports
    have hnone := laneOf_of_filter (hl.unmatched hne (hpkt b (by simp [harrived])).1 hother)
    refine Lane.Takes.passed harrived (by rw [lane, hnone]; rfl) ?_
    rw [lane, lane, hflows, hnone, hup, upsData_append, upsData_singleton, Parsed.up, pull_data]
    rfl
  · exact Lane.takes_none (arrived_other hparse hports) ((parse_tcp hparse).ported.data_eq_nil hports) hflows hup

/-- A packet of no held flow becomes a new flow. -/
theorem Laned.opened {x : FreeQueue OfoExt} {timestamp : U64} (hl : Laned base key l)
    (hne : ∀ f ∈ l.flows, f.segs ≠ []) (hpkt : ∀ b ∈ pkt.arrived key.ports, Keyed (fun _ => base) key b)
    (hparse : pkt.parse = .tcp b flush linear) (hother : ∀ f ∈ l.flows, sameFlowAs b f = false)
    (hheld : AllHeld (OfFlow base key) l') (hflows : l'.flows = newFlow x k b timestamp :: l.flows) (hup : l'.up = l.up) :
    Laned base key l' ∧ Lane.Takes key.ports l pkt (lane key.ports l') := by
  have hsame : ({ b with gsoSize := BitVec.ofNat 16 b.groLen } : Skb).pull.tcp = b.tcp ∧
      ({ b with gsoSize := BitVec.ofNat 16 b.groLen } : Skb).pull.seq = b.seq ∧
      ({ b with gsoSize := BitVec.ofNat 16 b.groLen } : Skb).pull.len = b.len := by
    unfold Body.pull
    split <;> exact ⟨rfl, rfl, rfl⟩
  have hnew : (newFlow x k b timestamp).hasPorts key.ports = decide (b.tcp.ports = key.ports) := by
    simp [newFlow, Flow.hasPorts, hsame.1]
    rfl
  by_cases hports : b.tcp.ports = key.ports
  · have harrived := arrived_tcp hparse hports
    have hnone := hl.unmatched hne (hpkt b (by simp [harrived])).1 hother
    have hnil : laneOf key.ports l.flows = [] := laneOf_of_filter hnone
    rw [decide_eq_true hports] at hnew
    refine ⟨⟨hheld, hflows ▸ hl.sole.cons fun _ => hnone⟩, ?_⟩
    refine Lane.Takes.opened harrived (by rw [lane, hnil]; rfl) ⟨hsame.2.1, hsame.2.2, pull_data⟩ ?_
    rw [lane, lane, hflows, hup, laneOf_cons, if_pos hnew, hnil, List.append_nil]
    rfl
  · rw [decide_eq_false hports] at hnew
    have hfilter : l'.flows.filter (Flow.hasPorts key.ports) = l.flows.filter (Flow.hasPorts key.ports) := by
      rw [hflows, List.filter_cons_of_neg (by simp [hnew])]
    refine ⟨hl.congr hheld hfilter, Lane.Takes.other (arrived_other hparse hports) ?_⟩
    rw [lane_congr hfilter (by rw [hup])]
    exact Lane.Drains.refl _

/-- The walk of a packet of another flow sends no data of this one up. -/
theorem walkSegs_others (hb : OfFlow base key κ b) (hsegs : Bodies (OfFlow base key κ) segs) (hκ : κ ≠ key.ports)
    (hwalk : walkSegs n k b segs [] inSeq tr = .ok w) :
    Bodies (OfFlow base key κ) w.segs ∧ upsData key.ports w.track.up = upsData key.ports tr.up := by
  refine walkSegs_keeps (R := fun tr' => upsData key.ports tr'.up = upsData key.ports tr.up) (ofFlow_rule base key) ?_ hb rfl
    hsegs hwalk
  intro tr' xs hxs htr'
  rw [release_data, segsData_of_ported (ported_of_ofFlow hxs) hκ, List.append_nil, htr']

theorem walkedFlow_segs {q : OfoId} :
    (walkedFlow k b q w).segs = if w.fate = .held then w.segs.map (pullSeg k) else w.segs := by
  unfold walkedFlow
  cases w.fate <;> rfl

theorem walkedLists_up {q : OfoId} :
    (walkedLists l k b A B q w).up = if w.fate = .normal then w.track.up ++ [Parsed.up k (walker b)] else w.track.up := by
  unfold walkedLists normalLists
  cases w.fate <;> rfl

/-- What is left of a flow of which one of the other flows has taken the place. -/
theorem filter_hasPorts_replace {g : Flow GsoEnd OfoExt} (hf : f.hasPorts h = false) (hg : g.hasPorts h = false) :
    (A ++ g :: B).filter (Flow.hasPorts h) = (A ++ f :: B).filter (Flow.hasPorts h) := by
  rw [List.filter_append, List.filter_append, List.filter_cons_of_neg (by simp [hg]), List.filter_cons_of_neg (by simp [hf])]

/-- A packet that is walked along the queue of its flow. -/
theorem Laned.walking (hl : Laned base key l) (hne : ∀ f ∈ l.flows, f.segs ≠ [])
    (hpkt : ∀ b ∈ pkt.arrived key.ports, Keyed (fun _ => base) key b) (hfound : Found l pkt b flush linear A f B)
    (hwhy : (notHeld f b flush linear || isLate f.dat b) = false)
    (hwalk : walkSegs (heads B).head? l.nskb (walker b) f.segs [] (walkDat f.dat b).seqNext
      ⟨walkDat f.dat b, l.clock, l.up⟩ = .ok w) :
    Bodies (OfFlow base key b.tcp.ports) f.segs ∧ OfFlow base key b.tcp.ports (walker b) ∧
      Bodies (OfFlow base key b.tcp.ports) (walkedFlow l.nskb b f.q w).segs := by
  obtain ⟨hflows, hmatch, -⟩ := splitFlow_some hfound.split
  have hf : f ∈ l.flows := hflows ▸ by simp
  obtain ⟨κ, hbodies⟩ := hl.held.flows f hf
  obtain ⟨rfl, -⟩ := hfound.hasPorts (h := key.ports) hbodies (hne f hf)
  obtain ⟨p, segs, hsegs⟩ := List.exists_cons_of_ne_nil (hne f hf)
  have hbof := (ofFlow_rule base key).join _ pkt b flush linear f p segs hpkt hfound.parse hsegs
    ((bodies_cons.1 (hsegs ▸ hbodies)).1) hmatch (Bool.or_eq_false_iff.1 hwhy).1
  have hw := (walkSegs_keeps (R := fun _ => True) (ofFlow_rule base key) (fun _ _ _ _ => trivial) hbof trivial hbodies
    hwalk).1
  refine ⟨hbodies, hbof, ?_⟩
  rw [walkedFlow_segs]
  split
  · exact hw.pull ((ofFlow_rule base key).pull _)
  · exact hw

theorem Laned.walked (hl : Laned base key l) (hne : ∀ f ∈ l.flows, f.segs ≠ [])
    (hpkt : ∀ b ∈ pkt.arrived key.ports, Keyed (fun _ => base) key b) (hfound : Found l pkt b flush linear A f B)
    (hwhy : (notHeld f b flush linear || isLate f.dat b) = false)
    (hwalk : walkSegs (heads B).head? l.nskb (walker b) f.segs [] (walkDat f.dat b).seqNext
      ⟨walkDat f.dat b, l.clock, l.up⟩ = .ok w) (hheld : AllHeld (OfFlow base key) l')
    (hflows' : l'.flows = A ++ walkedFlow l.nskb b f.q w :: B)
    (hup : l'.up = if w.fate = .normal then w.track.up ++ [Parsed.up l.nskb (walker b)] else w.track.up) :
    Laned base key l' ∧ Lane.Takes key.ports l pkt (lane key.ports l') := by
  have hflows := (splitFlow_some hfound.split).1
  obtain ⟨hbodies, hbof, hbodies'⟩ := hl.walking hne hpkt hfound hwhy hwalk
  have hfports := (hfound.hasPorts (h := key.ports) hbodies (hne f (hflows ▸ by simp))).2
  have hsole := hl.sole
  rw [hflows] at hsole
  by_cases hports : b.tcp.ports = key.ports
  · rw [decide_eq_true hports] at hfports
    rw [hports] at hbodies'
    refine ⟨⟨hheld, hflows' ▸ hsole.replace fun _ => hfports⟩, ?_⟩
    refine Lane.Takes.walked (arrived_tcp hfound.parse hports) hfound (by rw [hflows, hsole.laneOf_eq hfports]) hwhy hwalk ?_
    rw [lane, hflows', hsole.laneOf_replace hfports (ported_of_ofFlow hbodies'), hup]
    split
    · rw [upsData_append, upsData_singleton, Parsed.up, pull_data]
      rfl
    · rw [List.append_nil]
  · rw [decide_eq_false hports] at hfports
    have hgports : (walkedFlow l.nskb b f.q w).hasPorts key.ports = false :=
      Bool.eq_false_iff.2 fun he => hports ((hasPorts_iff (ported_of_ofFlow hbodies')).1 he).1
    have hfilter : l'.flows.filter (Flow.hasPorts key.ports) = l.flows.filter (Flow.hasPorts key.ports) := by
      rw [hflows', hflows]
      exact filter_hasPorts_replace hfports hgports
    have hsame := (walkSegs_others hbof hbodies hports hwalk).2
    refine ⟨hl.congr hheld hfilter, Lane.Takes.other (arrived_other hfound.parse hports) ?_⟩
    have hlane : lane key.ports l' = lane key.ports l := by
      refine lane_congr hfilter ?_
      rw [hup]
      split
      · rw [upsData_append, upsData_singleton, Parsed.up, pull_data, hbof.ported.data_eq_nil hports, List.append_nil, hsame]
      · exact hsame
    rw [hlane]
    exact Lane.Drains.refl _

/-- A packet that is not to be held. -/
theorem Laned.dropped (hl : Laned base key l) (hne : ∀ f ∈ l.flows, f.segs ≠ [])
    (hfound : Found l pkt b flush linear A f B) (hwhy : (notHeld f b flush linear || isLate f.dat b) = true)
    (hheld : AllHeld (OfFlow base key) l') {d : Dat} (hflows' : l'.flows = A ++ ⟨f.q, d, setHeadNext n f.segs⟩ :: B)
    (hup : l'.up = l.up ++ [Parsed.up k (walker b)]) :
    Laned base key l' ∧ Lane.Takes key.ports l pkt (lane key.ports l') := by
  have hflows := (splitFlow_some hfound.split).1
  obtain ⟨κ, hbodies⟩ := hl.held.flows f (hflows ▸ by simp)
  obtain ⟨rfl, hfports⟩ := hfound.hasPorts (h := key.ports) hbodies (hne f (hflows ▸ by simp))
  have hgports : (⟨f.q, d, setHeadNext n f.segs⟩ : Flow GsoEnd OfoExt).hasPorts key.ports = f.hasPorts key.ports := by
    unfold Flow.hasPorts
    cases f.segs <;> rfl
  have hsole := hl.sole
  rw [hflows] at hsole
  by_cases hports : b.tcp.ports = key.ports
  · rw [decide_eq_true hports] at hfports
    have hbodies' : Bodies (Body.Ported key.ports) (setHeadNext n f.segs) :=
      bodies_setHeadNext.2 (hports ▸ ported_of_ofFlow hbodies)
    refine ⟨⟨hheld, hflows' ▸ hsole.replace fun _ => hfports⟩, ?_⟩
    refine Lane.Takes.dropped (arrived_tcp hfound.parse hports) hfound (by rw [hflows, hsole.laneOf_eq hfports]) hwhy ?_
    have hlane : laneOf key.ports (A ++ ⟨f.q, d, setHeadNext n f.segs⟩ :: B) = setHeadNext n f.segs :=
      hsole.laneOf_replace hfports hbodies'
    rw [lane, lane, hflows', hlane, hflows, hsole.laneOf_eq hfports, hup, upsData_append, upsData_singleton, Parsed.up,
      pull_data, map_body_setHeadNext]
    rfl
  · rw [decide_eq_false hports] at hfports
    have hfilter : l'.flows.filter (Flow.hasPorts key.ports) = l.flows.filter (Flow.hasPorts key.ports) := by
      rw [hflows', hflows]
      exact filter_hasPorts_replace hfports (hgports.trans hfports)
    refine ⟨hl.congr hheld hfilter, Lane.Takes.other (arrived_other hfound.parse hports) ?_⟩
    have hlane : lane key.ports l' = lane key.ports l := by
      refine lane_congr hfilter ?_
      have hnil : (walker b).data key.ports = [] := (parse_tcp hfound.parse).ported.data_eq_nil hports
      rw [hup, upsData_append, upsData_singleton, Parsed.up, pull_data, hnil, List.append_nil]
    rw [hlane]
    exact Lane.Drains.refl _

/-- Another flow has to go before the packet comes. -/
theorem Lane.Takes.evicting {m : Lists} (htakes : Lane.Takes h m pkt s') (hdrains : (lane h l).Drains h (lane h m))
    (hsame : pkt.arrived h ≠ [] → lane h m = lane h l) (hparse : pkt.parse = .tcp b flush linear)
    (hother : ∀ f ∈ m.flows, sameFlowAs b f = false) : Lane.Takes h l pkt s' := by
  have hnot : ∀ {c : Skb} {fl li : Bool} {A B : List (Flow GsoEnd OfoExt)} {f : Flow GsoEnd OfoExt},
      ¬ Found m pkt c fl li A f B := by
    intro c fl li A B f hfound
    have hc := hfound.parse
    rw [hparse, Parsed.tcp.injEq] at hc
    obtain ⟨hflows, hmatch, -⟩ := splitFlow_some hfound.split
    rw [← hc.1, hother f (hflows ▸ by simp)] at hmatch
    cases hmatch
  cases htakes with
  | other harrived hdrains' => exact Lane.Takes.other harrived (hdrains.trans hdrains')
  | passed harrived hnil hs' =>
    rw [hsame (by simp [harrived])] at hnil hs'
    exact Lane.Takes.passed harrived hnil hs'
  | opened harrived hnil hc hs' =>
    rw [hsame (by simp [harrived])] at hnil hs'
    exact Lane.Takes.opened harrived hnil hc hs'
  | dropped harrived hfound => exact absurd hfound hnot
  | walked harrived hfound => exact absurd hfound hnot

/-- **What an arrival does to the flow.** -/
theorem Arrival.takes (hl : Laned base key l) (hne : ∀ f ∈ l.flows, f.segs ≠ [])
    (hpkt : ∀ b ∈ pkt.arrived key.ports, Keyed (fun _ => base) key b) (harrival : Arrival l pkt l') :
    Laned base key l' ∧ Lane.Takes key.ports l pkt (lane key.ports l') := by
  have hheld := harrival.held (ofFlow_rule base key) hpkt hl.held hne
  cases harrival with
  | other hparse =>
    have hnone : pkt.arrived key.ports = [] := by
      unfold Packet.arrived
      rw [hparse]
    exact ⟨hl.congr hheld rfl, Lane.takes_none hnone (data_part (parse_other_parts hparse)) rfl rfl⟩
  | unheld hwhy hqueue =>
    cases hwhy with
    | badHeader hparse =>
      have hnone : pkt.arrived key.ports = [] := by
        unfold Packet.arrived
        rw [hparse]
      exact ⟨hl.congr hheld rfl, Lane.takes_none hnone (data_part (parse_badHeader hparse).2.2.2) rfl rfl⟩
    | tcp hparse hsplit hwhy => exact ⟨hl.congr hheld rfl, hl.passed hne hpkt hparse (splitFlow_none hsplit) rfl rfl⟩
  | late hold hlate =>
    obtain ⟨flush, linear, hparse, -⟩ := hold.parse
    exact ⟨hl.congr hheld rfl, hl.passed hne hpkt hparse (splitFlow_none hold.split) rfl rfl⟩
  | fresh hold hlate hfull =>
    obtain ⟨flush, linear, hparse, -⟩ := hold.parse
    exact hl.opened hne hpkt hparse (splitFlow_none hold.split) hheld rfl rfl
  | @evict b x rest P g hold hlate hflows hfull =>
    obtain ⟨flush, linear, hparse, -⟩ := hold.parse
    have hother := splitFlow_none hold.split
    have hall : (completeFlow false 0 0 (l.clock.ktime 1) g.dat (setHeadNext none g.segs)).2.2 = [] := completeFlow_all ..
    have hdata := @completeFlow_data key.ports (setHeadNext none g.segs) false 0 0 (l.clock.ktime 1) g.dat
    rw [hall, segsData_setHeadNext] at hdata
    have hflows' : ∀ f ∈ P, ∃ κ, Bodies (OfFlow base key κ) f.segs := fun f hf => hl.held.flows f (hflows ▸ by simp [hf])
    -- the oldest flow goes up, and the place it leaves is empty
    obtain ⟨m, hm⟩ : ∃ m : Lists, m = { l with
        flows := P
        up := l.up ++ (completeFlow false 0 0 (l.clock.ktime 1) g.dat (setHeadNext none g.segs)).2.1 } := ⟨_, rfl⟩
    have hleft : Laned base key m ∧ (lane key.ports l).Drains key.ports (lane key.ports m) := by
      obtain ⟨e, he⟩ : ∃ e : Lists, e = { m with flows := P ++ [⟨g.q, g.dat, []⟩] } := ⟨_, rfl⟩
      obtain ⟨hempty, hdrains⟩ := hl.shorten (m := e) (n := none) (g := ⟨g.q, g.dat, []⟩)
        hflows (List.append_nil _).symm hdata (by
          rw [he, hm]
          exact ⟨List.forall_mem_append.2 ⟨hflows', List.forall_mem_singleton.2 ⟨0, bodies_nil⟩⟩, hheld.up⟩)
        (by rw [he]) (by rw [he, hm])
      have hfilter : m.flows.filter (Flow.hasPorts key.ports) = e.flows.filter (Flow.hasPorts key.ports) := by
        rw [he, hm, List.filter_append]
        exact (List.append_nil _).symm
      have hlane : lane key.ports m = lane key.ports e := lane_congr hfilter (by rw [he])
      exact ⟨hempty.congr (hm ▸ ⟨hflows', hheld.up⟩) hfilter, hlane ▸ hdrains⟩
    have hmother : ∀ f ∈ m.flows, sameFlowAs b f = false := by
      rw [hm]
      exact fun f hf => hother f (hflows ▸ List.mem_append_left _ hf)
    have hmne : ∀ f ∈ m.flows, f.segs ≠ [] := by
      rw [hm]
      exact fun f hf => hne f (hflows ▸ List.mem_append_left _ hf)
    obtain ⟨hl', htakes⟩ := hleft.1.opened hmne hpkt hparse hmother hheld (by rw [hm]) (by rw [hm])
    refine ⟨hl', htakes.evicting hleft.2 (fun harrived => ?_) hparse hmother⟩
    -- the packet is of this flow, and the one that goes is another one
    have hports : b.tcp.ports = key.ports := by
      by_contra hports
      exact harrived (arrived_other hparse hports)
    have hkeyed := hpkt b (by simp [arrived_tcp hparse hports])
    have hnil : (lane key.ports l).held = [] := by rw [lane, laneOf_of_filter (hl.unmatched hne hkeyed.1 hother)]; rfl
    obtain ⟨rel, hrel, hup⟩ := hleft.2
    rw [hnil] at hrel
    obtain ⟨rfl, hmnil⟩ := List.append_eq_nil_iff.1 hrel.symm
    rw [List.flatMap_nil, List.append_nil] at hup
    exact congrArg₂ Lane.mk hup (hmnil.trans hnil.symm)
  | drop hfound hwhy => exact hl.dropped hne hfound hwhy hheld rfl rfl
  | walked hfound hwhy hwalk =>
    exact Laned.walked (l := l) hl hne hpkt hfound hwhy hwalk hheld walkedLists_flows walkedLists_up

/-! ### What the walk leaves -/

/-- The buffers that the walk leaves, when the headers of the packet have been pulled. -/
theorem walkedFlow_bodies {q : OfoId} {P : Skb → Prop} (hP : ∀ c, P c → P c.pull) (hw : Bodies P w.segs) :
    Bodies P (walkedFlow k b q w).segs := by
  rw [walkedFlow_segs]
  split
  · exact hw.pull hP
  · exact hw

theorem walkedFlow_staged {q : OfoId} (hw : Staged base w.segs) : Staged base (walkedFlow k b q w).segs := by
  rw [walkedFlow_segs]
  split
  · refine hw.of_map fun x => ?_
    unfold pullSeg
    split
    · unfold Body.pull
      split <;> exact ⟨rfl, rfl⟩
    · exact ⟨rfl, rfl⟩
  · exact hw

theorem walkedFlow_data {q : OfoId} : segsData h (walkedFlow k b q w).segs = segsData h w.segs := by
  rw [walkedFlow_segs]
  split
  · exact segsData_pullSeg
  · rfl

/-! ### Calls -/

/-- **What `napi_gro_flush` does to the flow.** -/
theorem flushLists_drains {flushOld : Bool} {groOfoTimeout groInseqTimeout : U64} (hl : Laned base key l) :
    Laned base key (flushLists l flushOld groOfoTimeout groInseqTimeout) ∧
      (lane key.ports l).Drains key.ports (lane key.ports (flushLists l flushOld groOfoTimeout groInseqTimeout)) := by
  -- the flows `rest` are still to be looked at, and come in front of those that stay
  have hfold : ∀ (fs rest : List (Flow GsoEnd OfoExt)) (m : Lists), m.flows = [] →
      Laned base key { m with flows := rest ++ fs } →
      Laned base key { fs.foldr (flushFlow flushOld groOfoTimeout groInseqTimeout) m with
          flows := rest ++ (fs.foldr (flushFlow flushOld groOfoTimeout groInseqTimeout) m).flows } ∧
        (lane key.ports { m with flows := rest ++ fs }).Drains key.ports
          (lane key.ports { fs.foldr (flushFlow flushOld groOfoTimeout groInseqTimeout) m with
            flows := rest ++ (fs.foldr (flushFlow flushOld groOfoTimeout groInseqTimeout) m).flows }) := by
    intro fs rest m hm hl
    induction fs generalizing rest with
    | nil =>
      rw [List.foldr_nil, hm]
      exact ⟨hl, Lane.Drains.refl _⟩
    | cons f fs ih =>
      obtain ⟨hrest, hdrains⟩ := ih (rest ++ [f]) (by rwa [← List.append_cons])
      rw [← List.append_cons] at hdrains
      rw [List.foldr_cons]
      generalize fs.foldr (flushFlow flushOld groOfoTimeout groInseqTimeout) m = m' at hrest hdrains ⊢
      have hflows : rest ++ [f] ++ m'.flows = rest ++ f :: m'.flows := by rw [← List.append_cons]
      obtain ⟨rel, hsegs, -⟩ := completeFlow_append flushOld groOfoTimeout groInseqTimeout (m'.clock.ktime 0) f.dat
        (setHeadNext (heads m'.flows).head? f.segs)
      have hdata := @completeFlow_data key.ports (setHeadNext (heads m'.flows).head? f.segs) flushOld groOfoTimeout
        groInseqTimeout (m'.clock.ktime 0) f.dat
      rw [segsData_setHeadNext] at hdata
      obtain ⟨κ, hf⟩ := hrest.held.flows f (by simp)
      have hflow := completeFlow_upFrom flushOld groOfoTimeout groInseqTimeout (m'.clock.ktime 0) f.dat
        (bodies_setHeadNext (n := (heads m'.flows).head?).2 hf)
      have hup : UpsHeld (OfFlow base key) m'.up := hrest.held.up
      unfold flushFlow
      simp only
      generalize completeFlow flushOld groOfoTimeout groInseqTimeout (m'.clock.ktime 0) f.dat
        (setHeadNext (heads m'.flows).head? f.segs) = r at hsegs hdata hflow ⊢
      have hrestflows := hrest.held.flows
      simp only [List.forall_mem_append] at hrestflows
      have hups : UpsHeld (OfFlow base key) (m'.up ++ r.2.1) := hup.append hflow.1
      obtain ⟨e, he⟩ : ∃ e : Lists, e = { m' with
          flows := rest ++ [⟨f.q, r.1, r.2.2⟩] ++ m'.flows, clock := m'.clock.tickKtime, up := m'.up ++ r.2.1 } := ⟨_, rfl⟩
      obtain ⟨hshort, hmore⟩ := hrest.shorten (m := e) (g := ⟨f.q, r.1, r.2.2⟩) hflows hsegs hdata (by
          rw [he]
          refine ⟨List.forall_mem_append.2 ⟨List.forall_mem_append.2 ⟨hrestflows.1.1, ?_⟩, hrestflows.2⟩, hups⟩
          exact List.forall_mem_singleton.2 ⟨κ, hflow.2⟩) (by rw [he, ← List.append_cons]) (by rw [he])
      have hall := hdrains.trans hmore
      split
      · rename_i hnil
        -- the flow that is gone has nothing left
        have hempty : Flow.hasPorts key.ports (⟨f.q, r.1, r.2.2⟩ : Flow GsoEnd OfoExt) = false := by
          rw [Flow.hasPorts, List.isEmpty_iff.1 hnil]
          rfl
        have hfilter : (rest ++ m'.flows).filter (Flow.hasPorts key.ports) = e.flows.filter (Flow.hasPorts key.ports) := by
          rw [he, List.filter_append, List.filter_append, List.filter_append, List.filter_cons_of_neg (by simp [hempty]),
            List.filter_nil, List.append_nil]
        refine ⟨hshort.congr ⟨List.forall_mem_append.2 ⟨hrestflows.1.1, hrestflows.2⟩, hups⟩ hfilter, ?_⟩
        have hlane : ∀ e' : Lists, e'.flows = rest ++ m'.flows → e'.up = m'.up ++ r.2.1 →
            lane key.ports e' = lane key.ports e :=
          fun e' hflows hup => lane_congr (by rw [hflows, hfilter]) (by rw [hup, he])
        exact (congrArg (Lane.Drains key.ports _) (hlane _ rfl rfl)).mpr hall
      · rw [he, ← List.append_cons] at hshort hall
        exact ⟨⟨hshort.held, hshort.sole⟩, hall⟩
  exact hfold l.flows [] { l with flows := [] } rfl hl

theorem Laned.init (mem : Mem) : Laned base key (initLists mem) :=
  ⟨⟨fun _ hf => absurd hf List.not_mem_nil, fun _ hu => absurd hu List.not_mem_nil⟩, Nat.zero_le _⟩

/-- What a call does to the flow, if it is not about a packet. -/
theorem stepLists_drains {c : Call} (hl : Laned base key l) (hc : ∀ pkt ktime, c ≠ .receive pkt ktime)
    (hstep : stepLists l c = .ok l') :
    Laned base key l' ∧ (lane key.ports l).Drains key.ports (lane key.ports l') := by
  have hclock : Laned base key { l with clock := { l.clock with ktime := c.ktime } } := ⟨⟨hl.held.flows, hl.held.up⟩, hl.sole⟩
  cases c with
  | receive pkt ktime => exact absurd rfl (hc pkt ktime)
  | flush flushOld groOfoTimeout groInseqTimeout ktime =>
    cases hstep
    exact flushLists_drains hclock
  | clean ktime =>
    cases hstep
    exact ⟨⟨⟨hclock.held.flows, hclock.held.up⟩, hclock.sole⟩, Lane.Drains.refl _⟩

end

end PacketReordering.Linux41
