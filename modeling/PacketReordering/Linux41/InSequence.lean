import PacketReordering.Linux41.Lane
import PacketReordering.Linux41.Placed

/-!
# `linux-4.1`: packets that arrive in sequence

When each packet of a flow begins where the one before it ended, its place is behind everything that is held.  As long as
it gets a place there, the data goes up in the order in which it arrived.

* `arrived`, `InSequence` — the packets of a flow, and that they are in sequence;
* `findsPlace` — the packet is of no held flow, or gets a place in the queue of its flow;
* `waits` — no packet goes up as it is past a held one of its flow;
* `Lined` — what went up and what is held is what arrived;
* `run_inSequence` — the exact condition;
* `Gapless`, `run_gapless` — as long as it is met, the data goes up in the order of the sequence numbers;
* `not_inSequence_fin` — the code does not give every packet a place.
-/

namespace PacketReordering.Linux41

open Lib Gro

/-- The packet that a call hands in. -/
def Call.arrived (h : U32) : Call → List Skb
  | .receive pkt _ => pkt.arrived h
  | _ => []

/-- The packets with the ports `h` that arrived. -/
def arrived (h : U32) (cs : List Call) : List Skb := cs.flatMap (Call.arrived h)

/-- The packets are of one flow, in its window, and each begins where the one before it ended. -/
structure InSequence (base : U32) (key : FlowKey) (bs : List Skb) : Prop where
  flow : ∀ b ∈ bs, b.flowKey = key
  window : ∀ b ∈ bs, b.InWindow base
  chain : bs.IsChain fun b b' => b'.seq = b.seqEnd

/-- The packet has other ports than `h`, or is of no held flow, or gets a place in the queue of its flow. -/
def arrivalFindsPlace (h : U32) (l : Lists) (pkt : Packet) : Bool :=
  match pkt.parse with
  | .tcp b flush linear =>
    match splitFlow (sameFlowAs b) l.flows with
    | some (_, f, _) =>
      b.tcp.ports != h ||
        !(notHeld f b flush linear || isLate f.dat b || turnedAway (walker b) f.segs (walkDat f.dat b).seqNext)
    | none => true
  | _ => true

def findsPlace (h : U32) (s : Mem) (c : Call) : Bool :=
  match c with
  | .receive pkt _ => arrivalFindsPlace h s.view pkt
  | _ => true

/-- A buffer with a packet of the ports `h` that went up as it is. -/
def isNormal (h : U32) (u : Up GsoEnd) : Bool := decide (u.via = .normal) && u.body.parts.any fun c => c.isTcp && c.ports == h

/-- In this step no packet with the ports `h` goes up as it is, or none is held afterwards. -/
def waits (h : U32) (s : Mem) (c : Call) : Prop :=
  ∀ s', step s c = .ok s' → s'.up.countP (isNormal h) = s.up.countP (isNormal h) ∨ laneOf h s'.view.flows = []

/-- Each packet begins where the one before it ended. -/
def Gapless (cs : List Part) : Prop := cs.IsChain fun c d => d.seq = c.seq + c.len

section

variable {base : U32} {key : FlowKey} {h κ : U32} {l l' : Lists} {pkt : Packet} {n : Option SkbId} {k : SkbId} {b c : Skb}
  {tr : Track} {w : Walked} {segs rest pre post : List Segment} {p2 : Segment} {inSeq seq2 : U32} {bs : List Skb}
  {f : Flow GsoEnd OfoExt} {A B : List (Flow GsoEnd OfoExt)} {flush linear : Bool}

/-! ### The held flow -/

/-- What holds of the lists when the packets `bs` of the flow `key` have arrived. -/
structure Lined (base : U32) (key : FlowKey) (bs : List Skb) (l : Lists) : Prop where
  laned : Laned base key l
  rising : Rising base (lane key.ports l).held
  upto : ∀ c ∈ (lane key.ports l).held, ∃ b ∈ bs.getLast?, c.last base ≤ b.last base
  data : (lane key.ports l).data key.ports = bs.flatMap (Body.data key.ports)

theorem findsPlace_new (hparse : pkt.parse = .tcp b flush linear) (hsplit : splitFlow (sameFlowAs b) l.flows = none) :
    arrivalFindsPlace h l pkt = true := by
  unfold arrivalFindsPlace
  rw [hparse]
  simp only [hsplit]

theorem Found.findsPlace_eq (hfound : Found l pkt b flush linear A f B) :
    arrivalFindsPlace h l pkt = (b.tcp.ports != h ||
      !(notHeld f b flush linear || isLate f.dat b || turnedAway (walker b) f.segs (walkDat f.dat b).seqNext)) := by
  unfold arrivalFindsPlace
  rw [hfound.parse]
  simp only [hfound.split]

theorem Lined.setClock (hl : Lined base key bs l) (ktime : ℕ → U64) :
    Lined base key bs { l with clock := { l.clock with ktime := ktime } } :=
  ⟨⟨⟨hl.laned.held.flows, hl.laned.held.up⟩, hl.laned.sole⟩, hl.rising, hl.upto, hl.data⟩

/-- The first of the held buffers go up. -/
theorem Lined.drain (hl : Lined base key bs l) (hlaned : Laned base key l')
    (hdrains : (lane key.ports l).Drains key.ports (lane key.ports l')) : Lined base key bs l' := by
  have hdata := hdrains.data
  obtain ⟨rel, hheld, -⟩ := hdrains
  have hrising := hl.rising
  rw [hheld] at hrising
  refine ⟨hlaned, (rising_append.1 hrising).2.1, fun c hc => hl.upto c ?_, hdata.trans hl.data⟩
  rw [hheld]
  exact List.mem_append_right _ hc

/-- The packet `b` has arrived. -/
theorem Lined.push (hl : Lined base key bs l) (hlaned : Laned base key l') (hrising : Rising base (lane key.ports l').held)
    (hupto : ∀ c ∈ (lane key.ports l').held, c.last base ≤ b.last base)
    (hdata : (lane key.ports l').data key.ports = (lane key.ports l).data key.ports ++ b.data key.ports) :
    Lined base key (bs ++ [b]) l' := by
  refine ⟨hlaned, hrising, fun c hc => ⟨b, by simp, hupto c hc⟩, ?_⟩
  rw [hdata, hl.data, List.flatMap_append, List.flatMap_singleton]

/-- What the next packet does: it is of the flow `key`, and begins where the last one ended. -/
structure Next (base : U32) (key : FlowKey) (bs : List Skb) (pkt : Packet) : Prop where
  keyed : ∀ b ∈ pkt.arrived key.ports, Keyed (fun _ => base) key b
  seq : ∀ b ∈ pkt.arrived key.ports, ∀ a ∈ bs.getLast?, b.seq = a.seqEnd

/-! ### Arrivals -/

/-- **A packet behind everything that is held goes behind everything that is held**, if it gets a place at all. -/
theorem walkSegs_joined (hbof : OfFlow base key key.ports b) (hne : segs ≠ [])
    (hbodies : Bodies (OfFlow base key key.ports) segs) (hstaged : Staged base segs)
    (hupto : Bodies (fun c => c.last base ≤ b.first base) segs) (hplace : w.fate ≠ .normal)
    (hwalk : walkSegs n k b segs [] inSeq tr = .ok w) :
    Staged base w.segs ∧ Bodies (fun c => c.last base ≤ b.last base) w.segs ∧
      upsData key.ports w.track.up ++ segsData key.ports w.segs =
        upsData key.ports tr.up ++ segsData key.ports segs ++ b.data key.ports := by
  have hspot : Spot base key b [] segs := ⟨hbodies, hstaged, bodies_nil, fun _ => hupto.imp fun c hc _ => Or.inl hc⟩
  have hplaced := walkSegs_placed hbof hne hspot hwalk
  have hble := hbof.window.first_le
  refine ⟨hplaced.staged, walkSegs_upto (Nat.le_refl _) (hupto.imp fun c hc => hc.trans hble) hwalk, ?_⟩
  obtain ⟨front, back, hheld, hdata, hiff⟩ := hplaced.data
  rw [List.nil_append] at hheld
  rw [if_neg hplace, List.append_nil] at hdata
  rw [hdata, hheld]
  by_cases hlen : b.len = 0
  · simp [hbof.data_nil hlen]
  · -- what is behind the packet would be in front of it
    have hback : back = [] := by
      rw [List.eq_nil_iff_forall_not_mem]
      intro d hd
      have hmem : d ∈ segsData key.ports segs := hheld ▸ List.mem_append_right _ hd
      have hfirst := ((hiff hlen).2 (hplaced.seated hplace)).2 d hd
      have hlast := data_upto hbodies hupto d hmem
      have hlt := (data_window hbodies d hmem).1
      omega
    simp [hback]

theorem Arrival.lined (hl : Lined base key bs l) (hne : ∀ f ∈ l.flows, f.segs ≠ []) (hpkt : Next base key bs pkt)
    (hplace : arrivalFindsPlace key.ports l pkt = true) (harrival : Arrival l pkt l') :
    Lined base key (bs ++ pkt.arrived key.ports) l' := by
  obtain ⟨hlaned, htakes⟩ := harrival.takes hl.laned hne hpkt.keyed
  obtain ⟨s', hs'⟩ : ∃ s', s' = lane key.ports l' := ⟨_, rfl⟩
  rw [← hs'] at htakes
  cases htakes with
  | other harrived hdrains =>
    rw [harrived, List.append_nil]
    exact hl.drain hlaned (hs' ▸ hdrains)
  | passed harrived hnil heq =>
    rw [heq] at hs'
    rw [harrived]
    refine hl.push hlaned ?_ ?_ ?_
    · rw [← hs']
      exact List.Pairwise.nil
    · rw [← hs']
      exact fun c hc => absurd hc List.not_mem_nil
    · rw [← hs', Lane.data, Lane.data, hnil]
      simp
  | @opened b c harrived hnil hc heq =>
    obtain ⟨hseq, hlen, hdata⟩ := hc
    rw [heq] at hs'
    rw [harrived]
    refine hl.push hlaned ?_ ?_ ?_
    · rw [← hs']
      exact List.pairwise_singleton _ _
    · rw [← hs']
      intro d hd
      rw [List.mem_singleton.1 hd, Body.last, Body.last, Body.seqEnd, Body.seqEnd, hseq, hlen]
    · rw [← hs', Lane.data, Lane.data, hnil]
      simp [hdata]
  | @dropped b flush linear A f B harrived hfound hf hwhy heq =>
    have hports : b.tcp.ports = key.ports := congrArg FlowKey.ports (hpkt.keyed b (by simp [harrived])).1
    rw [hfound.findsPlace_eq, hports, hwhy] at hplace
    simp at hplace
  | @walked b flush linear A f B w harrived hfound hf hwhy hwalk heq =>
    have hb : b ∈ pkt.arrived key.ports := by simp [harrived]
    have hports : b.tcp.ports = key.ports := congrArg FlowKey.ports (hpkt.keyed b hb).1
    obtain ⟨hbodies, hbof, -⟩ := hl.laned.walking hne hpkt.keyed hfound hwhy hwalk
    rw [hports] at hbodies hbof
    have hfate : w.fate ≠ .normal := by
      rw [hfound.findsPlace_eq, hports, bne_self_eq_false, hwhy, walkSegs_turnedAway hwalk] at hplace
      simpa using hplace
    have hheld : (lane key.ports l).held = f.segs.map Seg.body := by rw [lane, hf]
    have hflows := (splitFlow_some hfound.split).1
    have hupto : Bodies (fun c => c.last base ≤ (walker b).first base) f.segs := by
      intro x hx
      obtain ⟨a, ha, hle⟩ := hl.upto x.body (hheld ▸ List.mem_map_of_mem hx)
      have hseq : (walker b).first base = a.last base := congrArg (offset base) (hpkt.seq b hb a ha)
      rw [hseq]
      exact hle
    obtain ⟨hstaged, hends, hdata⟩ := walkSegs_joined hbof (hne f (hflows ▸ by simp)) hbodies
      (staged_iff.2 (hheld ▸ hl.rising)) hupto hfate hwalk
    rw [if_neg hfate, List.append_nil] at heq
    rw [heq] at hs'
    rw [harrived]
    refine hl.push hlaned ?_ ?_ ?_
    · rw [← hs']
      exact staged_iff.1 (walkedFlow_staged hstaged)
    · rw [← hs']
      have hends' : Bodies (fun c => c.last base ≤ b.last base) (walkedFlow l.nskb b f.q w).segs :=
        walkedFlow_bodies (fun c hc => by rw [pull_ends.2.1]; exact hc) hends
      intro c hc
      obtain ⟨x, hx, rfl⟩ := List.mem_map.1 hc
      exact hends' x hx
    · rw [← hs', Lane.data, Lane.data, ← segsData_eq, walkedFlow_data, hheld, ← segsData_eq]
      exact hdata

theorem stepLists_lined {c : Call} (hl : Lined base key bs l) (hne : ∀ f ∈ l.flows, f.segs ≠ [])
    (hpkt : ∀ pkt ktime, c = .receive pkt ktime → Next base key bs pkt ∧ arrivalFindsPlace key.ports l pkt = true)
    (hstep : stepLists l c = .ok l') : Lined base key (bs ++ c.arrived key.ports) l' := by
  cases c with
  | receive pkt ktime =>
    obtain ⟨hnext, hplace⟩ := hpkt pkt ktime rfl
    exact Arrival.lined (hl.setClock ktime) hne hnext hplace (receiveLists_ok hstep)
  | flush | clean =>
    obtain ⟨hlaned, hdrains⟩ := stepLists_drains hl.laned (fun pkt ktime => by simp) hstep
    have hbs : ∀ c : Call, c.arrived key.ports = [] → bs ++ c.arrived key.ports = bs := by
      intro c hc
      rw [hc, List.append_nil]
    rw [hbs _ rfl]
    exact hl.drain hlaned hdrains

/-! ### Packets that go up as they are -/

theorem countP_of_via {us vs : List (Up GsoEnd)} (hvs : ∀ u ∈ vs, u.via ≠ .normal) :
    (us ++ vs).countP (isNormal h) = us.countP (isNormal h) := by
  have hzero : vs.countP (isNormal h) = 0 := List.countP_eq_zero.2 fun u hu => by simp [isNormal, hvs u hu]
  rw [List.countP_append, hzero, Nat.add_zero]

theorem countP_parsed {us : List (Up GsoEnd)} :
    (us ++ [Parsed.up k b]).countP (isNormal h) =
      us.countP (isNormal h) + if b.parts.any fun c => c.isTcp && c.ports == h then 1 else 0 := by
  rw [List.countP_append, List.countP_singleton]
  simp [isNormal, Parsed.up]

theorem Headed.any_parts (hb : Headed pkt b) :
    (b.parts.any fun c => c.isTcp && c.ports == h) = decide (b.tcp.ports = h) := by
  rw [hb.parts]
  simp [Body.part]
  rfl

theorem any_parts_part {b : Skb} (hparts : b.parts = [pkt.body.part]) :
    (b.parts.any fun c => c.isTcp && c.ports == h) = false := by
  rw [hparts]
  rfl

theorem walkSegs_countP (hb : OfFlow base key κ b) (hsegs : Bodies (OfFlow base key κ) segs)
    (hwalk : walkSegs n k b segs [] inSeq tr = .ok w) : w.track.up.countP (isNormal h) = tr.up.countP (isNormal h) := by
  refine (walkSegs_keeps (R := fun tr' => tr'.up.countP (isNormal h) = tr.up.countP (isNormal h)) (ofFlow_rule base key) ?_
    hb rfl hsegs hwalk).2
  intro tr' xs _ htr'
  unfold Track.release
  split
  · exact htr'
  · rw [← htr']
    exact countP_of_via flushSegs_via

theorem flushLists_countP {flushOld : Bool} {groOfoTimeout groInseqTimeout : U64} :
    (flushLists l flushOld groOfoTimeout groInseqTimeout).up.countP (isNormal h) = l.up.countP (isNormal h) := by
  have hfold : ∀ (fs : List (Flow GsoEnd OfoExt)) (l : Lists),
      (fs.foldr (flushFlow flushOld groOfoTimeout groInseqTimeout) l).up.countP (isNormal h) =
        l.up.countP (isNormal h) := by
    intro fs l
    induction fs with
    | nil => rfl
    | cons f fs ih =>
      rw [List.foldr_cons, ← ih]
      unfold flushFlow
      simp only
      split <;> exact countP_of_via (completeFlow_via _ _ _ _ _ _)
  exact hfold _ _

/-- A packet of no held flow goes up as it is. -/
theorem Lined.normal_waits (hl : Lined base key bs l) (hne : ∀ f ∈ l.flows, f.segs ≠ []) (hpkt : Next base key bs pkt)
    (hparse : pkt.parse = .tcp b flush linear) (hother : ∀ f ∈ l.flows, sameFlowAs b f = false)
    (hflows : l'.flows = l.flows) (hup : l'.up = l.up ++ [Parsed.up k b]) :
    l'.up.countP (isNormal key.ports) = l.up.countP (isNormal key.ports) ∨ laneOf key.ports l'.flows = [] := by
  by_cases hports : b.tcp.ports = key.ports
  · have hb : b ∈ pkt.arrived key.ports := by simp [arrived_tcp hparse hports]
    rw [hflows]
    exact Or.inr (laneOf_of_filter (hl.laned.unmatched hne (hpkt.keyed b hb).1 hother))
  · rw [hup, countP_parsed, (parse_tcp hparse).any_parts, decide_eq_false hports]
    exact Or.inl rfl

/-- **A packet goes up past a held one of its flow exactly if it gets no place behind it.** -/
theorem Arrival.waits_iff (hl : Lined base key bs l) (hne : ∀ f ∈ l.flows, f.segs ≠ []) (hne' : ∀ f ∈ l'.flows, f.segs ≠ [])
    (hpkt : Next base key bs pkt) (harrival : Arrival l pkt l') :
    (l'.up.countP (isNormal key.ports) = l.up.countP (isNormal key.ports) ∨ laneOf key.ports l'.flows = []) ↔
      arrivalFindsPlace key.ports l pkt = true := by
  have hnotTcp : ∀ {b : Skb}, b.parts = [pkt.body.part] →
      (l.up ++ [Parsed.up l.nskb b]).countP (isNormal key.ports) = l.up.countP (isNormal key.ports) := by
    intro b hparts
    rw [countP_parsed, any_parts_part hparts]
    rfl
  cases harrival with
  | other hparse =>
    have hplace : arrivalFindsPlace key.ports l pkt = true := by
      unfold arrivalFindsPlace
      rw [hparse]
    exact ⟨fun _ => hplace, fun _ => Or.inl (hnotTcp (parse_other_parts hparse))⟩
  | unheld hwhy hqueue =>
    cases hwhy with
    | badHeader hparse =>
      have hplace : arrivalFindsPlace key.ports l pkt = true := by
        unfold arrivalFindsPlace
        rw [hparse]
      exact ⟨fun _ => hplace, fun _ => Or.inl (hnotTcp (parse_badHeader hparse).2.2.2)⟩
    | tcp hparse hsplit hwhy =>
      exact ⟨fun _ => findsPlace_new hparse hsplit,
        fun _ => hl.normal_waits hne hpkt hparse (splitFlow_none hsplit) rfl rfl⟩
  | late hold hlate =>
    obtain ⟨flush, linear, hparse, -⟩ := hold.parse
    exact ⟨fun _ => findsPlace_new hparse hold.split,
      fun _ => hl.normal_waits hne hpkt hparse (splitFlow_none hold.split) rfl rfl⟩
  | fresh hold hlate hfull =>
    obtain ⟨flush, linear, hparse, -⟩ := hold.parse
    exact ⟨fun _ => findsPlace_new hparse hold.split, fun _ => Or.inl rfl⟩
  | evict hold hlate hflows hfull =>
    obtain ⟨flush, linear, hparse, -⟩ := hold.parse
    exact ⟨fun _ => findsPlace_new hparse hold.split, fun _ => Or.inl (countP_of_via (completeFlow_via _ _ _ _ _ _))⟩
  | @drop b flush linear A B f hfound hwhy =>
    have hflows := (splitFlow_some hfound.split).1
    have hf : f ∈ l.flows := hflows ▸ by simp
    obtain ⟨κ, hbodies⟩ := hl.laned.held.flows f hf
    have hfports := (hfound.hasPorts (h := key.ports) hbodies (hne f hf)).2
    have hgports : (⟨f.q, (normalDat (dropDat f b flush linear) l.clock (walker b)).1, setHeadNext (heads B).head? f.segs⟩ :
        Flow GsoEnd OfoExt).hasPorts key.ports = f.hasPorts key.ports := by
      unfold Flow.hasPorts
      cases f.segs <;> rfl
    have hcount : (l.up ++ [Parsed.up l.nskb (walker b)]).countP (isNormal key.ports) =
        l.up.countP (isNormal key.ports) + if decide (b.tcp.ports = key.ports) then 1 else 0 := by
      rw [countP_parsed]
      exact congrArg (fun p : Bool => _ + if p then 1 else 0) (parse_tcp hfound.parse).any_parts
    rw [hfound.findsPlace_eq, hwhy]
    by_cases hports : b.tcp.ports = key.ports
    · rw [decide_eq_true hports] at hfports hcount
      have hlane : laneOf key.ports (A ++ ⟨f.q, (normalDat (dropDat f b flush linear) l.clock (walker b)).1,
          setHeadNext (heads B).head? f.segs⟩ :: B) ≠ [] := laneOf_ne_nil (by simp) (hgports.trans hfports)
      constructor
      · rintro (hsame | hnil)
        · exact absurd (hcount.symm.trans hsame) (by simp)
        · exact absurd hnil hlane
      · simp [hports]
    · rw [decide_eq_false hports] at hcount
      exact ⟨fun _ => by simp [hports], fun _ => Or.inl hcount⟩
  | @walked b flush linear A B f w hfound hwhy hwalk =>
    obtain ⟨hbodies, hbof, hbodies'⟩ := hl.laned.walking hne hpkt.keyed hfound hwhy hwalk
    have hcount : w.track.up.countP (isNormal key.ports) = l.up.countP (isNormal key.ports) :=
      walkSegs_countP hbof hbodies hwalk
    have hmem : walkedFlow l.nskb b f.q w ∈ (walkedLists { l with nskb := l.nskb + 1 } l.nskb b A B f.q w).flows := by
      rw [walkedLists_flows]
      simp
    have hnormal : (w.track.up ++ [Parsed.up l.nskb (walker b)]).countP (isNormal key.ports) =
        l.up.countP (isNormal key.ports) + if decide (b.tcp.ports = key.ports) then 1 else 0 := by
      rw [countP_parsed, hcount]
      exact congrArg (fun p : Bool => _ + if p then 1 else 0) (parse_tcp hfound.parse).any_parts
    rw [hfound.findsPlace_eq, hwhy, walkSegs_turnedAway hwalk, walkedLists_up]
    by_cases hfate : w.fate = .normal
    · rw [if_pos hfate]
      by_cases hports : b.tcp.ports = key.ports
      · rw [decide_eq_true hports] at hnormal
        have hgports : (walkedFlow l.nskb b f.q w).hasPorts key.ports = true :=
          (hasPorts_iff (ported_of_ofFlow hbodies')).2 ⟨hports, hne' _ hmem⟩
        have hlane := laneOf_ne_nil hmem hgports
        constructor
        · rintro (hsame | hnil)
          · exact absurd (hnormal.symm.trans hsame) (by simp)
          · exact absurd hnil hlane
        · simp [hports, hfate]
      · rw [decide_eq_false hports] at hnormal
        exact ⟨fun _ => by simp [hports], fun _ => Or.inl hnormal⟩
    · rw [if_neg hfate]
      exact ⟨fun _ => by simp [hfate], fun _ => Or.inl hcount⟩

/-! ### Runs -/

theorem findsPlace_erase : arrivalFindsPlace h l.erase pkt = arrivalFindsPlace h l pkt := by
  unfold arrivalFindsPlace
  cases pkt.parse with
  | other b => rfl
  | badHeader b => rfl
  | tcp b flush linear =>
    simp only [Queues.erase, splitFlow_erase fun _ => sameFlowAs_erase]
    cases splitFlow (sameFlowAs b) l.flows with
    | none => rfl
    | some r =>
      simp only [Option.map_some, notHeld_erase]
      rw [Flow.erase, turnedAway_erase]

theorem laneOf_erase_eq_nil : laneOf h l.erase.flows = [] ↔ laneOf h l.flows = [] := by
  rw [Queues.erase, laneOf_erase, List.map_eq_nil_iff]

theorem arrived_headed (hb : b ∈ pkt.arrived h) : Headed pkt b ∧ b.tcp.ports = h ∧ pkt.arrived h = [b] := by
  unfold Packet.arrived at hb ⊢
  cases hparse : pkt.parse with
  | other c => rw [hparse] at hb; exact absurd hb List.not_mem_nil
  | badHeader c => rw [hparse] at hb; exact absurd hb List.not_mem_nil
  | tcp c flush linear =>
    rw [hparse] at hb
    simp only at hb ⊢
    split at hb
    · rename_i hports
      rw [List.mem_singleton] at hb
      subst hb
      exact ⟨parse_tcp hparse, hports, if_pos hports⟩
    · exact absurd hb List.not_mem_nil

theorem mem_arrived {cs : List Call} (hb : b ∈ arrived h cs) : ∃ pkt : Packet, b ∈ pkt.arrived h := by
  obtain ⟨c, -, hb⟩ := List.mem_flatMap.1 hb
  cases c with
  | receive pkt ktime => exact ⟨pkt, hb⟩
  | flush => exact absurd hb List.not_mem_nil
  | clean => exact absurd hb List.not_mem_nil

theorem InSequence.next {past : List Call} {c : Call} {cs : List Call} {ktime : ℕ → U64}
    (hseq : InSequence base key (arrived key.ports cs)) (hpast : past ++ [c] <+: cs) (hc : c = .receive pkt ktime) :
    Next base key (arrived key.ports past) pkt := by
  obtain ⟨rest, rfl⟩ := hpast
  have harrived : arrived key.ports (past ++ [c] ++ rest) =
      arrived key.ports past ++ pkt.arrived key.ports ++ arrived key.ports rest := by
    rw [arrived, List.flatMap_append, List.flatMap_append, List.flatMap_singleton, hc]
    rfl
  rw [harrived] at hseq
  refine ⟨fun b hb => ⟨hseq.flow b (by simp [hb]), hseq.window b (by simp [hb])⟩, fun b hb a ha => ?_⟩
  have hchain := (List.isChain_append.1 (List.isChain_append.1 hseq.chain).1).2.2 a ha
  obtain ⟨-, -, hsingle⟩ := arrived_headed hb
  exact hchain b (by rw [hsingle]; rfl)

/-- The data of packets in sequence has no gaps, and begins where they begin. -/
theorem data_gapless (hheaded : ∀ b ∈ bs, ∃ pkt, Headed pkt b ∧ b.tcp.ports = h)
    (hchain : bs.IsChain fun b b' => b'.seq = b.seqEnd) :
    Gapless (bs.flatMap (Body.data h)) ∧ ∀ c ∈ (bs.flatMap (Body.data h)).head?, ∀ b ∈ bs.head?, c.seq = b.seq := by
  induction bs with
  | nil => exact ⟨List.IsChain.nil, fun c hc => absurd hc (by simp)⟩
  | cons b bs ih =>
    obtain ⟨hnext, hchain⟩ := List.isChain_cons.1 hchain
    obtain ⟨⟨pkt, hb, hports⟩, hheaded⟩ := List.forall_mem_cons.1 hheaded
    obtain ⟨hgapless, hfirst⟩ := ih hheaded hchain
    -- what comes behind the packet begins where it ends
    have hbehind : ∀ c ∈ (bs.flatMap (Body.data h)).head?, c.seq = b.seqEnd := by
      intro c hc
      cases bs with
      | nil => exact absurd hc (by simp)
      | cons b' bs => exact (hfirst c hc b' rfl).trans (hnext b' rfl)
    rw [List.flatMap_cons]
    by_cases hlen : b.len = 0
    · rw [hb.data_nil hlen, List.nil_append]
      refine ⟨hgapless, fun c hc b' hb' => ?_⟩
      obtain rfl : b = b' := Option.some.inj hb'
      rw [hbehind c hc, Body.seqEnd, hlen]
      exact BitVec.add_zero b.seq
    · rw [hb.data_eq hports hlen, List.singleton_append]
      refine ⟨List.isChain_cons.2 ⟨fun c hc => ?_, hgapless⟩, fun c hc b' hb' => ?_⟩
      · rw [hbehind c hc, Body.seqEnd, hb.seq, hb.len]
        rfl
      · obtain rfl : b = b' := Option.some.inj hb'
        rw [← Option.some.inj hc, hb.seq]
        rfl

/-- As long as each packet gets a place, what went up and what is held is what arrived, and no packet goes past a held one. -/
theorem run_lined {mem s : Mem} {cs : List Call} (hseq : InSequence base key (arrived key.ports cs))
    (hrun : run mem cs = .ok s) :
    (Steps step (waits key.ports) (netifNapiAdd mem) cs ↔
        Steps step (fun s c => findsPlace key.ports s c = true) (netifNapiAdd mem) cs) ∧
      (Steps step (fun s c => findsPlace key.ports s c = true) (netifNapiAdd mem) cs →
        upsData key.ports s.up <+: (arrived key.ports cs).flatMap (Body.data key.ports)) := by
  have halong := Steps.iff_along (D := waits key.ports) (C := fun s c => findsPlace key.ports s c = true)
    (I := fun s past => ∃ l, Rep s l ∧ Lined base key (arrived key.ports past) l) ?_ ?_ hrun
  · refine ⟨halong.1, fun h => ?_⟩
    obtain ⟨l, hrep, hl⟩ := halong.2 h
    rw [← hl.data, hrep.links.up]
    exact List.prefix_append (upsData key.ports l.up) _
  · rintro s c s' past hpast ⟨l, hrep, hl⟩ hstep
    have hagree := step_spec s l c hrep
    rw [hstep] at hagree
    obtain ⟨l', hl', hrep'⟩ := hagree.exists_ok
    have hne : ∀ f ∈ l.flows, f.segs ≠ [] := fun f hf => (hrep.links.flows f hf).ne
    have hne' : ∀ f ∈ l'.flows, f.segs ≠ [] := fun f hf => (hrep'.links.flows f hf).ne
    have hwaits : waits key.ports s c ↔
        (l'.up.countP (isNormal key.ports) = l.up.countP (isNormal key.ports) ∨ laneOf key.ports l'.flows = []) := by
      unfold waits
      rw [hstep]
      simp only [Except.ok.injEq, forall_eq']
      rw [hrep.links.up, hrep'.links.up, hrep'.view_eq, laneOf_erase_eq_nil]
    refine ⟨?_, fun hplace => ⟨l', hrep', ?_⟩⟩
    · rw [hwaits]
      cases c with
      | receive pkt ktime =>
        rw [findsPlace, hrep.view_eq, findsPlace_erase]
        exact Arrival.waits_iff (l := { l with clock := { l.clock with ktime := ktime } }) (hl.setClock ktime) hne hne'
          (hseq.next hpast rfl) (receiveLists_ok hl')
      | flush flushOld groOfoTimeout groInseqTimeout ktime =>
        cases hl'
        exact ⟨fun _ => rfl, fun _ => Or.inl flushLists_countP⟩
      | clean ktime =>
        cases hl'
        exact ⟨fun _ => rfl, fun _ => Or.inl rfl⟩
    · have harrived : arrived key.ports (past ++ [c]) = arrived key.ports past ++ c.arrived key.ports := by
        rw [arrived, List.flatMap_append, List.flatMap_singleton]
        rfl
      rw [harrived]
      refine stepLists_lined hl hne (fun pkt ktime hc => ⟨hseq.next hpast hc, ?_⟩) hl'
      rwa [hc, findsPlace, hrep.view_eq, findsPlace_erase] at hplace
  · exact ⟨_, netifNapiAdd_rep mem, Laned.init mem, List.Pairwise.nil, fun c hc => absurd hc List.not_mem_nil, rfl⟩

end

/-- **The data of a flow whose packets arrive in sequence goes up in that order, and none of its packets goes up past a
held one, exactly if each of them gets a place behind what is held.** -/
theorem run_inSequence {base : U32} {key : FlowKey} {mem s : Mem} {cs : List Call}
    (hseq : InSequence base key (arrived key.ports cs)) (hrun : run mem cs = .ok s) :
    (upsData key.ports s.up <+: (arrived key.ports cs).flatMap (Body.data key.ports) ∧
        Steps step (waits key.ports) (netifNapiAdd mem) cs) ↔
      Steps step (fun s c => findsPlace key.ports s c = true) (netifNapiAdd mem) cs := by
  obtain ⟨hiff, hbegins⟩ := run_lined hseq hrun
  exact ⟨fun h => hiff.1 h.2, fun h => ⟨hbegins h, hiff.2 h⟩⟩

/-- The flow of `secondWith`. -/
def secondKey : FlowKey := (Packet.plain 0 1 7 100 10 0).body.flowKey

/-- The second packet of `secondWith` begins where the first one ends. -/
theorem secondWith_inSequence {flags : U32} (hflags : flags ∈ [0, tcpFlagFin]) :
    InSequence 0 secondKey (arrived secondKey.ports (secondWith flags)) := by
  have hcases : flags = 0 ∨ flags = tcpFlagFin := by simpa using hflags
  rcases hcases with rfl | rfl
  · exact ⟨by decide +kernel, by decide +kernel, by decide +kernel⟩
  · exact ⟨by decide +kernel, by decide +kernel, by decide +kernel⟩

theorem run_inSequence_second :
    ∃ s, run default (secondWith 0) = .ok s ∧ s.up.map (fun u => (u.body.parts.length, u.body.seq, u.via)) =
        [(2, 100, .devGroComplete)] ∧
      upsData secondKey.ports s.up <+:
        (arrived secondKey.ports (secondWith 0)).flatMap (Body.data secondKey.ports) := by
  have hsteps : Steps step (fun s c => findsPlace secondKey.ports s c = true) (netifNapiAdd default) (secondWith 0) := by
    decide +kernel
  have hend : (run default (secondWith 0)).map
      (fun s => s.up.map fun u => (u.body.parts.length, u.body.seq, u.via)) = .ok [(2, 100, .devGroComplete)] := by
    decide +kernel
  obtain ⟨s, hrun, hups⟩ := map_ok hend
  exact ⟨s, hrun, hups, ((run_inSequence (secondWith_inSequence (by simp)) hrun).2 hsteps).1⟩

/-- **The payload of a flow whose packets arrive in sequence goes up in the order of the sequence numbers, and no packet of the
flow goes up as it is while an earlier one is held**, in a run in which each of its packets gets a place. -/
theorem run_gapless {base : U32} {key : FlowKey} {mem s : Mem} {cs : List Call}
    (hseq : InSequence base key (arrived key.ports cs))
    (hsteps : Steps step (fun s c => findsPlace key.ports s c = true) (netifNapiAdd mem) cs) (hrun : run mem cs = .ok s) :
    upsData key.ports s.up <+: (arrived key.ports cs).flatMap (Body.data key.ports) ∧ Gapless (upsData key.ports s.up) ∧
      Steps step (waits key.ports) (netifNapiAdd mem) cs := by
  obtain ⟨hiff, hbegins⟩ := run_lined hseq hrun
  have hheaded : ∀ b ∈ arrived key.ports cs, ∃ pkt, Headed pkt b ∧ b.tcp.ports = key.ports := by
    intro b hb
    obtain ⟨pkt, hpkt⟩ := mem_arrived hb
    obtain ⟨hhead, hports, -⟩ := arrived_headed hpkt
    exact ⟨pkt, hhead, hports⟩
  obtain ⟨hgapless, -⟩ := data_gapless hheaded hseq.chain
  exact ⟨hbegins hsteps, hgapless.prefix (hbegins hsteps), hiff.2 hsteps⟩

/-- Both packets of `secondWith` go up in one segment. -/
theorem run_gapless_second :
    ∃ s, run default (secondWith 0) = .ok s ∧ (upsData secondKey.ports s.up).map (fun c => (c.seq, c.len)) =
        [(100, 10), (110, 10)] ∧ Gapless (upsData secondKey.ports s.up) := by
  have hsteps : Steps step (fun s c => findsPlace secondKey.ports s c = true) (netifNapiAdd default) (secondWith 0) := by
    decide +kernel
  have hend : (run default (secondWith 0)).map
      (fun s => (upsData secondKey.ports s.up).map fun c => (c.seq, c.len)) = .ok [(100, 10), (110, 10)] := by
    decide +kernel
  obtain ⟨s, hrun, hups⟩ := map_ok hend
  obtain ⟨-, hgapless, -⟩ := run_gapless (secondWith_inSequence (by simp)) hsteps hrun
  exact ⟨s, hrun, hups, hgapless⟩

/-- A packet with FIN gets no place, and goes up before the one in front of it. -/
theorem not_inSequence_fin :
    ¬ ∀ (base : U32) (key : FlowKey) (mem s : Mem) (cs : List Call), InSequence base key (arrived key.ports cs) →
      run mem cs = .ok s →
      upsData key.ports s.up <+: (arrived key.ports cs).flatMap (Body.data key.ports) := by
  intro h
  have hend : (run default (secondWith tcpFlagFin)).map (fun s => decide (upsData secondKey.ports s.up <+:
      (arrived secondKey.ports (secondWith tcpFlagFin)).flatMap (Body.data secondKey.ports))) = .ok false := by
    decide +kernel
  obtain ⟨s, hrun, hnot⟩ := map_ok hend
  exact of_decide_eq_false hnot (h 0 secondKey default s _ (secondWith_inSequence (by simp)) hrun)

end PacketReordering.Linux41
