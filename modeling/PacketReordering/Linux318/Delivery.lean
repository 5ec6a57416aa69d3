import PacketReordering.Lib.Precedence
import PacketReordering.Linux318.Slots

/-!
# `linux-3.18.5`: what arrived in order goes up in order

The packets of a flow lie in a window and do not overlap.  Whatever else happens to them, of two packets that arrived in
the order of their sequence numbers the first one is delivered first, unless `napi_gro_complete` frees it.

* `arrivedData`, `Steady` — the packets of a flow, and what is known of them;
* `Orderly` — the data that went up, and behind it the data that is held, keep the order in which they arrived;
* `Arrival.orderly`, `flushLists_orderly` — every call keeps the invariant;
* `run_left`, `run_delivered` — in every run;
* `GoesFirst`, `run_goesFirst` — segment by segment.
-/

namespace PacketReordering.Linux318

open Lib Gro

/-- The packet that arrives, if its TCP header is there and it has payload and the ports `h`. -/
def Packet.arrivedData (env : Env) (h : U32) (pkt : Packet) : List Part :=
  match pkt.parse env with
  | .tcp _ b _ => b.data h
  | _ => []

def Call.arrivedData (env : Env) (h : U32) : Call → List Part
  | .receive pkt _ => pkt.arrivedData env h
  | _ => []

/-- The packets with payload and the ports `h`, in the order of arrival. -/
def arrivedData (env : Env) (h : U32) (cs : List Call) : List Part := cs.flatMap (Call.arrivedData env h)

/-- The TCP header of the packet is all there, and if the packet has the ports of the flow `key`, it is of that flow and
lies in its window. -/
def Packet.steady (env : Env) (base : U32) (key : FlowKey) (pkt : Packet) : Bool :=
  match pkt.parse env with
  | .tcp _ b _ => b.tcp.ports != key.ports || decide (b.flowKey = key) && decide (b.InWindow base)
  | .badHeader _ => false
  | .other _ => true

/-- The payload of `a` ends where the one of `b` begins, or before. -/
def Precedes (a b : Part) : Prop := before b.seq (a.seq + a.len) = false

instance (a b : Part) : Decidable (Precedes a b) := inferInstanceAs (Decidable (_ = _))

/-- The packets of the flow `key` lie in its window, and no two of them overlap. -/
structure Steady (env : Env) (base : U32) (key : FlowKey) (cs : List Call) : Prop where
  packets : ∀ c ∈ cs, c.Meets fun pkt _ => pkt.steady env base key = true
  disjoint : (arrivedData env key.ports cs).Pairwise fun a b => Precedes a b ∨ Precedes b a

/-- The invariant of a held flow. -/
structure Fit (base : U32) (key : FlowKey) (f : Flow Stamp OfoExt) : Prop where
  bodies : Bodies (OfFlow base key f.dat.hash) f.segs
  led : f.dat.hash = key.ports → Led base f.dat f.segs

/-- A free queue object with the hash of the flow `key` has a number of its window, or is given a new one. -/
def Reusable (base : U32) (key : FlowKey) (x : FreeQueue OfoExt) : Prop :=
  x.dat.hash = key.ports → x.dat.ext.age = 0 ∨ offset base x.dat.seqNext ≤ 2 ^ 30

/-- What holds of the lists when the packets `as` have arrived. -/
structure Orderly (base : U32) (key : FlowKey) (as : List Part) (l : Lists) : Prop where
  flows : ∀ f ∈ l.flows, Fit base key f
  sole : Sole key.ports l.flows
  free : ∀ x ∈ l.free, Reusable base key x
  data : Respects (fun a b => partLast base a ≤ partFirst base b) as (l.data key.ports)

/-- What is known of the next packet when the packets `as` have arrived. -/
structure Expected (env : Env) (base : U32) (key : FlowKey) (as : List Part) (pkt : Packet) : Prop where
  header : ∀ b, pkt.parse env ≠ .badHeader b
  flow : ∀ i b flush, pkt.parse env = .tcp i b flush → b.tcp.ports = key.ports → b.flowKey = key ∧ b.InWindow base
  clear : ∀ i b flush, pkt.parse env = .tcp i b flush → b.tcp.ports = key.ports → b.len ≠ 0 → Clear base b as

section

variable {env : Env} {base : U32} {key : FlowKey} {h κ : U32} {pkt : Packet} {l l' : Lists} {n : Option SkbId} {k : SkbId}
  {i b c : Skb} {f g : Flow Stamp OfoExt} {A B : List (Flow Stamp OfoExt)} {w : Walked} {whole flush : Bool}
  {clock : Clock} {p1 : Segment} {segs : List Segment} {x : FreeQueue OfoExt} {rest : List (FreeQueue OfoExt)} {d : Dat}
  {as us ps ps' : List Part} {m since : ℕ}

/-! ### The packet -/

theorem Headed.mem_data (hhead : Headed pkt b) {u : Part} (hu : u ∈ b.data h) :
    partFirst base u = b.first base ∧ partLast base u = b.last base := by
  have hpart := List.mem_of_mem_filter hu
  rw [hhead.parts, List.mem_singleton] at hpart
  subst hpart
  refine ⟨congrArg (offset base) hhead.seq.symm, ?_⟩
  show offset base (b.tcp.seq + BitVec.ofNat 32 b.groLen) = offset base (b.seq + b.len)
  rw [hhead.seq, hhead.len]

theorem Headed.ported (hhead : Headed pkt b) : b.Ported b.tcp.ports := by
  refine ⟨rfl, fun c hc => ?_⟩
  rw [hhead.parts, List.mem_singleton] at hc
  rw [hc]
  rfl

theorem Headed.data_eq (hhead : Headed pkt b) (hlen : b.len ≠ 0) :
    b.data b.tcp.ports = [{ b.part with isTcp := true }] := by
  have hpart : Part.isData b.tcp.ports { b.part with isTcp := true } = true := by
    have hlen' : BitVec.ofNat 32 b.groLen ≠ 0 := hhead.len ▸ hlen
    simpa [Part.isData, Body.part] using hlen'
  rw [Body.data, hhead.parts, List.filter_cons_of_pos hpart, List.filter_nil]

theorem Headed.data_nil (hhead : Headed pkt b) (hlen : b.len = 0) : b.data h = [] := by
  have hpart : Part.isData h { b.part with isTcp := true } = false := by
    have hlen' : BitVec.ofNat 32 b.groLen = 0 := hhead.len ▸ hlen
    simp [Part.isData, Body.part, hlen']
  rw [Body.data, hhead.parts, List.filter_cons_of_neg (by simp [hpart]), List.filter_nil]

theorem Expected.ofFlow (hexp : Expected env base key as pkt) (hparse : pkt.parse env = .tcp i b flush) (hlen : b.len ≠ 0) :
    OfFlow base key b.tcp.ports b := by
  have hhead := parse_tcp hparse
  refine ⟨hhead.ported, fun hports => ?_, fun _ c hc => ?_, fun _ => ?_⟩
  · obtain ⟨hkey, hwin⟩ := hexp.flow i b flush hparse hports
    refine ⟨hkey, hwin, ?_⟩
    bv_omega
  · exact Nat.le_of_eq (hhead.mem_data hc).1.symm
  · rw [hhead.data_eq hlen]
    exact ⟨_, List.mem_singleton_self _, hhead.seq.symm⟩

theorem arrivedData_tcp (hparse : pkt.parse env = .tcp i b flush) : pkt.arrivedData env h = b.data h := by
  unfold Packet.arrivedData
  rw [hparse]

theorem arrivedData_other (hparse : pkt.parse env = .other b) : pkt.arrivedData env h = [] := by
  unfold Packet.arrivedData
  rw [hparse]

/-- What receive offload leaves alone is no data. -/
theorem parse_other_data (hparse : pkt.parse env = .other b) : upsData h [Parsed.up k b] = [] := by
  have hnone := parse_other_not_through (n := h) (k := k) hparse
  rw [upsData_singleton, Body.data, List.filter_eq_nil_iff]
  intro c hc hdata
  unfold through at hnone
  rw [List.any_eq_false] at hnone
  refine hnone c hc ?_
  unfold Part.isData at hdata
  exact (Bool.and_eq_true_iff.1 hdata).1

/-! ### The lists -/

theorem PutIn.respects (hput : PutIn base m us ps ps')
    (hdata : Respects (fun a b => partLast base a ≤ partFirst base b) as ps) (hproper : Proper base as) (hus : ∀ u ∈ us, partFirst base u = m) :
    Respects (fun a b => partLast base a ≤ partFirst base b) (as ++ us) ps' := by
  obtain ⟨X, Y, rfl, rfl, hY⟩ := hput
  refine hdata.insert fun y hy u hu hle => ?_
  have hmem : y ∈ as := hdata.perm.mem_iff.1 (List.mem_append_right _ hy)
  have hlt := hproper y hmem
  have hbehind := hY y hy
  rw [hus u hu] at hle
  omega

/-- The packet `b` has arrived, and has its place among the data. -/
theorem Orderly.putIn (hl : Orderly base key as l) (hproper : Proper base as) (hhead : Headed pkt b)
    (hflows : ∀ f ∈ l'.flows, Fit base key f) (hsole : Sole key.ports l'.flows) (hfree : ∀ x ∈ l'.free, Reusable base key x)
    (hput : PutIn base (b.first base) (b.data key.ports) (l.data key.ports) (l'.data key.ports)) :
    Orderly base key (as ++ b.data key.ports) l' :=
  ⟨hflows, hsole, hfree, hput.respects hl.data hproper fun _ hu => (hhead.mem_data hu).1⟩

/-- Nothing has happened to the data of the flow. -/
theorem Orderly.others (hl : Orderly base key as l) (hflows : ∀ f ∈ l'.flows, Fit base key f)
    (hsole : Sole key.ports l'.flows) (hfree : ∀ x ∈ l'.free, Reusable base key x)
    (hdata : l'.data key.ports = l.data key.ports) : Orderly base key as l' := by
  refine ⟨hflows, hsole, hfree, ?_⟩
  rw [hdata]
  exact hl.data

/-- A packet of no held flow: no held flow is its flow. -/
theorem Orderly.unmatched (hl : Orderly base key as l) (hne : ∀ f ∈ l.flows, f.segs ≠ []) (hkey : b.flowKey = key)
    (hsplit : splitFlow (sameFlowAs env b) l.flows = none) : l.flows.filter (Flow.hasPorts key.ports) = [] := by
  rw [List.filter_eq_nil_iff]
  intro f hf hports
  have hbodies := (hl.flows f hf).bodies
  obtain ⟨p, segs, hsegs⟩ := List.exists_cons_of_ne_nil (hne f hf)
  obtain ⟨hhash, -⟩ := (hasPorts_iff (ported_of_ofFlow hbodies)).1 hports
  have hp : p.body.flowKey = key := ((hbodies p (by simp [hsegs])).solid hhash).flow
  have hmatch := @sameFlowAs_of_flowKey env b p f (by rw [hsegs, List.head?_cons]) (hkey.trans hp.symm)
  rw [splitFlow_none hsplit f hf] at hmatch
  cases hmatch

/-- The queue object that a packet is given. -/
theorem Orderly.given (hl : Orderly base key as l) (since : ℕ)
    (hfind : findFree (fun hash => hash == b.tcpHash) resetOfo l.free = some (x, rest)) :
    (b.tcpHash = key.ports → b.InWindow base → offset base (assign x.dat b.seq since).seqNext ≤ 2 ^ 30) ∧
      (∀ y ∈ rest, Reusable base key y) ∧
      (before b.seq (assign x.dat b.seq since).seqNext = true → x.dat.hash = b.tcpHash) := by
  obtain ⟨xs, z, ys, hfree, rfl, -, hz⟩ := findFree_some hfind
  have hall := hl.free
  rw [hfree, List.forall_mem_append, List.forall_mem_cons] at hall
  obtain ⟨hxs, hzfit, hys⟩ := hall
  refine ⟨fun hhash hwin => ?_, List.forall_mem_append.2 ⟨hxs, hys⟩, fun hlate => ?_⟩
  · unfold assign
    split
    · exact hwin.first_le_window
    · rename_i hage
      rcases hz with ⟨hfit, rfl⟩ | ⟨-, -, rfl⟩
      · exact (hzfit ((eq_of_beq hfit).trans hhash)).resolve_left hage
      · exact absurd rfl hage
  · rcases hz with ⟨hfit, rfl⟩ | ⟨-, -, rfl⟩
    · exact eq_of_beq hfit
    · -- a queue object that was taken away begins with the number of the packet
      have hassign : (assign (resetOfo z.dat) b.seq since).seqNext = b.seq := rfl
      rw [hassign, before_self] at hlate
      cases hlate

/-! ### Arrivals -/

theorem Orderly.segs_subset (hl : Orderly base key as l) (hf : f ∈ l.flows) (hhash : f.dat.hash = key.ports)
    (hne : f.segs ≠ []) : ∀ y ∈ segsData key.ports f.segs, y ∈ as := by
  intro y hy
  obtain ⟨x, hx, hyx⟩ := List.mem_flatMap.1 hy
  have hports : f.hasPorts key.ports = true := (hasPorts_iff (ported_of_ofFlow (hl.flows f hf).bodies)).2 ⟨hhash, hne⟩
  have hlane : x ∈ laneOf key.ports l.flows := List.mem_flatMap.2 ⟨f, List.mem_filter.2 ⟨hf, hports⟩, hx⟩
  exact hl.data.perm.mem_iff.1 (List.mem_append_right _ (List.mem_flatMap.2 ⟨x, hlane, hyx⟩))

/-- The ports of the flow of a packet. -/
theorem Found.dat_hash (hfound : Found env l pkt i b A f B p1) (hf : Bodies (OfFlow base key f.dat.hash) f.segs) :
    b.tcp.ports = f.dat.hash := by
  have hkey := sameFlowAs_flowKey hfound.head (splitFlow_some hfound.split).2.1
  exact (congrArg FlowKey.ports hkey).trans (hf p1 hfound.mem_segs).ported.1

theorem Way.ofFlow [GroComplete Stamp] (hway : Way env l i b f B p1 c w whole clock) (hb : OfFlow base key κ b) :
    OfFlow base key κ c := by
  cases hway with
  | flush hwhy => exact hb.congr rfl rfl rfl fun hκ => ⟨(hb.solid hκ).flow, (hb.solid hκ).window, (hb.solid hκ).len⟩
  | late hhold hlate => exact hb.congr rfl rfl rfl fun hκ => ⟨(hb.solid hκ).flow, (hb.solid hκ).window, (hb.solid hκ).len⟩
  | walked hhold hlate hwalk =>
    exact hb.congr rfl rfl rfl fun hκ => ⟨(hb.solid hκ).flow, (hb.solid hκ).window, (hb.solid hκ).len⟩

theorem Way.holdable [GroComplete Stamp] (hway : Way env l i b f B p1 c w whole clock) (hwhole : whole = false) :
    notHeld env i b p1.body = false := by
  cases hway with
  | flush hwhy => cases hwhole
  | late hhold hlate => exact hhold
  | walked hhold hlate hwalk => exact hhold

/-- What a packet of a held flow leaves. -/
theorem Way.bodies_ofFlow [GroComplete Stamp] (hway : Way env l i b f B p1 c w whole clock)
    (hfound : Found env l pkt i b A f B p1)
    (hexp : Expected env base key as pkt) (hf : Bodies (OfFlow base key f.dat.hash) f.segs) :
    WalkBodies (OfFlow base key f.dat.hash) l.up w ∧
      (notHeld env i b p1.body = false → OfFlow base key f.dat.hash c) := by
  obtain ⟨flush, hparse⟩ := hfound.parse
  have hports := hfound.dat_hash hf
  have hb : notHeld env i b p1.body = false → OfFlow base key f.dat.hash b := by
    intro hhold
    have hlen := notHeld_len hhold
    rw [← hports]
    exact hexp.ofFlow hparse (by bv_omega)
  refine ⟨Way.bodies (ofFlow_rule base key f.dat.hash) hway hfound.ne (fun hhold => ?_) hf, fun hhold =>
    hway.ofFlow (hb hhold)⟩
  have hb' := hb hhold
  exact hb'.congr rfl rfl rfl fun hκ => ⟨(hb'.solid hκ).flow, (hb'.solid hκ).window, (hb'.solid hκ).len⟩

/-- What goes up while the packet finds its place is of its flow. -/
theorem Way.sentUp [GroComplete Stamp] (hway : Way env l i b f B p1 c w whole clock) (hfound : Found env l pkt i b A f B p1)
    (hexp : Expected env base key as pkt) (hf : Bodies (OfFlow base key f.dat.hash) f.segs) :
    SentUp (OfFlow base key f.dat.hash) ⟨f.dat, l.up⟩ w.track := by
  have hc := (hway.bodies_ofFlow hfound hexp hf).2
  cases hway with
  | flush hwhy => exact SentUp.refl
  | late hhold hlate => exact SentUp.refl
  | walked hhold hlate hwalk =>
    exact walkSegs_sentUp (ofFlow_rule base key f.dat.hash) (hc hhold) hfound.ne hf hwalk

theorem Walked.flow_hash {q : OfoId} : (w.flow k c q).dat.hash = w.track.dat.hash := by
  unfold Walked.flow
  cases w.fate <;> rfl

theorem SentUp.hash [GroComplete Stamp] {Q : Skb → Prop} {tr tr' : Track} (h : SentUp Q tr tr') :
    tr'.dat.hash = tr.dat.hash := by
  obtain ⟨rel, rfl, -⟩ := h
  exact flushSegs_hash ..

theorem SentUp.data [GroComplete Stamp] {Q : Skb → Prop} {tr tr' : Track} (hsent : SentUp Q tr tr')
    (hQ : ∀ b, Q b → b.Ported κ) (hne : κ ≠ h) :
    upsData h tr'.up = upsData h tr.up := by
  obtain ⟨rel, rfl, hrel⟩ := hsent
  rw [Track.flush, upsData_append, flushSegs_data, segsData_of_ported (hrel.imp hQ) hne, List.append_nil]

theorem Holdable.len_ne (hold : Holdable env l pkt b x rest) : b.len ≠ 0 := by
  obtain ⟨i, flush, -, hwhy⟩ := hold.parse
  have hlen := (Bool.or_eq_false_iff.1 hwhy).2
  rw [decide_eq_false_iff_not] at hlen
  rintro hzero
  rw [hzero] at hlen
  exact hlen (by decide)

/-- The flow whose only segment is the packet. -/
theorem Orderly.newFit (hl : Orderly base key as l) (hexp : Expected env base key as pkt)
    (hold : Holdable env l pkt b x rest) (hlate : before b.seq (assign x.dat b.seq l.up.length).seqNext = false) :
    Fit base key (newFlow x k b clock l.up.length) := by
  obtain ⟨i, flush, hparse, -⟩ := hold.parse
  have hhash : b.tcpHash = b.tcp.ports := (parse_tcp hparse).tcpHash
  have hb := hexp.ofFlow hparse hold.len_ne
  have hbody : OfFlow base key b.tcp.ports ({ stampNew clock b with gsoSize := BitVec.ofNat 16 b.groLen } : Skb).pull := by
    refine (ofFlow_rule base key b.tcp.ports).pull _ (hb.congr rfl rfl rfl fun hκ => ?_)
    exact ⟨(hb.solid hκ).flow, (hb.solid hκ).window, (hb.solid hκ).len⟩
  rw [← hhash] at hbody
  refine ⟨bodies_cons.2 ⟨hbody, bodies_nil⟩, fun hports => ⟨List.pairwise_singleton _ _, bodies_cons.2 ⟨?_, bodies_nil⟩⟩⟩
  have hwin := (hexp.flow i b flush hparse (hhash.symm.trans hports)).2
  have hnext := (hl.given l.up.length hold.queue).1 hports hwin
  rw [Body.first, pull_seq]
  exact (before_eq_false_iff hwin.first_le_window hnext).1 hlate

/-- What is left of the flow of a packet. -/
theorem Orderly.foundFit [GroComplete Stamp] (hl : Orderly base key as l) (hproper : Proper base as)
    (hexp : Expected env base key as pkt)
    (hfound : Found env l pkt i b A f B p1) (hway : Way env l i b f B p1 c w false clock) :
    Fit base key (w.flow l.nskb c f.q) := by
  have hf := hl.flows f hfound.mem
  obtain ⟨hbodies, hc⟩ := hway.bodies_ofFlow hfound hexp hf.bodies
  have hhash : (w.flow l.nskb c f.q).dat.hash = f.dat.hash := Walked.flow_hash.trans (hway.sentUp hfound hexp hf.bodies).hash
  refine ⟨?_, fun hports => ?_⟩
  · rw [hhash]
    exact Walked.flow_bodies (ofFlow_rule base key f.dat.hash).pull hbodies.segs
  · rw [hhash] at hports
    have hfkey := hf.bodies
    rw [hports] at hfkey hc
    obtain ⟨rel, hlanded⟩ := hway.landed hfound hc hfkey (hf.led hports)
    have hsub := hl.segs_subset hfound.mem hports hfound.ne
    refine hlanded.flow_led (fun y hy => hproper y (hsub y hy)) fun _ y hy => ?_
    obtain ⟨flush, hparse⟩ := hfound.parse
    obtain ⟨-, hseq, hlen, -⟩ := hway.packet
    have hne : b.len ≠ 0 := by
      have hpos := notHeld_len (hway.holdable rfl)
      bv_omega
    have hclear := hexp.clear i b flush hparse ((hfound.dat_hash hf.bodies).trans hports) hne y (hsub y hy)
    rwa [Body.first, Body.last, Body.seqEnd, hseq, hlen]

theorem Orderly.fit_rule [GroComplete Stamp] (hl : Orderly base key as l) (hproper : Proper base as)
    (hexp : Expected env base key as pkt) :
    FlowRule env l pkt (Fit base key) where
  fresh _ _ _ hold hlate := hl.newFit hexp hold hlate
  found _ _ _ _ _ _ _ _ _ hfound hway _ := hl.foundFit hproper hexp hfound hway

/-! ### The data after an arrival -/

/-- A packet of no held flow goes up as it is. -/
theorem Orderly.normal (hl : Orderly base key as l) (hproper : Proper base as) (hne : ∀ f ∈ l.flows, f.segs ≠ [])
    (hexp : Expected env base key as pkt) (hparse : pkt.parse env = .tcp i b flush)
    (hsplit : splitFlow (sameFlowAs env b) l.flows = none) (hparts : c.parts = b.parts) (hflows : l'.flows = l.flows)
    (hup : l'.up = l.up ++ [Parsed.up k c]) (hfree : ∀ x ∈ l'.free, Reusable base key x) :
    Orderly base key (as ++ pkt.arrivedData env key.ports) l' := by
  have hhead := parse_tcp hparse
  rw [arrivedData_tcp hparse]
  refine hl.putIn hproper hhead (by rw [hflows]; exact hl.flows) (by rw [hflows]; exact hl.sole) hfree ?_
  have hdata : upsData key.ports [Parsed.up k c] = b.data key.ports := by
    rw [upsData_singleton, Parsed.up, pull_data, Body.data, hparts, Body.data]
  rw [Queues.data, Queues.data, hup, hflows, upsData_append, hdata]
  by_cases hports : b.tcp.ports = key.ports
  · obtain ⟨hkey, -⟩ := hexp.flow i b flush hparse hports
    have hlane : laneOf key.ports l.flows = [] := by
      rw [laneOf, hl.unmatched hne hkey hsplit]
      rfl
    rw [hlane, segsData_nil, List.append_nil, List.append_nil]
    exact PutIn.last
  · rw [hhead.ported.data_eq_nil hports, List.append_nil]
    exact PutIn.none

/-- A packet of no held flow becomes a new flow. -/
theorem Orderly.fresh (hl : Orderly base key as l) (hproper : Proper base as) (hparse : pkt.parse env = .tcp i b flush) (hnone : b.tcp.ports = key.ports → l.flows.filter (Flow.hasPorts key.ports) = [])
    (hnew : Fit base key (newFlow x k b clock since)) (hflows : l'.flows = newFlow x k b clock since :: l.flows)
    (hup : l'.up = l.up) (hfree : ∀ x ∈ l'.free, Reusable base key x) :
    Orderly base key (as ++ pkt.arrivedData env key.ports) l' := by
  have hhead := parse_tcp hparse
  have hports : (newFlow x k b clock since).hasPorts key.ports = decide (b.tcp.ports = key.ports) := by
    simp [newFlow, Flow.hasPorts, pull_tcp]
    rfl
  have hdata : segsData key.ports (newFlow x k b clock since).segs = b.data key.ports := by
    have hpull : (newFlow x k b clock since).segs =
        [⟨k, none, ({ stampNew clock b with gsoSize := BitVec.ofNat 16 b.groLen } : Skb).pull⟩] := rfl
    rw [hpull, segsData_cons, pull_data, segsData_nil, List.append_nil]
    rfl
  rw [arrivedData_tcp hparse]
  refine hl.putIn hproper hhead ?_ ?_ hfree ?_
  · rw [hflows]
    exact List.forall_mem_cons.2 ⟨hnew, hl.flows⟩
  · rw [hflows]
    refine hl.sole.cons fun he => hnone ?_
    rw [hports] at he
    exact of_decide_eq_true he
  · rw [Queues.data, Queues.data, hup, hflows, laneOf_cons, hports]
    by_cases hκ : b.tcp.ports = key.ports
    · have hlane : laneOf key.ports l.flows = [] := by
        rw [laneOf, hnone hκ]
        rfl
      rw [if_pos (decide_eq_true hκ), hlane, List.append_nil, hdata, segsData_nil, List.append_nil]
      exact PutIn.last
    · rw [if_neg (by simpa using hκ), List.nil_append, hhead.ported.data_eq_nil hκ]
      exact PutIn.none

theorem endLists_free [GroComplete Stamp] {q : OfoId} :
    (endLists l k b A B q w whole).free = if whole then w.dropped l b q :: l.free else l.free := by
  unfold endLists Walked.dropped dropFlow
  cases whole <;> cases w.fate <;> rfl

/-- The queue object of a flow that goes up with a packet of it. -/
theorem Walked.dropped_reusable [GroComplete Stamp] {q : OfoId}
    (hsegs : w.track.dat.hash = key.ports → Bodies (Body.InWindow base) w.segs)
    (hd : w.track.dat.hash = key.ports → offset base w.track.dat.seqNext ≤ 2 ^ 30)
    (hc : w.track.dat.hash = key.ports → c.InWindow base) : Reusable base key (w.dropped l c q) := by
  have hhash : (w.dropped l c q).dat.hash = w.track.dat.hash := by
    unfold Walked.dropped
    simp only
    split <;> exact completeFlow_hash
  intro hports
  rw [hhash] at hports
  have hend := completeFlow_window 0 (l.clock.ktime 0)
    (bodies_setHeadNext (n := none).2 (hsegs hports)) (hd hports)
  refine Or.inr ?_
  unfold Walked.dropped
  simp only
  split
  · exact offset_maxSeq_le hend (hc hports).last_le
  · exact hend

/-- A packet of a held flow. -/
theorem Orderly.found [GroComplete Stamp] (hl : Orderly base key as l) (hproper : Proper base as)
    (hexp : Expected env base key as pkt)
    (hfound : Found env l pkt i b A f B p1) (hway : Way env l i b f B p1 c w whole clock) :
    Orderly base key (as ++ pkt.arrivedData env key.ports)
      (endLists { l with nskb := l.nskb + 1, clock := clock } l.nskb c A B f.q w whole) := by
  obtain ⟨flush, hparse⟩ := hfound.parse
  have hhead := parse_tcp hparse
  have hf := hl.flows f hfound.mem
  have hports := hfound.dat_hash hf.bodies
  have hsent := hway.sentUp hfound hexp hf.bodies
  obtain ⟨hbodies, hc⟩ := hway.bodies_ofFlow hfound hexp hf.bodies
  obtain ⟨hcparts, hcseq, hclen, -⟩ := hway.packet
  have hcdata : ∀ h, c.data h = b.data h := fun h => by rw [Body.data, hcparts, Body.data]
  have hflows := hfound.flows_eq
  -- the flow `g` is in the place of `f`, without segments when it goes up
  obtain ⟨g, hg⟩ : ∃ g : Flow Stamp OfoExt, g = if whole then ⟨f.q, f.dat, []⟩ else w.flow l.nskb c f.q := ⟨_, rfl⟩
  have hgof : Bodies (OfFlow base key f.dat.hash) g.segs := by
    rw [hg]
    cases whole with
    | true => exact bodies_nil
    | false => exact Walked.flow_bodies (ofFlow_rule base key f.dat.hash).pull hbodies.segs
  have hgdata : segsData key.ports g.segs = if whole then [] else segsData key.ports (w.flow l.nskb c f.q).segs := by
    rw [hg]
    cases whole <;> rfl
  have hsole := hl.sole
  rw [hflows] at hsole
  obtain ⟨hsole', hmine, hother⟩ := hsole.move (ported_of_ofFlow hf.bodies) (ported_of_ofFlow hgof) hfound.ne
  obtain ⟨l', hl'⟩ : ∃ l', l' = endLists { l with nskb := l.nskb + 1, clock := clock } l.nskb c A B f.q w whole := ⟨_, rfl⟩
  rw [← hl', arrivedData_tcp hparse]
  have hfilter : l'.flows.filter (Flow.hasPorts key.ports) = (A ++ g :: B).filter (Flow.hasPorts key.ports) := by
    rw [hl', endLists_flows, hg]
    cases whole with
    | true => exact (filter_hasPorts_empty rfl).symm
    | false => rfl
  have hlane : laneOf key.ports l'.flows = laneOf key.ports (A ++ g :: B) := congrArg (List.flatMap Flow.segs) hfilter
  have hup : l'.up = w.track.up ++ w.ups { l with nskb := l.nskb + 1, clock := clock } l.nskb c whole := by
    rw [hl', endLists_up]
  refine hl.putIn hproper hhead ?_ ?_ ?_ ?_
  · rw [hl']
    exact (Arrival.found hfound hway).forall_flows (hl.fit_rule hproper hexp) hl.flows
  · unfold Sole
    rw [hfilter]
    exact hsole'
  · rw [hl', endLists_free]
    cases whole with
    | false => exact hl.free
    | true =>
      refine List.forall_mem_cons.2 ⟨?_, hl.free⟩
      have hmem : w.track.dat.hash = key.ports → f.dat.hash = key.ports := fun he => hsent.hash.symm.trans he
      refine Walked.dropped_reusable (fun he => ?_) (fun he => ?_) fun he => ?_
      · exact hbodies.segs.imp fun _ hb => (hb.solid (hmem he)).window
      · have hfkey := hf.bodies
        rw [hmem he] at hfkey hc
        obtain ⟨rel, hlanded⟩ := hway.landed hfound hc hfkey (hf.led (hmem he))
        exact hlanded.window
      · rw [Body.InWindow, hcseq, hclen]
        exact (hexp.flow i b flush hparse (hports.trans (hmem he))).2
  · have hlane₀ : laneOf key.ports l.flows = laneOf key.ports (A ++ f :: B) := congrArg (laneOf key.ports) hflows
    rw [Queues.data, Queues.data, hup, hlane, hlane₀]
    by_cases hκ : f.dat.hash = key.ports
    · have hfkey := hf.bodies
      rw [hκ] at hfkey hc
      obtain ⟨rel, hlanded⟩ := hway.landed hfound hc hfkey (hf.led hκ)
      obtain ⟨hflane, hglane⟩ := hmine hκ
      have hput := hlanded.putIn (l := { l with nskb := l.nskb + 1, clock := clock }) (k := l.nskb) (q := f.q)
      rw [hcdata, Body.first, hcseq] at hput
      rw [hflane, hglane, hgdata]
      exact hput
    · have hnone : upsData key.ports (w.ups { l with nskb := l.nskb + 1, clock := clock } l.nskb c whole) = [] := by
        rw [Walked.ups_data, segsData_of_ported (ported_of_ofFlow hbodies.segs) hκ, hcdata,
          hhead.ported.data_eq_nil (hports.symm ▸ hκ)]
        cases whole <;> simp
      rw [hother hκ, upsData_append, hnone, List.append_nil, hsent.data (fun _ hb => hb.ported) hκ,
        hhead.ported.data_eq_nil (hports.symm ▸ hκ)]
      exact PutIn.none

/-! ### What goes up in `dev_gro_complete` -/

/-- The segments of the flow `f` go up in part, and its queue object stays. -/
theorem Orderly.shorten [GroComplete Stamp] {timeout timestamp : U64} {r : Dat × List (Up Stamp) × List Segment}
    (hl : Orderly base key as l)
    (hflows : l.flows = A ++ f :: B) (hne : f.segs ≠ []) (hr : completeFlow timeout timestamp f.dat (setHeadNext n f.segs) = r)
    (hflows' : l'.flows = A ++ ⟨f.q, r.1, r.2.2⟩ :: B) (hup : l'.up = l.up ++ r.2.1) (hfree : l'.free = l.free) :
    Orderly base key as l' := by
  have hall := hl.flows
  rw [hflows, List.forall_mem_append, List.forall_mem_cons] at hall
  obtain ⟨hA, hf, hB⟩ := hall
  have hhash : r.1.hash = f.dat.hash := hr ▸ completeFlow_hash
  have hof : Bodies (OfFlow base key f.dat.hash) (setHeadNext n f.segs) := bodies_setHeadNext.2 hf.bodies
  have hrof : Bodies (OfFlow base key f.dat.hash) r.2.2 := hr ▸ (completeFlow_bodies timeout timestamp f.dat hof).2
  have hdata : upsData key.ports r.2.1 ++ segsData key.ports r.2.2 = segsData key.ports f.segs := by
    have hflow := @completeFlow_data key.ports (setHeadNext n f.segs) f.dat _ timeout timestamp
    rwa [segsData_setHeadNext, hr] at hflow
  have hsole := hl.sole
  rw [hflows] at hsole
  have hmove := hsole.move (g := ⟨f.q, r.1, r.2.2⟩) (ported_of_ofFlow hf.bodies) (ported_of_ofFlow hrof) hne
  refine hl.others ?_ (hflows' ▸ hmove.1) (hfree ▸ hl.free) ?_
  · rw [hflows']
    refine List.forall_mem_append.2 ⟨hA, List.forall_mem_cons.2 ⟨⟨?_, fun hports => ?_⟩, hB⟩⟩
    · show Bodies (OfFlow base key r.1.hash) r.2.2
      rwa [hhash]
    · have hled := completeFlow_led timeout timestamp
        (led_setHeadNext (n := n).2 (hf.led (hhash.symm.trans hports)))
      rw [hr] at hled
      exact hled
  · have hshort := hsole.data_shorten (g := ⟨f.q, r.1, r.2.2⟩) (ported_of_ofFlow hf.bodies) (ported_of_ofFlow hrof) hdata
    rw [Queues.data, Queues.data, hup, hflows', upsData_append, List.append_assoc, hshort, hflows]

/-- A flow without segments is gone, and its queue object is free. -/
theorem Orderly.gone {q : OfoId} {age : U64} (hl : Orderly base key as l) (hflows : l.flows = A ++ ⟨q, d, []⟩ :: B)
    (hd : d.hash = key.ports → offset base d.seqNext ≤ 2 ^ 30) (hflows' : l'.flows = A ++ B) (hup : l'.up = l.up)
    (hfree : l'.free = ⟨q, agedDat d age⟩ :: l.free) : Orderly base key as l' := by
  have hfilter : l'.flows.filter (Flow.hasPorts key.ports) = l.flows.filter (Flow.hasPorts key.ports) := by
    rw [hflows', hflows]
    exact (filter_hasPorts_empty rfl).symm
  have hall := hl.flows
  rw [hflows, List.forall_mem_append, List.forall_mem_cons] at hall
  refine hl.others ?_ ?_ ?_ ?_
  · rw [hflows']
    exact List.forall_mem_append.2 ⟨hall.1, hall.2.2⟩
  · unfold Sole
    rw [hfilter]
    exact hl.sole
  · rw [hfree]
    exact List.forall_mem_cons.2 ⟨fun hports => Or.inr (hd hports), hl.free⟩
  · rw [Queues.data, Queues.data, hup, laneOf, hfilter, laneOf]

/-- The number of a queue object whose flow goes up. -/
theorem Fit.window [GroComplete Stamp] {timeout timestamp : U64} (hf : Fit base key f) (hne : f.segs ≠ [])
    (hports : f.dat.hash = key.ports) :
    offset base (completeFlow timeout timestamp f.dat (setHeadNext n f.segs)).1.seqNext ≤ 2 ^ 30 := by
  have hfkey := hf.bodies
  rw [hports] at hfkey
  have hwin : Bodies (Body.InWindow base) f.segs := (solid_of_ofFlow hfkey).imp fun _ hb => hb.window
  exact completeFlow_window timeout timestamp (bodies_setHeadNext.2 hwin) ((hf.led hports).window hne hwin)

/-- **`dev_gro_receive` keeps the order of arrival.** -/
theorem Arrival.orderly [GroComplete Stamp] (harrival : Arrival env l pkt l') (hl : Orderly base key as l)
    (hproper : Proper base as)
    (hne : ∀ f ∈ l.flows, f.segs ≠ []) (hexp : Expected env base key as pkt) :
    Orderly base key (as ++ pkt.arrivedData env key.ports) l' := by
  cases harrival with
  | other hparse =>
    rw [arrivedData_other hparse, List.append_nil]
    refine hl.others hl.flows hl.sole hl.free ?_
    rw [Queues.data, Queues.data, upsData_append, parse_other_data hparse, List.append_nil]
  | @unheld b x rest hwhy hqueue =>
    cases hwhy with
    | badHeader hparse => exact absurd hparse (hexp.header b)
    | tcp hparse hsplit hwhy =>
      have hhash := (parse_tcp hparse).tcpHash
      obtain ⟨hnext, hrest, -⟩ := hl.given l.up.length hqueue
      refine hl.normal hproper hne hexp hparse hsplit rfl rfl rfl (List.forall_mem_cons.2 ⟨fun hports => Or.inr ?_, hrest⟩)
      have hwin := (hexp.flow _ _ _ hparse (hhash.symm.trans hports)).2
      exact offset_maxSeq_le (hnext hports hwin) hwin.last_le
  | @late b x rest hold hlate =>
    obtain ⟨i, flush, hparse, -⟩ := hold.parse
    have hhash := (parse_tcp hparse).tcpHash
    obtain ⟨hnext, hrest, hfit⟩ := hl.given l.up.length hold.queue
    have hassign : ∀ n, (assign x.dat b.seq n).hash = x.dat.hash := by
      intro n
      unfold assign
      split <;> rfl
    refine hl.normal (c := stampNew l.clock b) hproper hne hexp hparse hold.split rfl rfl rfl
      (List.forall_mem_cons.2 ⟨fun hports => Or.inr ?_, hrest⟩)
    have hports' : b.tcpHash = key.ports := (hfit hlate).symm.trans ((hassign _).symm.trans hports)
    have hwin := (hexp.flow _ _ _ hparse (hhash.symm.trans hports')).2
    exact offset_maxSeq_le (hnext hports' hwin) hwin.last_le
  | fresh hold hlate hfull =>
    obtain ⟨i, flush, hparse, -⟩ := hold.parse
    refine hl.fresh hproper hparse (fun hports => ?_) (hl.newFit hexp hold hlate) rfl rfl
      (hl.given l.up.length hold.queue).2.1
    exact hl.unmatched hne (hexp.flow _ _ _ hparse hports).1 hold.split
  | @evict b x rest P g hold hlate hflows hfull =>
    obtain ⟨i, flush, hparse, -⟩ := hold.parse
    have hg : g ∈ l.flows := hflows ▸ List.mem_append_right _ (List.mem_singleton_self g)
    obtain ⟨r, hr⟩ : ∃ r, completeFlow 0 (l.clock.ktime 1) g.dat (setHeadNext none g.segs) = r := ⟨_, rfl⟩
    have hnil : r.2.2 = [] := hr ▸ completeFlow_all ..
    have hhash : r.1.hash = g.dat.hash := hr ▸ completeFlow_hash
    -- the oldest flow goes up, and then the packet becomes a flow
    have hshort : Orderly base key as { l with flows := P ++ [⟨g.q, r.1, []⟩], up := l.up ++ r.2.1 } :=
      hl.shorten (n := none) hflows (hne g hg) hr (by rw [hnil]) rfl rfl
    have hgone : Orderly base key as { l with
        flows := P, up := l.up ++ r.2.1, free := ⟨g.q, agedDat r.1 (l.clock.jiffies 1)⟩ :: l.free } := by
      refine hshort.gone rfl (fun hports => ?_) (List.append_nil P).symm rfl rfl
      rw [← hr]
      exact (hl.flows g hg).window (hne g hg) (hhash.symm.trans hports)
    have hfree := hgone.free
    rw [List.forall_mem_cons] at hfree
    refine hgone.fresh hproper hparse (fun hports => ?_) (hl.newFit hexp hold hlate) rfl ?_
      (List.forall_mem_cons.2 ⟨?_, (hl.given l.up.length hold.queue).2.1⟩)
    · have hnone := hl.unmatched hne (hexp.flow _ _ _ hparse hports).1 hold.split
      rw [hflows, List.filter_append, List.append_eq_nil_iff] at hnone
      exact hnone.1
    · show l.up ++ (completeFlow 0 (l.clock.ktime 1) g.dat (setHeadNext none g.segs)).2.1 = l.up ++ r.2.1
      rw [hr]
    · have hfirst := hfree.1
      rw [← hr] at hfirst
      exact hfirst
  | found hfound hway => exact hl.found hproper hexp hfound hway

/-! ### Calls -/

theorem flushFlow_orderly [GroComplete Stamp] (hl : Orderly base key as { l with flows := A ++ f :: l.flows })
    (hne : f.segs ≠ []) :
    Orderly base key as { flushFlow f l with flows := A ++ (flushFlow f l).flows } := by
  obtain ⟨r, hr⟩ : ∃ r, completeFlow 100000 (l.clock.ktime 0) f.dat (setHeadNext (heads l.flows).head? f.segs) = r :=
    ⟨_, rfl⟩
  have hshort : Orderly base key as { l with flows := A ++ ⟨f.q, r.1, r.2.2⟩ :: l.flows, up := l.up ++ r.2.1 } :=
    hl.shorten rfl hne hr rfl rfl rfl
  unfold flushFlow
  simp only [hr]
  split
  · rename_i hempty
    have hnil : r.2.2 = [] := List.isEmpty_iff.1 hempty
    rw [hnil] at hshort
    have hf := hl.flows f (List.mem_append_right _ (List.mem_cons_self ..))
    have hhash : r.1.hash = f.dat.hash := hr ▸ completeFlow_hash
    refine hshort.gone rfl (fun hports => ?_) rfl rfl rfl
    rw [← hr]
    exact hf.window hne (hhash.symm.trans hports)
  · exact hshort.others hshort.flows hshort.sole hshort.free rfl

theorem flushLists_orderly [GroComplete Stamp] (flushOld : Bool) (hl : Orderly base key as l)
    (hne : ∀ f ∈ l.flows, f.segs ≠ []) :
    Orderly base key as (flushLists l flushOld) := by
  have hfold : ∀ (fs : List (Flow Stamp OfoExt)) (l : Lists), (∀ f ∈ fs, f.segs ≠ []) →
      Orderly base key as { l with flows := fs.reverse ++ l.flows } → Orderly base key as (flushFlows flushOld fs l) := by
    intro fs
    induction fs with
    | nil => exact fun l _ hl => hl
    | cons f fs ih =>
      intro l hne hl
      obtain ⟨hf, hfs⟩ := List.forall_mem_cons.1 hne
      have hflows : (f :: fs).reverse ++ l.flows = fs.reverse ++ f :: l.flows := by simp
      rw [hflows] at hl
      have htick : Orderly base key as { l with flows := fs.reverse ++ f :: l.flows, clock := l.clock.tickJiffies } :=
        hl.others hl.flows hl.sole hl.free rfl
      rw [flushFlows]
      split
      · simp only
        split
        · rw [hflows]
          exact htick
        · exact ih _ hfs (@flushFlow_orderly base key { l with clock := l.clock.tickJiffies } f fs.reverse as _ htick hf)
      · exact ih _ hfs (flushFlow_orderly hl hf)
  refine hfold l.flows.reverse { l with flows := [] } (fun f hf => hne f (List.mem_reverse.1 hf)) ?_
  rw [List.reverse_reverse, List.append_nil]
  exact hl

theorem cleanLists_orderly (hz : U64) (hl : Orderly base key as l) : Orderly base key as (cleanLists hz l) := by
  have hclean : ∀ (xs : List (FreeQueue OfoExt)) (clock : Clock), (∀ x ∈ xs, Reusable base key x) →
      ∀ x ∈ (cleanQueues hz xs clock).1, Reusable base key x := by
    intro xs
    induction xs with
    | nil => exact fun _ _ x hx => absurd hx List.not_mem_nil
    | cons y ys ih =>
      intro clock hall
      obtain ⟨hy, hys⟩ := List.forall_mem_cons.1 hall
      refine List.forall_mem_cons.2 ⟨?_, ih _ hys⟩
      unfold cleanQueue
      split
      · exact fun _ => Or.inl rfl
      · exact hy
  exact hl.others hl.flows hl.sole (hclean _ _ hl.free) rfl

theorem stepLists_orderly {call : Call} (hl : Orderly base key as l) (hproper : Proper base as)
    (hne : ∀ f ∈ l.flows, f.segs ≠ []) (hexp : call.Meets fun pkt _ => Expected env base key as pkt)
    (hstep : stepLists env l call = .ok l') : Orderly base key (as ++ call.arrivedData env key.ports) l' := by
  let _ := env.groComplete
  have hclock : Orderly base key as { l with clock := call.clock } := hl.others hl.flows hl.sole hl.free rfl
  cases call with
  | receive pkt clock =>
    exact (receiveLists_ok (l := { l with clock := clock }) hne hstep).orderly hclock hproper hne hexp
  | flush flushOld clock =>
    cases hstep
    have has : as ++ Call.arrivedData env key.ports (.flush flushOld clock) = as := List.append_nil as
    rw [has]
    exact flushLists_orderly flushOld hclock hne
  | clean clock =>
    cases hstep
    have has : as ++ Call.arrivedData env key.ports (.clean clock) = as := List.append_nil as
    rw [has]
    exact cleanLists_orderly env.hz hclock

/-! ### Runs -/

theorem arrivedData_append {cs cs' : List Call} :
    arrivedData env h (cs ++ cs') = arrivedData env h cs ++ arrivedData env h cs' := List.flatMap_append

theorem arrivedData_singleton {call : Call} : arrivedData env h [call] = call.arrivedData env h := List.flatMap_singleton ..

theorem Packet.steady_tcp (hsteady : pkt.steady env base key = true) (hparse : pkt.parse env = .tcp i b flush)
    (hports : b.tcp.ports = key.ports) : b.flowKey = key ∧ b.InWindow base := by
  unfold steady at hsteady
  rw [hparse] at hsteady
  simpa [hports] using hsteady

/-- The packet lies in the window, and is not empty. -/
theorem Steady.mem {cs : List Call} (hcs : Steady env base key cs) {y : Part} (hy : y ∈ arrivedData env key.ports cs) :
    offset base y.seq + y.len.toNat ≤ 2 ^ 30 ∧ y.len ≠ 0 := by
  obtain ⟨call, hcall, hycall⟩ := List.mem_flatMap.1 hy
  have hmeets := hcs.packets call hcall
  cases call with
  | flush flushOld clock => exact absurd hycall List.not_mem_nil
  | clean clock => exact absurd hycall List.not_mem_nil
  | receive pkt clock =>
    have hdata : y ∈ pkt.arrivedData env key.ports := hycall
    cases hparse : pkt.parse env with
    | other b =>
      rw [arrivedData_other hparse] at hdata
      exact absurd hdata List.not_mem_nil
    | badHeader b =>
      unfold Packet.arrivedData at hdata
      rw [hparse] at hdata
      exact absurd hdata List.not_mem_nil
    | tcp i b flush =>
      rw [arrivedData_tcp hparse] at hdata
      have hhead := parse_tcp hparse
      obtain ⟨hpart, hisData⟩ := List.mem_filter.1 hdata
      rw [hhead.parts, List.mem_singleton] at hpart
      subst hpart
      simp only [Part.isData, Body.part, Bool.true_and, Bool.and_eq_true, beq_iff_eq, bne_iff_ne] at hisData
      obtain ⟨-, hwin⟩ := Packet.steady_tcp hmeets hparse hisData.1
      rw [Body.InWindow, hhead.seq, hhead.len] at hwin
      exact ⟨hwin, hisData.2⟩

theorem partLast_eq {y : Part} (hy : offset base y.seq + y.len.toNat ≤ 2 ^ 30) :
    partLast base y = partFirst base y + y.len.toNat := by
  have hadd := @offset_add 32 base y.seq y.len.toNat (by omega)
  rwa [BitVec.ofNat_toNat, BitVec.setWidth_eq] at hadd

theorem Steady.proper {cs : List Call} (hcs : Steady env base key cs) : Proper base (arrivedData env key.ports cs) := by
  intro y hy
  obtain ⟨hwin, hlen⟩ := hcs.mem hy
  rw [partLast_eq hwin]
  bv_omega

theorem precedes_iff {a c : Part} (ha : offset base a.seq + a.len.toNat ≤ 2 ^ 30)
    (hc : offset base c.seq + c.len.toNat ≤ 2 ^ 30) : Precedes a c ↔ partLast base a ≤ partFirst base c := by
  have hlast := partLast_eq ha
  refine before_eq_false_iff (by omega) ?_
  show partLast base a ≤ 2 ^ 30
  rw [hlast]
  exact ha

theorem Steady.init {cs cs' : List Call} (hcs : Steady env base key (cs ++ cs')) : Steady env base key cs := by
  refine ⟨fun c hc => hcs.packets c (List.mem_append_left _ hc), ?_⟩
  have hall := hcs.disjoint
  rw [arrivedData_append] at hall
  exact (List.pairwise_append.1 hall).1

theorem Steady.expected {past : List Call} {clock : Clock} (hcs : Steady env base key (past ++ [.receive pkt clock])) :
    Expected env base key (arrivedData env key.ports past) pkt := by
  have hpkt : pkt.steady env base key = true := hcs.packets (.receive pkt clock) (by simp)
  refine ⟨fun b hparse => ?_, fun i b flush hparse hports => Packet.steady_tcp hpkt hparse hports,
    fun i b flush hparse hports hlen y hy => ?_⟩
  · unfold Packet.steady at hpkt
    rw [hparse] at hpkt
    cases hpkt
  · have hall := hcs.disjoint
    rw [arrivedData_append, arrivedData_singleton] at hall
    have hhead := parse_tcp hparse
    have hu : { b.part with isTcp := true } ∈ b.data key.ports := by
      rw [← hports, hhead.data_eq hlen]
      exact List.mem_singleton_self _
    have hnew : { b.part with isTcp := true } ∈ Call.arrivedData env key.ports (.receive pkt clock) := by
      show _ ∈ pkt.arrivedData env key.ports
      rwa [arrivedData_tcp hparse]
    have hmem : { b.part with isTcp := true } ∈ arrivedData env key.ports (past ++ [.receive pkt clock]) := by
      rw [arrivedData_append, arrivedData_singleton]
      exact List.mem_append_right _ hnew
    have hywin := (hcs.init.mem hy).1
    have huwin := (hcs.mem hmem).1
    obtain ⟨hfirst, hlast⟩ : partFirst base { b.part with isTcp := true } = b.first base ∧
        partLast base { b.part with isTcp := true } = b.last base := hhead.mem_data hu
    rw [← hfirst, ← hlast]
    exact ((List.pairwise_append.1 hall).2.2 y hy _ hnew).imp (precedes_iff hywin huwin).1 (precedes_iff huwin hywin).1

theorem orderly_init (mem : Mem) : Orderly base key [] (initLists mem) := by
  refine ⟨fun f hf => absurd hf List.not_mem_nil, Nat.zero_le _, fun x hx _ => Or.inl ?_, Respects.nil _⟩
  obtain ⟨q, -, rfl⟩ := List.mem_map.1 hx
  rfl

/-- **The data is in the order of arrival after every run.** -/
theorem run_orderly {mem s : Mem} {cs : List Call} (hcs : Steady env base key cs) (hrun : run env mem cs = .ok s) :
    ∃ l, Rep s l ∧ Orderly base key (arrivedData env key.ports cs) l := by
  have hstep : ∀ past call s l s' l', Rep s l → Rep s' l' →
      (Steady env base key past → Orderly base key (arrivedData env key.ports past) l) →
      stepLists env l call = .ok l' → Steady env base key (past ++ [call]) →
      Orderly base key (arrivedData env key.ports (past ++ [call])) l' := by
    intro past call s l s' l' hrep hrep' hI hstep hcs
    rw [arrivedData_append, arrivedData_singleton]
    refine stepLists_orderly (hI hcs.init) hcs.init.proper (fun f hf => (hrep.links.flows f hf).ne) ?_ hstep
    cases call with
    | receive pkt clock => exact hcs.expected
    | flush flushOld clock => trivial
    | clean clock => trivial
  obtain ⟨l, hrep, hl⟩ := run_invariant
    (I := fun past l => Steady env base key past → Orderly base key (arrivedData env key.ports past) l)
    (fun _ => orderly_init mem) hstep hrun
  exact ⟨l, hrep, hl hcs⟩

end

/-- What left receive offload did so in the order of arrival, freed on the way or not. -/
theorem run_left {env : Env} {base : U32} {key : FlowKey} {mem s : Mem} {cs : List Call}
    (hcs : Steady env base key cs) (hrun : run env mem cs = .ok s) :
    (arrivedData env key.ports cs).Nodup ∧ (upsData key.ports s.up).Subperm (arrivedData env key.ports cs) ∧
      ∀ a b, Stands a b (arrivedData env key.ports cs) → Precedes a b → b ∈ upsData key.ports s.up →
        Stands a b (upsData key.ports s.up) := by
  obtain ⟨l, hrep, hl⟩ := run_orderly hcs hrun
  have hdata := hl.data
  rw [Queues.data, ← hrep.links.up] at hdata
  -- packets that do not overlap are different
  have hnodup : (arrivedData env key.ports cs).Nodup := by
    refine hcs.disjoint.imp_of_mem fun {y z} hy hz hyz he => ?_
    rw [← he] at hyz
    have hlt := hcs.proper y hy
    have hself := (precedes_iff (hcs.mem hy).1 (hcs.mem hy).1).1 (hyz.elim id id)
    omega
  refine ⟨hnodup, (List.sublist_append_left _ _).subperm.trans hdata.perm.subperm, fun a b hab hprec hb => ?_⟩
  have hle := (precedes_iff (hcs.mem hab.left_mem).1 (hcs.mem hab.right_mem).1).1 hprec
  exact hdata.front hnodup hab hle hb

/-- What reached the stack did so in the order of arrival; some of what left may be missing if `gro_complete` reports an
error. -/
theorem run_received_order {env : Env} {base : U32} {key : FlowKey} {mem s : Mem} {cs : List Call} {a b : Part}
    (hcs : Steady env base key cs) (hrun : run env mem cs = .ok s) (hab : Stands a b (arrivedData env key.ports cs))
    (hprec : Precedes a b) (hb : b ∈ upsData key.ports (received s.up))
    (hwhy : a ∈ upsData key.ports (received s.up) ∨ env.Completes) : Stands a b (upsData key.ports (received s.up)) := by
  obtain ⟨hnodup, hperm, horder⟩ := run_left hcs hrun
  have hsub : (upsData key.ports (received s.up)).Sublist (upsData key.ports s.up) := received_data s.up
  have hstands := horder a b hab hprec (hsub.subset hb)
  rcases hwhy with ha | hcompletes
  · obtain ⟨xs, hxs, hsublist⟩ := hperm
    exact hstands.of_sublist (hxs.nodup_iff.1 (hsublist.nodup hnodup)) hsub ha hb
  · rwa [run_received hcompletes hrun]

/-- **What arrived in order reaches the stack in order**: every packet of the flow reaches it at most once, and two that
arrived in the order of their sequence numbers reach it in this order.  If `gro_complete` reports no error, the later one
does not reach it before the earlier one has. -/
theorem run_delivered {env : Env} {base : U32} {key : FlowKey} {mem s : Mem} {cs : List Call}
    (hcs : Steady env base key cs) (hrun : run env mem cs = .ok s) :
    (upsData key.ports (received s.up)).Subperm (arrivedData env key.ports cs) ∧
      ∀ a b, Stands a b (arrivedData env key.ports cs) → Precedes a b → b ∈ upsData key.ports (received s.up) →
        a ∈ upsData key.ports (received s.up) ∨ env.Completes → Stands a b (upsData key.ports (received s.up)) := by
  obtain ⟨-, hperm, -⟩ := run_left hcs hrun
  have hsub : (upsData key.ports (received s.up)).Sublist (upsData key.ports s.up) := received_data s.up
  exact ⟨hsub.subperm.trans hperm, fun a b hab hprec hb hwhy => run_received_order hcs hrun hab hprec hb hwhy⟩

/-- The packet that fills the hole takes the two others along, and one with other flags goes up at once. -/
def fillWith (flags : U32) : List Call :=
  [.receive (.plain 0 1 7 1000 100 0) ⟨fun _ => 0, fun _ => 1⟩, .receive (.plain 1 1 7 1300 100 0) ⟨fun _ => 10, fun _ => 1⟩,
    .receive (.plain 2 1 7 1100 100 0) ⟨fun _ => 20, fun _ => 1⟩, .receive (.plain 3 1 7 1400 100 flags) ⟨fun _ => 30, fun _ => 1⟩,
    .flush false ⟨fun _ => 200000, fun _ => 2⟩]

/-- The flow of `fillWith`. -/
def fillKey : FlowKey := (Packet.plain 0 1 7 1000 100 0).body.flowKey

theorem run_delivered_fillWith :
    ∃ s, run .inet default (fillWith tcpFlagUrg) = .ok s ∧
      (upsData fillKey.ports (received s.up)).map Part.seq = [1000, 1100, 1300, 1400] ∧
      ∀ a b, Stands a b (arrivedData .inet fillKey.ports (fillWith tcpFlagUrg)) → Precedes a b →
        b ∈ upsData fillKey.ports (received s.up) → Stands a b (upsData fillKey.ports (received s.up)) := by
  have hend : (run .inet default (fillWith tcpFlagUrg)).map
      (fun s => (upsData fillKey.ports (received s.up)).map Part.seq) = .ok [1000, 1100, 1300, 1400] := by decide +kernel
  have hcs : Steady .inet 0 fillKey (fillWith tcpFlagUrg) := ⟨by decide +kernel, by decide +kernel⟩
  obtain ⟨s, hrun, hups⟩ := map_ok hend
  refine ⟨s, hrun, hups, fun a b hab hprec hb => ?_⟩
  exact (run_delivered hcs hrun).2 a b hab hprec hb (Or.inr completes_inet)

end PacketReordering.Linux318
