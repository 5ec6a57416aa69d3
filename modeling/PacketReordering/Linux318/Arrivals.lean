import PacketReordering.Linux318.Step
import PacketReordering.Linux318.Turns

/-!
# `linux-3.18.5`: what an arriving packet can do

* `Packet.plain`, `Env.inet` — a TCP packet as a driver hands it in, and what `inet_gro_receive` does to it;
* `parse_tcp` — the control block of a packet whose TCP header was found;
* `Arrival`, `receiveLists_ok` — the ways in which `dev_gro_receive` can end;
* `FlowRule`, `Arrival.forall_flows`, `flushLists_forall_flows` — what all held flows have after a call;
* `run_invariant` — a rule for runs.
-/

namespace PacketReordering.Linux318

open Lib Gro

variable {env : Env} {l l' : Lists} {pkt : Packet} {k : SkbId} {i b : Skb} {A B : List (Flow Stamp OfoExt)}
  {f : Flow Stamp OfoExt} {flush whole : Bool}

/-- A TCP packet over IPv4 without options, in one page fragment. -/
def Packet.plain (uid : ℕ) (saddr ports seq : U32) (len : ℕ) (flags : U32) : Packet where
  featuresGro := true
  isGso := false
  hasFragList := false
  csumBad := false
  isIp := true
  body := { (default : Skb) with
    uid := uid
    ip := ⟨0x45, 0, BitVec.ofNat 16 (40 + len), 0x4000, 64, 6, saddr, 0, false⟩
    tcp := ⟨ports, seq, 0, 0x50000000 ||| flags, []⟩
    frags := [⟨uid, 0, 40 + len⟩]
    frag0Len := 40 + len }
  dataOffset_eq := rfl
  frag0_eq := Or.inr ⟨rfl, rfl⟩

/-- `inet_gro_receive` for packets over IPv4 without options, as far as the headers of `Gro.IpHdr` go. -/
def Env.inet : Env where
  header b :=
    match b.groHeader (b.dataOffset + 20) with
    | none => (b, none)
    | some b =>
      if b.ip.protocol ≠ 6 || b.ip.verIhl ≠ 0x45 || b.ip.badCsum then (b, none)
      else
        ({ b with dataOffset := b.dataOffset + 20 },
          some ((b.ip.totLen ^^^ BitVec.ofNat 16 b.groLen) ||| (b.ip.fragOff &&& ~~~0x4000) != 0))
  sameFlow b p := b.ip.protocol == p.ip.protocol && b.ip.saddr == p.ip.saddr && b.ip.daddr == p.ip.daddr
  flush b p := b.ip.ttl != p.ip.ttl || b.ip.tos != p.ip.tos || (b.ip.fragOff ^^^ p.ip.fragOff) &&& 0x4000 != 0
  completeErr b := decide (b.ip.protocol ≠ 6)
  hz := 1000
  header_same b := by
    cases hc : b.groHeader (b.dataOffset + 20) with
    | none => exact Body.SameHeaders.refl b
    | some c =>
      have hbc := Body.groHeader_sameHeaders hc
      simp only
      split
      · exact hbc
      · exact hbc.trans ⟨rfl, rfl, rfl, rfl, rfl, rfl, rfl, fun h => h⟩
  header_parts b := by
    cases hc : b.groHeader (b.dataOffset + 20) with
    | none => rfl
    | some c =>
      have hparts : c.parts = b.parts := by
        obtain ⟨headlen, frags, frag0Len, rfl⟩ := Body.groHeader_some hc
        rfl
      simp only
      split
      · exact hparts
      · exact hparts
  sameFlow_iff b p := by simp [and_assoc]

/-! ### The control block -/

/-- What holds of a packet whose TCP header was found. -/
structure Headed (pkt : Packet) (b : Skb) : Prop where
  uid : b.uid = pkt.body.uid
  link : b.link = pkt.body.link
  ip : b.ip = pkt.body.ip
  tcp : b.tcp = pkt.body.tcp
  seq : b.seq = b.tcp.seq
  len : b.len = BitVec.ofNat 32 b.groLen
  tcpHash : b.tcpHash = b.tcp.ports
  count : b.count = 1
  parts : b.parts = [{ b.part with isTcp := true }]
  free : b.free = .no
  isTcp : b.isTcp = true

theorem parse_tcp (h : pkt.parse env = .tcp i b flush) : Headed pkt b := by
  unfold Packet.parse at h
  split at h
  · cases h
  · split at h
    · cases h
    · rename_i c fl hinet
      have hc := env.header_same { pkt.body with parts := [pkt.body.part], free := .no, isTcp := false }
      rw [hinet] at hc
      split at h
      · cases h
      · split at h
        · cases h
        · rename_i d htcp
          cases h
          obtain ⟨hseq, hlen, hhash, hcount, hparts, -, -⟩ := Body.tcpHeader_ok htcp
          have hd := Body.tcpHeader_sameHeaders { i with isTcp := true }
          rw [htcp] at hd
          exact ⟨hd.uid.trans hc.uid, hd.link.trans hc.link, hd.ip.trans hc.ip, hd.tcp.trans hc.tcp, hseq, hlen, hhash,
            hcount, hparts, hd.free.trans hc.free, hd.isTcp⟩

/-! ### The ways through `dev_gro_receive` -/

/-- The data of a free queue object when a packet that has to be flushed takes it. -/
def flushDat (d : Dat) (b : Skb) (since : ℕ) (age : U64) : Dat :=
  agedDat { assign d b.seq since with hash := b.tcpHash } age

/-- The flow whose only segment is the packet `k`. -/
def newFlow (x : FreeQueue OfoExt) (k : SkbId) (b : Skb) (clock : Clock) (since : ℕ) : Flow Stamp OfoExt :=
  ⟨x.q, { assign x.dat b.seq since with hash := b.tcpHash },
    [⟨k, none, ({ stampNew clock b with gsoSize := BitVec.ofNat 16 b.groLen } : Skb).pull⟩]⟩

/-- The packet takes the size of the segments of its flow. -/
def sized (b p : Skb) : Skb := { b with gsoSize := p.gsoSize }

/-- Nobody looks at the queue of the flow. -/
def stayed (n : Option SkbId) (f : Flow Stamp OfoExt) (up : List (Up Stamp)) : Walked :=
  ⟨⟨f.dat, up⟩, setHeadNext n f.segs, .normal, .head⟩

/-- What is left of the flow when it does not go up as a whole. -/
def Walked.flow (w : Walked) (k : SkbId) (b : Skb) (q : OfoId) : Flow Stamp OfoExt :=
  match w.fate with
  | .held => ⟨q, w.track.dat, w.segs.map (pullSeg k)⟩
  | .merged => ⟨q, w.track.dat, w.segs⟩
  | .normal => ⟨q, normalDat w.track.dat b, w.segs⟩

/-- The packet `b`, of no held flow, may not be held either: its header is damaged, or it is empty, or `inet_gro_receive`
says so. -/
inductive Unheld (env : Env) (l : Lists) (pkt : Packet) (b : Skb) : Prop
  | badHeader (hparse : pkt.parse env = .badHeader b)
  | tcp {i : Skb} {flush : Bool} (hparse : pkt.parse env = .tcp i b flush)
      (hsplit : splitFlow (sameFlowAs env b) l.flows = none) (hwhy : (flush || decide (b.len < 1)) = true)

/-- The packet `b`, of no held flow, may be held; `x` is the queue object it gets. -/
structure Holdable (env : Env) (l : Lists) (pkt : Packet) (b : Skb) (x : FreeQueue OfoExt)
    (rest : List (FreeQueue OfoExt)) : Prop where
  parse : ∃ i flush, pkt.parse env = .tcp i b flush ∧ (flush || decide (b.len < 1)) = false
  split : splitFlow (sameFlowAs env b) l.flows = none
  queue : findFree (fun hash => hash == b.tcpHash) resetOfo l.free = some (x, rest)

/-- The packet `b` is of the held flow `f`, with the first segment `p`. -/
structure Found (env : Env) (l : Lists) (pkt : Packet) (i b : Skb) (A : List (Flow Stamp OfoExt))
    (f : Flow Stamp OfoExt) (B : List (Flow Stamp OfoExt)) (p : Segment) : Prop where
  parse : ∃ flush, pkt.parse env = .tcp i b flush
  split : splitFlow (sameFlowAs env b) l.flows = some (A, f, B)
  head : f.segs.head? = some p

/-- How a packet of a held flow comes to the end of `dev_gro_receive`: the packet, what has become of the queue, whether
the flow goes up, and the clock. -/
inductive Way [GroComplete Stamp] (env : Env) (l : Lists) (i b : Skb) (f : Flow Stamp OfoExt)
    (B : List (Flow Stamp OfoExt)) (p : Segment) :
    Skb → Walked → Bool → Clock → Prop
  | flush (hwhy : notHeld env i b p.body = true) :
    Way env l i b f B p (sized b p.body) (stayed (heads B).head? f l.up) true l.clock
  | late (hhold : notHeld env i b p.body = false) (hlate : before b.seq f.dat.seqNext = true) :
    Way env l i b f B p (sized b p.body) (stayed (heads B).head? f l.up) false l.clock
  | walked {w : Walked} (hhold : notHeld env i b p.body = false) (hlate : before b.seq f.dat.seqNext = false)
      (hwalk : walkSegs (heads B).head? l.nskb (stampWalk l.clock (sized b p.body)) f.segs [] f.dat.seqNext
        ⟨f.dat, l.up⟩ = .ok w) :
    Way env l i b f B p (stampWalk l.clock (sized b p.body)) w
      (w.flushes (stampWalk l.clock (sized b p.body)) (tcpSkbMss p.body)) l.clock.tickJiffies.tickKtime

/-- What becomes of the packet `pkt`, the buffer `l.nskb`. -/
inductive Arrival [GroComplete Stamp] (env : Env) (l : Lists) (pkt : Packet) : Lists → Prop
  | other {b : Skb} (hparse : pkt.parse env = .other b) :
    Arrival env l pkt { l with nskb := l.nskb + 1, up := l.up ++ [Parsed.up l.nskb b] }
  | unheld {b : Skb} {x : FreeQueue OfoExt} {rest : List (FreeQueue OfoExt)} (hwhy : Unheld env l pkt b)
      (hqueue : findFree (fun hash => hash == b.tcpHash) resetOfo l.free = some (x, rest)) :
    Arrival env l pkt { l with
      nskb := l.nskb + 1
      free := ⟨x.q, normalDat (flushDat x.dat b l.up.length (l.clock.jiffies 0)) b⟩ :: rest
      clock := l.clock.tickJiffies
      up := l.up ++ [Parsed.up l.nskb b] }
  | late {b : Skb} {x : FreeQueue OfoExt} {rest : List (FreeQueue OfoExt)} (hold : Holdable env l pkt b x rest)
      (hlate : before b.seq (assign x.dat b.seq l.up.length).seqNext = true) :
    Arrival env l pkt { l with
      nskb := l.nskb + 1
      free := ⟨x.q, normalDat (agedDat (assign x.dat b.seq l.up.length) (l.clock.jiffies 1)) b⟩ :: rest
      clock := l.clock.tickJiffies.tickKtime.tickJiffies
      up := l.up ++ [Parsed.up l.nskb (stampNew l.clock b)] }
  | fresh {b : Skb} {x : FreeQueue OfoExt} {rest : List (FreeQueue OfoExt)} (hold : Holdable env l pkt b x rest)
      (hlate : before b.seq (assign x.dat b.seq l.up.length).seqNext = false) (hfull : l.flows.length < maxGroSkbs) :
    Arrival env l pkt { l with
      nskb := l.nskb + 1
      flows := newFlow x l.nskb b l.clock l.up.length :: l.flows
      free := rest
      clock := l.clock.tickJiffies.tickKtime }
  | evict {b : Skb} {x : FreeQueue OfoExt} {rest : List (FreeQueue OfoExt)} {P : List (Flow Stamp OfoExt)}
      {g : Flow Stamp OfoExt} (hold : Holdable env l pkt b x rest)
      (hlate : before b.seq (assign x.dat b.seq l.up.length).seqNext = false) (hflows : l.flows = P ++ [g])
      (hfull : maxGroSkbs ≤ l.flows.length) :
    Arrival env l pkt { dropFlow { l with
        nskb := l.nskb + 1, free := rest, clock := l.clock.tickJiffies.tickKtime } g.q g.dat (setHeadNext none g.segs) with
      flows := newFlow x l.nskb b l.clock l.up.length :: P }
  | found {i b c : Skb} {A B : List (Flow Stamp OfoExt)} {f : Flow Stamp OfoExt} {p : Segment} {w : Walked} {whole : Bool}
      {clock : Clock} (hfound : Found env l pkt i b A f B p) (hway : Way env l i b f B p c w whole clock) :
    Arrival env l pkt (endLists { l with nskb := l.nskb + 1, clock := clock } l.nskb c A B f.q w whole)

theorem receiveFoundLists_ok [GroComplete Stamp] {p : Segment} (hfound : Found env l pkt i b A f B p)
    (h : receiveFoundLists env { l with nskb := l.nskb + 1 } l.nskb i b A f B = .ok l') : Arrival env l pkt l' := by
  obtain ⟨segs, hsegs⟩ := List.head?_eq_some_iff.1 hfound.head
  unfold receiveFoundLists at h
  rw [hsegs] at h
  simp only [← hsegs] at h
  split at h
  · rename_i hwhy
    cases h
    exact Arrival.found hfound (Way.flush hwhy)
  · rename_i hwhy
    rw [Bool.not_eq_true] at hwhy
    split at h
    · rename_i hlate
      cases h
      exact Arrival.found hfound (Way.late hwhy hlate)
    · rename_i hlate
      split at h
      · cases h
      · rename_i w hwalk
        cases h
        exact Arrival.found hfound (Way.walked hwhy (Bool.eq_false_iff.2 hlate) hwalk)

theorem receiveNewLists_ok [GroComplete Stamp] (hparse : pkt.parse env = .tcp i b flush)
    (hwhy : (flush || decide (b.len < 1)) = false)
    (hsplit : splitFlow (sameFlowAs env b) l.flows = none)
    (h : receiveNewLists { l with nskb := l.nskb + 1 } l.nskb b = .ok l') : Arrival env l pkt l' := by
  unfold receiveNewLists at h
  simp only at h
  split at h
  · cases h
  · rename_i x rest hqueue
    have hold : Holdable env l pkt b x rest := ⟨⟨i, flush, hparse, hwhy⟩, hsplit, hqueue⟩
    split at h
    · rename_i hlate
      cases h
      have harrival := Arrival.late hold hlate
      exact harrival
    · rename_i hlate
      have hlate' : before b.seq (assign x.dat b.seq l.up.length).seqNext = false := Bool.eq_false_iff.2 hlate
      unfold receiveHeldLists at h
      simp only at h
      split at h
      · rename_i hfull
        split at h
        · cases h
        · rename_i g hlast
          obtain ⟨P, hP⟩ := List.getLast?_eq_some_iff.1 hlast
          cases h
          have harrival := Arrival.evict hold hlate' hP hfull
          rw [hP, List.dropLast_concat]
          exact harrival
      · rename_i hfull
        cases h
        have harrival := Arrival.fresh hold hlate' (Nat.lt_of_not_le hfull)
        exact harrival

/-- **There are no other ways.** -/
theorem receiveLists_ok [GroComplete Stamp] (hne : ∀ f ∈ l.flows, f.segs ≠ []) (h : receiveLists env l pkt = .ok l') :
    Arrival env l pkt l' := by
  have hunheld : ∀ {b : Skb}, Unheld env l pkt b →
      receiveFlushLists { l with nskb := l.nskb + 1 } l.nskb b = .ok l' → Arrival env l pkt l' := by
    intro b hwhy h
    unfold receiveFlushLists at h
    split at h
    · cases h
    · rename_i x rest hqueue
      cases h
      exact Arrival.unheld hwhy hqueue
  unfold receiveLists at h
  simp only at h
  split at h
  · rename_i b hparse
    cases h
    exact Arrival.other hparse
  · rename_i b hparse
    exact hunheld (Unheld.badHeader hparse) h
  · rename_i i b flush hparse
    unfold receiveTcpLists at h
    split at h
    · rename_i A f B hsplit
      have hmem : f ∈ l.flows := (splitFlow_some hsplit).1 ▸ List.mem_append_right _ (List.mem_cons_self ..)
      obtain ⟨p, segs, hsegs⟩ := List.exists_cons_of_ne_nil (hne f hmem)
      exact receiveFoundLists_ok (p := p) ⟨⟨flush, hparse⟩, hsplit, by rw [hsegs, List.head?_cons]⟩ h
    · rename_i hsplit
      split at h
      · rename_i hwhy
        exact hunheld (Unheld.tcp hparse hsplit hwhy) h
      · rename_i hwhy
        exact receiveNewLists_ok hparse (Bool.eq_false_iff.2 hwhy) hsplit h

/-! ### What a call does to the held flows -/

theorem Found.flows_eq {p : Segment} (h : Found env l pkt i b A f B p) : l.flows = A ++ f :: B :=
  (splitFlow_some h.split).1

theorem Found.mem {p : Segment} (h : Found env l pkt i b A f B p) : f ∈ l.flows :=
  h.flows_eq ▸ List.mem_append_right _ (List.mem_cons_self ..)

theorem Found.mem_segs {p : Segment} (h : Found env l pkt i b A f B p) : p ∈ f.segs := List.mem_of_head? h.head

theorem Found.ne {p : Segment} (h : Found env l pkt i b A f B p) : f.segs ≠ [] := List.ne_nil_of_mem h.mem_segs

theorem endLists_flows [GroComplete Stamp] {q : OfoId} {w : Walked} :
    (endLists l k b A B q w whole).flows = if whole then A ++ B else A ++ w.flow k b q :: B := by
  unfold endLists Walked.flow
  cases whole <;> cases w.fate <;> rfl

/-- The property `R` of flows is kept when `pkt` arrives. -/
structure FlowRule [GroComplete Stamp] (env : Env) (l : Lists) (pkt : Packet) (R : Flow Stamp OfoExt → Prop) : Prop where
  fresh : ∀ b x rest, Holdable env l pkt b x rest → before b.seq (assign x.dat b.seq l.up.length).seqNext = false →
    R (newFlow x l.nskb b l.clock l.up.length)
  found : ∀ i b c A f B p w clock, Found env l pkt i b A f B p → Way env l i b f B p c w false clock → R f →
    R (w.flow l.nskb c f.q)

theorem forall_mem_replace {P : Flow Stamp OfoExt → Prop} {fs : List (Flow Stamp OfoExt)} {g : Flow Stamp OfoExt}
    (hfs : fs = A ++ f :: B) (h : ∀ f' ∈ fs, P f') (hg : P g) : ∀ f' ∈ A ++ g :: B, P f' := by
  rw [hfs, List.forall_mem_append, List.forall_mem_cons] at h
  rw [List.forall_mem_append, List.forall_mem_cons]
  exact ⟨h.1, hg, h.2.2⟩

theorem Arrival.forall_flows [GroComplete Stamp] {R : Flow Stamp OfoExt → Prop} (hR : FlowRule env l pkt R)
    (h : ∀ f ∈ l.flows, R f)
    (harrival : Arrival env l pkt l') : ∀ f ∈ l'.flows, R f := by
  cases harrival with
  | other hparse => exact h
  | unheld hwhy hqueue => exact h
  | late hold hlate => exact h
  | fresh hold hlate hfull => exact List.forall_mem_cons.2 ⟨hR.fresh _ _ _ hold hlate, h⟩
  | evict hold hlate hflows hfull =>
    rw [hflows] at h
    exact List.forall_mem_cons.2 ⟨hR.fresh _ _ _ hold hlate, fun f hf => h f (List.mem_append_left _ hf)⟩
  | @found i b c A B f p w whole clock hfound hway =>
    rw [endLists_flows]
    cases whole with
    | true =>
      have hflows := hfound.flows_eq
      rw [hflows, List.forall_mem_append, List.forall_mem_cons] at h
      exact List.forall_mem_append.2 ⟨h.1, h.2.2⟩
    | false =>
      exact forall_mem_replace hfound.flows_eq h (hR.found _ _ _ _ _ _ _ _ _ hfound hway (h f hfound.mem))

/-- A property that every flow keeps when `dev_gro_complete` releases some of it is kept by `napi_gro_flush`. -/
theorem flushLists_forall_flows [GroComplete Stamp] {R : Flow Stamp OfoExt → Prop} (flushOld : Bool)
    (hcomplete : ∀ f n timestamp r, completeFlow 100000 timestamp f.dat (setHeadNext n f.segs) = r → r.2.2 ≠ [] → R f →
      R ⟨f.q, r.1, r.2.2⟩) (h : ∀ f ∈ l.flows, R f) : ∀ f ∈ (flushLists l flushOld).flows, R f := by
  have hflow : ∀ f l, R f → (∀ g ∈ l.flows, R g) → ∀ g ∈ (flushFlow f l).flows, R g := by
    intro f l hf hl
    rw [flushFlow]
    simp only
    split
    · exact hl
    · rename_i hstay
      exact List.forall_mem_cons.2 ⟨hcomplete f _ _ _ rfl (fun he => hstay (List.isEmpty_iff.2 he)) hf, hl⟩
  have hfold : ∀ (fs : List (Flow Stamp OfoExt)) (l : Lists), (∀ f ∈ fs, R f) → (∀ f ∈ l.flows, R f) →
      ∀ f ∈ (flushFlows flushOld fs l).flows, R f := by
    intro fs
    induction fs with
    | nil => exact fun l _ hl => hl
    | cons f fs ih =>
      intro l hfs hl
      obtain ⟨hf, hrest⟩ := List.forall_mem_cons.1 hfs
      rw [flushFlows]
      split
      · simp only
        split
        · exact List.forall_mem_append.2 ⟨fun g hg => hfs g (List.mem_reverse.1 hg), hl⟩
        · exact ih _ hrest (hflow f _ hf hl)
      · exact ih _ hrest (hflow f l hf hl)
  exact hfold _ _ (fun f hf => h f (List.mem_reverse.1 hf)) fun f hf => absurd hf List.not_mem_nil

/-! ### Runs -/

/-- The packet of a call, at the readings of its clock, has `C`. -/
def Call.Meets (C : Packet → Clock → Prop) : Call → Prop
  | .receive pkt clock => C pkt clock
  | _ => True

instance {C : Packet → Clock → Prop} [∀ pkt clock, Decidable (C pkt clock)] : DecidablePred (Call.Meets C)
  | .receive pkt clock => inferInstanceAs (Decidable (C pkt clock))
  | .flush _ _ => isTrue trivial
  | .clean _ => isTrue trivial

/-- **Rule for runs.**  `I` speaks of the calls so far and of the lists that the memory represents. -/
theorem run_invariant {I : List Call → Lists → Prop} {mem s : Mem} {cs : List Call} (hinit : I [] (initLists mem))
    (hstep : ∀ past c s l s' l', Rep s l → Rep s' l' → I past l → stepLists env l c = .ok l' → I (past ++ [c]) l')
    (hrun : run env mem cs = .ok s) : ∃ l, Rep s l ∧ I cs l := by
  refine runFrom_invariant (I := fun s past => ∃ l, Rep s l ∧ I past l) ?_ ⟨_, netifNapiAdd_rep mem, hinit⟩ hrun
  rintro s c s' past ⟨l, hrep, hl⟩ hs'
  have hagree := step_spec env s l c hrep
  rw [hs'] at hagree
  obtain ⟨l', hl', hrep'⟩ := hagree.exists_ok
  exact ⟨l', hrep', hstep past c s l s' l' hrep hrep' hl hl'⟩

end PacketReordering.Linux318
