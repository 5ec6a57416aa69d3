import PacketReordering.Linux41.Held

/-!
# `linux-4.1`: one header speaks for all

`skb_gro_merge` keeps the headers of one of two buffers.  It compares the TOS, the ACK number, three TCP flags, the
header length and the options of the two; the TTL and the DF bit were compared when the packets joined their flow.
Nothing compares the advertised windows.

* `Agrees` — a packet and a header have all of these in common;
* `Speaks` — the header of a buffer agrees with every packet in it;
* `run_speaks` — it does so in every segment that goes up;
* `run_received` — `napi_gro_complete` finds TCP's callback for every segment, so none of them is freed.
-/

namespace PacketReordering.Linux41

open Gro

/-- The flags that have to be the same. -/
def agreedFlags : U32 := tcpFlagCwr ||| tcpFlagEce ||| tcpFlagAck

/-- The headers of the packet `c` and of the buffer `b` agree. -/
structure Agrees (c : Part) (b : Skb) : Prop where
  tos : c.ip.tos = b.ip.tos
  ttl : c.ip.ttl = b.ip.ttl
  df : c.ip.fragOff &&& ipDf = b.ip.fragOff &&& ipDf
  ackSeq : c.ackSeq = b.tcp.ackSeq
  flags : c.flagWord &&& agreedFlags = b.tcp.flagWord &&& agreedFlags
  doff : c.doff = b.tcp.doff
  opts : c.opts = b.tcp.opts
  plain : hasFlag c.flagWord flushFlags = false

/-- The header of the buffer speaks for every packet in it: only the last one may have PSH, and it has it exactly if the
header does. -/
structure Speaks (b : Skb) : Prop where
  agrees : ∀ c ∈ b.parts, Agrees c b
  psh : ∃ init last, b.parts = init ++ [last] ∧ (∀ c ∈ init, hasFlag c.flagWord tcpFlagPsh = false) ∧
    hasFlag last.flagWord tcpFlagPsh = b.tcp.psh

/-- The held buffers of a flow have the TTL and the DF bit `κ`. -/
def Speaking (κ : U8 × U16) (b : Skb) : Prop := Speaks b ∧ b.ip.ttl = κ.1 ∧ b.ip.fragOff &&& ipDf = κ.2

/-! ### Flag words -/

theorem hasFlag_eq_false {flags mask : U32} : hasFlag flags mask = false ↔ flags &&& mask = 0 := by
  unfold hasFlag
  simp

/-- Setting PSH does not touch the other flags. -/
theorem and_or_psh {x y mask : U32} (hmask : tcpFlagPsh &&& mask = 0) :
    (x ||| (y &&& tcpFlagPsh)) &&& mask = x &&& mask := by
  rw [BitVec.and_comm, BitVec.and_or_distrib_left, BitVec.and_comm mask x, BitVec.and_comm mask, BitVec.and_assoc, hmask]
  simp

theorem doff_or_psh {x y : U32} : (x ||| (y &&& tcpFlagPsh)) >>> 28 = x >>> 28 := by
  have hshift : (y &&& tcpFlagPsh) >>> 28 = 0 := by
    rw [BitVec.ushiftRight_and_distrib, show tcpFlagPsh >>> 28 = 0 by decide]
    simp
  rw [BitVec.ushiftRight_or_distrib, hshift]
  simp

theorem psh_or_psh {x y : U32} (hx : hasFlag x tcpFlagPsh = false) :
    hasFlag (x ||| (y &&& tcpFlagPsh)) tcpFlagPsh = hasFlag y tcpFlagPsh := by
  rw [hasFlag_eq_false] at hx
  have hpsh : (x ||| (y &&& tcpFlagPsh)) &&& tcpFlagPsh = y &&& tcpFlagPsh := by
    rw [BitVec.and_comm, BitVec.and_or_distrib_left, BitVec.and_comm tcpFlagPsh x, hx, BitVec.and_comm tcpFlagPsh,
      BitVec.and_assoc, BitVec.and_self]
    simp
  rw [hasFlag, hasFlag, hpsh]

theorem and_eq_of_xor {w : ℕ} {x y mask : BitVec w} (h : (x ^^^ y) &&& mask = 0) : x &&& mask = y &&& mask := by
  ext i hi
  have hbit := congrArg (fun z => z[i]) h
  simp only [BitVec.getElem_and, BitVec.getElem_xor] at hbit
  simp only [BitVec.getElem_and]
  cases hx : x[i] <;> cases hy : y[i] <;> cases hm : mask[i] <;> simp_all

/-! ### The rule -/

section

variable {p skb p' skb' b : Skb} {c : Part}

theorem skbGroMerge_headers (h : skbGroMerge p skb = .merged p' skb') :
    headersDiffer p skb = false ∧ p'.parts = p.parts ++ skb.parts ∧ p'.ip = p.ip ∧
      p'.tcp = { p.tcp with flagWord := p.tcp.flagWord ||| (skb.tcp.flagWord &&& tcpFlagPsh) } := by
  obtain ⟨hheaders, -, -, -, frags, rfl⟩ := skbGroMerge_merged h
  exact ⟨hheaders, rfl, rfl, rfl⟩

/-- What the check at the start of `skb_gro_merge` says. -/
theorem headersDiffer_eq_false (h : headersDiffer p skb = false) :
    p.tcp.psh = false ∧ skb.ip.tos = p.ip.tos ∧ skb.tcp.ackSeq = p.tcp.ackSeq ∧
      skb.tcp.flagWord &&& agreedFlags = p.tcp.flagWord &&& agreedFlags ∧ skb.tcp.doff = p.tcp.doff ∧
      skb.tcp.opts = p.tcp.opts := by
  unfold headersDiffer at h
  simp only [Bool.or_eq_false_iff, bne_eq_false_iff_eq] at h
  obtain ⟨⟨⟨⟨⟨hpsh, htos⟩, hack⟩, hflags⟩, hdoff⟩, hopts⟩ := h
  exact ⟨hpsh, htos.symm, hack.symm, (and_eq_of_xor (hasFlag_eq_false.1 hflags)).symm, hdoff.symm, hopts.symm⟩

/-- A packet that agrees with `skb` agrees with the merged buffer when the two headers do. -/
theorem Agrees.merged (h : Agrees c skb) (hip : p'.ip = p.ip)
    (htcp : p'.tcp = { p.tcp with flagWord := p.tcp.flagWord ||| (skb.tcp.flagWord &&& tcpFlagPsh) })
    (hheaders : headersDiffer p skb = false) (httl : skb.ip.ttl = p.ip.ttl)
    (hdf : skb.ip.fragOff &&& ipDf = p.ip.fragOff &&& ipDf) : Agrees c p' := by
  obtain ⟨-, htos, hack, hflags, hdoff, hopts⟩ := headersDiffer_eq_false hheaders
  refine ⟨?_, ?_, ?_, ?_, ?_, ?_, ?_, h.plain⟩
  · rw [hip, h.tos, htos]
  · rw [hip, h.ttl, httl]
  · rw [hip, h.df, hdf]
  · rw [htcp, h.ackSeq, hack]
  · rw [htcp, h.flags, hflags]
    exact (and_or_psh (by decide)).symm
  · rw [htcp, h.doff, hdoff]
    simp only [TcpHdr.doff, doff_or_psh]
  · rw [htcp, h.opts, hopts]

/-- The header of the merged buffer is that of `p`, but for PSH. -/
theorem Agrees.kept (h : Agrees c p) (hip : p'.ip = p.ip)
    (htcp : p'.tcp = { p.tcp with flagWord := p.tcp.flagWord ||| (skb.tcp.flagWord &&& tcpFlagPsh) }) : Agrees c p' := by
  refine ⟨?_, ?_, ?_, ?_, ?_, ?_, ?_, h.plain⟩
  · rw [hip, h.tos]
  · rw [hip, h.ttl]
  · rw [hip, h.df]
  · rw [htcp, h.ackSeq]
  · rw [htcp, h.flags]
    exact (and_or_psh (by decide)).symm
  · rw [htcp, h.doff]
    simp only [TcpHdr.doff, doff_or_psh]
  · rw [htcp, h.opts]

/-- **`skb_gro_merge` is lossless in the headers.** -/
theorem skbGroMerge_speaks (hp : Speaks p) (hskb : Speaks skb) (httl : skb.ip.ttl = p.ip.ttl)
    (hdf : skb.ip.fragOff &&& ipDf = p.ip.fragOff &&& ipDf) (h : skbGroMerge p skb = .merged p' skb') : Speaks p' := by
  obtain ⟨hheaders, hparts, hip, htcp⟩ := skbGroMerge_headers h
  obtain ⟨hpsh, -⟩ := headersDiffer_eq_false hheaders
  constructor
  · intro c hc
    rw [hparts] at hc
    rcases List.mem_append.1 hc with hc | hc
    · exact (hp.agrees c hc).kept hip htcp
    · exact (hskb.agrees c hc).merged hip htcp hheaders httl hdf
  · obtain ⟨init, last, hpparts, hinit, hlast⟩ := hp.psh
    obtain ⟨init', last', hparts', hinit', hlast'⟩ := hskb.psh
    refine ⟨p.parts ++ init', last', ?_, ?_, ?_⟩
    · rw [hparts, hparts', List.append_assoc]
    · intro c hc
      rcases List.mem_append.1 hc with hc | hc
      · rw [hpparts] at hc
        rcases List.mem_append.1 hc with hc | hc
        · exact hinit c hc
        · rw [List.mem_singleton.1 hc, hlast, hpsh]
      · exact hinit' c hc
    · rw [hlast', TcpHdr.psh, htcp]
      exact (psh_or_psh hpsh).symm

/-- The header of a packet speaks for the packet. -/
theorem Speaks.single (hparts : b.parts = [{ b.part with isTcp := true }])
    (hflags : hasFlag b.tcp.flagWord flushFlags = false) : Speaks b := by
  constructor
  · intro c hc
    rw [hparts, List.mem_singleton] at hc
    subst hc
    exact ⟨rfl, rfl, rfl, rfl, rfl, rfl, rfl, hflags⟩
  · exact ⟨[], _, hparts, fun c hc => absurd hc List.not_mem_nil, rfl⟩

theorem Speaks.congr (h : Speaks b) (hparts : p.parts = b.parts) (hip : p.ip = b.ip) (htcp : p.tcp = b.tcp) :
    Speaks p := by
  obtain ⟨hagrees, hpsh⟩ := h
  constructor
  · intro c hc
    obtain ⟨h1, h2, h3, h4, h5, h6, h7, h8⟩ := hagrees c (hparts ▸ hc)
    exact ⟨hip ▸ h1, hip ▸ h2, hip ▸ h3, htcp ▸ h4, htcp ▸ h5, htcp ▸ h6, htcp ▸ h7, h8⟩
  · rw [hparts, htcp]
    exact hpsh

theorem speaking_rule : HeldRule (fun _ => True) Speaking where
  pull κ b h := by
    have hsame : b.pull.parts = b.parts ∧ b.pull.ip = b.ip ∧ b.pull.tcp = b.tcp := by
      unfold Body.pull
      split <;> exact ⟨rfl, rfl, rfl⟩
    obtain ⟨hparts, hip, htcp⟩ := hsame
    exact ⟨h.1.congr hparts hip htcp, hip ▸ h.2⟩
  merge κ p skb p' skb' hp hskb _ hmerge := by
    obtain ⟨hspeaks, httl, hdf⟩ := hp
    obtain ⟨hspeaks', httl', hdf'⟩ := hskb
    have hmerged := skbGroMerge_speaks hspeaks hspeaks' (httl'.trans httl.symm) (hdf'.trans hdf.symm) hmerge
    obtain ⟨-, -, hip, -⟩ := skbGroMerge_headers hmerge
    exact ⟨hmerged, hip ▸ httl, hip ▸ hdf⟩
  fresh pkt b flush linear _ hparse hwhy := by
    have hparts := (parse_tcp hparse).parts
    simp only [Bool.or_eq_false_iff] at hwhy
    exact ⟨(b.ip.ttl, b.ip.fragOff &&& ipDf), (Speaks.single hparts hwhy.1.2).congr rfl rfl rfl, rfl, rfl⟩
  join κ pkt b flush linear f p segs _ hparse hsegs hp _ hnot := by
    have hparts := (parse_tcp hparse).parts
    unfold notHeld at hnot
    rw [hsegs] at hnot
    simp only [List.head?_cons, Option.any_some, Bool.or_eq_false_iff, ttlOrDfDiffer, bne_eq_false_iff_eq] at hnot
    obtain ⟨⟨⟨⟨httl, hdf⟩, -⟩, hflags⟩, -⟩ := hnot
    refine ⟨(Speaks.single hparts hflags).congr rfl rfl rfl, httl.trans hp.2.1, ?_⟩
    rw [← hp.2.2]
    exact and_eq_of_xor hdf

end

theorem Speaks.complete {b : Skb} (h : Speaks b) : Speaks b.complete := by
  refine h.congr complete_parts ?_ ?_ <;> unfold Body.complete <;> split <;> rfl

/-- **Merging is lossless in the headers**, the advertised window apart. -/
theorem run_speaks {mem s : Mem} {cs : List Call} (h : run mem cs = .ok s) :
    ∀ u ∈ s.up, u.via ≠ .normal → Speaks u.body := by
  intro u hu hvia
  obtain ⟨-, hgone⟩ := run_heldBodies speaking_rule (fun c _ => c.meets_true) h
  obtain ⟨κ, b, ⟨hspeaks, -⟩, hbody⟩ := hgone u hu hvia
  rw [hbody]
  exact hspeaks.complete

/-- Two packets of one flow in sequence, and a flush. -/
def twoInSequence (flags flags' : U32) : List Call :=
  [.receive (.plain 0 1 7 100 10 flags) fun _ => 0, .receive (.plain 1 1 7 110 10 flags') fun _ => 0,
    .flush false 0 0 fun _ => 0]

/-- The second packet has PSH; it goes up in the segment of the first one. -/
theorem run_speaks_psh :
    ∃ s u, run default (twoInSequence 0 tcpFlagPsh) = .ok s ∧ u ∈ s.up ∧ u.body.parts.map Part.uid = [0, 1] ∧
      Speaks u.body := by
  have hend : (run default (twoInSequence 0 tcpFlagPsh)).map
      (fun s => s.up.map fun u => (u.via, u.body.parts.map Part.uid)) = .ok [(.devGroComplete, [0, 1])] := by
    decide +kernel
  cases hrun : run default (twoInSequence 0 tcpFlagPsh) with
  | error e =>
    rw [hrun] at hend
    cases hend
  | ok s =>
    rw [hrun] at hend
    have hups : s.up.map (fun u => (u.via, u.body.parts.map Part.uid)) = [(.devGroComplete, [0, 1])] := by
      simpa [Except.map] using hend
    obtain ⟨u, us, hu, huids, -⟩ := List.map_eq_cons_iff.1 hups
    simp only [Prod.mk.injEq] at huids
    have hmem : u ∈ s.up := by simp [hu]
    exact ⟨s, u, rfl, hmem, huids.2, run_speaks hrun u hmem (by simp [huids.1])⟩

/-- The window that a flag word advertises. -/
def window (flagWord : U32) : U16 := flagWord.setWidth 16

/-- The windows 1 and 2 end up behind one header. -/
theorem not_speaks_window :
    ¬ ∀ (mem : Mem) (cs : List Call) (s : Mem), run mem cs = .ok s → ∀ u ∈ s.up, u.via ≠ .normal →
      ∀ c ∈ u.body.parts, window c.flagWord = window u.body.tcp.flagWord := by
  intro h
  have hend : (run default (twoInSequence 1 2)).map (fun s => s.up.map fun u =>
      (u.via, window u.body.tcp.flagWord, u.body.parts.map fun c => window c.flagWord)) =
      .ok [(.devGroComplete, 1, [1, 2])] := by decide +kernel
  cases hrun : run default (twoInSequence 1 2) with
  | error e =>
    rw [hrun] at hend
    cases hend
  | ok s =>
    rw [hrun] at hend
    have hups : s.up.map (fun u => (u.via, window u.body.tcp.flagWord, u.body.parts.map fun c => window c.flagWord)) =
        [(.devGroComplete, 1, [1, 2])] := by simpa [Except.map] using hend
    obtain ⟨u, us, hu, hvalue, -⟩ := List.map_eq_cons_iff.1 hups
    simp only [Prod.mk.injEq] at hvalue
    obtain ⟨hvia, hwin, hparts⟩ := hvalue
    have hmem : (2 : U16) ∈ u.body.parts.map fun c => window c.flagWord := by simp [hparts]
    obtain ⟨c, hc, hc2⟩ := List.mem_map.1 hmem
    have hsame := h default _ s hrun u (by simp [hu]) (by simp [hvia]) c hc
    rw [hc2, hwin] at hsame
    exact absurd hsame (by decide)

/-! ### The callback of every segment is TCP's -/

section

variable {b c : Skb} {pkt : Packet} {flush linear : Bool}

theorem inetHeader_protocol (h : inetHeader b = (c, some flush)) : c.ip.protocol = ipprotoTcp := by
  unfold inetHeader at h
  cases hb : b.groHeader (b.dataOffset + 20) with
  | none =>
    rw [hb] at h
    cases h
  | some d =>
    rw [hb] at h
    simp only at h
    split at h
    · cases h
    · rename_i hcheck
      cases h
      simp only [Bool.or_eq_true, decide_eq_true_eq, not_or, ne_eq, not_not] at hcheck
      exact hcheck.1.1

theorem parse_protocol (h : pkt.parse = .tcp b flush linear) : b.ip.protocol = ipprotoTcp := by
  have hip := (parse_tcp h).ip
  unfold Packet.parse at h
  split at h
  · cases h
  · simp only at h
    split at h
    · cases h
    · rename_i c fl hinet
      have hc := inetHeader_sameHeaders { pkt.body with parts := [pkt.body.part], free := .no, isTcp := false, ext := false }
      rw [hinet] at hc
      rw [hip, ← inetHeader_protocol hinet]
      exact congrArg IpHdr.protocol hc.ip.symm

theorem protocol_rule : HeldRule (fun _ => True) fun (_ : Unit) b => b.ip.protocol = ipprotoTcp where
  pull κ b h := by
    unfold Body.pull
    split <;> exact h
  merge κ p skb p' skb' hp _ _ hmerge := by
    obtain ⟨-, -, hip, -⟩ := skbGroMerge_headers hmerge
    exact hip ▸ hp
  fresh pkt b flush linear _ hparse _ := ⟨(), show b.ip.protocol = ipprotoTcp from parse_protocol hparse⟩
  join κ pkt b flush linear f p segs _ hparse _ _ _ _ := show b.ip.protocol = ipprotoTcp from parse_protocol hparse

end

/-- Nothing that goes up is freed on the way. -/
theorem run_received {mem s : Mem} {cs : List Call} (h : run mem cs = .ok s) : received s.up = s.up := by
  obtain ⟨l, hrep, hl⟩ := run_allHeld protocol_rule (fun c _ => c.meets_true) h
  refine List.filter_eq_self.2 fun u hu => ?_
  rw [hrep.links.up] at hu
  rcases hl.up u hu with ⟨-, hfreed⟩ | ⟨-, b, hprotocol, -, hfreed⟩
  · rw [hfreed]
    rfl
  · have herr : b.completeErr = false := by
      unfold Body.completeErr
      rw [show GroComplete.err b = false from decide_eq_false (not_not.2 hprotocol), Bool.and_false]
    rw [hfreed, herr]
    rfl

end PacketReordering.Linux41
