import PacketReordering.Linux41.GsoSegment
import PacketReordering.Linux41.Ready

/-!
# `linux-4.1`: segmentation undoes receive offload

A host that forwards a segment has to send packets of the old size again.  `inet_gso_segment` makes them from the header
of the segment, `gso_size` and the payload; all its allocations succeed.

* `Framed` — the IP header of a buffer is that of all its packets, but for the length;
* `Up.outgoing` — a segment as it is sent on;
* `Restores` — a new packet is the old one again: the IP header, the payload, the numbers, the options and the flags;
* `run_gsoRestores` — segmentation of a segment that went up restores its packets, one by one.

The advertised window is that of the first packet, and only the first packet keeps CWR.
-/

namespace PacketReordering.Linux41

open Lib Gro

/-! ### IP headers -/

/-- What all packets of a segment have in common in their IP headers before `skb_gro_merge` looks at them. -/
def IpHdr.common (ip : IpHdr) : IpHdr := { ip with tos := 0, totLen := 0 }

/-- The headers of the buffer and of its packets; `κ` is what the buffers of one flow have in common. -/
structure Framed (content : ℕ → List U8) (κ : IpHdr × U32) (b : Skb) : Prop where
  offset : b.dataOffset = 20 + b.tcp.thlen
  thlen : 20 ≤ b.tcp.thlen
  seq : b.seq = b.tcp.seq
  version : b.ip.verIhl = 0x45
  whole : b.ip.fragOff &&& ~~~ipDf = 0
  csum : b.ip.badCsum = false
  flags : hasFlag b.tcp.flagWord flushFlags = false
  key : (IpHdr.common b.ip, b.tcp.ports) = κ
  ip : ∀ c ∈ b.parts, c.ip = { b.ip with totLen := BitVec.ofNat 16 (b.dataOffset + (content c.uid).length) }
  ports : ∀ c ∈ b.parts, c.ports = b.tcp.ports

variable {pages : Pages} {content : ℕ → List U8} {κ : IpHdr × U32} {pkt : Packet} {p skb p' skb' b c : Skb}
  {flush linear : Bool}

theorem and_or_and_not {w : ℕ} (x m : BitVec w) : x &&& m ||| x &&& ~~~m = x := by
  rw [← BitVec.and_or_distrib_left]
  simp

theorem groHeader_skbLen {hlen : ℕ} (h : b.groHeader hlen = some c) : c.skbLen = b.skbLen := by
  unfold Body.groHeader at h
  split at h
  · obtain ⟨d, hd, rfl⟩ := Option.map_eq_some_iff.1 h
    unfold Body.pskbMayPull at hd
    split at hd
    · cases hd
      rfl
    · split at hd
      · rename_i hlinear hle
        cases hd
        have hsum : ((Body.eatFrags (hlen - b.headlen) b.frags).map Frag.size).sum = b.dataLen - (hlen - b.headlen) := by
          rw [← fragsBytes_length fun _ _ => 0, fragsBytes_eatFrags, List.length_drop, fragsBytes_length,
            Body.dataLen]
        show hlen + ((Body.eatFrags (hlen - b.headlen) b.frags).map Frag.size).sum = _
        rw [hsum, Body.skbLen]
        unfold Body.skbLen at hle
        omega
      · cases hd
  · cases h
    rfl

/-- What `inet_gro_receive` has found when it does not say that the packet has to be flushed. -/
theorem inetHeader_plain (hb : b.dataOffset = 0) (h : inetHeader b = (c, some false)) :
    c.ip.verIhl = 0x45 ∧ c.ip.badCsum = false ∧ c.ip.totLen = BitVec.ofNat 16 c.skbLen ∧ c.ip.fragOff &&& ~~~ipDf = 0 ∧
      c.dataOffset = 20 ∧ c.skbLen = b.skbLen := by
  unfold inetHeader at h
  split at h
  · cases h
  · rename_i d hd
    have hlen := groHeader_skbLen hd
    obtain ⟨headlen, frags, frag0Len, hd'⟩ := Body.groHeader_some hd
    have hoff : d.dataOffset = 0 := by
      rw [hd']
      exact hb
    split at h
    · cases h
    · rename_i hwhy
      simp only [Bool.or_eq_true, decide_eq_true_eq, not_or, ne_eq, not_not, Bool.not_eq_true] at hwhy
      simp only [Prod.mk.injEq, Option.some.injEq, bne_eq_false_iff_eq] at h
      obtain ⟨rfl, hflush⟩ := h
      have hgro : d.groLen = d.skbLen := by rw [Body.groLen, hoff, Nat.sub_zero]
      rw [hgro] at hflush
      obtain ⟨htot, hfrag⟩ := BitVec.or_eq_zero_iff.1 hflush
      exact ⟨hwhy.1.2, hwhy.2, BitVec.xor_eq_zero_iff.1 htot, hfrag, by show d.dataOffset + 20 = 20; omega, hlen⟩

theorem tcpHeader_skbLen (h : b.tcpHeader = (c, true)) : c.skbLen = b.skbLen := by
  unfold Body.tcpHeader at h
  dsimp only at h
  split at h
  · cases h
  · rename_i d hd
    have hfirst := groHeader_skbLen hd
    split at h
    · cases h
    · split at h
      · cases h
      · rename_i e he
        have hsecond := groHeader_skbLen he
        cases h
        exact hsecond.trans hfirst

/-- A packet alone. -/
theorem Framed.single (hparse : pkt.parse = .tcp b false linear) (hcontent : pkt.payload pages = content pkt.body.uid)
    (hflags : hasFlag b.tcp.flagWord flushFlags = false) :
    Framed content (IpHdr.common b.ip, b.tcp.ports) b := by
  have hb := parse_tcp hparse
  obtain ⟨hreach, hpayload⟩ := parse_payload pages hparse
  have hlength : b.groLen = (content b.uid).length := by
    rw [← Body.payload_length pages, hpayload, hcontent, hb.uid]
  have hle := hreach.le_skbLen
  have hzero : ({ pkt.body with parts := [pkt.body.part], free := .no, isTcp := false, ext := false } : Skb).dataOffset = 0 :=
    pkt.dataOffset_eq
  obtain ⟨hoff, hthlen, hversion, hcsum, htot, hwhole⟩ : b.dataOffset = 20 + b.tcp.thlen ∧ 20 ≤ b.tcp.thlen ∧
      b.ip.verIhl = 0x45 ∧ b.ip.badCsum = false ∧ b.ip.totLen = BitVec.ofNat 16 b.skbLen ∧
      b.ip.fragOff &&& ~~~ipDf = 0 := by
    unfold Packet.parse at hparse
    split at hparse
    · cases hparse
    · dsimp only at hparse
      split at hparse
      · cases hparse
      · rename_i c fl hinet
        split at hparse
        · cases hparse
        · split at hparse
          · cases hparse
          · rename_i d hd
            simp only [Parsed.tcp.injEq] at hparse
            obtain ⟨rfl, rfl, -⟩ := hparse
            obtain ⟨hversion, hcsum, htot, hwhole, hoff, -⟩ := inetHeader_plain hzero hinet
            obtain ⟨-, -, -, -, -, hthlen, hoff'⟩ := Body.tcpHeader_ok hd
            have hlen := tcpHeader_skbLen hd
            have hip : d.ip = c.ip := by
              have hsame := Body.tcpHeader_sameHeaders { c with isTcp := true }
              rw [hd] at hsame
              exact hsame.ip
            rw [hip, hlen]
            refine ⟨?_, hthlen, hversion, hcsum, htot, hwhole⟩
            rw [hoff']
            exact congrArg (· + d.tcp.thlen) hoff
  have hgro : b.groLen = b.skbLen - b.dataOffset := rfl
  constructor
  · exact hoff
  · exact hthlen
  · exact hb.seq
  · exact hversion
  · exact hwhole
  · exact hcsum
  · exact hflags
  · rfl
  · intro c hc
    rw [hb.parts, List.mem_singleton] at hc
    subst hc
    show b.ip = { b.ip with totLen := BitVec.ofNat 16 (b.dataOffset + (content b.uid).length) }
    have hsum : b.dataOffset + (content b.uid).length = b.skbLen := by omega
    rw [hsum, ← htot]
  · intro c hc
    rw [hb.parts, List.mem_singleton] at hc
    rw [hc]
    rfl

theorem Framed.congr (h : Framed content κ b) (hoff : p.dataOffset = b.dataOffset) (htcp : p.tcp = b.tcp)
    (hip : p.ip = b.ip) (hseq : p.seq = b.seq) (hparts : p.parts = b.parts) : Framed content κ p := by
  obtain ⟨h1, h2, h3, h4, h5, h6, hflags, h7, h8, h9⟩ := h
  constructor
  · rw [hoff, htcp, h1]
  · rwa [htcp]
  · rw [hseq, htcp, h3]
  · rwa [hip]
  · rwa [hip]
  · rwa [hip]
  · rwa [htcp]
  · rwa [hip, htcp]
  · rw [hparts, hip, hoff]
    exact h8
  · rw [hparts, htcp]
    exact h9

theorem Framed.merge (hp : Framed content κ p) (hskb : Framed content κ skb) (h : skbGroMerge p skb = .merged p' skb') :
    Framed content κ p' := by
  obtain ⟨hheaders, hparts, hip, htcp⟩ := skbGroMerge_headers h
  obtain ⟨-, htos, -, -, hdoff, -⟩ := headersDiffer_eq_false hheaders
  obtain ⟨-, -, hseq, -⟩ := skbGroMerge_control h
  obtain ⟨-, -, hoff⟩ := skbGroMerge_nrFrags h
  have hthlen : p'.tcp.thlen = p.tcp.thlen := by
    rw [TcpHdr.thlen, TcpHdr.thlen, TcpHdr.doff, TcpHdr.doff, htcp]
    simp only [doff_or_psh]
  have hsame : skb.dataOffset = p.dataOffset := by
    rw [hp.offset, hskb.offset, TcpHdr.thlen, TcpHdr.thlen, hdoff]
  have hkey := hskb.key.trans hp.key.symm
  simp only [Prod.mk.injEq] at hkey
  have hipskb : ∀ n, { skb.ip with totLen := n } = { p.ip with totLen := n } := by
    intro n
    have hcommon := hkey.1
    simp only [IpHdr.common, IpHdr.mk.injEq] at hcommon ⊢
    exact ⟨hcommon.1, htos, trivial, hcommon.2.2.2⟩
  constructor
  · rw [hoff, hthlen, hp.offset]
  · rw [hthlen]
    exact hp.thlen
  · rw [hseq, htcp, hp.seq]
  · rw [hip]
    exact hp.version
  · rw [hip]
    exact hp.whole
  · rw [hip]
    exact hp.csum
  · rw [hasFlag_eq_false, htcp]
    exact (and_or_psh (by decide)).trans (hasFlag_eq_false.1 hp.flags)
  · rw [hip, htcp]
    exact hp.key
  · intro c hc
    rw [hparts] at hc
    rw [hip, hoff]
    rcases List.mem_append.1 hc with hc | hc
    · exact hp.ip c hc
    · rw [hskb.ip c hc, hsame, hipskb]
  · intro c hc
    rw [hparts] at hc
    rw [htcp]
    rcases List.mem_append.1 hc with hc | hc
    · exact hp.ports c hc
    · exact (hskb.ports c hc).trans hkey.2

theorem framed_rule :
    HeldRule (fun pkt => pkt.payload pages = content pkt.body.uid) (Framed content) where
  pull κ b h := by
    have hsame : b.pull.tcp = b.tcp ∧ b.pull.ip = b.ip ∧ b.pull.seq = b.seq ∧ b.pull.parts = b.parts := by
      unfold Body.pull
      split <;> exact ⟨rfl, rfl, rfl, rfl⟩
    obtain ⟨htcp, hip, hseq, hparts⟩ := hsame
    exact h.congr Body.pull_dataOffset htcp hip hseq hparts
  merge κ p skb p' skb' hp hskb _ hmerge := hp.merge hskb hmerge
  fresh pkt b flush linear hC hparse hwhy := by
    simp only [Bool.or_eq_false_iff] at hwhy
    rw [hwhy.1.1.1] at hparse
    exact ⟨_, (Framed.single hparse hC hwhy.1.2).congr rfl rfl rfl rfl rfl⟩
  join κ pkt b flush linear f p segs hC hparse hsegs hp hmatch hnot := by
    unfold notHeld at hnot
    rw [hsegs] at hnot
    simp only [List.head?_cons, Option.any_some, Bool.or_eq_false_iff, ttlOrDfDiffer, bne_eq_false_iff_eq] at hnot
    obtain ⟨⟨⟨⟨httl, hdf⟩, hflush⟩, hflags⟩, -⟩ := hnot
    rw [hflush] at hparse
    have hb := Framed.single hparse hC hflags
    have hkey : (IpHdr.common b.ip, b.tcp.ports) = κ := by
      rw [← hp.key]
      unfold sameFlowAs at hmatch
      rw [hsegs] at hmatch
      simp only [sameAddresses, Bool.and_eq_true, beq_iff_eq] at hmatch
      obtain ⟨⟨-, ⟨hprotocol, hsaddr⟩, hdaddr⟩, hports⟩ := hmatch
      have hfrag : b.ip.fragOff = p.body.ip.fragOff := by
        have hwhole := hb.whole.trans hp.whole.symm
        rw [← and_or_and_not b.ip.fragOff ipDf, ← and_or_and_not p.body.ip.fragOff ipDf, and_eq_of_xor hdf, hwhole]
      simp only [IpHdr.common, Prod.mk.injEq, IpHdr.mk.injEq]
      exact ⟨⟨hb.version.trans hp.version.symm, trivial, trivial, hfrag, httl, hprotocol, hsaddr, hdaddr,
        hb.csum.trans hp.csum.symm⟩, hports⟩
    rw [hkey] at hb
    exact hb.congr rfl rfl rfl rfl rfl

theorem run_framed {mem s : Mem} {cs : List Call} (h : run mem cs = .ok s)
    (hcontent : ∀ c ∈ cs, c.Meets fun pkt => pkt.payload pages = content pkt.body.uid) :
    ∀ u ∈ s.up, u.via ≠ .normal → ∃ κ, Framed content κ u.body := by
  intro u hu hvia
  obtain ⟨-, hgone⟩ := run_heldBodies framed_rule hcontent h
  obtain ⟨κ, b, hb, hbody⟩ := hgone u hu hvia
  rw [hbody]
  refine ⟨κ, hb.congr ?_ ?_ ?_ ?_ complete_parts⟩ <;> unfold Body.complete <;> split <;> rfl

/-! ### TCP headers -/

/-- The flags that segmentation leaves as they are. -/
def restoredFlags : U32 := tcpFlagEce ||| tcpFlagUrg ||| tcpFlagAck ||| tcpFlagRst ||| tcpFlagSyn ||| tcpFlagFin

section

variable {w m a : U32} {mss n i : ℕ} {th : TcpHdr}

theorem and_not_and (h : ~~~m &&& a = a) : w &&& ~~~m &&& a = w &&& a := by rw [BitVec.and_assoc, h]

theorem and_not_and_zero (h : w &&& a = 0) : w &&& ~~~m &&& a = 0 := by
  rw [BitVec.and_assoc, BitVec.and_comm (~~~m), ← BitVec.and_assoc, h]
  simp

theorem and_not_shift (h : ~~~m >>> 28 = BitVec.allOnes 32 >>> 28) : (w &&& ~~~m) >>> 28 = w >>> 28 := by
  rw [BitVec.ushiftRight_and_distrib, h, ← BitVec.ushiftRight_and_distrib, BitVec.and_allOnes]

/-- Flags that are neither FIN nor PSH nor CWR stay in every segment. -/
theorem segmentHeader_and (hend : ~~~(tcpFlagFin ||| tcpFlagPsh) &&& a = a) (hcwr : ~~~tcpFlagCwr &&& a = a) :
    (segmentHeader mss n i th).flagWord &&& a = th.flagWord &&& a := by
  unfold segmentHeader
  dsimp only
  split <;> split
  · rfl
  · exact and_not_and hcwr
  · exact and_not_and hend
  · rw [and_not_and hend, and_not_and hcwr]

/-- A flag that the header does not have is in no segment. -/
theorem segmentHeader_and_zero (h : th.flagWord &&& a = 0) : (segmentHeader mss n i th).flagWord &&& a = 0 := by
  unfold segmentHeader
  dsimp only
  split <;> split
  · exact h
  · exact and_not_and_zero h
  · exact and_not_and_zero h
  · exact and_not_and_zero (and_not_and_zero h)

theorem segmentHeader_doff : (segmentHeader mss n i th).doff = th.doff := by
  unfold segmentHeader TcpHdr.doff
  dsimp only
  split <;> split
  · rfl
  · rw [and_not_shift (by decide)]
  · rw [and_not_shift (by decide)]
  · rw [and_not_shift (by decide), and_not_shift (by decide)]

theorem segmentHeader_psh : hasFlag (segmentHeader mss n i th).flagWord tcpFlagPsh = (decide (i + 1 = n) && th.psh) := by
  have hcwr : ∀ w : U32, w &&& ~~~tcpFlagCwr &&& tcpFlagPsh = w &&& tcpFlagPsh := fun w => and_not_and (by decide)
  have hend : ∀ w : U32, w &&& ~~~(tcpFlagFin ||| tcpFlagPsh) &&& tcpFlagPsh = 0 := by
    intro w
    rw [BitVec.and_assoc, show ~~~(tcpFlagFin ||| tcpFlagPsh) &&& tcpFlagPsh = 0 by decide]
    simp
  unfold segmentHeader TcpHdr.psh hasFlag
  dsimp only
  split <;> split
  · rename_i hlast _
    simp [hlast]
  · rename_i hlast _
    simp [hlast, hcwr]
  · rename_i hlast _
    simp [hlast, hend]
  · rename_i hlast _
    simp [hlast, hend]

theorem segmentHeader_cwr :
    hasFlag (segmentHeader mss n i th).flagWord tcpFlagCwr = (decide (i = 0) && hasFlag th.flagWord tcpFlagCwr) := by
  have hend : ∀ w : U32, w &&& ~~~(tcpFlagFin ||| tcpFlagPsh) &&& tcpFlagCwr = w &&& tcpFlagCwr :=
    fun w => and_not_and (by decide)
  have hcwr : ∀ w : U32, w &&& ~~~tcpFlagCwr &&& tcpFlagCwr = 0 := by
    intro w
    rw [BitVec.and_assoc, show ~~~tcpFlagCwr &&& tcpFlagCwr = 0 by decide]
    simp
  unfold segmentHeader hasFlag
  dsimp only
  split <;> split
  · rename_i _ hfirst
    simp [hfirst]
  · rename_i _ hfirst
    simp [hfirst, hcwr]
  · rename_i _ hfirst
    simp [hfirst, hend]
  · rename_i _ hfirst
    simp [hfirst, hend, hcwr]

end

/-- The numbers of packets that lie one behind the other, all but the last of one length. -/
theorem Laid.seq_getElem {parts : List Part} {r t : U32} {m i : ℕ} (h : Laid r parts t) (hi : i < parts.length)
    (hlen : ∀ j (hj : j < i), parts[j].len.toNat = m) : parts[i].seq = r + BitVec.ofNat 32 (i * m) := by
  induction parts generalizing r i with
  | nil => exact absurd hi (Nat.not_lt_zero i)
  | cons c cs ih =>
    obtain ⟨hc, hcs⟩ := h
    cases i with
    | zero => simpa using hc
    | succ i =>
      have hfirst : c.len = BitVec.ofNat 32 m := by
        have hzero := hlen 0 (Nat.succ_pos i)
        rw [List.getElem_cons_zero] at hzero
        rw [← hzero, BitVec.ofNat_toNat, BitVec.setWidth_eq]
      have hnext := ih hcs (by simpa using hi) fun j hj => hlen (j + 1) (Nat.succ_lt_succ hj)
      rw [List.getElem_cons_succ, hnext, hfirst, BitVec.add_assoc, ← BitVec.ofNat_add, Nat.add_one_mul, Nat.add_comm m]

/-! ### The way back -/

/-- A segment as it is sent on: `skb->data` is at the IP header again, and `headers` are the bytes of the two headers. -/
def outgoing (pages : Pages) (headers : List U8) (id : U16) (u : Up GsoEnd) : GsoSkb where
  link := u.body.link
  ip := u.body.ip
  id := id
  tcp := u.body.tcp
  doffset := u.body.link.mac.length
  linear :=
    headers ++ bytesAt pages u.body.headPage (u.body.headData + u.body.dataOffset) (u.body.headlen - u.body.dataOffset)
  dataLen := u.body.dataLen
  frags := u.body.frags
  gsoSize := u.body.gsoSize
  gsoSegs := u.body.count
  gsoType := napiGroCompleteType 0 u

/-- `s` is the `i`th new packet, and the packet `c` again. -/
structure Restores (pages : Pages) (content : ℕ → List U8) (id : U16) (i : ℕ) (c : Part) (s : GsoSkb) : Prop where
  bytes : s.bytes pages = content c.uid
  ip : s.ip = c.ip
  id : s.id = id + BitVec.ofNat 16 i
  ports : s.tcp.ports = c.ports
  seq : s.tcp.seq = c.seq
  ackSeq : s.tcp.ackSeq = c.ackSeq
  opts : s.tcp.opts = c.opts
  doff : s.tcp.doff = c.doff
  flags : s.tcp.flagWord &&& restoredFlags = c.flagWord &&& restoredFlags
  psh : s.tcp.psh = hasFlag c.flagWord tcpFlagPsh
  cwr : hasFlag s.tcp.flagWord tcpFlagCwr = (decide (i = 0) && hasFlag c.flagWord tcpFlagCwr)

/-- A segment of several packets, each with payload, and what a run says of it. -/
structure Several (pages : Pages) (content : ℕ → List U8) (b : Skb) : Prop where
  conveys : Conveys pages content b
  two : 2 ≤ b.parts.length
  filled : ∀ c ∈ b.parts, content c.uid ≠ []

theorem Several.short (h : Several pages content b) :
    (∀ c ∈ b.parts, (content c.uid).length < 65536) ∧ b.parts.length < 65536 := by
  have hshort := h.conveys.short h.two
  rw [← Body.payload_length pages, h.conveys.payload, List.flatMap_def] at hshort
  constructor
  · intro c hc
    have hsub := List.sublist_flatten_of_mem (List.mem_map_of_mem (f := fun c : Part => content c.uid) hc)
    exact Nat.lt_of_le_of_lt hsub.length_le hshort
  · have hone : ∀ n ∈ (b.parts.map fun c => content c.uid).map List.length, 1 ≤ n := by
      intro n hn
      obtain ⟨xs, hxs, rfl⟩ := List.mem_map.1 hn
      obtain ⟨c, hc, rfl⟩ := List.mem_map.1 hxs
      exact List.length_pos_iff.2 (h.filled c hc)
    have hle := List.length_le_sum_of_one_le _ hone
    rw [← List.length_flatten, List.length_map, List.length_map] at hle
    exact Nat.lt_of_le_of_lt hle hshort

theorem Several.len (h : Several pages content b) : ∀ c ∈ b.parts, c.len.toNat = (content c.uid).length := by
  intro c hc
  have hlt := h.short.1 c hc
  rw [h.conveys.len c hc, BitVec.toNat_ofNat]
  exact Nat.mod_eq_of_lt (by omega)

theorem Several.describable (h : Several pages content b) : Describable b := by
  refine ⟨h.short.2, fun n hn => ?_⟩
  obtain ⟨c, hc, rfl⟩ := List.mem_map.1 hn
  rw [h.len c hc]
  exact h.short.1 c hc

theorem Several.complete_eq (h : Several pages content b.complete) (hgeom : Geometry b) : b.complete = b := by
  have htwo := h.two
  rw [complete_parts, ← hgeom.count] at htwo
  have hne : b.count ≠ 1 := by
    intro hone
    rw [hone] at htwo
    exact absurd htwo (by decide)
  rw [Body.complete, if_neg hne]

/-- **`gso_size` cuts the payload between the packets.** -/
theorem Several.pieces_payload (h : Several pages content b) (hgeom : Geometry b) :
    0 < b.gsoSize.toNat ∧ b.gsoSize.toNat < b.groLen ∧
      pieces b.gsoSize.toNat (b.payload pages) = b.parts.map fun c => content c.uid := by
  have hlens : lens b = (b.parts.map fun c => content c.uid).map List.length := by
    rw [lens, List.map_map]
    exact List.map_congr_left h.len
  obtain ⟨init, n, hinit, hall, hn, -⟩ := hgeom.last
  rw [hlens] at hinit
  obtain ⟨yss, last, hparts, hyss, hlast⟩ := List.map_eq_append_iff.1 hinit
  obtain ⟨ys, rfl, hys⟩ := List.map_eq_singleton_iff.1 hlast
  have hfilled : ∀ xs ∈ b.parts.map fun c => content c.uid, xs ≠ [] := by
    intro xs hxs
    obtain ⟨c, hc, rfl⟩ := List.mem_map.1 hxs
    exact h.filled c hc
  have hfull : ∀ zs ∈ yss, zs.length = b.gsoSize.toNat := fun zs hzs => hall _ (hyss ▸ List.mem_map_of_mem hzs)
  have hlength : yss.length + 1 = b.parts.length := by
    rw [← List.length_map fun c : Part => content c.uid, hparts, List.length_append, List.length_singleton]
  have htwo := h.two
  obtain ⟨zs, yss', rfl⟩ := List.exists_cons_of_length_pos (l := yss) (by omega)
  rw [hparts] at hfilled
  have hzs : zs ≠ [] := hfilled zs (by simp)
  have hpos : 0 < b.gsoSize.toNat := by
    rw [← hfull zs (by simp)]
    exact List.length_pos_iff.2 hzs
  have hlastne : ys ≠ [] := hfilled ys (by simp)
  have hpayload : b.payload pages = (zs :: yss' ++ [ys]).flatten := by
    rw [h.conveys.payload, ← hparts, List.flatMap_def]
  refine ⟨hpos, ?_, ?_⟩
  · have hlast : 0 < ys.length := List.length_pos_iff.2 hlastne
    rw [← Body.payload_length pages, hpayload, List.flatten_append, List.flatten_cons, List.length_append,
      List.length_append, List.flatten_singleton, hfull zs (by simp)]
    omega
  · rw [hpayload, hparts]
    exact pieces_flatten hpos hfull hlastne (by omega)

/-- The packets all have the length `gso_size`, and the last one may be shorter. -/
theorem Geometry.seq_getElem (hgeom : Geometry b) {i : ℕ} (hi : i < b.parts.length) :
    b.parts[i].seq = b.seq + BitVec.ofNat 32 (i * b.gsoSize.toNat) := by
  refine hgeom.laid.seq_getElem hi fun j hj => ?_
  obtain ⟨init, n, hinit, hall, -⟩ := hgeom.last
  have hlength : init.length + 1 = b.parts.length := by
    have hcount := congrArg List.length hinit
    rw [lens, List.length_map, List.length_append, List.length_singleton] at hcount
    exact hcount.symm
  have hat : (lens b)[j]? = some b.parts[j].len.toNat := by
    rw [lens, List.getElem?_map, List.getElem?_eq_getElem (by omega), Option.map_some]
  rw [hinit, List.getElem?_append_left (by omega)] at hat
  exact hall _ (List.mem_of_getElem? hat)

/-- The types that `tcp4_gro_complete` sets. -/
theorem completeType_cases (u : Up GsoEnd) (hvia : u.via ≠ .normal) (hone : u.body.count ≠ 1) :
    napiGroCompleteType 0 u = skbGsoTcpv4 ∨ napiGroCompleteType 0 u = skbGsoTcpv4 ||| skbGsoTcpEcn := by
  unfold napiGroCompleteType tcp4GroComplete tcpGroComplete
  rw [if_neg (by rintro (h | h); exacts [hvia h, hone h])]
  split
  · exact Or.inr (by decide)
  · exact Or.inl (by decide)

/-- A device without TSO leaves the segmentation to `skb_segment`. -/
theorem netGsoOk_eq_false {gso gsoType : U16} (htso : gso &&& skbGsoTcpv4 = 0) (htype : gsoType &&& skbGsoTcpv4 ≠ 0) :
    netGsoOk (gso ||| skbGsoDodgy) gsoType = false := by
  rw [netGsoOk, beq_eq_false_iff_ne]
  intro hok
  have hbit : (gso ||| skbGsoDodgy) &&& gsoType &&& skbGsoTcpv4 = gsoType &&& skbGsoTcpv4 := by rw [hok]
  have hnone : (gso ||| skbGsoDodgy) &&& skbGsoTcpv4 = 0 := by
    rw [BitVec.and_comm, BitVec.and_or_distrib_left, BitVec.and_comm _ gso, htso]
    decide
  rw [BitVec.and_assoc, BitVec.and_comm gsoType, ← BitVec.and_assoc, hnone] at hbit
  refine htype ?_
  rw [BitVec.and_comm, ← hbit]
  exact BitVec.zero_and

section

variable {mss n i : ℕ} {d : Part}

/-- A header that agrees with a packet has its flags, as far as `mask` goes. -/
theorem Agrees.and_eq {mask : U32} (h : Agrees d b) (hmask : agreedFlags &&& mask = mask) :
    d.flagWord &&& mask = b.tcp.flagWord &&& mask := by
  rw [← hmask, ← BitVec.and_assoc, ← BitVec.and_assoc, h.flags]

theorem Agrees.restoredFlags (h : Agrees d b) (hb : hasFlag b.tcp.flagWord flushFlags = false) :
    (segmentHeader mss n i b.tcp).flagWord &&& Linux41.restoredFlags = d.flagWord &&& Linux41.restoredFlags := by
  have hsplit : Linux41.restoredFlags = (tcpFlagEce ||| tcpFlagAck) ||| flushFlags := by decide
  have hplain := hasFlag_eq_false.1 h.plain
  have hdistrib : ∀ w : U32, w &&& (tcpFlagEce ||| tcpFlagAck ||| flushFlags) =
      w &&& (tcpFlagEce ||| tcpFlagAck) ||| w &&& flushFlags := fun w => BitVec.and_or_distrib_left
  rw [hsplit, hdistrib, hdistrib, hplain, segmentHeader_and_zero (hasFlag_eq_false.1 hb), segmentHeader_and (by decide) (by decide), h.and_eq (by decide)]

theorem Agrees.cwr (h : Agrees d b) :
    hasFlag (segmentHeader mss n i b.tcp).flagWord tcpFlagCwr = (decide (i = 0) && hasFlag d.flagWord tcpFlagCwr) := by
  rw [segmentHeader_cwr, hasFlag, hasFlag, h.and_eq (by decide)]

end

/-- Only the last packet may have PSH, and then the header has it. -/
theorem Speaks.psh_getElem (h : Speaks b) {i : ℕ} (hi : i < b.parts.length) :
    hasFlag b.parts[i].flagWord tcpFlagPsh = (decide (i + 1 = b.parts.length) && b.tcp.psh) := by
  obtain ⟨init, last, hparts, hinit, hlast⟩ := h.psh
  have hlength : b.parts.length = init.length + 1 := by rw [hparts, List.length_append, List.length_singleton]
  obtain ⟨d, hd⟩ : ∃ d, d = b.parts[i] := ⟨_, rfl⟩
  have hat : b.parts[i]? = some d := by rw [hd, List.getElem?_eq_getElem hi]
  rw [← hd]
  by_cases hend : i + 1 = b.parts.length
  · rw [hparts, List.getElem?_append_right (by omega), show i - init.length = 0 by omega, List.getElem?_cons_zero] at hat
    simp only [Option.some.injEq] at hat
    rw [← hat, hlast, decide_eq_true hend, Bool.true_and]
  · rw [hparts, List.getElem?_append_left (by omega)] at hat
    rw [hinit _ (List.mem_of_getElem? hat), decide_eq_false hend, Bool.false_and]

/-- **A segment that meets the invariants of receive offload is cut into its packets.** -/
theorem Several.restores {u : Up GsoEnd} {headers : List U8} {id : U16} {features : Features}
    (h : Several pages content u.body) (hgeom : Geometry u.body) (hready : Ready u.body) (hspeaks : Speaks u.body)
    (hframed : Framed content κ u.body) (hvia : u.via ≠ .normal) (hheaders : headers.length = u.body.dataOffset)
    (htso : features.gso &&& skbGsoTcpv4 = 0) :
    ∃ segs, inetGsoSegment pages features (outgoing pages headers id u) = .ok (.inr segs) ∧
      segs.length = u.body.parts.length ∧
      ∀ i (hi : i < segs.length) (hi' : i < u.body.parts.length),
        Restores pages content id i u.body.parts[i] segs[i] := by
  obtain ⟨b', hb'⟩ : ∃ b', b' = outgoing pages headers id u := ⟨_, rfl⟩
  obtain ⟨hpos, hlt, hpieces⟩ := h.pieces_payload hgeom
  have hvalid : b'.Valid := by
    rw [hb']
    exact ⟨rfl, hready.nrFrags⟩
  have hbytes : b'.bytes pages = headers ++ u.body.payload pages := by
    have hzero : u.body.dataOffset - u.body.headlen = 0 := Nat.sub_eq_zero_of_le hready.linear
    rw [hb', GsoSkb.bytes, outgoing, Body.payload, Body.bytesFrom, hzero, List.drop_zero, List.append_assoc]
  have hihl : ihlBytes b'.ip = 20 := by
    rw [hb']
    show ihlBytes u.body.ip = 20
    rw [ihlBytes, hframed.version]
    rfl
  have hlen : b'.len = u.body.dataOffset + u.body.groLen := by
    rw [← hvalid.bytes_length pages, hbytes, List.length_append, hheaders, Body.payload_length]
  have hone : u.body.count ≠ 1 := by
    intro hone
    have htwo := h.two
    rw [← hgeom.count, hone] at htwo
    exact absurd htwo (by decide)
  have htype := completeType_cases u hvia hone
  have hknown : b'.gsoType &&& ~~~inetGsoTypes = 0 ∧ b'.gsoType &&& skbGsoTcpv4 ≠ 0 := by
    rw [hb']
    show napiGroCompleteType 0 u &&& _ = 0 ∧ napiGroCompleteType 0 u &&& _ ≠ 0
    rcases htype with h | h <;> rw [h] <;> decide
  have htcp : b'.tcp = u.body.tcp := by rw [hb']; rfl
  have hgso : b'.gsoSize = u.body.gsoSize := by rw [hb']; rfl
  have hoff : 20 + u.body.tcp.thlen = headers.length := by rw [hheaders, hframed.offset]
  obtain ⟨tcpSegs, hrun, htcpSegs⟩ := inetGsoSegment_ok pages hvalid hknown.1
    (by omega) (by rw [htcp]; exact hframed.thlen) (by rw [hgso]; exact hpos) (by rw [hlen, htcp, hgso, hihl]; omega)
    (netGsoOk_eq_false htso hknown.2)
  rw [hihl, htcp, hoff] at htcpSegs
  have hcount := htcpSegs.length
  have hsegs := htcpSegs.segmentOf
  rw [← fixIpHeaders_length b'.doffset b'.id, hgso] at hcount
  generalize fixIpHeaders b'.doffset b'.id tcpSegs = segs at hrun hcount hsegs
  have hsame : segs.length = u.body.parts.length := by
    have hlength := congrArg List.length hpieces
    rw [length_pieces, List.length_map, Body.payload_length] at hlength
    rw [hcount, ← hlength, hlen, hheaders, Nat.add_sub_cancel_left]
  refine ⟨segs, hb' ▸ hrun, hsame, fun i hi hi' => ?_⟩
  have hseg := hsegs i hi
  have hagrees := hspeaks.agrees _ (List.getElem_mem hi')
  have hcontent : (segs[i]).bytes pages = content (u.body.parts[i]).uid := by
    have hpiece : (pieces u.body.gsoSize.toNat (u.body.payload pages))[i]? = some (content (u.body.parts[i]).uid) := by
      rw [hpieces, List.getElem?_map, List.getElem?_eq_getElem hi', Option.map_some]
    have hi'' : i < (pieces u.body.gsoSize.toNat (u.body.payload pages)).length := by
      rw [hpieces, List.length_map]
      exact hi'
    rw [List.getElem?_eq_getElem hi'', getElem_pieces, Option.some.injEq] at hpiece
    rw [hseg.bytes, hbytes, List.drop_left, hgso, hpiece]
  have hseglen : (segs[i]).len = (content (u.body.parts[i]).uid).length := by
    rw [← hcontent, GsoSkb.bytes, List.length_append, fragsBytes_length, GsoSkb.len, hseg.dataLen]
  constructor
  · exact hcontent
  · rw [hseg.ip, hframed.ip _ (List.getElem_mem hi'), hseglen, hheaders, ← hframed.csum, hb']
    rfl
  · rw [hseg.id, hb']
    rfl
  · rw [hseg.tcp, htcp, hframed.ports _ (List.getElem_mem hi')]
    rfl
  · rw [hseg.tcp, htcp, hgso, hgeom.seq_getElem hi', hframed.seq]
    rfl
  · rw [hseg.tcp, htcp, hagrees.ackSeq]
    rfl
  · rw [hseg.tcp, htcp, hagrees.opts]
    rfl
  · rw [hseg.tcp, htcp, segmentHeader_doff, hagrees.doff]
  · rw [hseg.tcp, htcp, hagrees.restoredFlags hframed.flags]
  · rw [TcpHdr.psh, hseg.tcp, htcp, segmentHeader_psh, hspeaks.psh_getElem hi', hsame]
  · rw [hseg.tcp, htcp, hagrees.cwr]

theorem Call.Meets.imp {C D : Packet → Prop} {c : Call} (h : c.Meets C) (hCD : ∀ pkt, C pkt → D pkt) : c.Meets D := by
  cases c with
  | receive pkt now => exact hCD pkt h
  | flush flushOld groOfo groInseq ktime => trivial
  | clean ktime => trivial

/-- **Segmentation undoes receive offload.**  A segment of several packets that went up is cut into these packets, if every
one has payload: one without payload would not come back. -/
theorem run_gsoRestores {mem s : Mem} {cs : List Call} {u : Up GsoEnd} {headers : List U8} {id : U16} {features : Features}
    (h : run mem cs = .ok s)
    (hC : ∀ c ∈ cs, c.Meets fun pkt => pkt.payload pages = content pkt.body.uid ∧ pkt.body.frags.length ≤ maxSkbFrags)
    (hu : u ∈ s.up) (hvia : u.via ≠ .normal) (htwo : 2 ≤ u.body.parts.length)
    (hfilled : ∀ c ∈ u.body.parts, content c.uid ≠ []) (hheaders : headers.length = u.body.dataOffset)
    (htso : features.gso &&& skbGsoTcpv4 = 0) :
    ∃ segs, inetGsoSegment pages features (outgoing pages headers id u) = .ok (.inr segs) ∧
      segs.length = u.body.parts.length ∧
      ∀ i (hi : i < segs.length) (hi' : i < u.body.parts.length),
        Restores pages content id i u.body.parts[i] segs[i] := by
  have hcontent : ∀ c ∈ cs, c.Meets fun pkt => pkt.payload pages = content pkt.body.uid :=
    fun c hc => (hC c hc).imp fun _ hboth => hboth.1
  have hfrags : ∀ c ∈ cs, c.Meets fun pkt => pkt.body.frags.length ≤ maxSkbFrags :=
    fun c hc => (hC c hc).imp fun _ hboth => hboth.2
  obtain ⟨-, hconveys⟩ := run_heldBodies conveys_rule hcontent h
  obtain ⟨-, c, hc, hcbody⟩ := hconveys u hu hvia
  have hseveral : Several pages content u.body := ⟨hcbody ▸ hc.complete, htwo, hfilled⟩
  obtain ⟨-, hgeometry⟩ := run_heldBodies geometry_rule (fun c _ => c.meets_true) h
  obtain ⟨-, b, hb, hbody⟩ := hgeometry u hu hvia
  have hdesc := hseveral.describable
  rw [Describable, lens, hbody, complete_parts] at hdesc
  have hgeom := hb hdesc
  have hsame : u.body = b := by
    rw [hbody]
    exact Several.complete_eq (hbody ▸ hseveral) hgeom
  obtain ⟨-, hspeaking⟩ := run_heldBodies speaking_rule (fun c _ => c.meets_true) h
  obtain ⟨-, d, ⟨hspeaks, -⟩, hdbody⟩ := hspeaking u hu hvia
  obtain ⟨l, hrep, hl⟩ := run_allReady h hfrags
  have hready := hl.up u (hrep.links.up ▸ hu)
  obtain ⟨κ, hframed⟩ := run_framed h hcontent u hu hvia
  exact hseveral.restores (hsame ▸ hgeom) hready (hdbody ▸ hspeaks.complete) hframed hvia hheaders htso

theorem run_gsoRestores_bridged :
    ∃ s u segs, run default bridged = .ok s ∧ u ∈ s.up ∧ u.body.parts.map Part.uid = [2, 0, 1] ∧
      inetGsoSegment numbered ⟨true, 0⟩ (outgoing numbered (List.replicate 40 0) 7 u) = .ok (.inr segs) ∧
      segs.length = u.body.parts.length ∧
      ∀ i (hi : i < segs.length) (hi' : i < u.body.parts.length),
        Restores numbered (fun uid => bytesAt numbered uid 40 10) 7 i u.body.parts[i] segs[i] := by
  have hend : (run default bridged).map
      (fun s => s.up.map fun u => (u.via, u.body.parts.map Part.uid, u.body.dataOffset)) =
      .ok [(.devGroComplete, [2, 0, 1], 40)] := by decide +kernel
  cases hrun : run default bridged with
  | error e =>
    rw [hrun] at hend
    cases hend
  | ok s =>
    rw [hrun] at hend
    have hups : s.up.map (fun u => (u.via, u.body.parts.map Part.uid, u.body.dataOffset)) =
        [(.devGroComplete, [2, 0, 1], 40)] := by simpa [Except.map] using hend
    obtain ⟨u, us, hu, hvalue, -⟩ := List.map_eq_cons_iff.1 hups
    simp only [Prod.mk.injEq] at hvalue
    obtain ⟨hvia, huids, hoff⟩ := hvalue
    have hmem : u ∈ s.up := by simp [hu]
    have hlength : u.body.parts.length = 3 := by rw [← List.length_map Part.uid, huids]; rfl
    have hC : ∀ c ∈ bridged, c.Meets fun pkt =>
        pkt.payload numbered = bytesAt numbered pkt.body.uid 40 10 ∧ pkt.body.frags.length ≤ maxSkbFrags := by
      intro c hc
      have hpayload := bridged_payload c hc
      simp only [bridged, List.mem_cons, List.not_mem_nil, or_false] at hc
      rcases hc with rfl | rfl | rfl | rfl
      · exact ⟨hpayload, by decide⟩
      · exact ⟨hpayload, by decide⟩
      · exact ⟨hpayload, by decide⟩
      · trivial
    have hfilled : ∀ c ∈ u.body.parts, bytesAt numbered c.uid 40 10 ≠ [] := by
      intro c _
      rw [← List.length_pos_iff, bytesAt_length]
      exact Nat.succ_pos 9
    have hheaders : (List.replicate 40 (0 : U8)).length = u.body.dataOffset := by rw [List.length_replicate, hoff]
    obtain ⟨segs, hsegs, hcount, hrestores⟩ := @run_gsoRestores numbered (fun uid => bytesAt numbered uid 40 10) _ s _ u
      (List.replicate 40 0) 7 ⟨true, 0⟩ hrun hC hmem (by simp [hvia]) (by omega) hfilled hheaders (by decide)
    exact ⟨s, u, segs, rfl, hmem, huids, hsegs, hcount, hrestores⟩

end PacketReordering.Linux41
