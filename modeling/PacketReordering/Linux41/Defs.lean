import PacketReordering.Gro.Memory
import PacketReordering.Lib.Runs
import PacketReordering.Lib.Tracked

/-!
# `linux-4.1`: receive offload

The functions of `net/core/dev.c`, `net/core/skbuff.c`, `net/ipv4/af_inet.c` and `net/ipv4/tcp_offload.c` through which
a TCP packet goes, on the memory of `Gro.Memory`.  The only offload this kernel has is the one of TCP over IPv4; a packet
of another protocol ends with `flush` set.  `dev_gro_receive` does not look at what `tcp_gro_receive` returns.

* `Packet`, `Call` — what the driver hands in, and when;
* `tcpGroReceive` — the search for the flow and the walk along its queue;
* `devGroReceive`, `napiGroFlush`, `napiCleanTcpOfoQueue` — the entry points;
* `run` — a run from `netif_napi_add` on.
-/

namespace PacketReordering.Linux41

open Gro

/-- `NAPI_GRO_CB(skb)->gso_end` -/
abbrev GsoEnd := Bool

/-- The fields of a queue object that only this kernel has.  `flushed` is a `bool`; what is kept beside its value says
whether it was written since the object was given to its flow. -/
structure OfoExt where
  timestamp : U64
  flushed : Lib.Tracked Bool
  deriving DecidableEq, Repr, Inhabited

/-- The queue lets segments go up. -/
def OfoExt.setFlushed (e : OfoExt) (timestamp : U64) : OfoExt := ⟨timestamp, e.flushed.write true⟩

abbrev Skb := Body GsoEnd
abbrev Mem := Napi GsoEnd OfoExt
abbrev Dat := OfoDat OfoExt

def ipprotoTcp : U8 := 6

/-- `inet_gro_complete` knows no callback but TCP's, and `tcp_gro_complete` returns 0. -/
instance : GroComplete GsoEnd where
  err b := decide (b.ip.protocol ≠ ipprotoTcp)

/-- `MAX_SKB_FRAGS` -/
def maxSkbFrags : ℕ := 45

/-! ### `skb_gro_merge`, `skb_gro_flush` -/

/-- The check of ACK, ECN in IP, TCP flags and options at the start of `skb_gro_merge(p, skb)`. -/
def headersDiffer (p skb : Skb) : Bool :=
  hasFlag p.tcp.flagWord tcpFlagPsh || p.ip.tos != skb.ip.tos || p.tcp.ackSeq != skb.tcp.ackSeq ||
    hasFlag (p.tcp.flagWord ^^^ skb.tcp.flagWord) (tcpFlagCwr ||| tcpFlagEce ||| tcpFlagAck) ||
    p.tcp.doff != skb.tcp.doff || p.tcp.opts != skb.tcp.opts

/-- The check of `gso_size`. -/
def gsoSizesDiffer (p skb : Skb) : Bool :=
  p.ext || decide (skb.gsoSize < p.gsoSize) && decide (1 < skb.count) || decide (p.gsoSize < skb.gsoSize)

/-- `skb_gro_merge(p, skb)`. -/
def skbGroMerge (p skb : Skb) : MergeResult GsoEnd :=
  if headersDiffer p skb then .failed .fail
  else if gsoSizesDiffer p skb then .failed .fail
  else
    match mergeData maxSkbFrags p skb with
    | .merged p' skb' =>
      .merged
        { p' with
          tcp := { p.tcp with flagWord := p.tcp.flagWord ||| (skb.tcp.flagWord &&& tcpFlagPsh) }
          ext := p.ext || skb.ext || decide (skb.gsoSize < p.gsoSize) }
        { skb' with gsoSize := 0 }
    | r => r

/-- `skb_gro_flush(ofo_queue, skb)` -/
def skbGroFlush (s : Mem) (q : OfoId) (skb : SkbId) : Except Fault Mem :=
  let timestamp := s.clock.ktime 0
  let s := s.tickKtime
  let s := s.setOfo q { s.ofo q with ext := (s.ofo q).ext.setFlushed timestamp }
  s.flushUpTo q skb s.nskb (s.ofoNext q)

/-- `*head = p; p->next = p_next; skb_gro_flush(ofo_queue, skb);` -/
def flushBehind (s : Mem) (q : OfoId) (head : HeadRef) (pNext : Option SkbId) (p skb : SkbId) : Except Fault Mem :=
  skbGroFlush (s.setHead head pNext p) q skb

/-! ### `tcp_gro_receive` -/

/-- The branch `seq_next == seq2` of the loop of `tcp_gro_receive`: `skb` takes the payload of `p2`. -/
def mergeInFront (s : Mem) (q : OfoId) (skb : SkbId) (seq len : U32) (head : HeadRef) (pNext : Option SkbId)
    (p2 : SkbId) (inSeq : U32) : Except Fault Mem :=
  match s.skbGroMerge skbGroMerge skb p2 with
  | .error f => .error f
  | .ok (some .inval, s) => .ok (s.setFlush skb)   -- flush point 140
  | .ok (some err, s) =>
    if inSeq ≠ seq then .ok (s.linkBefore q skb len head pNext p2)
    else if err = .tooBig || (s.body p2).tcp.psh || (s.body p2).ext then
      match s.cbNext p2 with
      | some p3 => (flushBehind s q head pNext p3 p2).map (·.setFlush skb)   -- flush point 31
      | none => .ok (s.setFlush skb)   -- flush point 32
    else
      match s.cbPrev p2 with   -- flush point 30
      | some p3 => (flushBehind s q head pNext p2 p3).map (·.setFlush skb)
      | none => .ok (s.setFlush skb)
  | .ok (none, s) => .ok (s.replaceBy q skb len head pNext p2)

/-- The branch `seq == seq_next2` once `p2` has taken the payload of the packet. -/
def mergedBehind (s : Mem) (q : OfoId) (seqNext len : U32) (head : HeadRef) (pNext : Option SkbId) (p2 : SkbId)
    (inSeq seq2 : U32) : Except Fault Mem :=
  let s := { s with qlen := Function.update s.qlen q (s.qlen q + len) }
  if inSeq = seq2 && (s.body p2).tcp.psh then
    match s.cbNext p2 with
    | none => .ok s   -- flush point 120
    | some p3 => flushBehind s q head pNext p3 p2   -- flush point 101
  else
    match s.cbNext p2 with
    | none => .ok s
    | some p3 =>
      let s := s.touch p3
      if seqNext = (s.body p3).seq then
        match s.skbGroMerge skbGroMerge p2 p3 with
        | .error f => .error f
        | .ok (some .inval, s) => .ok s   -- flush point 5
        | .ok (some _, s) =>
          if inSeq = seq2 then flushBehind s q head pNext p3 p2   -- flush point 50
          else .ok s
        | .ok (none, s) =>
          let s := s.absorb q p2 p3
          if inSeq = seq2 && (s.body p2).tcp.psh then
            match s.cbNext p2 with
            | none => .ok s   -- flush point 130
            | some p3 => flushBehind s q head pNext p3 p2   -- flush point 102
          else .ok s
      else .ok s   -- with `after(seq_next, p3->seq)` this is flush point 7

/-- A turn of the loop of `tcp_gro_receive` along the queue `q`, at the segment `p2`.  `len` and `seq` are those of the
packet, `flags` its flag word.  Returns the segment at which the loop goes on, unless it is left. -/
def walkTurn (s : Mem) (q : OfoId) (skb : SkbId) (seq len flags : U32) (head : HeadRef) (pNext : Option SkbId)
    (p2 : SkbId) (inSeq : U32) : Except Fault (Mem × Option SkbId) :=
  let leave (r : Except Fault Mem) : Except Fault (Mem × Option SkbId) := r.map fun s => (s, none)
  let seqNext := seq + len
  let seq2 := (s.body p2).seq
  let seqNext2 := seq2 + (s.body p2).len
  if before seqNext seq2 then
    if hasFlag flags tcpFlagPsh && seq == inSeq then
      leave <|
        match s.cbPrev p2 with
        | some p3 => (flushBehind s q head pNext p2 p3).map (·.setFlush skb)   -- flush point 100
        | none => .ok (s.setFlush skb)
    else leave (.ok (s.linkBefore q skb len head pNext p2))
  else if seqNext = seq2 then leave (mergeInFront s q skb seq len head pNext p2 inSeq)
  else if seq = seqNext2 then
    match s.skbGroMerge skbGroMerge p2 skb with
    | .error f => .error f
    | .ok (some .inval, s) => leave (.ok (s.setFlush skb))   -- flush point 4
    | .ok (some _, s) =>
      match s.cbNext p2 with
      | some p3 =>
        if inSeq = seq2 then
          (flushBehind s q head pNext p3 p2).map fun s => (s, some p3)   -- flush point 40
        else .ok (s, some p3)
      | none =>
        if inSeq = seq2 && hasFlag flags tcpFlagPsh then leave (.ok (s.setFlush skb))   -- flush point 110
        else
          let s := s.linkLast q skb len p2
          if inSeq = seq2 then leave (flushBehind s q head pNext skb p2)   -- flush point 41
          else leave (.ok s)
    | .ok (none, s) => leave (mergedBehind s q seqNext len head pNext p2 inSeq seq2)
  else if after seq seqNext2 then
    match s.cbNext p2 with
    | none => leave (.ok (s.linkLast q skb len p2))
    | some p3 => .ok (s, some p3)
  else leave (.ok (s.setFlush skb))   -- flush point 8

/-- The loop of `tcp_gro_receive` along the queue `q`, from `p2` on, to the place of `skb`. -/
def walk (q : OfoId) (skb : SkbId) (seq len flags : U32) (head : HeadRef) (pNext : Option SkbId) :
    ℕ → SkbId → U32 → Mem → Except Fault Mem
  | fuel, p2, inSeqNext, s =>
    let s := s.touch p2
    let inSeq := inSeqNext
    let inSeqNext := if inSeq = (s.body p2).seq then (s.body p2).seq + (s.body p2).len else inSeqNext
    match walkTurn s q skb seq len flags head pNext p2 inSeq with
    | .error f => .error f
    | .ok (s, none) => .ok s
    | .ok (s, some p3) =>
      match fuel with
      | 0 => .error .diverges
      | fuel + 1 => walk q skb seq len flags head pNext fuel p3 inSeqNext s

/-- The flags with which a packet is not held. -/
def flushFlags : U32 := tcpFlagUrg ||| tcpFlagRst ||| tcpFlagSyn ||| tcpFlagFin

/-- `if (ofo_queue->flushed)` -/
def readFlushed (d : Dat) : Dat := { d with ext := { d.ext with flushed := d.ext.flushed.read } }

/-- `tcp_gro_receive` from flush point 1 on, with the queue `q` of the flow of `skb`. -/
def receiveInQueue (s : Mem) (q : OfoId) (skb : SkbId) (seq len flags : U32) (flush : Bool) (head : HeadRef) (p : SkbId) :
    Except Fault Mem :=
  if flush then .ok (s.setFlush skb)   -- flush point 1
  else if before seq (s.ofo q).seqNext && (s.ofo q).ext.flushed.value then
    .ok ((s.setOfo q (readFlushed (s.ofo q))).setFlush skb)   -- flush point 2
  else
    let s := if before seq (s.ofo q).seqNext then s.setOfo q ((readFlushed (s.ofo q)).setSeqNext seq) else s
    match s.ofoNext q with
    | none => .ok s
    | some p2 => walk q skb seq len flags head (s.next p) s.nskb p2 (s.ofo q).seqNext s

/-- `tcp_gro_receive` once the flow of `skb` is found: `p` is its entry of `gro_list`, `head` the link to it. -/
def tcpGroReceiveFound (s : Mem) (skb : SkbId) (off : ℕ) (head : HeadRef) (p : SkbId) : Except Fault Mem :=
  let b := s.body skb
  let flush := s.flush p || hasFlag b.tcp.flagWord flushFlags || decide (off < b.headlen)
  match s.outOfOrderQueue p with
  | none => .error .nullDeref
  | some q =>
    let s := { s with outOfOrderQueue := Function.update s.outOfOrderQueue skb (some q) }
    let s := s.setBody skb { b with gsoSize := b.len.setWidth 16 }
    receiveInQueue s q skb b.seq b.len b.tcp.flagWord flush head p

def tcpGroReceive (s : Mem) (skb : SkbId) : Except Fault Mem :=
  let s := { s with outOfOrderQueue := Function.update s.outOfOrderQueue skb none }
  let b := { s.body skb with isTcp := true }
  let off := b.dataOffset
  match b.tcpHeader with
  | (b, false) => .ok ((s.setBody skb b).setFlush skb)
  | (b, true) =>
    match (s.setBody skb b).findSameFlow b.tcp.ports s.nskb .groList with
    | .error f => .error f
    | .ok (none, s) =>
      if b.groLen < 1 || hasFlag b.tcp.flagWord flushFlags || decide (off < b.headlen) then .ok (s.setFlush skb)
      else .ok s
    | .ok (some (head, p), s) => tcpGroReceiveFound s skb off head p

def tcp4GroReceive (s : Mem) (skb : SkbId) : Except Fault Mem :=
  if !s.flush skb && (s.body skb).badTcpCsum then .ok (s.setFlush skb) else tcpGroReceive s skb

/-! ### `inet_gro_receive` -/

/-- `IP_DF` -/
def ipDf : U16 := 0x4000

/-- The header checks of `inet_gro_receive`: the buffer after them and, when the packet goes on to TCP, whether it has
to be flushed. -/
def inetHeader (b : Skb) : Skb × Option Bool :=
  match b.groHeader (b.dataOffset + 20) with
  | none => (b, none)
  | some b =>
    if b.ip.protocol ≠ ipprotoTcp || b.ip.verIhl ≠ 0x45 || b.ip.badCsum then (b, none)
    else
      let flush := (b.ip.totLen ^^^ BitVec.ofNat 16 b.groLen) ||| (b.ip.fragOff &&& ~~~ipDf)
      ({ b with dataOffset := b.dataOffset + 20 }, some (flush != 0))

/-- The addresses of two packets agree. -/
def sameAddresses (iph iph2 : IpHdr) : Bool :=
  iph.protocol == iph2.protocol && iph.saddr == iph2.saddr && iph.daddr == iph2.daddr

/-- "All fields must match except length and checksum." -/
def ttlOrDfDiffer (iph iph2 : IpHdr) : Bool :=
  iph.ttl != iph2.ttl || (iph.fragOff ^^^ iph2.fragOff) &&& ipDf != 0

/-- The loop of `inet_gro_receive` over `gro_list` from `p` on. -/
def inetMatch (iph : IpHdr) (flush : Bool) : ℕ → Option SkbId → Mem → Except Fault Mem
  | _, none, s => .ok s
  | fuel, some p, s =>
    let s := s.touch p
    let iph2 := (s.body p).ip
    let s :=
      if !s.sameFlow p then s
      else if !sameAddresses iph iph2 then { s with sameFlow := Function.update s.sameFlow p false }
      else { s with flush := Function.update s.flush p (s.flush p || ttlOrDfDiffer iph iph2 || flush) }
    match fuel with
    | 0 => .error .diverges
    | fuel + 1 => inetMatch iph flush fuel (s.next p) s

def inetGroReceive (s : Mem) (skb : SkbId) : Except Fault Mem :=
  match inetHeader (s.body skb) with
  | (b, none) => .ok ((s.setBody skb b).setFlush skb)
  | (b, some flush) =>
    match inetMatch b.ip flush s.nskb s.groList (s.setBody skb b) with
    | .error f => .error f
    | .ok s =>
      let s := { s with flush := Function.update s.flush skb (s.flush skb || flush) }
      tcp4GroReceive s skb

/-! ### `dev_gro_receive` -/

/-- A packet as the driver hands it in: `dev->features & NETIF_F_GRO`, the conditions under which `dev_gro_receive` does
not look at the packet, and whether its protocol is IPv4.  `skb_gro_reset_offset` has set `data_offset` and the length
of `frag0`; the rest of the control block is what happens to be in the memory of the buffer. -/
structure Packet where
  featuresGro : Bool
  isGso : Bool
  hasFragList : Bool
  csumBad : Bool
  isIp : Bool
  body : Skb
  dataOffset_eq : body.dataOffset = 0
  frag0_eq : body.frag0Len = 0 ∨ body.headlen = 0 ∧ body.frags.head?.map Frag.size = some body.frag0Len

/-- A queue whose hash is `tcp_hash`, or one that no flow has used. -/
def fitsHash (tcpHash hash : U32) : Bool := hash == tcpHash || hash == 0

/-- What `napi_get_tcp_ofo_queue` does to the last queue when none fits. -/
def resetOfo (d : Dat) : Dat := { hash := 0, seqNext := 0, ext := { d.ext with timestamp := 0 } }

/-- `napi_get_tcp_ofo_queue(napi, skb)` -/
def napiGetTcpOfoQueue (s : Mem) (skb : SkbId) : Except Fault (OfoId × Mem) :=
  s.findQueue (fitsHash (s.body skb).tcpHash) resetOfo (maxGroSkbs + 1) s.outOfOrderQueueList none

/-- The end of `dev_gro_complete`: `p` is the first segment that stays and `flushed` says whether any went up. -/
def completeEnd (s : Mem) (q : OfoId) (timestamp : U64) (p : Option SkbId) (flushed : Bool) : Option SkbId × Mem :=
  let s := if flushed then s.setOfo q { s.ofo q with ext := (s.ofo q).ext.setFlushed timestamp } else s
  match p with
  | none => (none, s.pushQueue q)
  | some p => (some p, { s with ofoNext := Function.update s.ofoNext q (some p) })

/-- `dev_gro_complete(napi, skb, flush_old)`.  The pointer `ofo_queue` is used before it is compared with `NULL`. -/
def devGroComplete (s : Mem) (skb : SkbId) (flushOld : Bool) (groOfoTimeout groInseqTimeout : U64) :
    Except Fault (Option SkbId × Mem) :=
  let s := s.touch skb
  match s.outOfOrderQueue skb with
  | none => .error .nullDeref
  | some q =>
    let timestamp := s.clock.ktime 0
    let s := s.tickKtime
    match s.ofoNext q with
    | none => .error .nullDeref
    | some p =>
      let age := timestamp - (s.ofo q).ext.timestamp
      let inSeq : Dat → SkbId → Skb → Bool := fun d _ b => !before d.seqNext b.seq
      let hasInseq := inSeq (s.ofo q) p (s.body p)
      let released :=
        if !flushOld || (!hasInseq && decide (groOfoTimeout < age)) then
          s.completeWhile (fun _ _ _ => true) q s.nskb (some p) false
        else if hasInseq && decide (groInseqTimeout < age) then s.completeWhile inSeq q s.nskb (some p) false
        else .ok (some p, false, s)
      released.map fun r => completeEnd r.2.2 q timestamp r.1 r.2.1

/-- The end of `dev_gro_receive`, with `napi_skb_finish` in the path `normal`: the packet goes up as it is. -/
def receiveNormal (s : Mem) (skb : SkbId) : Mem :=
  let s :=
    match s.outOfOrderQueue skb with
    | none => s
    | some q =>
      let d := s.ofo q
      let seqNext := maxSeq d.seqNext (s.body skb).seqEnd
      if d.seqNext ≠ seqNext then
        let s' := s.tickKtime
        s'.setOfo q { d with seqNext := seqNext, ext := d.ext.setFlushed (s.clock.ktime 0) }
      else s
  let s := s.setBody skb (s.body skb).pull
  s.netifReceive skb (s.body skb) .normal

/-- A queue object without a flow is given to the one of a packet with the number `seq`; `flushed` is as it was. -/
def assign (d : Dat) (seq : U32) : Dat :=
  { d with seqNext := seq, ext := { d.ext with flushed := d.ext.flushed.renew } }

/-- `ofo_queue->flushed = false` -/
def clearFlushed (d : Dat) : Dat := { d with ext := { d.ext with flushed := d.ext.flushed.write false } }

/-- `dev_gro_receive` for a packet that has to be flushed. -/
def receiveFlush (s : Mem) (skb : SkbId) : Except Fault Mem :=
  if (s.body skb).isTcp && (s.outOfOrderQueue skb).isNone then
    match napiGetTcpOfoQueue s skb with
    | .error f => .error f
    | .ok (q, s) =>
      let s := { s with outOfOrderQueue := Function.update s.outOfOrderQueue skb (some q) }
      let s := s.unlinkQueue q
      let d := s.ofo q
      let d := if d.hash = 0#32 then assign d (s.body skb).seq else d
      let timestamp := s.clock.ktime 0
      let s := s.tickKtime
      let s := s.setOfo q { d with hash := (s.body skb).tcpHash, ext := { d.ext with timestamp := timestamp } }
      .ok (receiveNormal (s.pushQueue q) skb)
  else .ok (receiveNormal s skb)

/-- `skb` is a new entry of `gro_list`: "locate the end of the list to select the 'oldest' flow" and flush that one when
there are too many. -/
def flushOldest (s : Mem) (skb : SkbId) : Except Fault Mem :=
  if s.groCount ≥ BitVec.ofNat 32 maxGroSkbs then
    match s.findOldest s.nskb none skb with
    | .error f => .error f
    | .ok (none, _) => .error .nullDeref
    | .ok (some pp, nskb) =>
      let s := s.writeHead none pp
      let s := { s.touch nskb with next := Function.update s.next nskb none }
      (devGroComplete s nskb false 0 0).map Prod.snd   -- without `flush_old` the time-outs are not read
  else .ok { s with groCount := s.groCount + 1 }

/-- `dev_gro_receive` for the first packet of a flow: the packet becomes a new entry of `gro_list`. -/
def receiveHeld (s : Mem) (skb : SkbId) : Except Fault Mem :=
  let s := { s with
    cbPrev := Function.update s.cbPrev skb none
    cbNext := Function.update s.cbNext skb none
    next := Function.update s.next skb s.groList
    groList := some skb }
  let s := s.setBody skb { s.body skb with gsoSize := BitVec.ofNat 16 (s.body skb).groLen }
  (flushOldest s skb).map fun s => s.setBody skb (s.body skb).pull

/-- `dev_gro_receive` for a packet that is neither of a held flow nor to be flushed. -/
def receiveNew (s : Mem) (skb : SkbId) : Except Fault Mem :=
  let s := s.setBody skb { s.body skb with count := 1 }
  if (s.body skb).isTcp then
    match napiGetTcpOfoQueue s skb with
    | .error f => .error f
    | .ok (q, s) =>
      let b := s.body skb
      let s := { s with outOfOrderQueue := Function.update s.outOfOrderQueue skb (some q) }
      let s := s.unlinkQueue q
      let d := s.ofo q
      let d := if d.hash = 0#32 then clearFlushed (assign d b.seq) else d
      let timestamp := s.clock.ktime 0
      let s := s.tickKtime
      if before b.seq d.seqNext then
        let s := s.setOfo q { d with ext := { d.ext with timestamp := timestamp } }
        .ok (receiveNormal (s.pushQueue q) skb)   -- flush point 10
      else
        let s := s.setOfo q { d with hash := b.tcpHash, ext := { d.ext with timestamp := timestamp } }
        receiveHeld { s with
          ofoNext := Function.update s.ofoNext q (some skb)
          ofoPrev := Function.update s.ofoPrev q (some skb)
          qlen := Function.update s.qlen q (BitVec.ofNat 32 b.groLen)
          skbNum := Function.update s.skbNum q 1 } skb
  else receiveHeld { s with outOfOrderQueue := Function.update s.outOfOrderQueue skb none } skb

/-- `dev_gro_receive` after `ptype->callbacks.gro_receive` has returned. -/
def receiveEnd (s : Mem) (skb : SkbId) : Except Fault Mem :=
  if s.sameFlow skb then
    if (s.body skb).free ≠ .no then .ok (s.skbGroFree skb)
    else .ok (s.setBody skb (s.body skb).pull)
  else if s.flush skb then receiveFlush s skb
  else receiveNew s skb

/-- `dev_gro_receive(napi, skb)` and what its caller does with the result: a merged buffer is freed, a normal one goes
to the stack. -/
def devGroReceive (s : Mem) (pkt : Packet) : Except Fault Mem :=
  let skb := s.nskb
  let s := { s with
    nskb := s.nskb + 1
    next := Function.update s.next skb none
    outOfOrderQueue := Function.update s.outOfOrderQueue skb none
    body := Function.update s.body skb { pkt.body with parts := [pkt.body.part] } }
  if !pkt.featuresGro || pkt.isGso || pkt.hasFragList || pkt.csumBad then .ok (receiveNormal s skb)
  else
    match s.groListPrepare pkt.body.link s.nskb s.groList with
    | .error f => .error f
    | .ok s =>
      if !pkt.isIp then .ok (receiveNormal s skb)
      else
        let s := { s with
          sameFlow := Function.update s.sameFlow skb false
          flush := Function.update s.flush skb false
          body := Function.update s.body skb { s.body skb with free := .no, isTcp := false, ext := false } }
        match inetGroReceive s skb with
        | .error f => .error f
        | .ok s => receiveEnd s skb

/-! ### `napi_gro_flush`, `napi_clean_tcp_ofo_queue`, `netif_napi_add` -/

/-- The second loop of `napi_gro_flush`. -/
def napiGroFlushFrom (flushOld : Bool) (groOfoTimeout groInseqTimeout : U64) :
    ℕ → Option SkbId → Mem → Except Fault Mem
  | _, none, s => .ok s
  | fuel, some skb, s =>
    let prev := s.prev skb
    let released : Except Fault Mem :=
      match s.outOfOrderQueue skb with
      | none =>
        let s := s.setPrevNext prev (s.next skb)
        let s := { s with prev := Function.update s.prev skb none, next := Function.update s.next skb none }
        (devGroComplete s skb false groOfoTimeout groInseqTimeout).map fun r =>
          { r.2 with groCount := r.2.groCount - 1 }
      | some _ =>
        let p := s.next skb
        match devGroComplete s skb flushOld groOfoTimeout groInseqTimeout with
        | .error f => .error f
        | .ok (none, s) => .ok { s.setPrevNext prev p with groCount := s.groCount - 1 }
        | .ok (some skbNew, s) =>
          let s := s.setPrevNext prev (some skbNew)
          .ok { s with next := Function.update s.next skbNew p, groList := some skbNew }
    match released with
    | .error f => .error f
    | .ok s =>
      match fuel with
      | 0 => .error .diverges
      | fuel + 1 => napiGroFlushFrom flushOld groOfoTimeout groInseqTimeout fuel prev s

/-- `napi_gro_flush(napi, flush_old)` -/
def napiGroFlush (s : Mem) (flushOld : Bool) (groOfoTimeout groInseqTimeout : U64) : Except Fault Mem :=
  match s.reverseChain s.nskb s.groList none with
  | .error f => .error f
  | .ok (prev, s) =>
    napiGroFlushFrom flushOld groOfoTimeout groInseqTimeout s.nskb prev { s with groList := none }

/-- The loop of `napi_clean_tcp_ofo_queue`. -/
def cleanFrom (timestamp : U64) : ℕ → Option OfoId → Mem → Except Fault Mem
  | _, none, s => .ok s
  | fuel, some q, s =>
    let s :=
      if 100000000 < timestamp - (s.ofo q).ext.timestamp then
        { s with
          ofo := Function.update s.ofo q
            { hash := 0, seqNext := 0, ext := { (s.ofo q).ext with timestamp := 0 } }
          qlen := Function.update s.qlen q 0
          skbNum := Function.update s.skbNum q 0 }
      else s
    match fuel with
    | 0 => .error .diverges
    | fuel + 1 => cleanFrom timestamp fuel (s.nextQueue q) s

/-- `napi_clean_tcp_ofo_queue(napi)` -/
def napiCleanTcpOfoQueue (s : Mem) : Except Fault Mem :=
  cleanFrom (s.clock.ktime 0) (maxGroSkbs + 1) s.outOfOrderQueueList s.tickKtime

/-- The part of `netif_napi_add` that sets up receive offload, in memory with any contents: `kmalloc` does not clear
`flushed`. -/
def netifNapiAdd (s : Mem) : Mem :=
  let s := { s with
    groCount := 0, groList := none, outOfOrderQueueList := none, nskb := 0, up := [], gone := [], stray := [] }
  s.addQueues (fun d => { hash := 0, seqNext := 0, ext := ⟨0, d.ext.flushed.renew⟩ }) (maxGroSkbs + 1)

/-- A call into receive offload with the readings of `ktime_get()` it gets.  `dev->gro_ofo_timeout` and
`dev->gro_inseq_timeout` may be set to another value at any time. -/
inductive Call
  | receive (pkt : Packet) (ktime : ℕ → U64)
  | flush (flushOld : Bool) (groOfoTimeout groInseqTimeout : U64) (ktime : ℕ → U64)
  | clean (ktime : ℕ → U64)

def Call.ktime : Call → ℕ → U64
  | .receive _ k => k
  | .flush _ _ _ k => k
  | .clean k => k

def step (s : Mem) (c : Call) : Except Fault Mem :=
  let s := { s with clock := { s.clock with ktime := c.ktime } }
  match c with
  | .receive pkt _ => devGroReceive s pkt
  | .flush flushOld groOfoTimeout groInseqTimeout _ => napiGroFlush s flushOld groOfoTimeout groInseqTimeout
  | .clean _ => napiCleanTcpOfoQueue s

/-- A run from `netif_napi_add` on. -/
abbrev run (mem : Mem) (cs : List Call) : Except Fault Mem := Lib.runFrom step (netifNapiAdd mem) cs

end PacketReordering.Linux41
