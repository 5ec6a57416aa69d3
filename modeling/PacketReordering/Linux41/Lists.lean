import PacketReordering.Gro.Queues
import PacketReordering.Linux41.Defs

/-!
# `linux-4.1`: receive offload on lists

The functions of `Linux41.Defs` on the lists of `Gro.Queues`, without links: a queue is the list of its segments, and a
packet finds its place in it.

* `walkSegs` — `tcp_gro_receive` along the queue of a flow;
* `receiveLists`, `flushLists`, `cleanLists` — the entry points;
* `stepLists` — one call.
-/

namespace PacketReordering.Linux41

open Gro

abbrev Lists := Queues GsoEnd OfoExt
abbrev Segment := Seg GsoEnd

/-- What the walk along a queue changes beside the queue. -/
structure Track where
  dat : Dat
  clock : Clock
  up : List (Up GsoEnd)

/-- `skb_gro_flush` of the segments `rel`. -/
def Track.flush (tr : Track) (rel : List Segment) : Track :=
  let r := flushSegs { tr.dat with ext := tr.dat.ext.setFlushed (tr.clock.ktime 0) } rel
  ⟨r.1, tr.clock.tickKtime, tr.up ++ r.2⟩

/-- `skb_gro_flush` is not called when there is nothing to release. -/
def Track.release (tr : Track) (rel : List Segment) : Track := if rel = [] then tr else tr.flush rel

structure Walked where
  track : Track
  segs : List Segment
  fate : Fate

/-- `mergeInFront` on the queue `pre ++ p2 :: rest`. -/
def mergeInFrontSegs (pNext : Option SkbId) (b : Skb) (tr : Track) (pre : List Segment) (new p2 : Segment)
    (rest : List Segment) (inSeq : U32) : Except Fault Walked :=
  match skbGroMerge b p2.body with
  | .overrun => .error .copyOverrun
  | .failed .inval => .ok ⟨tr, pre ++ p2 :: rest, .normal⟩
  | .failed err =>
    if inSeq ≠ b.seq then .ok ⟨tr, pre ++ new :: p2 :: rest, .held⟩
    else if err = .tooBig || p2.body.tcp.psh || p2.body.ext then
      if rest = [] then .ok ⟨tr, pre ++ [p2], .normal⟩
      else .ok ⟨tr.release (pre ++ [p2]), setHeadNext pNext rest, .normal⟩
    else .ok ⟨tr.release pre, setHeadNext pNext (p2 :: rest), .normal⟩
  | .merged b' _ => .ok ⟨tr, pre ++ { new with body := b' } :: rest, .held⟩

/-- `mergedBehind` on the queue `pre ++ p2 :: rest`. -/
def mergedBehindSegs (pNext : Option SkbId) (b : Skb) (tr : Track) (pre : List Segment) (p2 : Segment)
    (rest : List Segment) (inSeq seq2 : U32) : Except Fault Walked :=
  if inSeq = seq2 && p2.body.tcp.psh then
    if rest = [] then .ok ⟨tr, pre ++ [p2], .merged⟩
    else .ok ⟨tr.release (pre ++ [p2]), setHeadNext pNext rest, .merged⟩
  else
    match rest with
    | [] => .ok ⟨tr, pre ++ [p2], .merged⟩
    | p3 :: rest =>
      if b.seqEnd = p3.body.seq then
        match skbGroMerge p2.body p3.body with
        | .overrun => .error .copyOverrun
        | .failed .inval => .ok ⟨tr, pre ++ p2 :: p3 :: rest, .merged⟩
        | .failed _ =>
          if inSeq = seq2 then .ok ⟨tr.release (pre ++ [p2]), setHeadNext pNext (p3 :: rest), .merged⟩
          else .ok ⟨tr, pre ++ p2 :: p3 :: rest, .merged⟩
        | .merged b3 _ =>
          let p2 := { p2 with body := b3 }
          if inSeq = seq2 && b3.tcp.psh then
            if rest = [] then .ok ⟨tr, pre ++ [p2], .merged⟩
            else .ok ⟨tr.release (pre ++ [p2]), setHeadNext pNext rest, .merged⟩
          else .ok ⟨tr, pre ++ p2 :: rest, .merged⟩
      else .ok ⟨tr, pre ++ p2 :: p3 :: rest, .merged⟩

/-- `walkTurn` at the segment `p2` of the queue `pre ++ p2 :: rest`: what the walk has come to, or the segments passed
when it goes on with `rest`. -/
def turnSegs (pNext : Option SkbId) (k : SkbId) (b : Skb) (p2 : Segment) (rest pre : List Segment) (inSeq : U32)
    (tr : Track) : Except Fault (Walked ⊕ (List Segment × Track)) :=
  let leave (w : Walked) : Except Fault (Walked ⊕ (List Segment × Track)) := .ok (.inl w)
  let new := behind pNext pre ⟨k, none, b⟩
  let seq2 := p2.body.seq
  if before b.seqEnd seq2 then
    if b.tcp.psh && b.seq == inSeq then leave ⟨tr.release pre, setHeadNext pNext (p2 :: rest), .normal⟩
    else leave ⟨tr, pre ++ new :: p2 :: rest, .held⟩
  else if b.seqEnd = seq2 then (mergeInFrontSegs pNext b tr pre new p2 rest inSeq).map .inl
  else if b.seq = p2.body.seqEnd then
    match skbGroMerge p2.body b with
    | .overrun => .error .copyOverrun
    | .failed .inval => leave ⟨tr, pre ++ p2 :: rest, .normal⟩
    | .failed _ =>
      if rest = [] then
        if inSeq = seq2 && b.tcp.psh then leave ⟨tr, pre ++ [p2], .normal⟩
        else if inSeq = seq2 then leave ⟨tr.release (pre ++ [p2]), [⟨k, pNext, b⟩], .held⟩
        else leave ⟨tr, pre ++ [p2, ⟨k, none, b⟩], .held⟩
      else if inSeq = seq2 then .ok (.inr ([], tr.release (pre ++ [p2])))
      else .ok (.inr (pre ++ [p2], tr))
    | .merged b2 _ => (mergedBehindSegs pNext b tr pre { p2 with body := b2 } rest inSeq seq2).map .inl
  else if after b.seq p2.body.seqEnd then
    if rest = [] then leave ⟨tr, pre ++ [p2, ⟨k, none, b⟩], .held⟩
    else .ok (.inr (pre ++ [p2], tr))
  else leave ⟨tr, pre ++ p2 :: rest, .normal⟩

/-- The walk of the packet `k` along the segments `pre ++ post` of its flow, with `pre` already passed. -/
def walkSegs (pNext : Option SkbId) (k : SkbId) (b : Skb) :
    (post pre : List Segment) → U32 → Track → Except Fault Walked
  | [], pre, _, tr => .ok ⟨tr, pre, .normal⟩
  | p2 :: rest, pre, inSeqNext, tr =>
    let p2 := behind pNext pre p2
    let inSeq := inSeqNext
    let inSeqNext := if inSeq = p2.body.seq then p2.body.seqEnd else inSeqNext
    match turnSegs pNext k b p2 rest pre inSeq tr with
    | .error f => .error f
    | .ok (.inl w) => .ok w
    | .ok (.inr (pre, tr)) => walkSegs pNext k b rest pre inSeqNext tr

/-! ### `dev_gro_receive` -/

/-- What the header checks make of a packet. -/
inductive Parsed
  /-- receive offload has nothing to do with it -/
  | other (b : Skb)
  /-- a TCP packet whose header is not all there -/
  | badHeader (b : Skb)
  /-- a TCP packet, with the outcome of the checks of its IP header and of the place of its TCP header -/
  | tcp (b : Skb) (flush linear : Bool)

def Parsed.body : Parsed → Skb
  | .other b => b
  | .badHeader b => b
  | .tcp b _ _ => b

/-- The way of a packet through `dev_gro_receive`, `inet_gro_receive` and `tcp_gro_receive` to the search for its
flow. -/
def Packet.parse (pkt : Packet) : Parsed :=
  if !pkt.featuresGro || pkt.isGso || pkt.hasFragList || pkt.csumBad || !pkt.isIp then
    .other { pkt.body with parts := [pkt.body.part] }
  else
    match inetHeader { pkt.body with parts := [pkt.body.part], free := .no, isTcp := false, ext := false } with
    | (b, none) => .other b
    | (b, some flush) =>
      if !flush && b.badTcpCsum then .other b
      else
        match { b with isTcp := true }.tcpHeader with
        | (b, false) => .badHeader b
        | (b', true) => .tcp b' flush (decide (b.dataOffset < b'.headlen))

/-- The comparisons of `gro_list_prepare`, `inet_gro_receive` and `tcp_gro_receive` with the first segment of a flow. -/
def sameFlowAs (b : Skb) (f : Flow GsoEnd OfoExt) : Bool :=
  match f.segs with
  | [] => false
  | p :: _ => decide (p.body.link = b.link) && sameAddresses b.ip p.body.ip && b.tcp.ports == p.body.tcp.ports

/-- The packet `k` goes up as it is. -/
def Parsed.up (k : SkbId) (b : Skb) : Up GsoEnd := ⟨k, none, b.pull, .normal, false⟩

/-- The step `normal` of `dev_gro_receive` on the data of the queue. -/
def normalDat (d : Dat) (clock : Clock) (b : Skb) : Dat × Clock :=
  let seqNext := maxSeq d.seqNext b.seqEnd
  if d.seqNext ≠ seqNext then ({ d with seqNext := seqNext, ext := d.ext.setFlushed (clock.ktime 0) }, clock.tickKtime)
  else (d, clock)

/-- The data of a free queue object when a packet that has to be flushed takes it. -/
def flushDat (d : Dat) (b : Skb) (timestamp : U64) : Dat :=
  let d := if d.hash = 0#32 then assign d b.seq else d
  { d with hash := b.tcpHash, ext := { d.ext with timestamp := timestamp } }

theorem flushDat_unassigned {d : Dat} {b : Skb} {timestamp : U64} (h : d.hash = 0) :
    flushDat d b timestamp = ⟨b.tcpHash, b.seq, ⟨timestamp, d.ext.flushed.renew⟩⟩ := by
  rw [flushDat, if_pos (show d.hash = 0#32 from h)]
  rfl

theorem flushDat_assigned {d : Dat} {b : Skb} {timestamp : U64} (h : d.hash ≠ 0) :
    flushDat d b timestamp = ⟨b.tcpHash, d.seqNext, ⟨timestamp, d.ext.flushed⟩⟩ := by
  rw [flushDat, if_neg (show ¬d.hash = 0#32 from h)]

/-- `receiveFlush` for a TCP packet of no held flow. -/
def receiveFlushLists (l : Lists) (k : SkbId) (b : Skb) : Except Fault Lists :=
  match findFree (fitsHash b.tcpHash) resetOfo l.free with
  | none => .error .nullDeref
  | some (x, rest) =>
    let r := normalDat (flushDat x.dat b (l.clock.ktime 0)) l.clock.tickKtime b
    .ok { l with free := ⟨x.q, r.1⟩ :: rest, clock := r.2, up := l.up ++ [Parsed.up k b] }

/-- `dev_gro_complete` at the time `timestamp`: the data of the queue, what goes up and the segments left. -/
def completeFlow (flushOld : Bool) (groOfoTimeout groInseqTimeout timestamp : U64) (d : Dat) :
    List Segment → Dat × List (Up GsoEnd) × List Segment
  | [] => (d, [], [])
  | p :: segs =>
    let age := timestamp - d.ext.timestamp
    let inSeq : Dat → SkbId → Skb → Bool := fun d _ b => !before d.seqNext b.seq
    let hasInseq := inSeq d p.id p.body
    let r :=
      if !flushOld || (!hasInseq && decide (groOfoTimeout < age)) then
        completeSegs (fun _ _ _ => true) d (p :: segs)
      else if hasInseq && decide (groInseqTimeout < age) then completeSegs inSeq d (p :: segs)
      else (d, [], p :: segs)
    if r.2.1.isEmpty then r else ({ r.1 with ext := r.1.ext.setFlushed timestamp }, r.2)

/-- `receiveHeld`: the new flow `f` comes first, and the oldest flow has to go when there are too many. -/
def receiveHeldLists (l : Lists) (f : Flow GsoEnd OfoExt) : Except Fault Lists :=
  if l.flows.length ≥ maxGroSkbs then
    match l.flows.getLast? with
    | none => .error .nullDeref
    | some g =>
      let r := completeFlow false 0 0 (l.clock.ktime 0) g.dat (setHeadNext none g.segs)
      .ok { l with
        flows := f :: l.flows.dropLast, free := ⟨g.q, r.1⟩ :: l.free, clock := l.clock.tickKtime, up := l.up ++ r.2.1 }
  else .ok { l with flows := f :: l.flows }

/-- The data of a free queue object when a packet without a flow takes it. -/
def takenDat (d : Dat) (b : Skb) (timestamp : U64) : Dat :=
  let d := if d.hash = 0#32 then clearFlushed (assign d b.seq) else d
  { d with ext := { d.ext with timestamp := timestamp } }

@[simp] theorem clearFlushed_assign_seqNext {d : Dat} {seq : U32} : (clearFlushed (assign d seq)).seqNext = seq := rfl

/-- `receiveNew` for a TCP packet. -/
def receiveNewLists (l : Lists) (k : SkbId) (b : Skb) : Except Fault Lists :=
  let b := { b with count := 1 }
  match findFree (fitsHash b.tcpHash) resetOfo l.free with
  | none => .error .nullDeref
  | some (x, rest) =>
    let d := takenDat x.dat b (l.clock.ktime 0)
    let clock := l.clock.tickKtime
    if before b.seq d.seqNext then
      let r := normalDat d clock b
      .ok { l with free := ⟨x.q, r.1⟩ :: rest, clock := r.2, up := l.up ++ [Parsed.up k b] }
    else
      let b := { b with gsoSize := BitVec.ofNat 16 b.groLen }
      receiveHeldLists { l with free := rest, clock := clock }
        ⟨x.q, { d with hash := b.tcpHash }, [⟨k, none, b.pull⟩]⟩

/-- `tcp_gro_receive` for a packet of the flow `f`, and what `dev_gro_receive` does after it. -/
def receiveFoundLists (l : Lists) (k : SkbId) (b : Skb) (flush linear : Bool) (A : List (Flow GsoEnd OfoExt))
    (f : Flow GsoEnd OfoExt) (B : List (Flow GsoEnd OfoExt)) : Except Fault Lists :=
  let flush := f.segs.head?.any (fun p => ttlOrDfDiffer b.ip p.body.ip) || flush || hasFlag b.tcp.flagWord flushFlags ||
    linear
  let b := { b with gsoSize := b.len.setWidth 16 }
  let normal (l : Lists) (d : Dat) (segs : List Segment) : Lists :=
    let r := normalDat d l.clock b
    { l with flows := A ++ ⟨f.q, r.1, segs⟩ :: B, clock := r.2, up := l.up ++ [Parsed.up k b] }
  if flush || before b.seq f.dat.seqNext && f.dat.ext.flushed.value then
    .ok (normal l (if flush then f.dat else readFlushed f.dat) (setHeadNext (heads B).head? f.segs))
  else
    let d := if before b.seq f.dat.seqNext then (readFlushed f.dat).setSeqNext b.seq else f.dat
    match walkSegs (heads B).head? k b f.segs [] d.seqNext ⟨d, l.clock, l.up⟩ with
    | .error e => .error e
    | .ok w =>
      let l := { l with clock := w.track.clock, up := w.track.up }
      match w.fate with
      | .held => .ok { l with flows := A ++ ⟨f.q, w.track.dat, w.segs.map (pullSeg k)⟩ :: B }
      | .merged => .ok { l with flows := A ++ ⟨f.q, w.track.dat, w.segs⟩ :: B }
      | .normal => .ok (normal l w.track.dat w.segs)

/-- `dev_gro_receive` for a TCP packet whose header is there. -/
def receiveTcpLists (l : Lists) (k : SkbId) (b : Skb) (flush linear : Bool) : Except Fault Lists :=
  match splitFlow (sameFlowAs b) l.flows with
  | some (A, f, B) => receiveFoundLists l k b flush linear A f B
  | none =>
    if flush || decide (b.groLen < 1) || hasFlag b.tcp.flagWord flushFlags || linear then receiveFlushLists l k b
    else receiveNewLists l k b

/-- `dev_gro_receive` -/
def receiveLists (l : Lists) (pkt : Packet) : Except Fault Lists :=
  let k := l.nskb
  let l := { l with nskb := l.nskb + 1 }
  match pkt.parse with
  | .other b => .ok { l with up := l.up ++ [Parsed.up k b] }
  | .badHeader b => receiveFlushLists l k b
  | .tcp b flush linear => receiveTcpLists l k b flush linear

/-! ### `napi_gro_flush`, `napi_clean_tcp_ofo_queue`, `netif_napi_add` -/

/-- The second loop of `napi_gro_flush` for the flow `f`, when the flows of `l` are those behind it that stay. -/
def flushFlow (flushOld : Bool) (groOfoTimeout groInseqTimeout : U64) (f : Flow GsoEnd OfoExt) (l : Lists) : Lists :=
  let r := completeFlow flushOld groOfoTimeout groInseqTimeout (l.clock.ktime 0) f.dat
    (setHeadNext (heads l.flows).head? f.segs)
  let l := { l with clock := l.clock.tickKtime, up := l.up ++ r.2.1 }
  if r.2.2.isEmpty then { l with free := ⟨f.q, r.1⟩ :: l.free }
  else { l with flows := ⟨f.q, r.1, r.2.2⟩ :: l.flows }

/-- `napi_gro_flush`, which begins with the oldest flow. -/
def flushLists (l : Lists) (flushOld : Bool) (groOfoTimeout groInseqTimeout : U64) : Lists :=
  l.flows.foldr (flushFlow flushOld groOfoTimeout groInseqTimeout) { l with flows := [] }

/-- The loop of `napi_clean_tcp_ofo_queue` for one free queue. -/
def cleanQueue (timestamp : U64) (x : FreeQueue OfoExt) : FreeQueue OfoExt :=
  if 100000000 < timestamp - x.dat.ext.timestamp then
    ⟨x.q, { hash := 0, seqNext := 0, ext := { x.dat.ext with timestamp := 0 } }⟩
  else x

/-- `napi_clean_tcp_ofo_queue` -/
def cleanLists (l : Lists) : Lists :=
  { l with free := l.free.map (cleanQueue (l.clock.ktime 0)), clock := l.clock.tickKtime }

/-- `netif_napi_add` -/
def initLists (mem : Mem) : Lists where
  flows := []
  free := (List.range (maxGroSkbs + 1)).reverse.map fun q =>
    ⟨q, { hash := 0, seqNext := 0, ext := ⟨0, (mem.ofo q).ext.flushed.renew⟩ }⟩
  nskb := 0
  clock := mem.clock
  up := []
  stray := []

/-- One call. -/
def stepLists (l : Lists) (c : Call) : Except Fault Lists :=
  let l := { l with clock := { l.clock with ktime := c.ktime } }
  match c with
  | .receive pkt _ => receiveLists l pkt
  | .flush flushOld groOfoTimeout groInseqTimeout _ =>
    .ok (flushLists l flushOld groOfoTimeout groInseqTimeout)
  | .clean _ => .ok (cleanLists l)

end PacketReordering.Linux41
