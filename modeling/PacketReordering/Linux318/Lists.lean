import PacketReordering.Gro.Queues
import PacketReordering.Linux318.Defs
import Mathlib.Data.List.DropRight

/-!
# `linux-3.18.5`: receive offload on lists

The functions of `Linux318.Defs` on the lists of `Gro.Queues`, without links: a queue is the list of its segments, and a
packet finds its place in it.

* `walkSegs` — `tcp_gro_receive` along the queue of a flow;
* `receiveLists`, `flushLists`, `cleanLists` — the entry points;
* `stepLists` — one call.
-/

namespace PacketReordering.Linux318

open Gro

abbrev Lists := Queues Stamp OfoExt
abbrev Segment := Seg Stamp

section

variable [GroComplete Stamp]

/-- What the walk along a queue changes beside the queue. -/
structure Track where
  dat : Dat
  up : List (Up Stamp)

/-- `skb_gro_flush` of the segments `rel`. -/
def Track.flush (tr : Track) (rel : List Segment) : Track :=
  let r := flushSegs tr.dat rel
  ⟨r.1, tr.up ++ r.2⟩

/-- The queue when the walk is over, what has become of the packet and how the loop was left. -/
structure Walked where
  track : Track
  segs : List Segment
  fate : Fate
  exit : Exit

/-- `p3` comes first after the segments up to `p2` went up; the packet does not find a place. -/
def dropBehind (pNext : Option SkbId) (tr : Track) (pre : List Segment) (p2 : Segment) (rest : List Segment) : Walked :=
  if rest = [] then ⟨tr, pre ++ [p2], .normal, .head⟩
  else ⟨tr.flush (pre ++ [p2]), setHeadNext pNext rest, .normal, .null⟩

/-- `mergeInFront` on the queue `pre ++ p2 :: rest`. -/
def mergeInFrontSegs (pNext : Option SkbId) (b : Skb) (tr : Track) (pre : List Segment) (new p2 : Segment)
    (rest : List Segment) (inSeq : U32) : Except Fault Walked :=
  match skbGroMerge b p2.body with
  | .overrun => .error .copyOverrun
  | .failed err =>
    if err = .tooBig && inSeq ≠ b.seq then .ok ⟨tr, pre ++ new :: p2 :: rest, .held, .final⟩
    else .ok (dropBehind pNext tr pre p2 rest)
  | .merged b' p2' =>
    .ok ⟨tr, pre ++ { new with body := { b' with ext := b'.ext.of p2'.ext } } :: rest, .held, .final⟩

/-- `bridge` on the queue `pre ++ p2 :: rest`. -/
def bridgeSegs (pNext : Option SkbId) (seqNext : U32) (tr : Track) (pre : List Segment) (p2 : Segment)
    (rest : List Segment) (inSeq seq2 : U32) : Except Fault Walked :=
  match rest with
  | [] => .ok ⟨tr, pre ++ [p2], .merged, .final⟩
  | p3 :: rest =>
    if seqNext = p3.body.seq then
      match skbGroMerge p2.body p3.body with
      | .overrun => .error .copyOverrun
      | .failed .tooBig =>
        if inSeq = seq2 then .ok ⟨tr.flush (pre ++ [p2]), setHeadNext pNext (p3 :: rest), .merged, .null⟩
        else .ok ⟨tr, pre ++ p2 :: p3 :: rest, .merged, .null⟩
      | .failed _ =>
        if rest = [] then .ok ⟨tr, pre ++ [p2, p3], .merged, .head⟩
        else .ok ⟨tr.flush (pre ++ [p2, p3]), setHeadNext pNext rest, .merged, .null⟩
      | .merged b2 b3 =>
        .ok ⟨tr, pre ++ { p2 with body := { b2 with ext := b2.ext.min b3.ext } } :: rest, .merged, .final⟩
    else if after seqNext p3.body.seq then .ok ⟨tr, pre ++ p2 :: p3 :: rest, .merged, .head⟩
    else .ok ⟨tr, pre ++ p2 :: p3 :: rest, .merged, .final⟩

/-- `mergedBehind` on the queue `pre ++ p2 :: rest`. -/
def mergedBehindSegs (pNext : Option SkbId) (b : Skb) (tr : Track) (pre : List Segment) (p2 : Segment)
    (rest : List Segment) (inSeq seq2 : U32) : Except Fault Walked :=
  bridgeSegs pNext b.seqEnd tr pre { p2 with body := addFlags p2.body b.tcp.flagWord } rest inSeq seq2

/-- `walkTurn` at the segment `p2` of the queue `pre ++ p2 :: rest`: what the walk has come to, or the segments passed
when it goes on with `rest`. -/
def turnSegs (pNext : Option SkbId) (k : SkbId) (b : Skb) (p2 : Segment) (rest pre : List Segment) (inSeq : U32)
    (tr : Track) : Except Fault (Walked ⊕ (List Segment × Track)) :=
  let leave (w : Walked) : Except Fault (Walked ⊕ (List Segment × Track)) := .ok (.inl w)
  let new := behind pNext pre ⟨k, none, b⟩
  let seq2 := p2.body.seq
  if before b.seqEnd seq2 then leave ⟨tr, pre ++ new :: p2 :: rest, .held, .final⟩
  else if b.seqEnd = seq2 then (mergeInFrontSegs pNext b tr pre new p2 rest inSeq).map .inl
  else if b.seq = p2.body.seqEnd then
    match skbGroMerge p2.body b with
    | .overrun => .error .copyOverrun
    | .failed .tooBig =>
      if rest = [] then
        if inSeq = seq2 then leave ⟨tr.flush (pre ++ [p2]), [⟨k, pNext, b⟩], .held, .final⟩
        else leave ⟨tr, pre ++ [p2, ⟨k, none, b⟩], .held, .final⟩
      else if inSeq = seq2 then .ok (.inr ([], tr.flush (pre ++ [p2])))
      else .ok (.inr (pre ++ [p2], tr))
    | .failed _ => leave (dropBehind pNext tr pre p2 rest)
    | .merged b2 _ => (mergedBehindSegs pNext b tr pre { p2 with body := b2 } rest inSeq seq2).map .inl
  else if after b.seq p2.body.seqEnd then
    if rest = [] then leave ⟨tr, pre ++ [p2, ⟨k, none, b⟩], .held, .final⟩
    else .ok (.inr (pre ++ [p2], tr))
  else leave ⟨tr, pre ++ p2 :: rest, .normal, .head⟩

/-- The walk of the packet `k` along the segments `pre ++ post` of its flow, with `pre` already passed. -/
def walkSegs (pNext : Option SkbId) (k : SkbId) (b : Skb) :
    (post pre : List Segment) → U32 → Track → Except Fault Walked
  | [], pre, _, tr => .ok ⟨tr, pre, .normal, .head⟩
  | p2 :: rest, pre, inSeqNext, tr =>
    let p2 := behind pNext pre p2
    let inSeq := inSeqNext
    let inSeqNext := if inSeq = p2.body.seq then p2.body.seqEnd else inSeqNext
    match turnSegs pNext k b p2 rest pre inSeq tr with
    | .error f => .error f
    | .ok (.inl w) => .ok w
    | .ok (.inr (pre, tr)) => walkSegs pNext k b rest pre inSeqNext tr

/-! ### `dev_gro_complete` -/

/-- The segment has been held for less than `timeout`. -/
def isYoung (timestamp timeout : U64) (x : Segment) : Bool := decide (timestamp - x.body.ext.timestamp < timeout)

/-- `skb_last`: the first of the segments at the end that are all young. -/
def skbLast (timestamp timeout : U64) (segs : List Segment) : Option SkbId :=
  if timeout ≠ 0 then (segIds (segs.rtakeWhile (isYoung timestamp timeout))).head? else none

/-- The loops of `dev_gro_complete` at the time `timestamp`: the data of the queue, what goes up and the segments
left. -/
def completeFlow (timeout timestamp : U64) (d : Dat) (segs : List Segment) : Dat × List (Up Stamp) × List Segment :=
  let d := { d with ext := { d.ext with checked := timestamp } }
  let r := completeSegs (fun _ p _ => decide (some p ≠ skbLast timestamp timeout segs)) d segs
  let r' := completeSegs (fun d _ b => !before d.seqNext b.seq) r.1 r.2.2
  (r'.1, r.2.1 ++ r'.2.1, r'.2.2)

/-- The data of a queue that becomes free. -/
def agedDat (d : Dat) (age : U64) : Dat := { d with ext := { d.ext with age := age } }

/-- All segments of the flow `f` go up, and its queue is free. -/
def dropFlow (l : Lists) (q : OfoId) (d : Dat) (segs : List Segment) : Lists :=
  let r := completeFlow 0 (l.clock.ktime 0) d segs
  { l with
    free := ⟨q, agedDat r.1 (l.clock.jiffies 0)⟩ :: l.free
    clock := l.clock.tickKtime.tickJiffies
    up := l.up ++ r.2.1 }

/-! ### `dev_gro_receive` -/

/-- What the header checks make of a packet. -/
inductive Parsed
  /-- receive offload has nothing to do with it -/
  | other (b : Skb)
  /-- a TCP packet whose header is not all there -/
  | badHeader (b : Skb)
  /-- a TCP packet, `i` as `inet_gro_receive` left it, with the `flush` bit it got there -/
  | tcp (i b : Skb) (flush : Bool)

/-- The packet `k` goes up as it is. -/
def Parsed.up (k : SkbId) (b : Skb) : Up Stamp := ⟨k, none, b.pull, .normal, false⟩

/-- The step `normal` of `dev_gro_receive` on the data of the queue. -/
def normalDat (d : Dat) (b : Skb) : Dat := d.setSeqNext (maxSeq d.seqNext b.seqEnd)

/-- `receiveFlush` for a TCP packet of no held flow. -/
def receiveFlushLists (l : Lists) (k : SkbId) (b : Skb) : Except Fault Lists :=
  match findFree (fun hash => hash == b.tcpHash) resetOfo l.free with
  | none => .error .nullDeref
  | some (x, rest) =>
    let d := agedDat { assign x.dat b.seq l.up.length with hash := b.tcpHash } (l.clock.jiffies 0)
    .ok { l with
      free := ⟨x.q, normalDat d b⟩ :: rest, clock := l.clock.tickJiffies, up := l.up ++ [Parsed.up k b] }

/-- `receiveHeld`: the new flow `f` comes first, and the oldest flow has to go when there are too many. -/
def receiveHeldLists (l : Lists) (f : Flow Stamp OfoExt) : Except Fault Lists :=
  if l.flows.length ≥ maxGroSkbs then
    match l.flows.getLast? with
    | none => .error .nullDeref
    | some g => .ok { dropFlow l g.q g.dat (setHeadNext none g.segs) with flows := f :: l.flows.dropLast }
  else .ok { l with flows := f :: l.flows }

/-- The control block of a packet that `receiveNew` looks at. -/
def stampNew (clock : Clock) (b : Skb) : Skb :=
  { b with count := 1, ext := ⟨clock.jiffies 0, clock.ktime 0, [(b.uid, clock.ktime 0)]⟩ }

/-- `receiveNew` for a TCP packet. -/
def receiveNewLists (l : Lists) (k : SkbId) (b : Skb) : Except Fault Lists :=
  let b := stampNew l.clock b
  let l := { l with clock := l.clock.tickJiffies.tickKtime }
  match findFree (fun hash => hash == b.tcpHash) resetOfo l.free with
  | none => .error .nullDeref
  | some (x, rest) =>
    let d := assign x.dat b.seq l.up.length
    if before b.seq d.seqNext then
      .ok { l with
        free := ⟨x.q, normalDat (agedDat d (l.clock.jiffies 0)) b⟩ :: rest
        clock := l.clock.tickJiffies, up := l.up ++ [Parsed.up k b] }
    else
      let b := { b with gsoSize := BitVec.ofNat 16 b.groLen }
      receiveHeldLists { l with free := rest } ⟨x.q, { d with hash := b.tcpHash }, [⟨k, none, b.pull⟩]⟩

/-- The flow goes up when the walk has ended so. -/
def Walked.flushes (w : Walked) (b : Skb) (mss : U32) : Bool :=
  match w.exit with
  | .final => decide (b.len < mss)
  | .head => true
  | .null => false

/-- `dev_gro_receive` after `tcp_gro_receive`, for the packet `k` of the flow with the queue `q`.  When `whole`, the flow
goes up.  A packet that was held by then is touched again. -/
def endLists (l : Lists) (k : SkbId) (b : Skb) (A B : List (Flow Stamp OfoExt)) (q : OfoId) (w : Walked)
    (whole : Bool) : Lists :=
  let l := { l with up := w.track.up }
  if whole then
    let l := { dropFlow l q w.track.dat (setHeadNext none w.segs) with flows := A ++ B }
    match w.fate with
    | .held => { l with stray := l.stray ++ [k, k] }
    | .merged => l
    | .normal =>
      { l with
        free := l.free.modifyHead fun x => ⟨x.q, normalDat x.dat b⟩
        up := l.up ++ [Parsed.up k b] }
  else
    match w.fate with
    | .held => { l with flows := A ++ ⟨q, w.track.dat, w.segs.map (pullSeg k)⟩ :: B }
    | .merged => { l with flows := A ++ ⟨q, w.track.dat, w.segs⟩ :: B }
    | .normal =>
      { l with flows := A ++ ⟨q, normalDat w.track.dat b, w.segs⟩ :: B, up := l.up ++ [Parsed.up k b] }

/-- The control block of a packet when the walk begins. -/
def stampWalk (clock : Clock) (b : Skb) : Skb :=
  { b with ext := ⟨clock.jiffies 0, clock.ktime 0, [(b.uid, clock.ktime 0)]⟩ }

section

variable (env : Env)

/-- Flush point 1: the packet is not to be held together with `p`. -/
def notHeld (i b p : Skb) : Bool := env.flush i p || headersDiffer b p || decide (tcpSkbMss p ≤ b.len - 1)

/-- The way of a packet through `dev_gro_receive`, `inet_gro_receive` and `tcp_gro_receive` to the search for its
flow. -/
def Packet.parse (pkt : Packet) : Parsed :=
  if !pkt.featuresGro || pkt.isGso || pkt.hasFragList || pkt.csumBad || !pkt.isIp then
    .other { pkt.body with parts := [pkt.body.part] }
  else
    match env.header { pkt.body with parts := [pkt.body.part], free := .no, isTcp := false } with
    | (b, none) => .other b
    | (b, some flush) =>
      if !flush && b.badTcpCsum then .other b
      else
        match { b with isTcp := true }.tcpHeader with
        | (b', false) => .badHeader b'
        | (b', true) => .tcp b b' flush

/-- The comparisons of `gro_list_prepare`, `inet_gro_receive` and `tcp_gro_receive` with the first segment of a flow. -/
def sameFlowAs (b : Skb) (f : Flow Stamp OfoExt) : Bool :=
  match f.segs with
  | [] => false
  | p :: _ => decide (p.body.link = b.link) && env.sameFlow b p.body && b.tcp.ports == p.body.tcp.ports

/-- `tcp_gro_receive` for a packet of the flow `f`, and what `dev_gro_receive` does after it. -/
def receiveFoundLists (l : Lists) (k : SkbId) (i b : Skb) (A : List (Flow Stamp OfoExt)) (f : Flow Stamp OfoExt)
    (B : List (Flow Stamp OfoExt)) : Except Fault Lists :=
  match f.segs with
  | [] => .error .nullDeref
  | p :: segs =>
    let c := { b with gsoSize := p.body.gsoSize }
    let stay : Walked := ⟨⟨f.dat, l.up⟩, setHeadNext (heads B).head? (p :: segs), .normal, .head⟩
    if notHeld env i b p.body then .ok (endLists l k c A B f.q stay true)
    else if before c.seq f.dat.seqNext then .ok (endLists l k c A B f.q stay false)
    else
      let c := stampWalk l.clock c
      match walkSegs (heads B).head? k c (p :: segs) [] f.dat.seqNext ⟨f.dat, l.up⟩ with
      | .error e => .error e
      | .ok w =>
        .ok (endLists { l with clock := l.clock.tickJiffies.tickKtime } k c A B f.q w (w.flushes c (tcpSkbMss p.body)))

/-- `dev_gro_receive` for a TCP packet whose header is there. -/
def receiveTcpLists (l : Lists) (k : SkbId) (i b : Skb) (flush : Bool) : Except Fault Lists :=
  match splitFlow (sameFlowAs env b) l.flows with
  | some (A, f, B) => receiveFoundLists env l k i b A f B
  | none => if flush || decide (b.len < 1) then receiveFlushLists l k b else receiveNewLists l k b

/-- `dev_gro_receive` -/
def receiveLists (l : Lists) (pkt : Packet) : Except Fault Lists :=
  let k := l.nskb
  let l := { l with nskb := l.nskb + 1 }
  match pkt.parse env with
  | .other b => .ok { l with up := l.up ++ [Parsed.up k b] }
  | .badHeader b => receiveFlushLists l k b
  | .tcp i b flush => receiveTcpLists env l k i b flush

end

/-! ### `napi_gro_flush`, `napi_clean_tcp_ofo_queue`, `netif_napi_add` -/

/-- The second loop of `napi_gro_flush` for the flow `f`, when the flows of `l` are those behind it that stay. -/
def flushFlow (f : Flow Stamp OfoExt) (l : Lists) : Lists :=
  let r := completeFlow 100000 (l.clock.ktime 0) f.dat (setHeadNext (heads l.flows).head? f.segs)
  let l := { l with clock := l.clock.tickKtime, up := l.up ++ r.2.1 }
  if r.2.2.isEmpty then
    { l with free := ⟨f.q, agedDat r.1 (l.clock.jiffies 0)⟩ :: l.free, clock := l.clock.tickJiffies }
  else { l with flows := ⟨f.q, r.1, r.2.2⟩ :: l.flows }

/-- `napi_gro_flush` of these flows, the oldest one first. -/
def flushFlows (flushOld : Bool) : List (Flow Stamp OfoExt) → Lists → Lists
  | [], l => l
  | f :: fs, l =>
    if flushOld then
      let recent := f.segs.head?.any fun p => decide (p.body.ext.age = l.clock.jiffies 0)
      let l := { l with clock := l.clock.tickJiffies }
      if recent then { l with flows := (f :: fs).reverse ++ l.flows } else flushFlows flushOld fs (flushFlow f l)
    else flushFlows flushOld fs (flushFlow f l)

/-- `napi_gro_flush` -/
def flushLists (l : Lists) (flushOld : Bool) : Lists := flushFlows flushOld l.flows.reverse { l with flows := [] }

/-- The loop of `napi_clean_tcp_ofo_queue` for one free queue. -/
def cleanQueue (hz now : U64) (x : FreeQueue OfoExt) : FreeQueue OfoExt :=
  if hz < now - x.dat.ext.age then ⟨x.q, { x.dat with hash := 0, ext := { x.dat.ext with age := 0 } }⟩ else x

/-- The loop of `napi_clean_tcp_ofo_queue`: the free queues and the clock after it. -/
def cleanQueues (hz : U64) : List (FreeQueue OfoExt) → Clock → List (FreeQueue OfoExt) × Clock
  | [], c => ([], c)
  | x :: xs, c =>
    let r := cleanQueues hz xs c.tickJiffies
    (cleanQueue hz (c.jiffies 0) x :: r.1, r.2)

/-- `napi_clean_tcp_ofo_queue` -/
def cleanLists (hz : U64) (l : Lists) : Lists :=
  let r := cleanQueues hz l.free l.clock
  { l with free := r.1, clock := r.2 }

/-- `netif_napi_add` -/
def initLists (mem : Mem) : Lists where
  flows := []
  free := (List.range (maxGroSkbs + 1)).reverse.map fun q => ⟨q, resetOfo (mem.ofo q)⟩
  nskb := 0
  clock := mem.clock
  up := []
  stray := []

end

/-- One call. -/
def stepLists (env : Env) (l : Lists) (c : Call) : Except Fault Lists :=
  letI := env.groComplete
  let l := { l with clock := c.clock }
  match c with
  | .receive pkt _ => receiveLists env l pkt
  | .flush flushOld _ => .ok (flushLists l flushOld)
  | .clean _ => .ok (cleanLists env.hz l)

end PacketReordering.Linux318
