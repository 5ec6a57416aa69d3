import PacketReordering.Gro.Memory
import PacketReordering.Lib.Runs

/-!
# `linux-3.18.5`: receive offload

The functions of `net/core/dev.c`, `net/core/skbuff.c` and `net/ipv4/tcp_offload.c` through which a TCP packet goes, on
the memory of `Gro.Memory`.  This kernel has no `out_of_order_queue_last`; the stretches of code that it shares with
the other one set the field, and nothing reads it.

* `Env` — what the code relies on and is not in the repository, `inet_gro_receive` above all;
* `Packet`, `Call` — what the driver hands in, and when;
* `tcpGroReceive` — the search for the flow and the walk along its queue;
* `devGroReceive`, `napiGroFlush`, `napiCleanTcpOfoQueue` — the entry points;
* `run` — a run from `netif_napi_add` on.
-/

namespace PacketReordering.Linux318

open Gro

/-- The fields of the control block that only this kernel has.  `arrivals` records for each packet in the buffer, by its
`uid`, the time stamp it got; the code does not have it. -/
structure Stamp where
  age : U64
  timestamp : U64
  arrivals : List (ℕ × U64)
  deriving DecidableEq, Repr, Inhabited

/-- The fields of a queue object that only this kernel has, and three records that the code does not keep: the sequence
number with which `seq_next` began when the queue was given to its flow, how many buffers had gone up by then, and the
last reading of the clock in a `dev_gro_complete` of the queue. -/
structure OfoExt where
  age : U64
  origin : U32
  since : ℕ
  checked : U64
  deriving DecidableEq, Repr, Inhabited

abbrev Skb := Body Stamp
abbrev Mem := Napi Stamp OfoExt
abbrev Dat := OfoDat OfoExt

/-- What is not in the repository.  `net/ipv4/af_inet.c` is missing: `header` is what `inet_gro_receive` does to the
buffer in front of TCP, with the `flush` bit it gives to a packet that it hands to TCP; `sameFlow` and `flush` are the
bits it gives to an entry of `gro_list`; `completeErr` says whether `inet_gro_complete` reports an error for a buffer.
`hz` is `HZ`. -/
structure Env where
  header : Skb → Skb × Option Bool
  sameFlow : Skb → Skb → Bool
  flush : Skb → Skb → Bool
  completeErr : Skb → Bool
  hz : U64
  /-- the header of TCP and the rest of the control block are left alone -/
  header_same : ∀ b : Skb, b.SameHeaders (header b).1
  /-- and so is the record of what was received -/
  header_parts : ∀ b : Skb, (header b).1.parts = b.parts
  /-- packets of one flow have one protocol and the same addresses -/
  sameFlow_iff : ∀ b p, sameFlow b p = true ↔
    b.ip.protocol = p.ip.protocol ∧ b.ip.saddr = p.ip.saddr ∧ b.ip.daddr = p.ip.daddr

abbrev Env.groComplete (env : Env) : GroComplete Stamp := ⟨env.completeErr⟩

/-- `MAX_SKB_FRAGS`, with pages of 4096 bytes -/
def maxSkbFrags : ℕ := 17

section

variable [GroComplete Stamp]

/-! ### `skb_gro_merge`, `skb_gro_flush` -/

/-- `skb_gro_merge(p, skb)` -/
def skbGroMerge (p skb : Skb) : MergeResult Stamp :=
  match mergeData maxSkbFrags p skb with
  | .merged p' skb' =>
    .merged { p' with ext := { p.ext with arrivals := p.ext.arrivals ++ skb.ext.arrivals } } skb'
  | r => r

/-- `skb_gro_flush(ofo_queue, skb)` -/
def skbGroFlush (s : Mem) (q : OfoId) (skb : SkbId) : Except Fault Mem := s.flushUpTo q skb s.nskb (s.ofoNext q)

/-- `*head = p; p->next = p_next; skb_gro_flush(ofo_queue, skb);` -/
def flushBehind (s : Mem) (q : OfoId) (head : HeadRef) (pNext : Option SkbId) (p skb : SkbId) : Except Fault Mem :=
  skbGroFlush (s.setHead head pNext p) q skb

/-! ### `tcp_gro_receive` -/

/-- How the loop of `tcp_gro_receive` is left: with `break` to `out_check_final`, with `return head` or with
`return NULL`. -/
inductive Exit
  | final
  | head
  | null
  deriving DecidableEq, Repr

/-- `skb` takes `age` and `timestamp` of `p2`. -/
def Stamp.of (skb p2 : Stamp) : Stamp := { skb with age := p2.age, timestamp := p2.timestamp }

/-- `p2` takes the earlier `age` and `timestamp`. -/
def Stamp.min (p2 p3 : Stamp) : Stamp :=
  { p2 with
    age := if p3.age < p2.age then p3.age else p2.age
    timestamp := if p3.timestamp < p2.timestamp then p3.timestamp else p2.timestamp }

/-- The branch `seq_next == seq2` of the loop of `tcp_gro_receive`: `skb` takes the payload of `p2`. -/
def mergeInFront (s : Mem) (q : OfoId) (skb : SkbId) (seq len : U32) (head : HeadRef) (pNext : Option SkbId)
    (p2 : SkbId) (inSeq : U32) : Except Fault (Mem × Exit) :=
  match s.skbGroMerge skbGroMerge skb p2 with
  | .error f => .error f
  | .ok (some err, s) =>
    if err = .tooBig && inSeq ≠ seq then .ok (s.linkBefore q skb len head pNext p2, .final)
    else
      match s.cbNext p2 with   -- flush point 3
      | some p3 => (flushBehind s q head pNext p3 p2).map fun s => (s.setFlush skb, .null)
      | none => .ok (s.setFlush skb, .head)
  | .ok (none, s) =>
    let s := s.setBody skb { s.body skb with ext := (s.body skb).ext.of (s.body p2).ext }
    .ok (s.replaceBy q skb len head pNext p2, .final)

/-- `tcp_flag_word(th2) |= flags & (TCP_FLAG_FIN | TCP_FLAG_PSH)` -/
def addFlags (b : Skb) (flags : U32) : Skb :=
  { b with tcp := { b.tcp with flagWord := b.tcp.flagWord ||| (flags &&& (tcpFlagFin ||| tcpFlagPsh)) } }

/-- The branch `seq == seq_next2` once the packet is all in `p2`: `p2` takes the payload of the segment behind it when
there is no hole left between them. -/
def bridge (s : Mem) (q : OfoId) (seqNext : U32) (head : HeadRef) (pNext : Option SkbId) (p2 : SkbId)
    (inSeq seq2 : U32) : Except Fault (Mem × Exit) :=
  match s.cbNext p2 with
  | none => .ok (s, .final)
  | some p3 =>
    let s := s.touch p3
    if seqNext = (s.body p3).seq then
      match s.skbGroMerge skbGroMerge p2 p3 with
      | .error f => .error f
      | .ok (some .tooBig, s) =>
        if inSeq = seq2 then (flushBehind s q head pNext p3 p2).map fun s => (s, .null)   -- flush point 50
        else .ok (s, .null)
      | .ok (some _, s) =>
        match s.cbNext p3 with   -- flush point 5
        | some p4 => (flushBehind s q head pNext p4 p3).map fun s => (s, .null)
        | none => .ok (s, .head)
      | .ok (none, s) =>
        let s := s.setBody p2 { s.body p2 with ext := (s.body p2).ext.min (s.body p3).ext }
        .ok (s.absorb q p2 p3, .final)
    else if after seqNext (s.body p3).seq then .ok (s, .head)   -- flush point 7
    else .ok (s, .final)

/-- The branch `seq == seq_next2` once `p2` has taken the payload of the packet. -/
def mergedBehind (s : Mem) (q : OfoId) (seqNext len flags : U32) (head : HeadRef) (pNext : Option SkbId) (p2 : SkbId)
    (inSeq seq2 : U32) : Except Fault (Mem × Exit) :=
  let s := s.setBody p2 (addFlags (s.body p2) flags)
  bridge { s with qlen := Function.update s.qlen q (s.qlen q + len) } q seqNext head pNext p2 inSeq seq2

/-- A turn of the loop of `tcp_gro_receive` along the queue `q`, at the segment `p2`.  `len` and `seq` are those of the
packet, `flags` its flag word.  Returns how the loop is left, or the segment at which it goes on. -/
def walkTurn (s : Mem) (q : OfoId) (skb : SkbId) (seq len flags : U32) (head : HeadRef) (pNext : Option SkbId)
    (p2 : SkbId) (inSeq : U32) : Except Fault (Mem × (Exit ⊕ SkbId)) :=
  let leave (r : Except Fault (Mem × Exit)) : Except Fault (Mem × (Exit ⊕ SkbId)) := r.map fun r => (r.1, .inl r.2)
  let seqNext := seq + len
  let seq2 := (s.body p2).seq
  let seqNext2 := seq2 + (s.body p2).len
  if before seqNext seq2 then leave (.ok (s.linkBefore q skb len head pNext p2, .final))
  else if seqNext = seq2 then leave (mergeInFront s q skb seq len head pNext p2 inSeq)
  else if seq = seqNext2 then
    match s.skbGroMerge skbGroMerge p2 skb with
    | .error f => .error f
    | .ok (some .tooBig, s) =>
      match s.cbNext p2 with
      | some p3 =>
        if inSeq = seq2 then
          (flushBehind s q head pNext p3 p2).map fun s => (s, .inr p3)   -- flush point 40
        else .ok (s, .inr p3)
      | none =>
        let s := s.linkLast q skb len p2
        if inSeq = seq2 then
          leave ((flushBehind s q head pNext skb p2).map fun s => (s, .final))   -- flush point 41
        else leave (.ok (s, .final))
    | .ok (some _, s) =>
      match s.cbNext p2 with   -- flush point 4
      | some p3 => leave ((flushBehind s q head pNext p3 p2).map fun s => (s.setFlush skb, .null))
      | none => leave (.ok (s.setFlush skb, .head))
    | .ok (none, s) => leave (mergedBehind s q seqNext len flags head pNext p2 inSeq seq2)
  else if after seq seqNext2 then
    match s.cbNext p2 with
    | none => leave (.ok (s.linkLast q skb len p2, .final))
    | some p3 => .ok (s, .inr p3)
  else leave (.ok (s.setFlush skb, .head))   -- flush point 8

/-- The loop of `tcp_gro_receive` along the queue `q`, from `p2` on, to the place of `skb`. -/
def walk (q : OfoId) (skb : SkbId) (seq len flags : U32) (head : HeadRef) (pNext : Option SkbId) :
    ℕ → SkbId → U32 → Mem → Except Fault (Mem × Exit)
  | fuel, p2, inSeqNext, s =>
    let s := s.touch p2
    let inSeq := inSeqNext
    let inSeqNext := if inSeq = (s.body p2).seq then (s.body p2).seq + (s.body p2).len else inSeqNext
    match walkTurn s q skb seq len flags head pNext p2 inSeq with
    | .error f => .error f
    | .ok (s, .inl exit) => .ok (s, exit)
    | .ok (s, .inr p3) =>
      match fuel with
      | 0 => .error .diverges
      | fuel + 1 => walk q skb seq len flags head pNext fuel p3 inSeqNext s

/-- The comparison of the packet `b` with the header of `p`, the first segment of its flow. -/
def headersDiffer (b p : Skb) : Bool :=
  hasFlag b.tcp.flagWord tcpFlagCwr ||
    hasFlag (b.tcp.flagWord ^^^ p.tcp.flagWord) (~~~(tcpFlagCwr ||| tcpFlagFin ||| tcpFlagPsh)) ||
    b.tcp.ackSeq != p.tcp.ackSeq

/-- `tcp_skb_mss(p)` -/
def tcpSkbMss (p : Skb) : U32 := p.gsoSize.setWidth 32

/-- `tcp_gro_receive` from flush point 1 on, with the queue `q` of the flow of `skb` and the first segment `p` of it.
Returns the link to the flow that has to be flushed. -/
def receiveInQueue (s : Mem) (q : OfoId) (skb : SkbId) (seq len flags mss : U32) (flush : Bool) (head : HeadRef)
    (p : SkbId) : Except Fault (Mem × Option HeadRef) :=
  if flush then .ok (s.setFlush skb, some head)   -- flush point 1
  else if before seq (s.ofo q).seqNext then .ok (s.setFlush skb, none)   -- flush point 2
  else
    let b := s.body skb
    let timestamp := s.clock.ktime 0
    let s := s.setBody skb { b with ext := ⟨s.clock.jiffies 0, timestamp, [(b.uid, timestamp)]⟩ }
    let s := s.tickJiffies.tickKtime
    match s.ofoNext q with
    | none => .ok (if len < mss then s.setFlush skb else s, some head)
    | some p2 =>
      match walk q skb seq len flags head (s.next p) s.nskb p2 (s.ofo q).seqNext s with
      | .error f => .error f
      | .ok (s, .final) => .ok (if len < mss then (s.setFlush skb, some head) else (s, none))
      | .ok (s, .head) => .ok (s, some head)
      | .ok (s, .null) => .ok (s, none)

/-- `tcp_gro_receive` once the flow of `skb` is found: `p` is its entry of `gro_list`, `head` the link to it. -/
def tcpGroReceiveFound (s : Mem) (skb : SkbId) (head : HeadRef) (p : SkbId) : Except Fault (Mem × Option HeadRef) :=
  let b := s.body skb
  let s := s.touch p
  let mss := tcpSkbMss (s.body p)
  let flush := s.flush p || headersDiffer b (s.body p) || decide (mss ≤ b.len - 1)
  match s.outOfOrderQueue p with
  | none => .error .nullDeref
  | some q =>
    let s := { s with outOfOrderQueue := Function.update s.outOfOrderQueue skb (some q) }
    let s := s.setBody skb { b with gsoSize := (s.body p).gsoSize }
    receiveInQueue s q skb b.seq b.len b.tcp.flagWord mss flush head p

def tcpGroReceive (s : Mem) (skb : SkbId) : Except Fault (Mem × Option HeadRef) :=
  let s := { s with outOfOrderQueue := Function.update s.outOfOrderQueue skb none }
  let b := { s.body skb with isTcp := true }
  match b.tcpHeader with
  | (b, false) => .ok ((s.setBody skb b).setFlush skb, none)
  | (b, true) =>
    match (s.setBody skb b).findSameFlow b.tcp.ports s.nskb .groList with
    | .error f => .error f
    | .ok (none, s) => .ok (if b.len < 1 then s.setFlush skb else s, none)
    | .ok (some (head, p), s) => tcpGroReceiveFound s skb head p

def tcp4GroReceive (s : Mem) (skb : SkbId) : Except Fault (Mem × Option HeadRef) :=
  if !s.flush skb && (s.body skb).badTcpCsum then .ok (s.setFlush skb, none) else tcpGroReceive s skb

/-! ### `dev_gro_receive` -/

/-- A packet as the driver hands it in: `dev->features & NETIF_F_GRO`, the conditions under which `dev_gro_receive` does
not look at the packet, and whether there is an offload for its protocol.  `skb_gro_reset_offset` has set `data_offset`
and the length of `frag0`; the rest of the control block is what happens to be in the memory of the buffer. -/
structure Packet where
  featuresGro : Bool
  isGso : Bool
  hasFragList : Bool
  csumBad : Bool
  isIp : Bool
  body : Skb
  dataOffset_eq : body.dataOffset = 0
  frag0_eq : body.frag0Len = 0 ∨ body.headlen = 0 ∧ body.frags.head?.map Frag.size = some body.frag0Len

/-- What `napi_get_tcp_ofo_queue` does to the last queue when none fits. -/
def resetOfo (d : Dat) : Dat := { hash := 0, seqNext := 0, ext := { d.ext with age := 0 } }

/-- `napi_get_tcp_ofo_queue(napi, skb)` -/
def napiGetTcpOfoQueue (s : Mem) (skb : SkbId) : Except Fault (OfoId × Mem) :=
  s.findQueue (fun hash => hash == (s.body skb).tcpHash) resetOfo (maxGroSkbs + 1) s.outOfOrderQueueList none

/-- `if (!ofo_queue->age) ofo_queue->seq_next = seq;`, when `since` buffers have gone up. -/
def assign (d : Dat) (seq : U32) (since : ℕ) : Dat :=
  if d.ext.age = 0 then { d with seqNext := seq, ext := { d.ext with origin := seq, since := since } } else d

/-- The first loop of `dev_gro_complete`, along the `prev` links from `pl` on: the first segment of those at the end
that are younger than `timeout`. -/
def youngFrom (timestamp timeout : U64) : ℕ → (pl skbLast : Option SkbId) → Mem → Except Fault (Option SkbId × Mem)
  | _, none, skbLast, s => .ok (skbLast, s)
  | fuel, some pl, skbLast, s =>
    let s := s.touch pl
    if timestamp - (s.body pl).ext.timestamp < timeout then
      match fuel with
      | 0 => .error .diverges
      | fuel + 1 => youngFrom timestamp timeout fuel (s.cbPrev pl) (some pl) s
    else .ok (skbLast, s)

/-- The end of `dev_gro_complete`: `p` is the first segment that stays. -/
def completeEnd (s : Mem) (q : OfoId) : Option SkbId → Option SkbId × Mem
  | none =>
    let age := s.clock.jiffies 0
    let s := s.tickJiffies
    let d := s.ofo q
    (none, (s.setOfo q { d with ext := { d.ext with age := age } }).pushQueue q)
  | some p => (some p, { s with ofoNext := Function.update s.ofoNext q (some p) })

/-- `dev_gro_complete(napi, skb, timeout)`.  The pointer `ofo_queue` is used before it is compared with `NULL`. -/
def devGroComplete (s : Mem) (skb : SkbId) (timeout : U64) : Except Fault (Option SkbId × Mem) :=
  let s := s.touch skb
  match s.outOfOrderQueue skb with
  | none => .error .nullDeref
  | some q =>
    let timestamp := s.clock.ktime 0
    let s := s.tickKtime
    let d := s.ofo q
    let s := s.setOfo q { d with ext := { d.ext with checked := timestamp } }
    match if timeout ≠ 0 then youngFrom timestamp timeout s.nskb (s.ofoPrev q) none s else .ok (none, s) with
    | .error f => .error f
    | .ok (skbLast, s) =>
      match s.completeWhile (fun _ p _ => decide (some p ≠ skbLast)) q s.nskb (s.ofoNext q) false with
      | .error f => .error f
      | .ok (p, _, s) =>
        if p ≠ skbLast then .error .nullDeref
        else
          match s.completeWhile (fun d _ b => !before d.seqNext b.seq) q s.nskb p false with
          | .error f => .error f
          | .ok (p, _, s) => .ok (completeEnd s q p)

/-- The end of `dev_gro_receive`, with `napi_skb_finish` in the path `normal`: the packet goes up as it is. -/
def receiveNormal (s : Mem) (skb : SkbId) : Mem :=
  let s :=
    match s.outOfOrderQueue skb with
    | none => s
    | some q => s.setOfo q ((s.ofo q).setSeqNext (maxSeq (s.ofo q).seqNext (s.body skb).seqEnd))
  let s := s.setBody skb (s.body skb).pull
  s.netifReceive skb (s.body skb) .normal

/-- `dev_gro_receive` for a packet that has to be flushed. -/
def receiveFlush (s : Mem) (skb : SkbId) : Except Fault Mem :=
  if (s.body skb).isTcp && (s.outOfOrderQueue skb).isNone then
    match napiGetTcpOfoQueue s skb with
    | .error f => .error f
    | .ok (q, s) =>
      let s := { s with outOfOrderQueue := Function.update s.outOfOrderQueue skb (some q) }
      let s := s.unlinkQueue q
      let d := assign (s.ofo q) (s.body skb).seq s.up.length
      let age := s.clock.jiffies 0
      let s := s.tickJiffies
      let s := s.setOfo q { d with hash := (s.body skb).tcpHash, ext := { d.ext with age := age } }
      .ok (receiveNormal (s.pushQueue q) skb)
  else .ok (receiveNormal s skb)

/-- `skb` is a new entry of `gro_list`: "locate the end of the list to select the 'oldest' flow" and flush that one when
there are too many. -/
def flushOldest (s : Mem) (skb : SkbId) : Except Fault Mem :=
  if s.groCount ≥ BitVec.ofNat 32 maxGroSkbs then
    match s.findOldest s.nskb none skb with
    | .error f => .error f
    | .ok (none, _) => .error .nullDeref
    | .ok (some pp, nskb) =>
      let s := s.writeHead none pp
      let s := { s.touch nskb with next := Function.update s.next nskb none }
      (devGroComplete s nskb 0).map Prod.snd
  else .ok { s with groCount := s.groCount + 1 }

/-- `dev_gro_receive` for the first packet of a flow: the packet becomes a new entry of `gro_list`. -/
def receiveHeld (s : Mem) (skb : SkbId) : Except Fault Mem :=
  let s := { s with
    cbPrev := Function.update s.cbPrev skb none
    cbNext := Function.update s.cbNext skb none
    next := Function.update s.next skb s.groList
    groList := some skb }
  let s := s.setBody skb { s.body skb with gsoSize := BitVec.ofNat 16 (s.body skb).groLen }
  (flushOldest s skb).map fun s => s.setBody skb (s.body skb).pull

/-- `dev_gro_receive` for a packet that is neither of a held flow nor to be flushed. -/
def receiveNew (s : Mem) (skb : SkbId) : Except Fault Mem :=
  let b := s.body skb
  let timestamp := s.clock.ktime 0
  let s := s.setBody skb
    { b with count := 1, ext := ⟨s.clock.jiffies 0, timestamp, [(b.uid, timestamp)]⟩ }
  let s := s.tickJiffies.tickKtime
  if (s.body skb).isTcp then
    match napiGetTcpOfoQueue s skb with
    | .error f => .error f
    | .ok (q, s) =>
      let b := s.body skb
      let s := { s with outOfOrderQueue := Function.update s.outOfOrderQueue skb (some q) }
      let s := s.unlinkQueue q
      let d := assign (s.ofo q) b.seq s.up.length
      if before b.seq d.seqNext then
        let age := s.clock.jiffies 0
        let s := s.tickJiffies
        let s := s.setOfo q { d with ext := { d.ext with age := age } }
        .ok (receiveNormal (s.pushQueue q) skb)   -- flush point 10
      else
        let s := s.setOfo q { d with hash := b.tcpHash }
        receiveHeld { s with
          ofoNext := Function.update s.ofoNext q (some skb)
          ofoPrev := Function.update s.ofoPrev q (some skb)
          qlen := Function.update s.qlen q (BitVec.ofNat 32 b.groLen)
          skbNum := Function.update s.skbNum q 1 } skb
  else receiveHeld { s with outOfOrderQueue := Function.update s.outOfOrderQueue skb none } skb

/-- `if (pp)` in `dev_gro_receive`: the flow whose first segment is `*pp` goes up. -/
def flushWhole (s : Mem) (pp : HeadRef) : Except Fault Mem :=
  match s.readHead pp with
  | none => .error .nullDeref
  | some nskb =>
    let s := s.touch nskb
    let s := s.writeHead (s.next nskb) pp
    let s := { s with next := Function.update s.next nskb none }
    (devGroComplete s nskb 0).map fun r => { r.2 with groCount := r.2.groCount - 1 }

/-- `dev_gro_receive` after `ptype->callbacks.gro_receive` has returned `pp`. -/
def receiveEnd (s : Mem) (skb : SkbId) (pp : Option HeadRef) : Except Fault Mem :=
  let sameFlow := s.sameFlow skb
  let flushed : Except Fault Mem :=
    match pp with
    | none => .ok s
    | some pp => flushWhole s pp
  match flushed with
  | .error f => .error f
  | .ok s =>
    if sameFlow then
      let s := s.touch skb
      if (s.body skb).free ≠ .no then .ok (s.skbGroFree skb)
      else .ok (s.setBody skb (s.body skb).pull)
    else if s.flush skb then receiveFlush s skb
    else receiveNew s skb

section

variable (env : Env)

/-- The bits that `inet_gro_receive` gives to the entries of `gro_list` from `p` on. -/
def inetMatch (b : Skb) : ℕ → Option SkbId → Mem → Except Fault Mem
  | _, none, s => .ok s
  | fuel, some p, s =>
    let s := s.touch p
    let s := { s with
      sameFlow := Function.update s.sameFlow p (s.sameFlow p && env.sameFlow b (s.body p))
      flush := Function.update s.flush p (s.flush p || env.flush b (s.body p)) }
    match fuel with
    | 0 => .error .diverges
    | fuel + 1 => inetMatch b fuel (s.next p) s

/-- `inet_gro_receive` -/
def inetGroReceive (s : Mem) (skb : SkbId) : Except Fault (Mem × Option HeadRef) :=
  match env.header (s.body skb) with
  | (b, none) => .ok ((s.setBody skb b).setFlush skb, none)
  | (b, some flush) =>
    match inetMatch env b s.nskb s.groList (s.setBody skb b) with
    | .error f => .error f
    | .ok s =>
      let s := { s with flush := Function.update s.flush skb (s.flush skb || flush) }
      tcp4GroReceive s skb

/-- `dev_gro_receive(napi, skb)` and what its caller does with the result: a merged buffer is freed, a normal one goes
to the stack. -/
def devGroReceive (s : Mem) (pkt : Packet) : Except Fault Mem :=
  let skb := s.nskb
  let s := { s with
    nskb := s.nskb + 1
    next := Function.update s.next skb none
    outOfOrderQueue := Function.update s.outOfOrderQueue skb none
    body := Function.update s.body skb { pkt.body with parts := [pkt.body.part] } }
  if !pkt.featuresGro || pkt.isGso || pkt.hasFragList || pkt.csumBad then .ok (receiveNormal s skb)
  else
    match s.groListPrepare pkt.body.link s.nskb s.groList with
    | .error f => .error f
    | .ok s =>
      if !pkt.isIp then .ok (receiveNormal s skb)
      else
        let s := { s with
          sameFlow := Function.update s.sameFlow skb false
          flush := Function.update s.flush skb false
          body := Function.update s.body skb { s.body skb with free := .no, isTcp := false } }
        match inetGroReceive env s skb with
        | .error f => .error f
        | .ok (s, pp) => receiveEnd s skb pp

end

/-! ### `napi_gro_flush`, `napi_clean_tcp_ofo_queue`, `netif_napi_add` -/

/-- `flush_old && NAPI_GRO_CB(skb)->age == jiffies`, and the memory when `jiffies` may have been read. -/
def isRecent (flushOld : Bool) (s : Mem) (skb : SkbId) : Bool × Mem :=
  if flushOld then (decide ((s.body skb).ext.age = s.clock.jiffies 0), s.tickJiffies) else (false, s)

/-- The second loop of `napi_gro_flush`; `groListOld` is what `gro_list` was. -/
def napiGroFlushFrom (flushOld : Bool) (groListOld : Option SkbId) : ℕ → Option SkbId → Mem → Except Fault Mem
  | _, none, s => .ok s
  | fuel, some skb, s =>
    let s := s.touch skb
    let r := isRecent flushOld s skb
    let s := r.2
    if r.1 then .ok { s with groList := groListOld }
    else
      let prev := s.prev skb
      let released : Except Fault Mem :=
        match s.outOfOrderQueue skb with
        | none =>
          let s := s.setPrevNext prev (s.next skb)
          let s := { s with prev := Function.update s.prev skb none, next := Function.update s.next skb none }
          (devGroComplete s skb 0).map fun r => { r.2 with groCount := r.2.groCount - 1 }
        | some _ =>
          let p := s.next skb
          match devGroComplete s skb 100000 with
          | .error f => .error f
          | .ok (none, s) => .ok { s.setPrevNext prev p with groCount := s.groCount - 1 }
          | .ok (some skbNew, s) =>
            let s := s.setPrevNext prev (some skbNew)
            .ok { s with next := Function.update s.next skbNew p, groList := some skbNew }
      match released with
      | .error f => .error f
      | .ok s =>
        match fuel with
        | 0 => .error .diverges
        | fuel + 1 => napiGroFlushFrom flushOld groListOld fuel prev s

/-- `napi_gro_flush(napi, flush_old)` -/
def napiGroFlush (s : Mem) (flushOld : Bool) : Except Fault Mem :=
  let groListOld := s.groList
  match s.reverseChain s.nskb s.groList none with
  | .error f => .error f
  | .ok (prev, s) => napiGroFlushFrom flushOld groListOld s.nskb prev { s with groList := none }

/-- The loop of `napi_clean_tcp_ofo_queue`. -/
def cleanFrom (hz : U64) : ℕ → Option OfoId → Mem → Except Fault Mem
  | _, none, s => .ok s
  | fuel, some q, s =>
    let now := s.clock.jiffies 0
    let s := s.tickJiffies
    let d := s.ofo q
    let s := if hz < now - d.ext.age then s.setOfo q { d with hash := 0, ext := { d.ext with age := 0 } } else s
    match fuel with
    | 0 => .error .diverges
    | fuel + 1 => cleanFrom hz fuel (s.nextQueue q) s

/-- `napi_clean_tcp_ofo_queue(napi)` -/
def napiCleanTcpOfoQueue (hz : U64) (s : Mem) : Except Fault Mem :=
  cleanFrom hz (maxGroSkbs + 1) s.outOfOrderQueueList s

/-- The part of `netif_napi_add` that sets up receive offload, in memory with any contents. -/
def netifNapiAdd (s : Mem) : Mem :=
  let s := { s with
    groCount := 0, groList := none, outOfOrderQueueList := none, nskb := 0, up := [], gone := [], stray := [] }
  s.addQueues resetOfo (maxGroSkbs + 1)

end

/-- A call into receive offload with the readings of the clocks it gets. -/
inductive Call
  | receive (pkt : Packet) (clock : Clock)
  | flush (flushOld : Bool) (clock : Clock)
  | clean (clock : Clock)

def Call.clock : Call → Clock
  | .receive _ c => c
  | .flush _ c => c
  | .clean c => c

def step (env : Env) (s : Mem) (c : Call) : Except Fault Mem :=
  letI := env.groComplete
  let s := { s with clock := c.clock }
  match c with
  | .receive pkt _ => devGroReceive env s pkt
  | .flush flushOld _ => napiGroFlush s flushOld
  | .clean _ => napiCleanTcpOfoQueue env.hz s

/-- A run from `netif_napi_add` on. -/
abbrev run (env : Env) (mem : Mem) (cs : List Call) : Except Fault Mem := Lib.runFrom (step env) (netifNapiAdd mem) cs

end PacketReordering.Linux318
