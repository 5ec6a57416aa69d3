import PacketReordering.Gro.Skb
import Mathlib.Logic.Function.Basic

/-!
# The memory of receive offload

The `struct napi_struct` of a receive queue with the buffers and the out-of-order queue objects it points to.  Memory
is one map for each field, so that a store to one field is a change of one map.

* `Napi` — the state;
* `Napi.touch` — an access to a buffer; what was given away and is accessed again goes to `stray`;
* `Napi.napiGroComplete` — a buffer goes up, or is freed when the protocol's callback `GroComplete` reports an error;
* `Napi.linkBefore`, `linkLast`, `replaceBy`, `absorb`, `advanceHead` — how `tcp_gro_receive` links a segment in;
* `Napi.flushUpTo`, `Napi.completeWhile` — the loops of `skb_gro_flush` and `dev_gro_complete`;
* `Napi.unlinkQueue`, `Napi.pushQueue` — the list of free queue objects.

These are stretches of code that the functions of one kernel, or of both, have in common; the functions themselves are
in the modules of the kernels.  `δ` holds the fields that only one kernel has in its queue objects.
-/

namespace PacketReordering.Gro

abbrev SkbId := ℕ
abbrev OfoId := ℕ

/-- The data of a `struct sk_buff_head_gro`. -/
structure OfoDat (δ : Type) where
  hash : U32
  seqNext : U32
  ext : δ
  deriving DecidableEq, Repr, Inhabited

/-- On which way a buffer went to `netif_receive_skb_internal`; `skb_gro_flush` with the `seq_next` it found. -/
inductive Via
  | skbGroFlush (seqNext : U32)
  | devGroComplete
  | normal
  deriving DecidableEq, Repr

/-- A buffer that is handed to the stack, with its `skb->next` at that moment.  `freed`: `napi_gro_complete` frees it
instead, as `gro_complete` reports an error. -/
structure Up (γ : Type) where
  id : SkbId
  next : Option SkbId
  body : Body γ
  via : Via
  freed : Bool
  deriving DecidableEq, Repr

/-- What reached the stack. -/
def received {γ : Type} (us : List (Up γ)) : List (Up γ) := us.filter fun u => !u.freed

/-- The callback `gro_complete` of the protocol of a buffer: whether it reports an error. -/
class GroComplete (γ : Type) where
  err : Body γ → Bool

/-- The readings of `ktime_get()` and `jiffies` that are still to come. -/
structure Clock where
  ktime : ℕ → U64
  jiffies : ℕ → U64
  deriving Inhabited

/-- Read `ktime_to_ns(ktime_get())`. -/
def Clock.tickKtime (c : Clock) : Clock := { c with ktime := fun n => c.ktime (n + 1) }

/-- Read `jiffies`. -/
def Clock.tickJiffies (c : Clock) : Clock := { c with jiffies := fun n => c.jiffies (n + 1) }

inductive Fault
  /-- a `NULL` pointer was dereferenced -/
  | nullDeref
  /-- a loop over a list did not come to an end -/
  | diverges
  /-- the copy loop of `skb_gro_merge` was entered with nothing to copy -/
  | copyOverrun
  deriving DecidableEq, Repr

/-- `napi`, the fields of the buffers and of the queue objects.  `nskb` buffers have been received; the ones in `gone`
have been given to the stack or freed, and `stray` are the accesses to these. -/
structure Napi (γ δ : Type) where
  next : SkbId → Option SkbId
  prev : SkbId → Option SkbId
  cbNext : SkbId → Option SkbId
  cbPrev : SkbId → Option SkbId
  outOfOrderQueue : SkbId → Option OfoId
  sameFlow : SkbId → Bool
  flush : SkbId → Bool
  body : SkbId → Body γ
  ofoNext : OfoId → Option SkbId
  ofoPrev : OfoId → Option SkbId
  nextQueue : OfoId → Option OfoId
  prevQueue : OfoId → Option OfoId
  qlen : OfoId → U32
  skbNum : OfoId → U32
  ofo : OfoId → OfoDat δ
  groList : Option SkbId
  groCount : U32
  outOfOrderQueueList : Option OfoId
  outOfOrderQueueLast : Option OfoId
  nskb : ℕ
  clock : Clock
  up : List (Up γ)
  gone : List SkbId
  stray : List SkbId
  deriving Inhabited

/-- A `struct sk_buff **`: the field it points to. -/
inductive HeadRef
  | groList
  | next (p : SkbId)
  deriving DecidableEq, Repr

def maxGroSkbs : ℕ := 8

variable {γ δ : Type}

/-- `napi_gro_complete` clears `gso_size` of a buffer that holds one packet. -/
def Body.complete (b : Body γ) : Body γ := if b.count = 1 then { b with gsoSize := 0 } else b

@[simp] theorem complete_parts {b : Body γ} : b.complete.parts = b.parts := by
  unfold Body.complete
  split <;> rfl

/-- `err` in `napi_gro_complete`: only a buffer with more than one packet goes to `gro_complete`. -/
def Body.completeErr [GroComplete γ] (b : Body γ) : Bool := decide (b.count ≠ 1) && GroComplete.err b

def OfoDat.setSeqNext (d : OfoDat δ) (seqNext : U32) : OfoDat δ := { d with seqNext := seqNext }

namespace Napi

variable (s : Napi γ δ)

/-- An access to the buffer `i`. -/
def touch (i : SkbId) : Napi γ δ := { s with stray := if i ∈ s.gone then s.stray ++ [i] else s.stray }

/-- An access to the buffer behind a link, if there is one. -/
def touchLink : Option SkbId → Napi γ δ
  | none => s
  | some i => s.touch i

def readHead : HeadRef → Option SkbId
  | .groList => s.groList
  | .next p => s.next p

def writeHead (x : Option SkbId) : HeadRef → Napi γ δ
  | .groList => { s with groList := x }
  | .next p => { s.touch p with next := Function.update s.next p x }

/-- `NAPI_GRO_CB(skb)->flush = 1` -/
def setFlush (i : SkbId) : Napi γ δ := { s.touch i with flush := Function.update s.flush i true }

def setBody (i : SkbId) (b : Body γ) : Napi γ δ := { s.touch i with body := Function.update s.body i b }

def setOfo (q : OfoId) (d : OfoDat δ) : Napi γ δ := { s with ofo := Function.update s.ofo q d }

def tickKtime : Napi γ δ := { s with clock := s.clock.tickKtime }

def tickJiffies : Napi γ δ := { s with clock := s.clock.tickJiffies }

/-! ### Giving a buffer away -/

/-- `skb_gro_free(skb)` -/
def skbGroFree (p : SkbId) : Napi γ δ := { s.touch p with gone := p :: s.gone }

/-- `netif_receive_skb_internal(skb)` -/
def netifReceive (p : SkbId) (b : Body γ) (via : Via) : Napi γ δ :=
  { s.touch p with up := s.up ++ [⟨p, s.next p, b, via, false⟩], gone := p :: s.gone }

/-- `kfree_skb(skb)` -/
def kfreeSkb (p : SkbId) (b : Body γ) (via : Via) : Napi γ δ :=
  { s.touch p with up := s.up ++ [⟨p, s.next p, b, via, true⟩], gone := p :: s.gone }

def napiGroComplete [GroComplete γ] (p : SkbId) (via : Via) : Napi γ δ :=
  if (s.body p).completeErr then s.kfreeSkb p (s.body p) via else s.netifReceive p (s.body p).complete via

/-! ### The out-of-order queue of a flow -/

/-- `*head = x; x->next = p_next;` -/
def setHead (head : HeadRef) (pNext : Option SkbId) (x : SkbId) : Napi γ δ :=
  let s := s.writeHead (some x) head
  { s.touch x with next := Function.update s.next x pNext }

/-- Link `skb` in front of `p2`. -/
def linkBefore (q : OfoId) (skb : SkbId) (len : U32) (head : HeadRef) (pNext : Option SkbId) (p2 : SkbId) :
    Napi γ δ :=
  let prev := s.cbPrev p2
  let s := ((s.touch skb).touch p2).touchLink prev
  let s := { s with
    outOfOrderQueue := Function.update s.outOfOrderQueue skb (some q)
    cbPrev := Function.update s.cbPrev skb prev
    cbNext := Function.update s.cbNext skb (some p2)
    qlen := Function.update s.qlen q (s.qlen q + len)
    skbNum := Function.update s.skbNum q (s.skbNum q + 1)
    sameFlow := Function.update s.sameFlow skb true }
  match prev with
  | none =>
    { s with
      ofoNext := Function.update s.ofoNext q (some skb)
      cbPrev := Function.update s.cbPrev p2 (some skb) }.setHead head pNext skb
  | some p =>
    { s with
      cbNext := Function.update s.cbNext p (some skb)
      cbPrev := Function.update s.cbPrev p2 (some skb) }

/-- Link `skb` behind the last segment `p2`. -/
def linkLast (q : OfoId) (skb : SkbId) (len : U32) (p2 : SkbId) : Napi γ δ :=
  let s := (s.touch skb).touch p2
  { s with
    outOfOrderQueue := Function.update s.outOfOrderQueue skb (some q)
    cbPrev := Function.update s.cbPrev skb (some p2)
    cbNext := Function.update (Function.update s.cbNext skb none) p2 (some skb)
    qlen := Function.update s.qlen q (s.qlen q + len)
    skbNum := Function.update s.skbNum q (s.skbNum q + 1)
    ofoPrev := Function.update s.ofoPrev q (some skb)
    sameFlow := Function.update s.sameFlow skb true }

/-- Put `skb`, which has taken the payload of `p2`, in its place. -/
def replaceBy (q : OfoId) (skb : SkbId) (len : U32) (head : HeadRef) (pNext : Option SkbId) (p2 : SkbId) :
    Napi γ δ :=
  let prev := s.cbPrev p2
  let next := s.cbNext p2
  let s := (((s.touch skb).touch p2).touchLink prev).touchLink next
  let s := { s with
    outOfOrderQueue := Function.update s.outOfOrderQueue skb (some q)
    cbPrev := Function.update s.cbPrev skb prev
    cbNext := Function.update s.cbNext skb next
    qlen := Function.update s.qlen q (s.qlen q + len)
    sameFlow := Function.update s.sameFlow skb true }
  let s :=
    match next with
    | none => { s with ofoPrev := Function.update s.ofoPrev q (some skb) }
    | some n => { s with cbPrev := Function.update s.cbPrev n (some skb) }
  let s :=
    match prev with
    | none => { s with ofoNext := Function.update s.ofoNext q (some skb) }.setHead head pNext skb
    | some p => { s with cbNext := Function.update s.cbNext p (some skb) }
  s.skbGroFree p2

/-- Take `p3`, whose payload `p2` has taken, out of the queue. -/
def absorb (q : OfoId) (p2 p3 : SkbId) : Napi γ δ :=
  let next := s.cbNext p3
  let s := ((s.touch p2).touch p3).touchLink next
  let s := { s with
    skbNum := Function.update s.skbNum q (s.skbNum q - 1)
    cbNext := Function.update s.cbNext p2 next }
  let s :=
    match next with
    | none => { s with ofoPrev := Function.update s.ofoPrev q (some p2) }
    | some n => { s with cbPrev := Function.update s.cbPrev n (some p2) }
  s.skbGroFree p3

/-- The result of `skb_gro_merge(p, skb)`, a kernel's `merge` of the two bodies, and the memory after it. -/
def skbGroMerge (merge : Body γ → Body γ → MergeResult γ) (p skb : SkbId) :
    Except Fault (Option MergeError × Napi γ δ) :=
  let s := (s.touch p).touch skb
  match merge (s.body p) (s.body skb) with
  | .overrun => .error .copyOverrun
  | .failed err => .ok (some err, s)
  | .merged b b' =>
    .ok (none, { s with
      body := Function.update (Function.update s.body p b) skb b'
      sameFlow := Function.update s.sameFlow skb true })

/-- One turn of the loop of `skb_gro_flush`: the segment `p` is accounted for and goes up. -/
def flushOne [GroComplete γ] (q : OfoId) (p : SkbId) : Napi γ δ :=
  let s := s.touch p
  let seqNext := (s.ofo q).seqNext
  let s := { s with
    qlen := Function.update s.qlen q (s.qlen q - (s.body p).len)
    skbNum := Function.update s.skbNum q (s.skbNum q - 1)
    ofoNext := Function.update s.ofoNext q (s.cbNext p)
    ofo := Function.update s.ofo q ((s.ofo q).setSeqNext (s.body p).seqEnd) }
  s.napiGroComplete p (.skbGroFlush seqNext)

/-- The end of `skb_gro_flush`: `p2` is the first segment that stays. -/
def flushEnd (q : OfoId) (p2 : Option SkbId) : Napi γ δ :=
  let s := s.touchLink p2
  match p2 with
  | none => { s with ofoPrev := Function.update s.ofoPrev q none }
  | some n => { s with cbPrev := Function.update s.cbPrev n none }

/-- The loop of `skb_gro_flush(ofo_queue, skb)`: give away the segments from `p` up to `skb`. -/
def flushUpTo [GroComplete γ] (q : OfoId) (skb : SkbId) : ℕ → Option SkbId → Napi γ δ → Except Fault (Napi γ δ)
  | _, none, s => .ok s
  | fuel, some p, s =>
    let p2 := s.cbNext p
    let s := s.flushOne q p
    if p = skb then .ok (s.flushEnd q p2)
    else
      match fuel with
      | 0 => .error .diverges
      | fuel + 1 => flushUpTo q skb fuel p2 s

/-- One turn of a loop of `dev_gro_complete`: the segment `p` is accounted for and goes up. -/
def completeOne [GroComplete γ] (q : OfoId) (p : SkbId) : Napi γ δ :=
  let s := (s.touch p).touchLink (s.cbNext p)
  let s :=
    match s.cbNext p with
    | none => s
    | some n => { s with cbPrev := Function.update s.cbPrev n none }
  let s := { s with
    qlen := Function.update s.qlen q (s.qlen q - (s.body p).len)
    skbNum := Function.update s.skbNum q (s.skbNum q - 1)
    ofo := Function.update s.ofo q ((s.ofo q).setSeqNext (maxSeq (s.ofo q).seqNext (s.body p).seqEnd)) }
  s.napiGroComplete p .devGroComplete

/-- The loops of `dev_gro_complete`: give away segments from `p` on while `cond` holds.  Returns the segment where it
stopped and whether any was given away. -/
def completeWhile [GroComplete γ] (cond : OfoDat δ → SkbId → Body γ → Bool) (q : OfoId) :
    ℕ → Option SkbId → Bool → Napi γ δ → Except Fault (Option SkbId × Bool × Napi γ δ)
  | _, none, flushed, s => .ok (none, flushed, s)
  | fuel, some p, flushed, s =>
    let s := s.touch p
    if cond (s.ofo q) p (s.body p) then
      let p2 := s.cbNext p
      let s := s.completeOne q p
      match fuel with
      | 0 => .error .diverges
      | fuel + 1 => completeWhile cond q fuel p2 true s
    else .ok (some p, flushed, s)

/-! ### The free queue objects -/

/-- Take the queue object `q` out of the list of free ones. -/
def unlinkQueue (q : OfoId) : Napi γ δ :=
  let s :=
    match s.prevQueue q with
    | some p => { s with nextQueue := Function.update s.nextQueue p (s.nextQueue q) }
    | none => { s with outOfOrderQueueList := s.nextQueue q }
  match s.nextQueue q with
  | some n => { s with prevQueue := Function.update s.prevQueue n (s.prevQueue q) }
  | none => { s with outOfOrderQueueLast := s.prevQueue q }

/-- Put the queue object `q` in front of the free ones. -/
def pushQueue (q : OfoId) : Napi γ δ :=
  let s := { s with
    prevQueue := Function.update s.prevQueue q none
    nextQueue := Function.update s.nextQueue q s.outOfOrderQueueList }
  let s :=
    match s.outOfOrderQueueList with
    | some x => { s with prevQueue := Function.update s.prevQueue x (some q) }
    | none => { s with outOfOrderQueueLast := some q }
  { s with outOfOrderQueueList := some q }

/-- The loop of `napi_get_tcp_ofo_queue`: the first free queue from `q` on whose hash `fits`; without one, the last
queue it saw, cleared by `reset`. -/
def findQueue (fits : U32 → Bool) (reset : OfoDat δ → OfoDat δ) :
    ℕ → (q last : Option OfoId) → Napi γ δ → Except Fault (OfoId × Napi γ δ)
  | _, none, none, _ => .error .nullDeref
  | _, none, some last, s =>
    .ok (last, { s with
      qlen := Function.update s.qlen last 0
      skbNum := Function.update s.skbNum last 0
      ofo := Function.update s.ofo last (reset (s.ofo last)) })
  | fuel, some q, _, s =>
    if fits (s.ofo q).hash then .ok (q, s)
    else
      match fuel with
      | 0 => .error .diverges
      | fuel + 1 => findQueue fits reset fuel (s.nextQueue q) (some q) s

/-- The loop of `netif_napi_add`: `n` new queue objects, each put in front of the list. -/
def addQueues (clear : OfoDat δ → OfoDat δ) : ℕ → Napi γ δ → Napi γ δ
  | 0, s => s
  | n + 1, s =>
    let s := addQueues clear n s
    let s := { s with
      ofoNext := Function.update s.ofoNext n none
      ofoPrev := Function.update s.ofoPrev n none
      qlen := Function.update s.qlen n 0
      skbNum := Function.update s.skbNum n 0
      ofo := Function.update s.ofo n (clear (s.ofo n)) }
    s.pushQueue n

/-! ### `napi->gro_list` -/

/-- `gro_list_prepare(napi, skb)` from `p` on. -/
def groListPrepare (link : LinkHdr) : ℕ → Option SkbId → Napi γ δ → Except Fault (Napi γ δ)
  | _, none, s => .ok s
  | fuel, some p, s =>
    let s := s.touch p
    let s := { s with
      flush := Function.update s.flush p false
      sameFlow := Function.update s.sameFlow p (decide ((s.body p).link = link)) }
    match fuel with
    | 0 => .error .diverges
    | fuel + 1 => groListPrepare link fuel (s.next p) s

/-- The search of `tcp_gro_receive` from `head` on for the flow with these ports. -/
def findSameFlow (ports : U32) : ℕ → HeadRef → Napi γ δ → Except Fault (Option (HeadRef × SkbId) × Napi γ δ)
  | fuel, head, s =>
    match s.readHead head with
    | none => .ok (none, s)
    | some p =>
      let s := s.touch p
      let matches' := s.sameFlow p && ports == (s.body p).tcp.ports
      if matches' then .ok (some (head, p), s)
      else
        let s := { s with sameFlow := Function.update s.sameFlow p false }
        match fuel with
        | 0 => .error .diverges
        | fuel + 1 => findSameFlow ports fuel (.next p) s

/-- "locate the end of the list to select the 'oldest' flow": the last buffer from `nskb` on and the link to it. -/
def findOldest : ℕ → Option HeadRef → SkbId → Napi γ δ → Except Fault (Option HeadRef × SkbId)
  | fuel, pp, nskb, s =>
    match s.next nskb with
    | none => .ok (pp, nskb)
    | some n =>
      match fuel with
      | 0 => .error .diverges
      | fuel + 1 => findOldest fuel (some (.next nskb)) n s

/-- `if (prev) prev->next = x;` in the second loop of `napi_gro_flush`. -/
def setPrevNext (prev x : Option SkbId) : Napi γ δ :=
  match prev with
  | none => s
  | some p => { s.touch p with next := Function.update s.next p x }

/-- The first loop of `napi_gro_flush`: `skb->prev` of every buffer from `skb` on.  Returns the last one. -/
def reverseChain : ℕ → (skb prev : Option SkbId) → Napi γ δ → Except Fault (Option SkbId × Napi γ δ)
  | _, none, prev, s => .ok (prev, s)
  | fuel, some skb, prev, s =>
    let s := { s.touch skb with prev := Function.update s.prev skb prev }
    match fuel with
    | 0 => .error .diverges
    | fuel + 1 => reverseChain fuel (s.next skb) (some skb) s

end Napi

end PacketReordering.Gro
