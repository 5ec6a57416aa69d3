import PacketReordering.Lib.Runs
import Mathlib.Data.Int.Notation

/-!
# `kernel_modules/reorder_advanced`: the netfilter reorder queue

The queue handler of `reorder_queue.c` (the code of `reorder_fedora_advanced` is the same) with its global state: a
doubly linked list of held entries from `reorder_queue_head` to `reorder_queue_tail`, their count and `seq_next`.
Nodes live in a store indexed by memory block; the blocks that `kmalloc` ever returned are those below `allocated`.
`nf_reinject(entry, NF_ACCEPT)` appends to `reinjected`; `kfree` puts the node on `freed`, and `touch` records on `stray`
every access to a node that is there.

What `kmalloc` returns is the argument `new` of the handler.  In a `step` it is a block never used before, so that a
node number names one allocation; in a `stepReusing` it may be a freed block.
-/

namespace PacketReordering.ReorderAdvanced

abbrev U32 := BitVec 32
abbrev NodeId := ℕ

/-- `(__s32)x` -/
def s32 (x : U32) : ℤ := x.toInt

/-- A `struct nf_queue_entry`: its identity and the header fields the handler reads. -/
structure NfQueueEntry where
  id : ℕ
  syn : Bool
  seq : U32
  totLen : BitVec 16
  ihl : BitVec 4
  doff : BitVec 4
  deriving DecidableEq, Repr

/-- `(__u32)be16_to_cpu(ip_header->tot_len) - (((__u32)ip_header->ihl)<<2) - (((__u32)tcp_header->doff)<<2)` -/
def NfQueueEntry.length (e : NfQueueEntry) : U32 :=
  e.totLen.setWidth 32 - (e.ihl.setWidth 32 <<< 2) - (e.doff.setWidth 32 <<< 2)

/-- `seq_next_tmp = seq + length` -/
def NfQueueEntry.seqNextTmp (e : NfQueueEntry) : U32 := e.seq + e.length

structure NfQueueEntryNode where
  entry : NfQueueEntry
  seq : U32
  seqNext : U32
  prev : Option NodeId
  next : Option NodeId
  deriving DecidableEq, Repr

/-- `MAX_REORDER_COUNT` -/
def maxReorderCount : U32 := 10

inductive Fault
  /-- a `NULL` pointer was dereferenced -/
  | nullDeref
  /-- a loop over the list did not come to an end -/
  | diverges
  deriving DecidableEq, Repr

/-- The globals of the module. -/
structure State where
  node : NodeId → NfQueueEntryNode
  allocated : ℕ
  freed : List NodeId
  reorderQueueHead : Option NodeId
  reorderQueueTail : Option NodeId
  reorderCount : U32
  seqNext : U32
  reinjected : List NfQueueEntry
  stray : List NodeId

/-- The state when the module is loaded. -/
def State.init : State where
  node _ := ⟨⟨0, false, 0, 0, 0, 0⟩, 0, 0, none, none⟩
  allocated := 0
  freed := []
  reorderQueueHead := none
  reorderQueueTail := none
  reorderCount := 0
  seqNext := 0
  reinjected := []
  stray := []

namespace State

/-- An access to the node `n`. -/
def touch (s : State) (n : NodeId) : State :=
  { s with stray := if n ∈ s.freed then s.stray ++ [n] else s.stray }

/-- `nf_reinject(entry, NF_ACCEPT)` -/
def nfReinject (s : State) (e : NfQueueEntry) : State := { s with reinjected := s.reinjected ++ [e] }

def setNode (s : State) (n : NodeId) (f : NfQueueEntryNode → NfQueueEntryNode) : State :=
  { s.touch n with node := fun m => if m = n then f (s.node n) else s.node m }

/-- `kmalloc` of a node, which returns the block `new`, and the stores that fill it in. -/
def kmalloc (s : State) (new : NodeId) (nd : NfQueueEntryNode) : State :=
  { s with
    node := fun m => if m = new then nd else s.node m
    allocated := max s.allocated (new + 1)
    freed := s.freed.filter (· ≠ new) }

/-- `if ((__s32)(seq_next - x) < 0) seq_next = x;` -/
def raiseSeqNext (s : State) (x : U32) : State := if s32 (s.seqNext - x) < 0 then { s with seqNext := x } else s

/-- `nf_reinject(head->entry); tmp = head; head = head->next; kfree(tmp); reorder_count--;` -/
def popHead (s : State) (h : NodeId) : State :=
  { s.touch h with
    reinjected := s.reinjected ++ [(s.node h).entry]
    reorderQueueHead := (s.node h).next
    freed := h :: s.freed
    reorderCount := s.reorderCount - 1 }

end State

/-- `flush_reorder_queue(stop)`.  The number of nodes ever allocated bounds the loop. -/
def flushReorderQueue (stop : Option NodeId) : ℕ → State → Except Fault State
  | fuel, s =>
    match s.reorderQueueHead with
    | none => .ok { s with reorderQueueTail := none }
    | some h =>
      if some h = stop then .ok s
      else
        match fuel with
        | 0 => .error .diverges
        | fuel + 1 => flushReorderQueue stop fuel { s.popHead h with seqNext := (s.node h).seqNext }

/-- The loop of the in-order branch: re-inject the segments that have become in sequence. -/
def drainInSequence : ℕ → State → Except Fault State
  | fuel, s =>
    match s.reorderQueueHead with
    | none => .ok { s with reorderQueueTail := none }
    | some h =>
      if s32 ((s.node h).seq - s.seqNext) ≤ 0 then
        match fuel with
        | 0 => .error .diverges
        | fuel + 1 => drainInSequence fuel ((s.raiseSeqNext (s.node h).seqNext).popHead h)
      else .ok (s.touch h)

/-- `while (node_tmp != NULL)`: the first node from `node_tmp` on that starts at or after `seq_next_tmp`. -/
def findNode (seqNextTmp : U32) : ℕ → Option NodeId → State → Except Fault (Option NodeId × State)
  | _, none, s => .ok (none, s)
  | fuel, some n, s =>
    if s32 (seqNextTmp - (s.node n).seq) ≤ 0 then .ok (some n, s.touch n)
    else
      match fuel with
      | 0 => .error .diverges
      | fuel + 1 => findNode seqNextTmp fuel (s.node n).next (s.touch n)

/-- The segment overlaps what is queued: flush up to `stop`, re-inject it and raise `seq_next`. -/
def flushAndReinject (stop : Option NodeId) (s : State) (e : NfQueueEntry) : Except Fault State :=
  match flushReorderQueue stop s.allocated s with
  | .ok s => .ok ((s.nfReinject e).raiseSeqNext e.seqNextTmp)
  | .error f => .error f

/-- The entry becomes the only node of the queue. -/
def linkFirst (new : NodeId) (s : State) (e : NfQueueEntry) : State :=
  { s.kmalloc new ⟨e, e.seq, e.seqNextTmp, none, none⟩ with
    reorderQueueHead := some new, reorderQueueTail := some new, reorderCount := 1 }

/-- The entry goes behind `reorder_queue_tail`. -/
def linkLast (new tail : NodeId) (s : State) (e : NfQueueEntry) : State :=
  let s := s.kmalloc new ⟨e, e.seq, e.seqNextTmp, some tail, none⟩
  { s.setNode tail fun nd => { nd with next := some new } with
    reorderQueueTail := some new, reorderCount := s.reorderCount + 1 }

/-- The entry goes in front of `reorder_queue_head`. -/
def linkHead (new head : NodeId) (s : State) (e : NfQueueEntry) : State :=
  let s := s.kmalloc new ⟨e, e.seq, e.seqNextTmp, none, some head⟩
  { s.setNode head fun nd => { nd with prev := some new } with
    reorderQueueHead := some new, reorderCount := s.reorderCount + 1 }

/-- The entry goes in front of the node `n`, whose `prev` is `p`. -/
def linkBetween (new p n : NodeId) (s : State) (e : NfQueueEntry) : State :=
  let s := s.kmalloc new ⟨e, e.seq, e.seqNextTmp, some p, some n⟩
  let s := s.setNode p fun nd => { nd with next := some new }
  { s.setNode n fun nd => { nd with prev := some new } with reorderCount := s.reorderCount + 1 }

/-- The out-of-order branch when the queue is not full: link the segment in. -/
def enqueueOutOfOrder (new : NodeId) (s : State) (e : NfQueueEntry) : Except Fault State :=
  match s.reorderQueueHead with
  | none => .ok (linkFirst new s e)
  | some head =>
    match findNode e.seqNextTmp s.allocated (some head) s with
    | .error f => .error f
    | .ok (none, s) =>
      match s.reorderQueueTail with
      | none => .error .nullDeref
      | some tail =>
        let s := s.touch tail
        if s32 (e.seq - (s.node tail).seqNext) < 0 then flushAndReinject none s e else .ok (linkLast new tail s e)
    | .ok (some n, s) =>
      match (s.node n).prev with
      | none => .ok (linkHead new head s e)
      | some p =>
        let s := s.touch p
        if s32 (e.seq - (s.node p).seqNext) < 0 then flushAndReinject (some n) s e else .ok (linkBetween new p n s e)

def reorderQueueEnqueuePacket (new : NodeId) (s : State) (e : NfQueueEntry) : Except Fault State :=
  if e.syn then
    match flushReorderQueue none s.allocated s with
    | .ok s => .ok ({ s with seqNext := e.seq + 1 }.nfReinject e)
    | .error f => .error f
  else if e.length = 0 then
    match flushReorderQueue none s.allocated s with
    | .ok s => .ok ((s.raiseSeqNext e.seqNextTmp).nfReinject e)
    | .error f => .error f
  else if s32 (e.seqNextTmp - s.seqNext) ≤ 0 then .ok (s.nfReinject e)
  else if s32 (e.seq - s.seqNext) ≤ 0 then
    drainInSequence s.allocated { s.nfReinject e with seqNext := e.seqNextTmp }
  else if s.reorderCount > maxReorderCount then flushAndReinject none s e
  else enqueueOutOfOrder new s e

/-- `hrtimer_callback` -/
def hrtimerCallback (s : State) : Except Fault State := flushReorderQueue none s.allocated s

/-- What the module is called with: a packet from the netfilter queue, or the expiry of its timer. -/
inductive Call
  | packet (e : NfQueueEntry)
  | timer
  deriving DecidableEq, Repr

/-- One call, in which `kmalloc` returns a block that it never returned before. -/
def step (s : State) : Call → Except Fault State
  | .packet e => reorderQueueEnqueuePacket s.allocated s e
  | .timer => hrtimerCallback s

/-- The block that `kmalloc` returns: a freed one, or else one that it never returned before. -/
def State.block (s : State) : Option NodeId → NodeId
  | some i => if i ∈ s.freed then i else s.allocated
  | none => s.allocated

/-- One call, with the freed block that `kmalloc` uses again. -/
def stepReusing (s : State) : Call × Option NodeId → Except Fault State
  | (.packet e, r) => reorderQueueEnqueuePacket (s.block r) s e
  | (.timer, _) => hrtimerCallback s

/-- A run from the loading of the module. -/
abbrev run (cs : List Call) : Except Fault State := Lib.runFrom step State.init cs

/-- A run in which freed blocks are used again. -/
abbrev runReusing (cs : List (Call × Option NodeId)) : Except Fault State := Lib.runFrom stepReusing State.init cs

/-- The entries passed in by a sequence of calls. -/
def entries (cs : List Call) : List NfQueueEntry :=
  cs.filterMap fun
    | .packet e => some e
    | .timer => none

end PacketReordering.ReorderAdvanced
