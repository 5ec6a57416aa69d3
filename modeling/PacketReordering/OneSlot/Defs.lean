import PacketReordering.Lib.Runs
import Mathlib.Data.Int.Notation

/-!
# The one-slot netfilter queue handlers

`kernel_modules/reorder_fedora`, `kernel_modules/dupack_drop_fedora`, `kernel_modules/dupack_drop` and
`kernel_modules/sender_reorder_3.2`: each handler retains at most one entry, in `entry_saved`.

* `Slot` — `entry_saved` and the verdicts given so far, which they have in common;
* `reorderQueueEnqueuePacket`, `dupackDropEnqueuePacket`, `DupackDrop.dupackDropEnqueuePacket`,
  `senderReorderEnqueuePacket` — the handlers.
-/

namespace PacketReordering.OneSlot

abbrev U32 := BitVec 32

/-- `(__s32)x` -/
def s32 (x : U32) : ℤ := x.toInt

/-- A `struct nf_queue_entry`: its identity and the header fields that the handlers read. -/
structure NfQueueEntry where
  id : ℕ
  syn : Bool
  fin : Bool
  urg : Bool
  rst : Bool
  psh : Bool
  seq : U32
  ackSeq : U32
  totLen : BitVec 16
  ihl : BitVec 4
  doff : BitVec 4
  deriving DecidableEq, Repr

/-- `(__u32)be16_to_cpu(ip_header->tot_len) - (((__u32)ip_header->ihl)<<2) - (((__u32)tcp_header->doff)<<2)` -/
def NfQueueEntry.length (e : NfQueueEntry) : U32 :=
  e.totLen.setWidth 32 - (e.ihl.setWidth 32 <<< 2) - (e.doff.setWidth 32 <<< 2)

inductive Verdict
  | nfAccept
  | nfDrop
  deriving DecidableEq, Repr

inductive Fault
  /-- a `NULL` pointer was dereferenced -/
  | nullDeref
  deriving DecidableEq, Repr

/-- `entry_saved` and what was handed to `nf_reinject`. -/
structure Slot where
  entrySaved : Option NfQueueEntry
  verdicts : List (NfQueueEntry × Verdict)
  deriving DecidableEq, Repr

namespace Slot

/-- The slot when a module is loaded. -/
def init : Slot := ⟨none, []⟩

/-- `nf_reinject(entry, verdict)` -/
def nfReinject (t : Slot) (e : NfQueueEntry) (v : Verdict) : Slot := { t with verdicts := t.verdicts ++ [(e, v)] }

/-- `nf_reinject(entry_saved, verdict)` -/
def reinjectSaved (t : Slot) (v : Verdict) : Except Fault Slot :=
  match t.entrySaved with
  | none => .error .nullDeref
  | some e => .ok (t.nfReinject e v)

end Slot

/-! ### `reorder_fedora` -/

/-- The globals of `reorder_fedora`. -/
structure ReorderFedora extends Slot where
  seqNext : U32
  seqSaved : U32
  lengthSaved : U32
  hasReorder : Bool
  deriving DecidableEq, Repr

def ReorderFedora.init : ReorderFedora := ⟨Slot.init, 0, 0, 0, false⟩

def reorderQueueEnqueuePacket (s : ReorderFedora) (e : NfQueueEntry) : Except Fault ReorderFedora :=
  if e.syn then
    .ok { s with seqNext := e.seq + 1, hasReorder := false, toSlot := s.nfReinject e .nfAccept }
  else if e.length = 0 then
    if s.hasReorder then
      (s.reinjectSaved .nfAccept).map fun t => { s with hasReorder := false, toSlot := t.nfReinject e .nfAccept }
    else .ok { s with toSlot := s.nfReinject e .nfAccept }
  else if s32 (e.seq - s.seqNext) < 0 then .ok { s with toSlot := s.nfReinject e .nfAccept }
  else if !s.hasReorder then
    if e.seq = s.seqNext then .ok { s with seqNext := e.seq + e.length, toSlot := s.nfReinject e .nfAccept }
    else .ok { s with entrySaved := some e, seqSaved := e.seq, lengthSaved := e.length, hasReorder := true }
  else
    let seqNext :=
      if s32 (e.seq + e.length - s.seqSaved - s.lengthSaved) < 0 then s.seqSaved + s.lengthSaved
      else e.seq + e.length
    let slot :=
      if s32 (e.seq - s.seqSaved) < 0 then (s.nfReinject e .nfAccept).reinjectSaved .nfAccept
      else (s.reinjectSaved .nfAccept).map fun t => t.nfReinject e .nfAccept
    slot.map fun t => { s with seqNext := seqNext, hasReorder := false, toSlot := t }

/-! ### `dupack_drop_fedora` -/

/-- The globals of `dupack_drop_fedora`. -/
structure DupackDropFedora extends Slot where
  ackSeqOld : U32
  dupackCount : U32
  deriving DecidableEq, Repr

def DupackDropFedora.init : DupackDropFedora := ⟨Slot.init, 0, 0⟩

def dupackDropEnqueuePacket (s : DupackDropFedora) (e : NfQueueEntry) : Except Fault DupackDropFedora :=
  if e.syn then
    .ok { s with ackSeqOld := e.ackSeq, dupackCount := 0, toSlot := s.nfReinject e .nfAccept }
  else if s32 (e.ackSeq - s.ackSeqOld) > 0 then
    let slot := if s.dupackCount = 1 then s.reinjectSaved .nfDrop else .ok s.toSlot
    slot.map fun t => { s with ackSeqOld := e.ackSeq, dupackCount := 0, toSlot := t.nfReinject e .nfAccept }
  else if e.ackSeq = s.ackSeqOld then
    if s.dupackCount = 0 then .ok { s with entrySaved := some e, dupackCount := 1 }
    else if s.dupackCount = 1 then
      (s.reinjectSaved .nfAccept).map fun t => { s with dupackCount := 2, toSlot := t.nfReinject e .nfAccept }
    else .ok { s with toSlot := s.nfReinject e .nfAccept }
  else .ok { s with toSlot := s.nfReinject e .nfAccept }

/-! ### `dupack_drop` -/

/-- The globals of `dupack_drop` are those of `dupack_drop_fedora`. -/
abbrev DupackDrop := DupackDropFedora

/-- This handler compares the ACK numbers without a sign. -/
def DupackDrop.dupackDropEnqueuePacket (s : DupackDrop) (e : NfQueueEntry) : Except Fault DupackDrop :=
  if e.syn then
    .ok { s with ackSeqOld := e.ackSeq, dupackCount := 0, toSlot := s.nfReinject e .nfAccept }
  else if e.ackSeq > s.ackSeqOld then
    let slot := if s.dupackCount = 1 then s.reinjectSaved .nfDrop else .ok s.toSlot
    slot.map fun t => { s with ackSeqOld := e.ackSeq, dupackCount := 0, toSlot := t.nfReinject e .nfAccept }
  else if e.ackSeq = s.ackSeqOld then
    if s.dupackCount = 0 then .ok { s with entrySaved := some e, dupackCount := 1 }
    else if s.dupackCount = 1 then
      (s.reinjectSaved .nfAccept).map fun t => { s with dupackCount := 2, toSlot := t.nfReinject e .nfAccept }
    else .ok { s with toSlot := s.nfReinject e .nfAccept }
  else .ok { s with toSlot := s.nfReinject e .nfAccept }

/-! ### `sender_reorder_3.2` -/

def senderReorderEnqueuePacket (s : Slot) (e : NfQueueEntry) : Except Fault Slot :=
  if e.syn || e.fin || e.urg || e.rst || e.psh then
    match s.entrySaved with
    | none => .ok (s.nfReinject e .nfAccept)
    | some saved => .ok ({ s.nfReinject saved .nfAccept with entrySaved := none }.nfReinject e .nfAccept)
  else
    match s.entrySaved with
    | none => .ok { s with entrySaved := some e }
    | some saved => .ok { (s.nfReinject e .nfAccept).nfReinject saved .nfAccept with entrySaved := none }

end PacketReordering.OneSlot
