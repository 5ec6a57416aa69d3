import PacketReordering.Lib.Ring
import PacketReordering.Lib.Runs

/-!
# `linux-4.1-gro_table`: the flow table

Receive offload with a table of flows: `gro_get_flow_entry` looks a flow up in the bucket of its hash, and
`gro_evict_and_init_flow_entry` takes the entry of another flow for it.  An entry is on two lists at once, that of its
bucket and one of `inactive_list`, `active_list` and `loss_recovery_list`; the functions on lists act on the heads they
name.

* `FlowEntry`, `Skb`, `Napi` — the data;
* `groGetFlowEntry`, `groEvictAndInitFlowEntry` — the functions;
* `step` — what `dev_gro_receive` does with a packet to come to its entry.
-/

namespace PacketReordering.GroTable

open Lib

abbrev U8 := BitVec 8
abbrev U16 := BitVec 16
abbrev U32 := BitVec 32
abbrev U64 := BitVec 64

abbrev EntryId := ℕ
abbrev SkbId := ℕ

/-- `struct net_device *` -/
abbrev Dev := ℕ

/-- `ETH_HLEN` -/
def ethHlen : ℕ := 14

abbrev MacHeader := Vector U8 ethHlen

/-! ### The data -/

/-- The phase of an entry; `void` is the one of an entry that was never given to a flow. -/
inductive Phase
  | void | build | active | inactive | lossRecovery
  deriving DecidableEq, Repr, Inhabited

/-- `struct gro_flow_entry`, without its two `struct list_head`. -/
structure FlowEntry where
  hash : U32
  dev : Dev
  vlanTci : U16
  macHeader : MacHeader
  ipSrc : U32
  ipDst : U32
  tcpSrc : U16
  tcpDst : U16
  seqNext : U32
  flushTimestamp : U64
  phase : Phase
  outOfOrderQueue : List SkbId
  deriving DecidableEq

/-- What the functions use of a packet and its headers. -/
structure Skb where
  hash : U32
  dev : Dev
  vlanTci : U16
  macHeader : MacHeader
  saddr : U32
  daddr : U32
  source : U16
  dest : U16
  /-- `NAPI_GRO_CB(skb)->seq` -/
  seq : U32
  /-- `NAPI_GRO_CB(skb)->count` -/
  count : U16
  cwr : Bool
  gsoSize : U16
  gsoSegs : U16
  /-- `gso_type & SKB_GSO_TCPV4` -/
  gsoTcpv4 : Bool
  /-- `gso_type & SKB_GSO_TCP_ECN` -/
  gsoTcpEcn : Bool
  /-- `ip_summed == CHECKSUM_PARTIAL` -/
  checksumPartial : Bool
  deriving DecidableEq

/-- `GRO_TABLE_SIZE` -/
def groTableSize : ℕ := 32

/-- `GRO_TABLE_MASK` -/
def groTableMask : U32 := 0x1f

/-- `hash & GRO_TABLE_MASK` -/
def bucketOf (hash : U32) : Fin groTableSize :=
  ⟨(hash &&& groTableMask).toNat, by
    rw [BitVec.toNat_and]
    exact Nat.lt_of_le_of_lt Nat.and_le_right (by decide)⟩

/-- The `struct list_head`s: those of `napi_struct`, and two in every entry. -/
inductive ListHead
  | groTable (i : Fin groTableSize)
  | activeList
  | inactiveList
  | lossRecoveryList
  | groTableList (e : EntryId)
  | flowManagementList (e : EntryId)
  deriving DecidableEq

/-- `struct napi_struct` with the entries and buffers it points to.  There are `entries` entries, and `up` are the
buffers handed to the stack. -/
structure Napi where
  links : Links ListHead
  entries : ℕ
  entry : EntryId → FlowEntry
  skb : SkbId → Skb
  up : List SkbId

inductive Fault
  /-- a list that does not come back to its head -/
  | diverges
  /-- `list_entry` of a list head that is in no entry -/
  | notAnEntry
  deriving DecidableEq, Repr

namespace Napi

def setEntry (s : Napi) (e : EntryId) (d : FlowEntry) : Napi := { s with entry := Function.update s.entry e d }

end Napi

/-! ### `gro_flush_skb` -/

/-- What `gro_flush_skb` makes of the buffer; it writes checksums and a length, too. -/
def flushedSkb (b : Skb) : Skb :=
  if b.count = 1 then { b with gsoSize := 0 }
  else { b with gsoTcpv4 := true, checksumPartial := true, gsoSegs := b.count, gsoTcpEcn := b.gsoTcpEcn || b.cwr }

/-- `gro_flush_skb(skb)` -/
def groFlushSkb (s : Napi) (k : SkbId) : Napi :=
  { s with skb := Function.update s.skb k (flushedSkb (s.skb k)), up := s.up ++ [k] }

/-! ### `gro_get_flow_entry` -/

/-- The entry is the one of the packet's flow. -/
def sameFlow (d : FlowEntry) (b : Skb) : Bool :=
  d.hash == b.hash && d.dev == b.dev && d.vlanTci == b.vlanTci && d.macHeader == b.macHeader && d.ipSrc == b.saddr &&
    d.ipDst == b.daddr && d.tcpSrc == b.source && d.tcpDst == b.dest

/-- The loop of `gro_get_flow_entry` along the bucket `head`, from `cursor` on. -/
def findFlowEntry (s : Napi) (b : Skb) (head : ListHead) : ℕ → ListHead → Except Fault (Option EntryId)
  | fuel, cursor =>
    if cursor = head then .ok none
    else
      match cursor with
      | .groTableList e =>
        if sameFlow (s.entry e) b then .ok (some e)
        else
          match fuel with
          | 0 => .error .diverges
          | fuel + 1 => findFlowEntry s b head fuel (s.links.next cursor)
      | _ => .error .notAnEntry

/-- `gro_get_flow_entry(napi, skb)` -/
def groGetFlowEntry (s : Napi) (b : Skb) : Except Fault (Option EntryId) :=
  let groTableList := ListHead.groTable (bucketOf b.hash)
  findFlowEntry s b groTableList s.entries (s.links.next groTableList)

/-! ### `gro_evict_and_init_flow_entry` -/

/-- `list_entry(cursor, struct gro_flow_entry, flow_management_list)` -/
def managementEntry : ListHead → Except Fault EntryId
  | .flowManagementList e => .ok e
  | _ => .error .notAnEntry

/-- The entry that has to go. -/
def evictedEntry (s : Napi) : Except Fault EntryId :=
  if !listEmpty .inactiveList s.links then managementEntry (s.links.prev .inactiveList)
  else if !listEmpty .activeList s.links then managementEntry (s.links.prev .activeList)
  else managementEntry (s.links.prev .lossRecoveryList)

/-- "List management." -/
def relist (e : EntryId) (groTableList : ListHead) (l : Links ListHead) : Links ListHead :=
  let l := listDelInit (.groTableList e) l
  let l := listDelInit (.flowManagementList e) l
  let l := listAdd (.groTableList e) groTableList l
  listAdd (.flowManagementList e) .activeList l

/-- "Clear out of order queue": `skb_dequeue` until the queue, now `q`, is empty. -/
def clearOutOfOrderQueue (e : EntryId) : List SkbId → Napi → Napi
  | [], s => s
  | k :: q, s => clearOutOfOrderQueue e q (groFlushSkb (s.setEntry e { s.entry e with outOfOrderQueue := q }) k)

/-- "Initialize flow." -/
def initEntry (d : FlowEntry) (b : Skb) (timestamp : U64) : FlowEntry :=
  { d with
    hash := b.hash
    dev := b.dev
    vlanTci := b.vlanTci
    macHeader := b.macHeader
    ipSrc := b.saddr
    ipDst := b.daddr
    tcpSrc := b.source
    tcpDst := b.dest
    seqNext := b.seq
    flushTimestamp := timestamp
    phase := .build }

/-- `gro_evict_and_init_flow_entry(napi, skb)` -/
def groEvictAndInitFlowEntry (s : Napi) (b : Skb) (timestamp : U64) : Except Fault (EntryId × Napi) :=
  let groTableList := ListHead.groTable (bucketOf b.hash)
  match evictedEntry s with
  | .error f => .error f
  | .ok e =>
    let s := { s with links := relist e groTableList s.links }
    let s := clearOutOfOrderQueue e (s.entry e).outOfOrderQueue s
    .ok (e, s.setEntry e (initEntry (s.entry e) b timestamp))

/-! ### `dev_gro_receive` -/

/-- A packet, and the `ktime_get()` it may cause. -/
structure Packet where
  skb : Skb
  ktime : U64

/-- "Get flow_entry." -/
def getFlowEntry (s : Napi) (p : Packet) : Except Fault (EntryId × Napi) :=
  match groGetFlowEntry s p.skb with
  | .error f => .error f
  | .ok (some e) => .ok (e, s)
  | .ok none => groEvictAndInitFlowEntry s p.skb p.ktime

/-- A packet. -/
def step (s : Napi) (p : Packet) : Except Fault Napi := (getFlowEntry s p).map Prod.snd

end PacketReordering.GroTable
