import PacketReordering.Lib.Serial
import Mathlib.Algebra.BigOperators.Group.List.Basic

/-!
# Packet buffers

What generic receive offload reads and writes of one `struct sk_buff`: its data, its headers and its control block
`NAPI_GRO_CB(skb)`.  Links to other buffers are not here but in `Gro.Memory`.  The two kernels share these
definitions; the control block fields that only one of them has are the parameter `γ`.

* `Body` — one buffer;
* `Body.tcpHeader` — the header checks at the start of `tcp_gro_receive`;
* `mergeData` — the part of `skb_gro_merge` that moves the payload from one buffer to another;
* `Body.pull` — `gro_pull_from_frag0`.
-/

namespace PacketReordering.Gro

open Lib

abbrev U8 := BitVec 8
abbrev U16 := BitVec 16
abbrev U32 := BitVec 32
abbrev U64 := BitVec 64

/-- `before(seq1, seq2)` -/
def before (seq1 seq2 : U32) : Bool := decide (SerialLT seq1 seq2)

/-- `after(seq2, seq1)` -/
def after (seq2 seq1 : U32) : Bool := before seq1 seq2

def maxSeq (seq1 seq2 : U32) : U32 := if before seq1 seq2 then seq2 else seq1

theorem before_self (seq : U32) : before seq seq = false := by
  simp [before, SerialLT]

/-! ### Headers -/

def tcpFlagCwr : U32 := 0x00800000
def tcpFlagEce : U32 := 0x00400000
def tcpFlagUrg : U32 := 0x00200000
def tcpFlagAck : U32 := 0x00100000
def tcpFlagPsh : U32 := 0x00080000
def tcpFlagRst : U32 := 0x00040000
def tcpFlagSyn : U32 := 0x00020000
def tcpFlagFin : U32 := 0x00010000

/-- `flags & mask` as a truth value. -/
def hasFlag (flags mask : U32) : Bool := flags &&& mask != 0

/-- What `gro_list_prepare` compares: the receive hash, the device, the VLAN tag and the MAC header. -/
structure LinkHdr where
  hash : U32
  dev : ℕ
  vlanTci : U16
  mac : List U8
  deriving DecidableEq, Repr, Inhabited

/-- A `struct iphdr`; `badCsum` is the outcome of `ip_fast_csum`. -/
structure IpHdr where
  verIhl : U8
  tos : U8
  totLen : U16
  fragOff : U16
  ttl : U8
  protocol : U8
  saddr : U32
  daddr : U32
  badCsum : Bool
  deriving DecidableEq, Repr, Inhabited

/-- A `struct tcphdr`: `ports` is the word of `source` and `dest`, `flagWord` the word of `doff`, the flags and the
window, `opts` the words behind the fixed header. -/
structure TcpHdr where
  ports : U32
  seq : U32
  ackSeq : U32
  flagWord : U32
  opts : List U32
  deriving DecidableEq, Repr, Inhabited

def TcpHdr.doff (th : TcpHdr) : ℕ := (th.flagWord >>> 28).toNat

/-- `th->doff * 4` -/
def TcpHdr.thlen (th : TcpHdr) : ℕ := th.doff * 4

def TcpHdr.psh (th : TcpHdr) : Bool := hasFlag th.flagWord tcpFlagPsh

/-! ### Buffers -/

structure Frag where
  page : ℕ
  pageOffset : ℕ
  size : ℕ
  deriving DecidableEq, Repr, Inhabited

/-- A received packet whose payload a buffer carries, with its headers; `isTcp` says that its TCP header was found. -/
structure Part where
  uid : ℕ
  isTcp : Bool
  ports : U32
  seq : U32
  len : U32
  flagWord : U32
  ip : IpHdr
  ackSeq : U32
  opts : List U32
  deriving DecidableEq, Repr, Inhabited

def Part.doff (c : Part) : ℕ := (c.flagWord >>> 28).toNat

/-- `NAPI_GRO_CB(skb)->free` -/
inductive GroFree
  | no
  | free
  | stolenHead
  deriving DecidableEq, Repr, Inhabited

/-- A buffer.  `uid` names the packet it was received as and `parts` records, in the order of the payload, the packets
that were merged into it; the code has neither.  `headPage` and `headData` place `skb->data` in its page. -/
structure Body (γ : Type) where
  uid : ℕ
  parts : List Part
  link : LinkHdr
  ip : IpHdr
  tcp : TcpHdr
  badTcpCsum : Bool
  headlen : ℕ
  headFrag : Bool
  headPage : ℕ
  headData : ℕ
  frags : List Frag
  gsoSize : U16
  dataOffset : ℕ
  frag0Len : ℕ
  count : U16
  free : GroFree
  isTcp : Bool
  seq : U32
  len : U32
  tcpHash : U32
  ext : γ
  deriving DecidableEq, Repr, Inhabited

namespace Body

variable {γ : Type}

/-- `skb->data_len` -/
def dataLen (b : Body γ) : ℕ := (b.frags.map Frag.size).sum

/-- `skb->len` -/
def skbLen (b : Body γ) : ℕ := b.headlen + b.dataLen

/-- `skb_gro_len(skb)` -/
def groLen (b : Body γ) : ℕ := b.skbLen - b.dataOffset

/-- The packet in the buffer, with the part of it that receive offload has not gone past. -/
def part (b : Body γ) : Part where
  uid := b.uid
  isTcp := false
  ports := b.tcp.ports
  seq := b.tcp.seq
  len := BitVec.ofNat 32 b.groLen
  flagWord := b.tcp.flagWord
  ip := b.ip
  ackSeq := b.tcp.ackSeq
  opts := b.tcp.opts

/-- The sequence number after the payload. -/
def seqEnd (b : Body γ) : U32 := b.seq + b.len

/-- The fragments after `eat` bytes went from them to the linear part. -/
def eatFrags : ℕ → List Frag → List Frag
  | _, [] => []
  | eat, f :: fs =>
    if f.size ≤ eat then eatFrags (eat - f.size) fs
    else { f with pageOffset := f.pageOffset + eat, size := f.size - eat } :: eatFrags 0 fs

/-- `pskb_may_pull(skb, hlen)` -/
def pskbMayPull (b : Body γ) (hlen : ℕ) : Option (Body γ) :=
  if hlen ≤ b.headlen then some b
  else if hlen ≤ b.skbLen then some { b with headlen := hlen, frags := eatFrags (hlen - b.headlen) b.frags }
  else none

/-- `skb_gro_header_fast` and, when `skb_gro_header_hard` says so, `skb_gro_header_slow`. -/
def groHeader (b : Body γ) (hlen : ℕ) : Option (Body γ) :=
  if b.frag0Len < hlen then (b.pskbMayPull hlen).map fun b => { b with frag0Len := 0 } else some b

/-- The start of `tcp_gro_receive`, up to the control block: the buffer after it, and whether the header was there. -/
def tcpHeader (b : Body γ) : Body γ × Bool :=
  let off := b.dataOffset
  match b.groHeader (off + 20) with
  | none => (b, false)
  | some b =>
    if b.tcp.thlen < 20 then (b, false)
    else
      match b.groHeader (off + b.tcp.thlen) with
      | none => (b, false)
      | some b =>
        let b := { b with dataOffset := off + b.tcp.thlen }
        let len := BitVec.ofNat 32 b.groLen
        ({ b with
            count := 1, seq := b.tcp.seq, len := len, tcpHash := b.tcp.ports
            parts := [{ b.part with isTcp := true }] }, true)

/-- What the checks of the headers leave as it was. -/
structure SameHeaders (b b' : Body γ) : Prop where
  uid : b'.uid = b.uid
  link : b'.link = b.link
  ip : b'.ip = b.ip
  tcp : b'.tcp = b.tcp
  free : b'.free = b.free
  isTcp : b'.isTcp = b.isTcp
  ext : b'.ext = b.ext
  named : b.parts.map Part.uid = [b.uid] → b'.parts.map Part.uid = [b'.uid]

theorem SameHeaders.refl (b : Body γ) : SameHeaders b b := ⟨rfl, rfl, rfl, rfl, rfl, rfl, rfl, fun h => h⟩

theorem SameHeaders.trans {b c d : Body γ} (h : SameHeaders b c) (h' : SameHeaders c d) : SameHeaders b d :=
  ⟨h'.uid.trans h.uid, h'.link.trans h.link, h'.ip.trans h.ip, h'.tcp.trans h.tcp, h'.free.trans h.free,
    h'.isTcp.trans h.isTcp, h'.ext.trans h.ext, fun hb => h'.named (h.named hb)⟩

/-- Looking at a header may move bytes to the linear part, and touches nothing else. -/
theorem groHeader_some {b b' : Body γ} {hlen : ℕ} (h : b.groHeader hlen = some b') :
    ∃ headlen frags frag0Len, b' = { b with headlen := headlen, frags := frags, frag0Len := frag0Len } := by
  unfold groHeader pskbMayPull at h
  split at h
  · split at h
    · cases h
      exact ⟨b.headlen, b.frags, 0, rfl⟩
    · split at h
      · cases h
        exact ⟨hlen, eatFrags (hlen - b.headlen) b.frags, 0, rfl⟩
      · cases h
  · cases h
    exact ⟨b.headlen, b.frags, b.frag0Len, rfl⟩

theorem groHeader_sameHeaders {b b' : Body γ} {hlen : ℕ} (h : b.groHeader hlen = some b') : SameHeaders b b' := by
  obtain ⟨headlen, frags, frag0Len, rfl⟩ := groHeader_some h
  exact ⟨rfl, rfl, rfl, rfl, rfl, rfl, rfl, fun h => h⟩

theorem tcpHeader_cases (b : Body γ) :
    (∃ c, SameHeaders b c ∧ b.tcpHeader = (c, false)) ∨
      ∃ c d : Body γ, SameHeaders b c ∧ 20 ≤ c.tcp.thlen ∧ d = { c with dataOffset := b.dataOffset + c.tcp.thlen } ∧
        b.tcpHeader = ({ d with
          count := 1, seq := d.tcp.seq, len := BitVec.ofNat 32 d.groLen, tcpHash := d.tcp.ports
          parts := [{ d.part with isTcp := true }] }, true) := by
  cases hc : b.groHeader (b.dataOffset + 20) with
  | none => exact Or.inl ⟨b, SameHeaders.refl b, by simp only [tcpHeader, hc]⟩
  | some c =>
    have hbc := groHeader_sameHeaders hc
    by_cases hlen : c.tcp.thlen < 20
    · exact Or.inl ⟨c, hbc, by simp only [tcpHeader, hc, if_pos hlen]⟩
    · cases hd : c.groHeader (b.dataOffset + c.tcp.thlen) with
      | none => exact Or.inl ⟨c, hbc, by simp only [tcpHeader, hc, if_neg hlen, hd]⟩
      | some d =>
        have hcd := groHeader_sameHeaders hd
        refine Or.inr ⟨d, _, hbc.trans hcd, ?_, rfl, ?_⟩
        · rw [hcd.tcp]
          omega
        · simp only [tcpHeader, hc, if_neg hlen, hd, hcd.tcp]

theorem tcpHeader_sameHeaders (b : Body γ) : SameHeaders b b.tcpHeader.1 := by
  rcases tcpHeader_cases b with ⟨c, hbc, h⟩ | ⟨c, d, hbc, -, rfl, h⟩
  · rw [h]
    exact hbc
  · rw [h]
    exact hbc.trans ⟨rfl, rfl, rfl, rfl, rfl, rfl, rfl, fun _ => rfl⟩

/-- The control block of a packet whose TCP header is there. -/
theorem tcpHeader_ok {b b' : Body γ} (h : b.tcpHeader = (b', true)) :
    b'.seq = b'.tcp.seq ∧ b'.len = BitVec.ofNat 32 b'.groLen ∧ b'.tcpHash = b'.tcp.ports ∧ b'.count = 1 ∧
      b'.parts = [{ b'.part with isTcp := true }] ∧ 20 ≤ b'.tcp.thlen ∧
      b'.dataOffset = b.dataOffset + b'.tcp.thlen := by
  rcases tcpHeader_cases b with ⟨c, -, hc⟩ | ⟨c, d, -, hlen, rfl, hd⟩
  · rw [hc] at h
    cases h
  · rw [hd] at h
    cases h
    exact ⟨rfl, rfl, rfl, rfl, rfl, hlen, rfl⟩

/-- `gro_pull_from_frag0(skb, grow)` -/
def pullFromFrag0 (b : Body γ) (grow : ℕ) : Body γ :=
  { b with
    headlen := b.headlen + grow
    frags :=
      match b.frags with
      | [] => []
      | f :: fs =>
        if f.size - grow = 0 then fs
        else { f with pageOffset := f.pageOffset + grow, size := f.size - grow } :: fs }

/-- The step `pull:` of `dev_gro_receive`. -/
def pull (b : Body γ) : Body γ :=
  if b.headlen < b.dataOffset then b.pullFromFrag0 (b.dataOffset - b.headlen) else b

end Body

/-! ### Merging -/

/-- Why `skb_gro_merge` refuses: `SKB_MERGE_2BIG`, `SKB_MERGE_INVAL`, `SKB_MERGE_FAIL`. -/
inductive MergeError
  | tooBig
  | inval
  | fail
  deriving DecidableEq, Repr

/-- What a call of `skb_gro_merge(p, skb)` comes to.  In `overrun` its copy loop leaves the arrays. -/
inductive MergeResult (γ : Type)
  | merged (p skb : Body γ)
  | failed (err : MergeError)
  | overrun

/-- The merge succeeds. -/
def MergeResult.isMerged {γ : Type} : MergeResult γ → Bool
  | .merged _ _ => true
  | _ => false

/-- `do { *--frag = *--frag2; } while (--i);` entered with `i` descriptors to copy from `frags2` and `frag` pointing at
index `frag` of `frags`.  With `i = 0` the counter passes zero and the loop leaves the arrays. -/
def copyFrags {φ : Type} (frags2 : ℕ → φ) : (i frag : ℕ) → (frags : ℕ → φ) → Option (ℕ → φ)
  | 0, _, _ => none
  | i + 1, frag, frags =>
    let frags := fun j => if j = frag - 1 then frags2 i else frags j
    if i = 0 then some frags else copyFrags frags2 i (frag - 1) frags

/-- The array of descriptors behind a list of them. -/
def fragArray (frags : List Frag) (j : ℕ) : Frag := frags.getD j ⟨0, 0, 0⟩

section

variable {γ : Type}

/-- The buffer `p` with the payload of `skb` behind its own and the descriptors `frags`. -/
def Body.append (p skb : Body γ) (frags : List Frag) : Body γ :=
  { p with frags := frags, count := p.count + skb.count, len := p.len + skb.len, parts := p.parts ++ skb.parts }

/-- The part of `skb_gro_merge(p, skb)` after the checks: append the payload of `skb` to `p`. -/
def mergeData (maxSkbFrags : ℕ) (p skb : Body γ) : MergeResult γ :=
  if p.skbLen + skb.groLen ≥ 65536 then .failed .tooBig
  else if skb.headlen ≤ skb.dataOffset then
    let i := skb.frags.length
    let nrFrags := p.frags.length + i
    if nrFrags > maxSkbFrags then .failed .tooBig
    else
      match copyFrags (fragArray skb.frags) i nrFrags (fragArray p.frags) with
      | none => .overrun
      | some frags =>
        let offset := skb.dataOffset - skb.headlen
        let frags := ((List.range nrFrags).map frags).modify p.frags.length fun frag =>
          { frag with pageOffset := frag.pageOffset + offset, size := frag.size - offset }
        .merged (p.append skb frags) { skb with frags := [], free := .free }
  else if skb.headFrag then
    if p.frags.length + 1 + skb.frags.length > maxSkbFrags then .failed .tooBig
    else
      let frag := ⟨skb.headPage, skb.headData + skb.dataOffset, skb.headlen - skb.dataOffset⟩
      .merged (p.append skb (p.frags ++ frag :: skb.frags)) { skb with free := .stolenHead }
  else .failed .inval

theorem mergeData_merged {n : ℕ} {p skb p' skb' : Body γ} (h : mergeData n p skb = .merged p' skb') :
    (∃ frags, p' = p.append skb frags) ∧ skb'.free ≠ .no ∧ skb'.len = skb.len := by
  unfold mergeData at h
  split at h
  · cases h
  · split at h
    · -- the fragments of `skb` are copied
      dsimp only at h
      split at h
      · cases h
      · split at h
        · cases h
        · cases h
          exact ⟨⟨_, rfl⟩, by simp, rfl⟩
    · split at h
      · -- the linear part of `skb` becomes a fragment
        split at h
        · cases h
        · cases h
          exact ⟨⟨_, rfl⟩, by simp, rfl⟩
      · cases h

/-- The buffer that gives its payload away keeps its own fields of the control block. -/
theorem mergeData_absorbed {n : ℕ} {p skb p' skb' : Body γ} (h : mergeData n p skb = .merged p' skb') :
    skb'.ext = skb.ext := by
  unfold mergeData at h
  dsimp only at h
  repeat' split at h
  all_goals first | cases h; rfl | cases h

/-! ### The copy loop -/

/-- Entered with `i > 0` the loop writes the `i` descriptors below `frag` and no other. -/
theorem copyFrags_eq {φ : Type} {frags2 frags : ℕ → φ} {i frag : ℕ} (hpos : 0 < i) (hi : i ≤ frag) :
    copyFrags frags2 i frag frags =
      some fun j => if frag - i ≤ j ∧ j < frag then frags2 (j - (frag - i)) else frags j := by
  induction i generalizing frag frags with
  | zero => omega
  | succ i ih =>
    unfold copyFrags
    by_cases h0 : i = 0
    · subst h0
      simp only [if_true, Option.some.injEq]
      funext j
      by_cases hj : j = frag - 1
      · rw [if_pos hj, if_pos (by omega)]
        congr 1
        omega
      · rw [if_neg hj, if_neg (by omega)]
    · simp only [h0, if_false]
      rw [ih (by omega) (by omega)]
      congr 1
      funext j
      by_cases hlow : frag - 1 - i ≤ j ∧ j < frag - 1
      · have hlow' : frag - (i + 1) ≤ j ∧ j < frag := by omega
        rw [if_pos hlow, if_pos hlow']
        congr 1
        omega
      · rw [if_neg hlow]
        by_cases hj : j = frag - 1
        · have htop : frag - (i + 1) ≤ j ∧ j < frag := by omega
          rw [if_pos hj, if_pos htop]
          congr 1
          omega
        · have hout : ¬ (frag - (i + 1) ≤ j ∧ j < frag) := by omega
          rw [if_neg hj, if_neg hout]

theorem copyFrags_none {φ : Type} {frags2 frags : ℕ → φ} {frag : ℕ} : copyFrags frags2 0 frag frags = none := rfl

/-- What the loop leaves in the descriptors of `p`. -/
theorem copyFrags_lists (ps fs : List Frag) (hne : fs ≠ []) :
    (copyFrags (fragArray fs) fs.length (ps.length + fs.length) (fragArray ps)).map
      (fun frags => (List.range (ps.length + fs.length)).map frags) = some (ps ++ fs) := by
  have hpos : 0 < fs.length := List.length_pos_iff.2 hne
  rw [copyFrags_eq hpos (Nat.le_add_left _ _), Option.map_some, Nat.add_sub_cancel]
  congr 1
  apply List.ext_getElem
  · simp
  · intro j hj hj'
    simp only [List.length_map, List.length_range] at hj
    simp only [List.getElem_map, List.getElem_range]
    by_cases hlow : ps.length ≤ j
    · rw [if_pos ⟨by omega, hj⟩, List.getElem_append_right hlow, fragArray, List.getD_eq_getElem?_getD,
        List.getElem?_eq_getElem (by omega), Option.getD_some]
    · rw [if_neg (by omega), List.getElem_append_left (by omega), fragArray, List.getD_eq_getElem?_getD,
        List.getElem?_eq_getElem (by omega), Option.getD_some]

end

end PacketReordering.Gro
