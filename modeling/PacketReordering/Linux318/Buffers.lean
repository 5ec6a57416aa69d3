import PacketReordering.Linux318.Defs

/-!
# `linux-3.18.5`: `skb_gro_merge` on machine words

`skb_gro_merge` splices the payload of one buffer into the other.  It goes by lengths and offsets of 32 bits.

* `SkBuff`, `SkBuff.skbGroMerge` — the buffers and the function, with the words that the code has;
* `SkBuff.Valid`, `SkBuff.payload` — the buffer invariant, and the bytes that a buffer describes;
* `SkBuff.skbGroMerge_spliced` — the payloads are concatenated, or nothing changes;
* `SkBuff.not_spliced_long` — not so when the sum of the lengths does not fit into a word.
-/

namespace PacketReordering.Linux318

open Gro

/-- A `skb_frag_t`. -/
structure SkbFrag where
  page : ℕ
  pageOffset : U32
  size : U32
  deriving DecidableEq

/-- What `skb_gro_merge` knows of a `struct sk_buff`, with its shared info and its control block.  `data` is the place of
`skb->data` in the page of `skb->head`. -/
structure SkBuff where
  len : U32
  dataLen : U32
  headPage : ℕ
  data : U32
  headFrag : Bool
  nrFrags : ℕ
  frags : ℕ → SkbFrag
  dataOffset : U32
  cbLen : U32
  count : U16
  sameFlow : Bool
  free : GroFree

namespace SkBuff

/-- `skb_headlen(skb)` -/
def headlen (b : SkBuff) : U32 := b.len - b.dataLen

/-- `skb_gro_len(skb)` -/
def groLen (b : SkBuff) : U32 := b.len - b.dataOffset

/-! ### The function -/

/-- `do { *--frag = *--frag2; } while (--i);` with `frag` at this index and `frag2` at the index `i`: the number of turns,
where `frag` is then, and what it leaves in the array of `frag`.  Entered with `i = 0` it leaves the arrays. -/
def copyLoop (frags2 : ℕ → SkbFrag) : (i frag : ℕ) → (ℕ → SkbFrag) → Option (ℕ × ℕ × (ℕ → SkbFrag))
  | 0, _, _ => none
  | i + 1, frag, frags =>
    let frags := fun j => if j = frag - 1 then frags2 i else frags j
    if i = 0 then some (1, frag - 1, frags)
    else (copyLoop frags2 i (frag - 1) frags).map fun r => (r.1 + 1, r.2)

/-- `frag->page_offset += offset; skb_frag_size_sub(frag, offset);` -/
def advance (frag : SkbFrag) (offset : U32) : SkbFrag :=
  { frag with pageOffset := frag.pageOffset + offset, size := frag.size - offset }

/-- The label `done` of `skb_gro_merge`, on `p`. -/
def done (p skb : SkBuff) (len : U32) : SkBuff :=
  { p with
    count := p.count + skb.count, cbLen := p.cbLen + skb.cbLen, dataLen := p.dataLen + len, len := p.len + len }

/-- What a call of `skb_gro_merge` comes to; `err` is missing when it returns 0, and `turns` is what the copy loop took. -/
structure Merge where
  err : Option MergeError
  p : SkBuff
  skb : SkBuff
  turns : ℕ

/-- `skb_gro_merge(p, skb)` -/
def skbGroMerge (p skb : SkBuff) : Option Merge :=
  let offset := skb.dataOffset
  let headlen := skb.headlen
  let len := skb.groLen
  if 65536#32 ≤ p.len + len then some ⟨some .tooBig, p, skb, 0⟩
  else if headlen ≤ offset then
    let nrFrags := p.nrFrags + skb.nrFrags
    if maxSkbFrags < nrFrags then some ⟨some .tooBig, p, skb, 0⟩
    else
      let offset := offset - headlen
      match copyLoop skb.frags skb.nrFrags nrFrags p.frags with
      | none => none
      | some (turns, frag, frags) =>
        let p := { p with nrFrags := nrFrags, frags := Function.update frags frag (advance (frags frag) offset) }
        let skb := { skb with nrFrags := 0, len := skb.len - skb.dataLen, dataLen := 0, free := .free }
        some ⟨none, p.done skb len, { skb with sameFlow := true }, turns⟩
  else if skb.headFrag then
    let nrFrags := p.nrFrags
    if maxSkbFrags < nrFrags + 1 + skb.nrFrags then some ⟨some .tooBig, p, skb, 0⟩
    else
      let frag : SkbFrag := ⟨skb.headPage, skb.data + offset, headlen - offset⟩
      let frags : ℕ → SkbFrag := fun j =>
        if nrFrags < j ∧ j ≤ nrFrags + skb.nrFrags then skb.frags (j - (nrFrags + 1))   -- `memcpy`
        else if j = nrFrags then frag
        else p.frags j
      let p := { p with nrFrags := nrFrags + 1 + skb.nrFrags, frags := frags }
      some ⟨none, p.done skb len, { skb with free := .stolenHead, sameFlow := true }, 0⟩
  else some ⟨some .inval, p, skb, 0⟩

/-! ### What a buffer describes -/

/-- The memory of the pages. -/
abbrev Pages := ℕ → U32 → U8

/-- The `size` bytes of the page from `offset` on. -/
def bytesAt (mem : Pages) (page : ℕ) (offset size : U32) : List U8 :=
  (List.range size.toNat).map fun k => mem page (offset + BitVec.ofNat 32 k)

def fragBytes (mem : Pages) (frag : SkbFrag) : List U8 := bytesAt mem frag.page frag.pageOffset frag.size

def fragList (b : SkBuff) : List SkbFrag := (List.range b.nrFrags).map b.frags

/-- The sum of the fragment sizes. -/
def fragsLen (frags : List SkbFrag) : ℕ := (frags.map fun f => f.size.toNat).sum

/-- All bytes of the buffer, the linear part first. -/
def bytes (mem : Pages) (b : SkBuff) : List U8 :=
  bytesAt mem b.headPage b.data b.headlen ++ b.fragList.flatMap (fragBytes mem)

/-- The bytes behind the headers that receive offload has gone past. -/
def payload (mem : Pages) (b : SkBuff) : List U8 := (b.bytes mem).drop b.dataOffset.toNat

/-- **The buffer invariant**: the length is right, and headers that are not in the linear part are in the first fragment. -/
structure Valid (b : SkBuff) : Prop where
  len : b.len.toNat = b.headlen.toNat + fragsLen b.fragList
  header : b.headlen < b.dataOffset → 0 < b.nrFrags ∧ b.dataOffset.toNat ≤ b.headlen.toNat + (b.frags 0).size.toNat

/-- What a call that returns 0 leaves in `p`. -/
structure Spliced (mem : Pages) (p skb : SkBuff) (m : Merge) : Prop where
  payload : m.p.payload mem = p.payload mem ++ skb.payload mem
  valid : m.p.Valid
  len : m.p.len.toNat < 65536
  nrFrags : m.p.nrFrags ≤ maxSkbFrags
  cbLen : m.p.cbLen = p.cbLen + skb.cbLen
  count : m.p.count = p.count + skb.count
  /-- `offset - headlen` and the size of the first fragment do not go below zero -/
  inFrags : skb.headlen ≤ skb.dataOffset → m.turns = skb.nrFrags ∧
    (m.p.frags p.nrFrags).size.toNat + (skb.dataOffset.toNat - skb.headlen.toNat) = (skb.frags 0).size.toNat
  /-- nor does `headlen - offset` -/
  inHead : ¬ skb.headlen ≤ skb.dataOffset →
    (m.p.frags p.nrFrags).size.toNat + skb.dataOffset.toNat = skb.headlen.toNat

section

variable {mem : Pages} {p skb b : SkBuff} {f : SkbFrag} {fs : List SkbFrag} {m : Merge}

/-! ### Bytes -/

@[simp] theorem bytesAt_length {page : ℕ} {offset size : U32} : (bytesAt mem page offset size).length = size.toNat := by
  rw [bytesAt, List.length_map, List.length_range]

theorem bytesAt_drop {page : ℕ} {offset size n : U32} (h : n ≤ size) :
    (bytesAt mem page offset size).drop n.toNat = bytesAt mem page (offset + n) (size - n) := by
  rw [BitVec.le_def] at h
  have hsize : (size - n).toNat = size.toNat - n.toNat := by rw [BitVec.toNat_sub_of_le (BitVec.le_def.2 h)]
  apply List.ext_getElem
  · simp [hsize]
  · intro k hk hk'
    simp only [bytesAt, List.getElem_drop, List.getElem_map, List.getElem_range, BitVec.ofNat_add, BitVec.ofNat_toNat,
      BitVec.setWidth_eq, BitVec.add_assoc]

theorem fragBytes_advance {n : U32} (h : n ≤ f.size) : fragBytes mem (advance f n) = (fragBytes mem f).drop n.toNat := by
  rw [fragBytes, fragBytes, bytesAt_drop h]
  rfl

@[simp] theorem fragsLen_cons : fragsLen (f :: fs) = f.size.toNat + fragsLen fs := by
  simp [fragsLen]

@[simp] theorem fragsLen_append {gs : List SkbFrag} : fragsLen (fs ++ gs) = fragsLen fs + fragsLen gs := by
  simp [fragsLen]

theorem flatMap_fragBytes_length : (fs.flatMap (fragBytes mem)).length = fragsLen fs := by
  induction fs with
  | nil => rfl
  | cons f fs ih => rw [List.flatMap_cons, List.length_append, ih, fragsLen_cons, fragBytes, bytesAt_length]

theorem Valid.bytes_length (h : b.Valid) : (b.bytes mem).length = b.len.toNat := by
  rw [bytes, List.length_append, bytesAt_length, flatMap_fragBytes_length, h.len]

/-- The fragments of a buffer behind the first one. -/
def fragTail (b : SkBuff) : List SkbFrag := (List.range (b.nrFrags - 1)).map fun j => b.frags (j + 1)

theorem fragList_cons (h : 0 < b.nrFrags) : b.fragList = b.frags 0 :: b.fragTail := by
  obtain ⟨n, hn⟩ := Nat.exists_eq_succ_of_ne_zero (Nat.pos_iff_ne_zero.1 h)
  simp only [fragList, fragTail, hn, Nat.succ_eq_add_one, Nat.add_sub_cancel, List.range_succ_eq_map, List.map_cons,
    List.map_map, Function.comp_def]

theorem Valid.dataOffset_le (h : b.Valid) : b.dataOffset.toNat ≤ b.len.toNat := by
  have hlen := h.len
  by_cases hheader : b.headlen < b.dataOffset
  · obtain ⟨hpos, hle⟩ := h.header hheader
    rw [fragList_cons hpos, fragsLen_cons] at hlen
    omega
  · rw [BitVec.lt_def] at hheader
    omega

theorem Valid.groLen_toNat (h : b.Valid) : b.groLen.toNat = b.len.toNat - b.dataOffset.toNat := by
  have hle := h.dataOffset_le
  rw [groLen, BitVec.toNat_sub_of_le (BitVec.le_def.2 hle)]

/-! ### The copy loop -/

theorem copyLoop_eq {frags2 frags : ℕ → SkbFrag} {i frag : ℕ} (hpos : 0 < i) (hi : i ≤ frag) :
    copyLoop frags2 i frag frags =
      some (i, frag - i, fun j => if frag - i ≤ j ∧ j < frag then frags2 (j - (frag - i)) else frags j) := by
  have hcount : ∀ (i frag : ℕ) (frags : ℕ → SkbFrag),
      copyLoop frags2 i frag frags = (copyFrags frags2 i frag frags).map fun r => (i, frag - i, r) := by
    intro i
    induction i with
    | zero => exact fun frag frags => rfl
    | succ i ih =>
      intro frag frags
      rw [copyLoop, copyFrags]
      by_cases h0 : i = 0
      · simp [h0]
      · simp only [h0, if_false]
        rw [ih, Option.map_map]
        congr 1
        funext r
        simp only [Function.comp_apply, Prod.mk.injEq, and_true, true_and]
        omega
  rw [hcount, copyFrags_eq hpos hi]
  rfl

/-! ### Splicing -/

/-- The array `frags` begins with the fragments of `p`. -/
theorem map_range_add {a n : ℕ} {frags : ℕ → SkbFrag} (h : ∀ j < a, frags j = p.frags j) (ha : a = p.nrFrags) :
    (List.range (a + n)).map frags = p.fragList ++ (List.range n).map fun j => frags (a + j) := by
  rw [List.range_add, List.map_append, List.map_map, fragList, ← ha]
  congr 1
  exact List.map_congr_left fun j hj => h j (List.mem_range.1 hj)

/-- The fragments `gs` of `n` bytes are appended to `p`. -/
structure Extends (p p' : SkBuff) (gs : List SkbFrag) (n : U32) : Prop where
  frags : p'.fragList = p.fragList ++ gs
  sum : fragsLen gs = n.toNat
  len : p'.len = p.len + n
  dataLen : p'.dataLen = p.dataLen + n
  head : p'.headPage = p.headPage ∧ p'.data = p.data
  dataOffset : p'.dataOffset = p.dataOffset
  first : 0 < p.nrFrags → 0 < p'.nrFrags ∧ p'.frags 0 = p.frags 0

variable {p' : SkBuff} {gs : List SkbFrag} {n : U32}

theorem Extends.headlen (h : Extends p p' gs n) : p'.headlen = p.headlen := by
  rw [SkBuff.headlen, SkBuff.headlen, h.len, h.dataLen]
  bv_omega

theorem Extends.valid (h : Extends p p' gs n) (hp : p.Valid) (hfits : p.len.toNat + n.toNat < 2 ^ 32) : p'.Valid := by
  constructor
  · rw [h.headlen, h.frags, fragsLen_append, h.sum, h.len, BitVec.toNat_add, Nat.mod_eq_of_lt hfits, hp.len]
    omega
  · intro hheader
    rw [h.headlen, h.dataOffset] at hheader ⊢
    obtain ⟨hpos, hle⟩ := hp.header hheader
    obtain ⟨hpos', hfirst⟩ := h.first hpos
    rw [hfirst]
    exact ⟨hpos', hle⟩

theorem Extends.payload (h : Extends p p' gs n) (hp : p.Valid) :
    p'.payload mem = p.payload mem ++ gs.flatMap (fragBytes mem) := by
  have hbytes : p'.bytes mem = p.bytes mem ++ gs.flatMap (fragBytes mem) := by
    rw [bytes, bytes, h.headlen, h.head.1, h.head.2, h.frags, List.flatMap_append, List.append_assoc]
  rw [SkBuff.payload, SkBuff.payload, hbytes, h.dataOffset, List.drop_append_of_le_length]
  rw [hp.bytes_length]
  exact hp.dataOffset_le

/-- The payload of a buffer whose headers fill the linear part is in its fragments. -/
theorem payload_inFrags (hpos : 0 < b.nrFrags) (hle : b.headlen ≤ b.dataOffset)
    (hin : b.dataOffset - b.headlen ≤ (b.frags 0).size) :
    b.payload mem = (advance (b.frags 0) (b.dataOffset - b.headlen) :: b.fragTail).flatMap (fragBytes mem) := by
  have hoff : (b.dataOffset - b.headlen).toNat = b.dataOffset.toNat - b.headlen.toNat := BitVec.toNat_sub_of_le hle
  have hlinear : (bytesAt mem b.headPage b.data b.headlen).drop b.dataOffset.toNat = [] := by
    rw [List.drop_eq_nil_iff, bytesAt_length]
    exact BitVec.le_def.1 hle
  rw [payload, bytes, List.drop_append, hlinear, List.nil_append, bytesAt_length, ← hoff, fragList_cons hpos,
    List.flatMap_cons, List.flatMap_cons, fragBytes_advance hin, List.drop_append_of_le_length]
  rw [fragBytes, bytesAt_length]
  exact BitVec.le_def.1 hin

/-- The payload of a buffer that has some of it in the linear part. -/
theorem payload_inHead (hlt : b.dataOffset ≤ b.headlen) :
    b.payload mem = ((⟨b.headPage, b.data + b.dataOffset, b.headlen - b.dataOffset⟩ : SkbFrag) :: b.fragList).flatMap
      (fragBytes mem) := by
  rw [payload, bytes, List.flatMap_cons, fragBytes, ← bytesAt_drop hlt, List.drop_append_of_le_length]
  rw [bytesAt_length]
  exact BitVec.le_def.1 hlt

/-- Headers that are not in the linear part are in the first fragment, of which there is one. -/
theorem Valid.inFrags (h : b.Valid) (hpay : b.groLen ≠ 0) (hle : b.headlen ≤ b.dataOffset) :
    0 < b.nrFrags ∧ b.dataOffset - b.headlen ≤ (b.frags 0).size := by
  have hoff : (b.dataOffset - b.headlen).toNat = b.dataOffset.toNat - b.headlen.toNat := BitVec.toNat_sub_of_le hle
  rw [BitVec.le_def] at hle ⊢
  rw [hoff]
  by_cases hheader : b.headlen < b.dataOffset
  · obtain ⟨hpos, hin⟩ := h.header hheader
    exact ⟨hpos, by omega⟩
  · rw [BitVec.lt_def] at hheader
    refine ⟨Nat.pos_of_ne_zero fun hzero => hpay ?_, by omega⟩
    have hlen := h.len
    have hgro := h.groLen_toNat
    rw [fragList, hzero, List.range_zero, List.map_nil, fragsLen, List.map_nil, List.sum_nil] at hlen
    apply BitVec.eq_of_toNat_eq
    rw [hgro]
    show _ = 0
    omega

/-! ### The two branches -/

/-- The array of `p` with the fragments of `skb` behind its own, the first one advanced. -/
def splicedFrags (p skb : SkBuff) (offset : U32) : ℕ → SkbFrag :=
  Function.update
    (fun j => if p.nrFrags ≤ j ∧ j < p.nrFrags + skb.nrFrags then skb.frags (j - p.nrFrags) else p.frags j)
    p.nrFrags (advance (skb.frags 0) offset)

theorem skbGroMerge_inFrags (hlen : ¬ 65536#32 ≤ p.len + skb.groLen) (hle : skb.headlen ≤ skb.dataOffset)
    (hroom : ¬ maxSkbFrags < p.nrFrags + skb.nrFrags) (hpos : 0 < skb.nrFrags) :
    skbGroMerge p skb = some ⟨none,
      done { p with
        nrFrags := p.nrFrags + skb.nrFrags
        frags := splicedFrags p skb (skb.dataOffset - skb.headlen) } skb skb.groLen,
      { skb with nrFrags := 0, len := skb.len - skb.dataLen, dataLen := 0, free := .free, sameFlow := true },
      skb.nrFrags⟩ := by
  simp only [skbGroMerge, if_neg hlen, if_pos hle, if_neg hroom, copyLoop_eq hpos (Nat.le_add_left _ _), Nat.add_sub_cancel,
    splicedFrags]
  have hfirst : p.nrFrags ≤ p.nrFrags ∧ p.nrFrags < p.nrFrags + skb.nrFrags := by omega
  rw [if_pos hfirst, Nat.sub_self]
  rfl

theorem splicedFrags_extends {offset : U32} (hpos : 0 < skb.nrFrags)
    (hsum : fragsLen (advance (skb.frags 0) offset :: skb.fragTail) = skb.groLen.toNat) :
    Extends p (done { p with nrFrags := p.nrFrags + skb.nrFrags, frags := splicedFrags p skb offset } skb skb.groLen)
      (advance (skb.frags 0) offset :: skb.fragTail) skb.groLen where
  frags := by
    obtain ⟨n, hn⟩ := Nat.exists_eq_succ_of_ne_zero (Nat.pos_iff_ne_zero.1 hpos)
    have hown : ∀ j < p.nrFrags, splicedFrags p skb offset j = p.frags j := by
      intro j hj
      rw [splicedFrags, Function.update_of_ne (Nat.ne_of_lt hj), if_neg (by omega)]
    show (List.range (p.nrFrags + skb.nrFrags)).map (splicedFrags p skb offset) = _
    rw [map_range_add hown rfl, hn, List.range_succ_eq_map, List.map_cons, List.map_map]
    congr 2
    · rw [splicedFrags, Nat.add_zero, Function.update_self]
    · rw [fragTail, hn]
      refine List.map_congr_left fun j hj => ?_
      have hj := List.mem_range.1 hj
      rw [Function.comp_apply, splicedFrags, Function.update_of_ne (by omega), if_pos (by omega)]
      congr 1
      omega
  sum := hsum
  len := rfl
  dataLen := rfl
  head := ⟨rfl, rfl⟩
  dataOffset := rfl
  first hfirst := by
    refine ⟨Nat.add_pos_left hfirst _, ?_⟩
    show splicedFrags p skb offset 0 = p.frags 0
    rw [splicedFrags, Function.update_of_ne (by omega), if_neg (by omega)]

/-- The array of `p` with the linear part of `skb` and its fragments behind its own. -/
def stolenFrags (p skb : SkBuff) : ℕ → SkbFrag := fun j =>
  if p.nrFrags < j ∧ j ≤ p.nrFrags + skb.nrFrags then skb.frags (j - (p.nrFrags + 1))
  else if j = p.nrFrags then ⟨skb.headPage, skb.data + skb.dataOffset, skb.headlen - skb.dataOffset⟩
  else p.frags j

theorem skbGroMerge_inHead (hlen : ¬ 65536#32 ≤ p.len + skb.groLen) (hlt : ¬ skb.headlen ≤ skb.dataOffset)
    (hfrag : skb.headFrag = true) (hroom : ¬ maxSkbFrags < p.nrFrags + 1 + skb.nrFrags) :
    skbGroMerge p skb = some ⟨none,
      done { p with nrFrags := p.nrFrags + 1 + skb.nrFrags, frags := stolenFrags p skb } skb skb.groLen,
      { skb with free := .stolenHead, sameFlow := true }, 0⟩ := by
  simp only [skbGroMerge, if_neg hlen, if_neg hlt, if_pos hfrag, if_neg hroom]
  rfl

theorem stolenFrags_extends (hsum : fragsLen ((⟨skb.headPage, skb.data + skb.dataOffset, skb.headlen - skb.dataOffset⟩ :
      SkbFrag) :: skb.fragList) = skb.groLen.toNat) :
    Extends p (done { p with nrFrags := p.nrFrags + 1 + skb.nrFrags, frags := stolenFrags p skb } skb skb.groLen)
      (⟨skb.headPage, skb.data + skb.dataOffset, skb.headlen - skb.dataOffset⟩ :: skb.fragList) skb.groLen where
  frags := by
    have hown : ∀ j < p.nrFrags, stolenFrags p skb j = p.frags j := by
      intro j hj
      rw [stolenFrags, if_neg (by omega), if_neg (by omega)]
    show (List.range (p.nrFrags + 1 + skb.nrFrags)).map (stolenFrags p skb) = _
    rw [Nat.add_assoc, Nat.add_comm 1, map_range_add hown rfl, List.range_succ_eq_map, List.map_cons, List.map_map]
    congr 2
    · rw [stolenFrags, Nat.add_zero, if_neg (by omega), if_pos rfl]
    · refine List.map_congr_left fun j hj => ?_
      have hj := List.mem_range.1 hj
      rw [Function.comp_apply, stolenFrags, if_pos (by omega)]
      congr 1
      omega
  sum := hsum
  len := rfl
  dataLen := rfl
  head := ⟨rfl, rfl⟩
  dataOffset := rfl
  first hfirst := by
    refine ⟨by show 0 < p.nrFrags + 1 + skb.nrFrags; omega, ?_⟩
    show stolenFrags p skb 0 = p.frags 0
    rw [stolenFrags, if_neg (by omega), if_neg (by omega)]

/-- The check of the lengths passes only for sums below 65536. -/
theorem len_lt (hfits : p.len.toNat + skb.groLen.toNat < 2 ^ 32) (hlen : ¬ 65536#32 ≤ p.len + skb.groLen) :
    (p.len + skb.groLen).toNat < 65536 := by
  have hsum : (p.len + skb.groLen).toNat = p.len.toNat + skb.groLen.toNat := by
    rw [BitVec.toNat_add, Nat.mod_eq_of_lt hfits]
  rw [BitVec.le_def] at hlen
  have hmax : (65536#32).toNat = 65536 := rfl
  omega

theorem Valid.sum_inFrags (hskb : skb.Valid) (hpay : skb.groLen ≠ 0) (hle : skb.headlen ≤ skb.dataOffset) :
    fragsLen (advance (skb.frags 0) (skb.dataOffset - skb.headlen) :: skb.fragTail) = skb.groLen.toNat := by
  obtain ⟨hpos, hin⟩ := hskb.inFrags hpay hle
  have hskblen := hskb.len
  have hoff : (skb.dataOffset - skb.headlen).toNat = skb.dataOffset.toNat - skb.headlen.toNat := BitVec.toNat_sub_of_le hle
  have hsize : (advance (skb.frags 0) (skb.dataOffset - skb.headlen)).size.toNat =
      (skb.frags 0).size.toNat - (skb.dataOffset - skb.headlen).toNat := BitVec.toNat_sub_of_le hin
  rw [BitVec.le_def] at hin hle
  rw [fragList_cons hpos, fragsLen_cons] at hskblen
  rw [fragsLen_cons, hsize, hskb.groLen_toNat]
  omega

theorem Valid.sum_inHead (hskb : skb.Valid) (hle : ¬ skb.headlen ≤ skb.dataOffset) :
    fragsLen ((⟨skb.headPage, skb.data + skb.dataOffset, skb.headlen - skb.dataOffset⟩ : SkbFrag) :: skb.fragList) =
      skb.groLen.toNat := by
  have hskblen := hskb.len
  rw [BitVec.le_def] at hle
  have hfirst : (skb.headlen - skb.dataOffset).toNat = skb.headlen.toNat - skb.dataOffset.toNat :=
    BitVec.toNat_sub_of_le (BitVec.le_def.2 (by omega))
  rw [fragsLen_cons, hfirst, hskb.groLen_toNat]
  omega

theorem spliced_inFrags (hp : p.Valid) (hskb : skb.Valid) (hpay : skb.groLen ≠ 0)
    (hfits : p.len.toNat + skb.groLen.toNat < 2 ^ 32) (hlen : ¬ 65536#32 ≤ p.len + skb.groLen)
    (hle : skb.headlen ≤ skb.dataOffset) (hroom : ¬ maxSkbFrags < p.nrFrags + skb.nrFrags) :
    ∃ m, skbGroMerge p skb = some m ∧ m.err = none ∧ Spliced mem p skb m := by
  obtain ⟨hpos, hin⟩ := hskb.inFrags hpay hle
  have hoff : (skb.dataOffset - skb.headlen).toNat = skb.dataOffset.toNat - skb.headlen.toNat := BitVec.toNat_sub_of_le hle
  have hsize : (advance (skb.frags 0) (skb.dataOffset - skb.headlen)).size.toNat =
      (skb.frags 0).size.toNat - (skb.dataOffset - skb.headlen).toNat := BitVec.toNat_sub_of_le hin
  have hin' := BitVec.le_def.1 hin
  have hextends := splicedFrags_extends (p := p) hpos (hskb.sum_inFrags hpay hle)
  refine ⟨_, skbGroMerge_inFrags hlen hle hroom hpos, rfl, ?_, hextends.valid hp hfits, len_lt hfits hlen,
    Nat.le_of_not_lt hroom, rfl, rfl, fun _ => ⟨rfl, ?_⟩, fun hnot => absurd hle hnot⟩
  · rw [hextends.payload hp, payload_inFrags hpos hle hin]
  · show (splicedFrags p skb _ p.nrFrags).size.toNat + _ = _
    rw [splicedFrags, Function.update_self, hsize]
    omega

theorem spliced_inHead (hp : p.Valid) (hskb : skb.Valid) (hfits : p.len.toNat + skb.groLen.toNat < 2 ^ 32)
    (hlen : ¬ 65536#32 ≤ p.len + skb.groLen) (hle : ¬ skb.headlen ≤ skb.dataOffset) (hfrag : skb.headFrag = true)
    (hroom : ¬ maxSkbFrags < p.nrFrags + 1 + skb.nrFrags) :
    ∃ m, skbGroMerge p skb = some m ∧ m.err = none ∧ Spliced mem p skb m := by
  have hle' : ¬ skb.headlen.toNat ≤ skb.dataOffset.toNat := fun h => hle (BitVec.le_def.2 h)
  have hlt : skb.dataOffset ≤ skb.headlen := BitVec.le_def.2 (by omega)
  have hfirst : (skb.headlen - skb.dataOffset).toNat = skb.headlen.toNat - skb.dataOffset.toNat := BitVec.toNat_sub_of_le hlt
  have hextends := stolenFrags_extends (p := p) (hskb.sum_inHead hle)
  refine ⟨_, skbGroMerge_inHead hlen hle hfrag hroom, rfl, ?_, hextends.valid hp hfits, len_lt hfits hlen,
    Nat.le_of_not_lt hroom, rfl, rfl, fun h => absurd h hle, fun _ => ?_⟩
  · rw [hextends.payload hp, payload_inHead hlt]
  · show (stolenFrags p skb p.nrFrags).size.toNat + _ = _
    rw [stolenFrags, if_neg (by omega), if_pos rfl, hfirst]
    omega

/-- What a call that returns an error leaves. -/
def Refused (p skb : SkBuff) (m : Merge) : Prop := (m.err = some .tooBig ∨ m.err = some .inval) ∧ m.p = p ∧ m.skb = skb

end

/-- **`skb_gro_merge` concatenates the payloads, or changes nothing**, when the two lengths add up in a word. -/
theorem skbGroMerge_spliced {mem : Pages} {p skb : SkBuff} (hp : p.Valid) (hskb : skb.Valid) (hpay : skb.groLen ≠ 0)
    (hfits : p.len.toNat + skb.groLen.toNat < 2 ^ 32) :
    ∃ m, skbGroMerge p skb = some m ∧ (m.err = none ∧ Spliced mem p skb m ∨ Refused p skb m) := by
  have htooBig : Refused p skb ⟨some .tooBig, p, skb, 0⟩ := ⟨Or.inl rfl, rfl, rfl⟩
  by_cases hlen : 65536#32 ≤ p.len + skb.groLen
  · exact ⟨_, by simp only [skbGroMerge, if_pos hlen], Or.inr htooBig⟩
  by_cases hle : skb.headlen ≤ skb.dataOffset
  · by_cases hroom : maxSkbFrags < p.nrFrags + skb.nrFrags
    · exact ⟨_, by simp only [skbGroMerge, if_neg hlen, if_pos hle, if_pos hroom], Or.inr htooBig⟩
    · obtain ⟨m, hm, hspliced⟩ := spliced_inFrags hp hskb hpay hfits hlen hle hroom
      exact ⟨m, hm, Or.inl hspliced⟩
  · cases hfrag : skb.headFrag with
    | false =>
      refine ⟨⟨some .inval, p, skb, 0⟩, ?_, Or.inr ⟨Or.inr rfl, rfl, rfl⟩⟩
      simp only [skbGroMerge, if_neg hlen, if_neg hle, hfrag, Bool.false_eq_true, if_false]
    | true =>
      by_cases hroom : maxSkbFrags < p.nrFrags + 1 + skb.nrFrags
      · exact ⟨_, by simp only [skbGroMerge, if_neg hlen, if_neg hle, if_pos hfrag, if_pos hroom], Or.inr htooBig⟩
      · obtain ⟨m, hm, hspliced⟩ := spliced_inHead hp hskb hfits hlen hle hfrag hroom
        exact ⟨m, hm, Or.inl hspliced⟩

/-! ### The function on numbers -/

def toFrag (frag : SkbFrag) : Frag := ⟨frag.page, frag.pageOffset.toNat, frag.size.toNat⟩

/-- The buffer with the fields of `b`, and the others of `c`. -/
def toBody (b : SkBuff) (c : Skb) : Skb :=
  { c with
    headlen := b.headlen.toNat, headFrag := b.headFrag, headPage := b.headPage, headData := b.data.toNat
    frags := b.fragList.map toFrag, dataOffset := b.dataOffset.toNat, count := b.count, len := b.cbLen, free := b.free }

/-- No fragment begins so far up in its page that its end is not there, nor does the linear part. -/
structure InPages (b : SkBuff) : Prop where
  head : b.data.toNat + b.headlen.toNat < 2 ^ 32
  frags : ∀ f ∈ b.fragList, f.pageOffset.toNat + f.size.toNat < 2 ^ 32

section

variable {p skb b : SkBuff} {c d : Skb}

theorem Valid.skbLen_toBody (h : b.Valid) : (b.toBody c).skbLen = b.len.toNat := by
  rw [h.len, Body.skbLen, Body.dataLen, fragsLen]
  simp only [toBody, List.map_map]
  rfl

theorem Valid.groLen_toBody (h : b.Valid) : (b.toBody c).groLen = b.groLen.toNat := by
  rw [Body.groLen, h.skbLen_toBody, h.groLen_toNat]
  rfl

theorem fragList_length : b.fragList.length = b.nrFrags := by
  rw [fragList, List.length_map, List.length_range]

/-- The loop and the two statements behind it, on a list. -/
theorem copyFrags_modify (ps fs : List Frag) (f : Frag) (g : Frag → Frag) :
    ∃ frags, copyFrags (fragArray (f :: fs)) (f :: fs).length (ps.length + (f :: fs).length) (fragArray ps) = some frags ∧
      ((List.range (ps.length + (f :: fs).length)).map frags).modify ps.length g = ps ++ g f :: fs := by
  have hlists := copyFrags_lists ps (f :: fs) (List.cons_ne_nil f fs)
  obtain ⟨frags, hfrags, hlist⟩ := Option.map_eq_some_iff.1 hlists
  refine ⟨frags, hfrags, ?_⟩
  rw [hlist, List.modify_eq_take_cons_drop (by simp)]
  simp

/-- A fragment that is advanced inside its page. -/
theorem toFrag_advance {f : SkbFrag} {n : U32} (hin : n ≤ f.size) (hpage : f.pageOffset.toNat + f.size.toNat < 2 ^ 32) :
    toFrag (advance f n) = { toFrag f with pageOffset := (toFrag f).pageOffset + n.toNat, size := (toFrag f).size - n.toNat } := by
  have hle := BitVec.le_def.1 hin
  have hoffset : (f.pageOffset + n).toNat = f.pageOffset.toNat + n.toNat := by
    rw [BitVec.toNat_add, Nat.mod_eq_of_lt (by omega)]
  have hsize : (f.size - n).toNat = f.size.toNat - n.toNat := BitVec.toNat_sub_of_le hin
  simp only [toFrag, advance, hoffset, hsize]

variable (skb) in
/-- What `p` is with the fragments of `skb`. -/
theorem Extends.toBody {p' : SkBuff} {gs : List SkbFrag} {n : U32} {frags : List Frag} (h : Extends p p' gs n)
    (hfrags : frags = p.fragList.map toFrag ++ gs.map toFrag) (hcount : p'.count = p.count + skb.count)
    (hlen : p'.cbLen = p.cbLen + skb.cbLen) (hhead : p'.headFrag = p.headFrag ∧ p'.free = p.free) :
    p'.toBody { c with parts := c.parts ++ d.parts } = (p.toBody c).append (skb.toBody d) frags := by
  unfold SkBuff.toBody Body.append
  rw [h.headlen, h.frags, h.head.1, h.head.2, h.dataOffset, hcount, hlen, hhead.1, hhead.2, hfrags, List.map_append]

theorem mergeData_inFrags (hskb : skb.Valid) (hpay : skb.groLen ≠ 0) (hpages : skb.InPages)
    (hlong : ¬ (p.toBody c).skbLen + (skb.toBody d).groLen ≥ 65536) (hle : skb.headlen ≤ skb.dataOffset)
    (hroom : ¬ maxSkbFrags < p.nrFrags + skb.nrFrags) :
    mergeData maxSkbFrags (p.toBody c) (skb.toBody d) =
      .merged ((p.toBody c).append (skb.toBody d)
          (p.fragList.map toFrag ++ (advance (skb.frags 0) (skb.dataOffset - skb.headlen) :: skb.fragTail).map toFrag))
        { skb.toBody d with frags := [], free := .free } := by
  obtain ⟨hpos, hin⟩ := hskb.inFrags hpay hle
  have hoff : (skb.dataOffset - skb.headlen).toNat = skb.dataOffset.toNat - skb.headlen.toNat := BitVec.toNat_sub_of_le hle
  have hpfrags : (p.toBody c).frags.length = p.nrFrags := by
    show (p.fragList.map toFrag).length = _
    rw [List.length_map, fragList_length]
  have hcons : (skb.toBody d).frags = toFrag (skb.frags 0) :: skb.fragTail.map toFrag := by
    show skb.fragList.map toFrag = _
    rw [fragList_cons hpos, List.map_cons]
  have hfrags : (skb.toBody d).frags.length = skb.nrFrags := by
    show (skb.fragList.map toFrag).length = _
    rw [List.length_map, fragList_length]
  have hpage : (skb.frags 0).pageOffset.toNat + (skb.frags 0).size.toNat < 2 ^ 32 :=
    hpages.frags _ (by rw [fragList_cons hpos]; exact List.mem_cons_self ..)
  obtain ⟨frags, hcopy, hlist⟩ := copyFrags_modify (p.toBody c).frags (skb.fragTail.map toFrag) (toFrag (skb.frags 0))
    fun frag => { frag with
      pageOffset := frag.pageOffset + (skb.dataOffset - skb.headlen).toNat
      size := frag.size - (skb.dataOffset - skb.headlen).toNat }
  rw [← hcons, hfrags, hpfrags] at hcopy hlist
  have hle' : (skb.toBody d).headlen ≤ (skb.toBody d).dataOffset := BitVec.le_def.1 hle
  unfold mergeData
  rw [if_neg hlong, if_pos hle']
  simp only [hfrags, hpfrags, if_neg hroom, hcopy]
  have hoff' : (skb.toBody d).dataOffset - (skb.toBody d).headlen = (skb.dataOffset - skb.headlen).toNat := hoff.symm
  rw [hoff', hlist, List.map_cons, toFrag_advance hin hpage]
  rfl

theorem mergeData_inHead (hpages : skb.InPages) (hlong : ¬ (p.toBody c).skbLen + (skb.toBody d).groLen ≥ 65536)
    (hle : ¬ skb.headlen ≤ skb.dataOffset) (hfrag : skb.headFrag = true)
    (hroom : ¬ maxSkbFrags < p.nrFrags + 1 + skb.nrFrags) :
    mergeData maxSkbFrags (p.toBody c) (skb.toBody d) =
      .merged ((p.toBody c).append (skb.toBody d) (p.fragList.map toFrag ++
          ((⟨skb.headPage, skb.data + skb.dataOffset, skb.headlen - skb.dataOffset⟩ : SkbFrag) :: skb.fragList).map toFrag))
        { skb.toBody d with free := .stolenHead } := by
  have hle' : ¬ (skb.toBody d).headlen ≤ (skb.toBody d).dataOffset := fun h => hle (BitVec.le_def.2 h)
  have hlt : ¬ skb.headlen.toNat ≤ skb.dataOffset.toNat := hle'
  have hfirst : (skb.headlen - skb.dataOffset).toNat = skb.headlen.toNat - skb.dataOffset.toNat :=
    BitVec.toNat_sub_of_le (BitVec.le_def.2 (by omega))
  have hhead := hpages.head
  have hoffset : (skb.data + skb.dataOffset).toNat = skb.data.toNat + skb.dataOffset.toNat := by
    rw [BitVec.toNat_add, Nat.mod_eq_of_lt (by omega)]
  have hpfrags : (p.toBody c).frags.length = p.nrFrags := by
    show (p.fragList.map toFrag).length = _
    rw [List.length_map, fragList_length]
  have hfrags : (skb.toBody d).frags.length = skb.nrFrags := by
    show (skb.fragList.map toFrag).length = _
    rw [List.length_map, fragList_length]
  have hfrag' : (skb.toBody d).headFrag = true := hfrag
  unfold mergeData
  rw [if_neg hlong, if_neg hle', if_pos hfrag']
  simp only [hpfrags, hfrags]
  rw [if_neg hroom, List.map_cons]
  simp only [toFrag, hoffset, hfirst]
  rfl

/-- **The function on words does what the one on numbers does**, when no length and no offset reaches beyond a word. -/
theorem mergeData_toBody (hp : p.Valid) (hskb : skb.Valid) (hpay : skb.groLen ≠ 0) (hpages : skb.InPages)
    (hfits : p.len.toNat + skb.groLen.toNat < 2 ^ 32) {m : Merge} (hm : skbGroMerge p skb = some m) :
    mergeData maxSkbFrags (p.toBody c) (skb.toBody d) =
      match m.err with
      | some err => .failed err
      | none => .merged (m.p.toBody { c with parts := c.parts ++ d.parts }) (m.skb.toBody d) := by
  have hlen : 65536#32 ≤ p.len + skb.groLen ↔ (p.toBody c).skbLen + (skb.toBody d).groLen ≥ 65536 := by
    rw [hp.skbLen_toBody, hskb.groLen_toBody, BitVec.le_def, BitVec.toNat_add, Nat.mod_eq_of_lt hfits]
    rfl
  have hhead : skb.headlen ≤ skb.dataOffset ↔ (skb.toBody d).headlen ≤ (skb.toBody d).dataOffset := BitVec.le_def
  have hpfrags : (p.toBody c).frags.length = p.nrFrags := by
    show (p.fragList.map toFrag).length = _
    rw [List.length_map, fragList_length]
  have hfrags : (skb.toBody d).frags.length = skb.nrFrags := by
    show (skb.fragList.map toFrag).length = _
    rw [List.length_map, fragList_length]
  by_cases hlong : 65536#32 ≤ p.len + skb.groLen
  · simp only [skbGroMerge, if_pos hlong, Option.some.injEq] at hm
    subst hm
    rw [mergeData, if_pos (hlen.1 hlong)]
  have hlong' := mt hlen.2 hlong
  by_cases hle : skb.headlen ≤ skb.dataOffset
  · by_cases hroom : maxSkbFrags < p.nrFrags + skb.nrFrags
    · simp only [skbGroMerge, if_neg hlong, if_pos hle, if_pos hroom, Option.some.injEq] at hm
      subst hm
      rw [mergeData, if_neg hlong', if_pos (hhead.1 hle)]
      simp only [hpfrags, hfrags, if_pos hroom]
    · obtain ⟨hpos, hin⟩ := hskb.inFrags hpay hle
      rw [skbGroMerge_inFrags hlong hle hroom hpos] at hm
      cases hm
      have hbody := (splicedFrags_extends (p := p) hpos (hskb.sum_inFrags hpay hle)).toBody (c := c) (d := d) skb rfl
        rfl rfl ⟨rfl, rfl⟩
      have habsorbed : (skb.len - skb.dataLen - 0 : U32) = skb.headlen := BitVec.sub_zero _
      rw [mergeData_inFrags hskb hpay hpages hlong' hle hroom, ← hbody]
      simp only [SkBuff.toBody, SkBuff.headlen, fragList, List.range_zero, List.map_nil] at habsorbed ⊢
      rw [habsorbed]
  · have hnot : ¬ (skb.toBody d).headlen ≤ (skb.toBody d).dataOffset := mt hhead.2 hle
    cases hfrag : skb.headFrag with
    | false =>
      simp only [skbGroMerge, if_neg hlong, if_neg hle, hfrag, Bool.false_eq_true, if_false, Option.some.injEq] at hm
      subst hm
      have hfrag' : ¬ (skb.toBody d).headFrag = true := by
        rw [show (skb.toBody d).headFrag = false from hfrag]
        exact Bool.false_ne_true
      rw [mergeData, if_neg hlong', if_neg hnot, if_neg hfrag']
    | true =>
      by_cases hroom : maxSkbFrags < p.nrFrags + 1 + skb.nrFrags
      · simp only [skbGroMerge, if_neg hlong, if_neg hle, if_pos hfrag, if_pos hroom, Option.some.injEq] at hm
        subst hm
        rw [mergeData, if_neg hlong', if_neg hnot, if_pos (show (skb.toBody d).headFrag = true from hfrag)]
        simp only [hpfrags, hfrags, if_pos hroom]
      · rw [skbGroMerge_inHead hlong hle hfrag hroom] at hm
        cases hm
        have hbody := (stolenFrags_extends (p := p) (hskb.sum_inHead hle)).toBody (c := c) (d := d) skb rfl
          rfl rfl ⟨rfl, rfl⟩
        rw [mergeData_inHead hpages hlong' hle hfrag hroom, ← hbody]
        rfl

end

/-- A buffer with this linear part and one fragment, whose headers end at `dataOffset`. -/
def paged (page : ℕ) (headlen size dataOffset : U32) : SkBuff where
  len := headlen + size
  dataLen := size
  headPage := 0
  data := 0
  headFrag := false
  nrFrags := 1
  frags _ := ⟨page, 0, size⟩
  dataOffset := dataOffset
  cbLen := headlen + size - dataOffset
  count := 1
  sameFlow := false
  free := .no

/-- A packet as it was received, behind one whose headers were pulled. -/
theorem skbGroMerge_spliced_paged :
    ∃ m, skbGroMerge (paged 1 40 100 40) (paged 2 0 140 40) = some m ∧ m.p.nrFrags = 2 ∧
      Spliced (fun page _ => BitVec.ofNat 8 page) (paged 1 40 100 40) (paged 2 0 140 40) m := by
  have hp : (paged 1 40 100 40).Valid := ⟨by decide, by decide⟩
  have hskb : (paged 2 0 140 40).Valid := ⟨by decide, by decide⟩
  have hend : (skbGroMerge (paged 1 40 100 40) (paged 2 0 140 40)).map (fun m => (m.err, m.p.nrFrags)) = some (none, 2) := by
    decide
  obtain ⟨m, hm, hspliced⟩ := @skbGroMerge_spliced (fun page _ => BitVec.ofNat 8 page) _ _ hp hskb (by decide) (by decide)
  rw [hm, Option.map_some, Option.some_inj, Prod.mk.injEq] at hend
  rcases hspliced with ⟨-, hspliced⟩ | ⟨hwhy, -⟩
  · exact ⟨m, hm, hend.2, hspliced⟩
  · rw [hend.1] at hwhy
    simp at hwhy

/-- The length of 4294967196 bytes and 200 more is 100. -/
theorem not_spliced_long :
    ¬ ∀ (mem : Pages) (p skb : SkBuff), p.Valid → skb.Valid → skb.groLen ≠ 0 →
      ∃ m, skbGroMerge p skb = some m ∧ (m.err = none ∧ Spliced mem p skb m ∨ Refused p skb m) := by
  intro h
  have hp : (paged 1 0 4294967196 0).Valid := ⟨by decide, by decide⟩
  have hskb : (paged 2 0 200 0).Valid := ⟨by decide, by decide⟩
  have hend : (skbGroMerge (paged 1 0 4294967196 0) (paged 2 0 200 0)).map (fun m =>
      (m.err, m.p.len.toNat, m.p.headlen.toNat + fragsLen m.p.fragList)) = some (none, 100, 4294967396) := by decide
  obtain ⟨m, hm, hspliced⟩ := h (fun _ _ => 0) _ _ hp hskb (by decide)
  rw [hm, Option.map_some, Option.some_inj, Prod.mk.injEq, Prod.mk.injEq] at hend
  obtain ⟨herr, hlen, hsum⟩ := hend
  rcases hspliced with ⟨-, hspliced⟩ | ⟨hwhy, -⟩
  · have hvalid := hspliced.valid.len
    rw [hlen, hsum] at hvalid
    exact absurd hvalid (by decide)
  · rw [herr] at hwhy
    simp at hwhy

end SkBuff

end PacketReordering.Linux318
