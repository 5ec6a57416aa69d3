import PacketReordering.Gro.Memory

/-!
# The bytes of a buffer

The payload of a buffer lies in the pages that its linear part and its fragments describe.  Receive offload moves
descriptors and the bytes of headers; it writes no page in which payload lies.

* `Body.bytesFrom`, `Body.payload` — what a buffer describes, from some offset and from `data_offset` on;
* `Body.Reaches` — the headers that `skb_gro_header_fast` reads are where it reads them;
* `Body.groHeader_bytesFrom`, `Body.payload_pull` — the checks of the headers and `pull` keep the payload;
* `mergeData_payload` — merging concatenates.
-/

namespace PacketReordering.Gro

/-- The memory of the pages. -/
abbrev Pages := ℕ → ℕ → U8

/-- The `size` bytes of the page from `offset` on. -/
def bytesAt (mem : Pages) (page offset size : ℕ) : List U8 := (List.range size).map fun k => mem page (offset + k)

def Frag.bytes (mem : Pages) (f : Frag) : List U8 := bytesAt mem f.page f.pageOffset f.size

/-- The bytes of fragments one behind the other. -/
def fragsBytes (mem : Pages) (frags : List Frag) : List U8 := frags.flatMap (Frag.bytes mem)

/-- `frag->page_offset += n; skb_frag_size_sub(frag, n);` -/
def Frag.advance (f : Frag) (n : ℕ) : Frag := { f with pageOffset := f.pageOffset + n, size := f.size - n }

section

variable {mem : Pages} {page offset size n m : ℕ} {f : Frag} {fs gs : List Frag}

@[simp] theorem bytesAt_length : (bytesAt mem page offset size).length = size := by simp [bytesAt]

@[simp] theorem bytesAt_zero : bytesAt mem page offset 0 = [] := rfl

theorem bytesAt_add : bytesAt mem page offset (n + m) = bytesAt mem page offset n ++ bytesAt mem page (offset + n) m := by
  unfold bytesAt
  rw [List.range_add, List.map_append, List.map_map]
  congr 1
  refine List.map_congr_left fun k _ => ?_
  rw [Function.comp_apply, Nat.add_assoc]

theorem bytesAt_drop : (bytesAt mem page offset size).drop n = bytesAt mem page (offset + n) (size - n) := by
  by_cases h : n ≤ size
  · obtain ⟨m, rfl⟩ := Nat.exists_eq_add_of_le h
    rw [bytesAt_add, List.drop_left' bytesAt_length, Nat.add_sub_cancel_left]
  · rw [Nat.sub_eq_zero_of_le (by omega), bytesAt_zero]
    exact List.drop_of_length_le (by rw [bytesAt_length]; omega)

theorem bytesAt_take : (bytesAt mem page offset size).take n = bytesAt mem page offset (min n size) := by
  rcases Nat.le_total n size with h | h
  · obtain ⟨m, rfl⟩ := Nat.exists_eq_add_of_le h
    rw [bytesAt_add, List.take_left' bytesAt_length, Nat.min_eq_left h]
  · rw [Nat.min_eq_right h]
    exact List.take_of_length_le (by rw [bytesAt_length]; omega)

@[simp] theorem Frag.bytes_length (mem : Pages) : (f.bytes mem).length = f.size := bytesAt_length

theorem Frag.bytes_advance : (f.advance n).bytes mem = (f.bytes mem).drop n := bytesAt_drop.symm

theorem Frag.bytes_take : (f.bytes mem).take n = ({ f with size := min n f.size } : Frag).bytes mem := bytesAt_take

@[simp] theorem fragsBytes_nil : fragsBytes mem [] = [] := rfl

@[simp] theorem fragsBytes_cons : fragsBytes mem (f :: fs) = f.bytes mem ++ fragsBytes mem fs := rfl

@[simp] theorem fragsBytes_append : fragsBytes mem (fs ++ gs) = fragsBytes mem fs ++ fragsBytes mem gs :=
  List.flatMap_append

theorem fragsBytes_length (mem : Pages) : (fragsBytes mem fs).length = (fs.map Frag.size).sum := by
  induction fs with
  | nil => rfl
  | cons f fs ih => rw [fragsBytes_cons, List.length_append, Frag.bytes_length, ih, List.map_cons, List.sum_cons]

/-- Fragments that lose their first bytes to the linear part. -/
theorem fragsBytes_eatFrags (n : ℕ) (fs : List Frag) : fragsBytes mem (Body.eatFrags n fs) = (fragsBytes mem fs).drop n := by
  induction fs generalizing n with
  | nil =>
    rw [Body.eatFrags, fragsBytes_nil]
    exact List.drop_nil.symm
  | cons f fs ih =>
    rw [Body.eatFrags, fragsBytes_cons, List.drop_append, Frag.bytes_length]
    split
    · have hall : (f.bytes mem).drop n = [] := List.drop_of_length_le (by rw [Frag.bytes_length]; omega)
      rw [ih, hall, List.nil_append]
    · have hnone : n - f.size = 0 := by omega
      rw [fragsBytes_cons, ih, hnone, List.drop_zero]
      congr 1
      exact Frag.bytes_advance

theorem eatFrags_length_le (n : ℕ) (fs : List Frag) : (Body.eatFrags n fs).length ≤ fs.length := by
  induction fs generalizing n with
  | nil => exact Nat.le_refl _
  | cons f fs ih =>
    rw [Body.eatFrags]
    split
    · exact (ih _).trans (Nat.le_succ _)
    · exact Nat.succ_le_succ (ih 0)

end

namespace Body

variable {γ : Type} {mem : Pages} {b c : Body γ} {k n hlen : ℕ}

/-- The bytes of the buffer from the `k`th on, when these have not been written. -/
def bytesFrom (mem : Pages) (b : Body γ) (k : ℕ) : List U8 :=
  bytesAt mem b.headPage (b.headData + k) (b.headlen - k) ++ (fragsBytes mem b.frags).drop (k - b.headlen)

/-- The bytes behind the headers that receive offload has gone past. -/
def payload (mem : Pages) (b : Body γ) : List U8 := b.bytesFrom mem b.dataOffset

/-- The first `n` bytes are in the linear part and the first fragment. -/
def Reaches (b : Body γ) (n : ℕ) : Prop := b.headlen < n → ∃ f fs, b.frags = f :: fs ∧ n ≤ b.headlen + f.size

/-- What `skb_gro_reset_offset` establishes and `skb_gro_header_slow` keeps. -/
def Frag0Set (b : Body γ) : Prop := b.frag0Len = 0 ∨ b.headlen = 0 ∧ b.frags.head?.map Frag.size = some b.frag0Len

theorem Reaches.le_skbLen (h : b.Reaches n) : n ≤ b.skbLen := by
  unfold skbLen dataLen
  by_cases hlt : b.headlen < n
  · obtain ⟨f, fs, hfrags, hn⟩ := h hlt
    rw [hfrags, List.map_cons, List.sum_cons]
    omega
  · omega

theorem bytesFrom_length : (b.bytesFrom mem k).length = b.skbLen - k := by
  rw [bytesFrom, List.length_append, bytesAt_length, List.length_drop, fragsBytes_length, skbLen, dataLen]
  omega

theorem payload_length (mem : Pages) : (b.payload mem).length = b.groLen := bytesFrom_length

theorem bytesFrom_congr (hpage : c.headPage = b.headPage) (hdata : c.headData = b.headData)
    (hlen : c.headlen = b.headlen) (hfrags : c.frags = b.frags) : c.bytesFrom mem k = b.bytesFrom mem k := by
  rw [bytesFrom, bytesFrom, hpage, hdata, hlen, hfrags]

/-! ### The headers -/

theorem pskbMayPull_bytesFrom (h : b.pskbMayPull hlen = some c) (hk : hlen ≤ k) : c.bytesFrom mem k = b.bytesFrom mem k := by
  unfold pskbMayPull at h
  split at h
  · cases h
    rfl
  · split at h
    · rename_i hlinear _
      cases h
      simp only [bytesFrom, Nat.sub_eq_zero_of_le hk, Nat.sub_eq_zero_of_le (show b.headlen ≤ k by omega), bytesAt_zero,
        List.nil_append, fragsBytes_eatFrags, List.drop_drop]
      congr 1
      omega
    · cases h

/-- **Looking at a header keeps what is behind it.** -/
theorem groHeader_bytesFrom (mem : Pages) (h : b.groHeader hlen = some c) (hk : hlen ≤ k) :
    c.bytesFrom mem k = b.bytesFrom mem k := by
  unfold groHeader at h
  split at h
  · obtain ⟨d, hd, rfl⟩ := Option.map_eq_some_iff.1 h
    exact (pskbMayPull_bytesFrom hd hk : d.bytesFrom mem k = _)
  · cases h
    rfl

theorem groHeader_frag0Set (hb : b.Frag0Set) (h : b.groHeader hlen = some c) : c.Frag0Set := by
  unfold groHeader at h
  split at h
  · obtain ⟨d, hd, rfl⟩ := Option.map_eq_some_iff.1 h
    exact Or.inl rfl
  · cases h
    exact hb

/-- A header that has been looked at is where it was looked at. -/
theorem groHeader_reaches (hb : b.Frag0Set) (h : b.groHeader hlen = some c) : c.Reaches hlen := by
  intro hlt
  unfold groHeader at h
  split at h
  · obtain ⟨d, hd, rfl⟩ := Option.map_eq_some_iff.1 h
    unfold pskbMayPull at hd
    split at hd
    · rename_i hlinear
      cases hd
      exact absurd hlt (Nat.not_lt.2 hlinear)
    · split at hd
      · cases hd
        exact absurd hlt (Nat.lt_irrefl _)
      · cases hd
  · rename_i hfast
    cases h
    rcases hb with hzero | ⟨hhead, hfrag⟩
    · omega
    · obtain ⟨f, hf, hsize⟩ := Option.map_eq_some_iff.1 hfrag
      obtain ⟨fs, hfs⟩ := List.head?_eq_some_iff.1 hf
      exact ⟨f, fs, hfs, by omega⟩

theorem pull_headlen : b.pull.headlen = max b.headlen b.dataOffset := by
  unfold pull pullFromFrag0
  split
  · show b.headlen + (b.dataOffset - b.headlen) = _
    omega
  · omega

@[simp] theorem pull_dataOffset : b.pull.dataOffset = b.dataOffset := by
  unfold pull pullFromFrag0
  split <;> rfl

/-- **`pull` keeps the payload.** -/
theorem payload_pull (h : b.Reaches b.dataOffset) : b.pull.payload mem = b.payload mem := by
  by_cases hlt : b.headlen < b.dataOffset
  · obtain ⟨f, fs, hfrags, hn⟩ := h hlt
    have hgrow : b.dataOffset - b.headlen ≤ f.size := by omega
    have hold : b.payload mem = (f.bytes mem).drop (b.dataOffset - b.headlen) ++ fragsBytes mem fs := by
      rw [payload, bytesFrom, Nat.sub_eq_zero_of_le (Nat.le_of_lt hlt), bytesAt_zero, List.nil_append, hfrags,
        fragsBytes_cons, List.drop_append_of_le_length (by rwa [Frag.bytes_length])]
    have hlinear : b.headlen + (b.dataOffset - b.headlen) = b.dataOffset := by omega
    rw [hold]
    unfold pull pullFromFrag0
    rw [if_pos hlt, hfrags]
    simp only [payload, bytesFrom, hlinear, Nat.sub_self, bytesAt_zero, List.nil_append, List.drop_zero]
    split
    · -- the first fragment held nothing else
      rw [List.drop_of_length_le (by rw [Frag.bytes_length]; omega), List.nil_append]
    · rw [fragsBytes_cons]
      congr 1
      exact Frag.bytes_advance
  · rw [pull, if_neg hlt]

theorem pull_reaches : b.pull.Reaches b.pull.dataOffset := by
  intro hlt
  rw [pull_headlen, pull_dataOffset] at hlt
  omega

end Body

/-! ### Merging -/

section

variable {γ : Type} {mem : Pages} {n : ℕ} {p skb p' skb' : Body γ} {fs gs : List Frag}

theorem append_payload (hp : p.Reaches p.dataOffset) :
    (p.append skb (p.frags ++ gs)).payload mem = p.payload mem ++ fragsBytes mem gs := by
  have hle := hp.le_skbLen
  simp only [Body.skbLen, Body.dataLen] at hle
  show _ ++ (fragsBytes mem (p.frags ++ gs)).drop (p.dataOffset - p.headlen) = (_ ++ _) ++ _
  rw [fragsBytes_append, List.drop_append_of_le_length, List.append_assoc]
  · rfl
  · rw [fragsBytes_length]
    omega

theorem append_reaches (hp : p.Reaches p.dataOffset) :
    (p.append skb (p.frags ++ gs)).Reaches (p.append skb (p.frags ++ gs)).dataOffset := by
  intro hlt
  obtain ⟨f, fs, hfrags, hn⟩ := hp hlt
  refine ⟨f, fs ++ gs, ?_, hn⟩
  show p.frags ++ gs = _
  rw [hfrags, List.cons_append]

/-- What `mergeData` appends: the fragments of `skb` without its headers. -/
theorem mergeData_frags (mem : Pages) (h : mergeData n p skb = .merged p' skb') (hskb : skb.Reaches skb.dataOffset) :
    ∃ gs, p' = p.append skb (p.frags ++ gs) ∧ fragsBytes mem gs = skb.payload mem := by
  unfold mergeData at h
  split at h
  · cases h
  split at h
  · rename_i hhead
    dsimp only at h
    split at h
    · cases h
    · cases hfrags : skb.frags with
      | nil =>
        rw [hfrags, List.length_nil, copyFrags_none] at h
        cases h
      | cons f fs =>
        have hcopy := copyFrags_lists p.frags skb.frags (by rw [hfrags]; exact List.cons_ne_nil f fs)
        split at h
        · cases h
        · rename_i frags hloop
          rw [hloop, Option.map_some, Option.some.injEq] at hcopy
          cases h
          refine ⟨f.advance (skb.dataOffset - skb.headlen) :: fs, ?_, ?_⟩
          · rw [hcopy, hfrags, List.modify_eq_take_cons_drop (by simp)]
            simp [Frag.advance]
          · have hsize : skb.dataOffset - skb.headlen ≤ f.size := by
              by_cases hlt : skb.headlen < skb.dataOffset
              · obtain ⟨g, gs, hg, hn⟩ := hskb hlt
                rw [hfrags, List.cons.injEq] at hg
                rw [hg.1]
                omega
              · omega
            rw [Body.payload, Body.bytesFrom, Nat.sub_eq_zero_of_le hhead, bytesAt_zero, List.nil_append, hfrags,
              fragsBytes_cons, fragsBytes_cons, List.drop_append_of_le_length (by rwa [Frag.bytes_length]),
              Frag.bytes_advance]
  · rename_i hhead
    split at h
    · split at h
      · cases h
      · cases h
        refine ⟨_, rfl, ?_⟩
        rw [fragsBytes_cons, Body.payload, Body.bytesFrom, Nat.sub_eq_zero_of_le (Nat.le_of_not_le hhead), List.drop_zero]
        rfl
    · cases h

/-- **Merging concatenates the payloads.** -/
theorem mergeData_payload (mem : Pages) (h : mergeData n p skb = .merged p' skb') (hp : p.Reaches p.dataOffset)
    (hskb : skb.Reaches skb.dataOffset) :
    p'.payload mem = p.payload mem ++ skb.payload mem ∧ p'.Reaches p'.dataOffset := by
  obtain ⟨gs, rfl, hgs⟩ := mergeData_frags mem h hskb
  rw [← hgs]
  exact ⟨append_payload hp, append_reaches hp⟩

end

end PacketReordering.Gro
