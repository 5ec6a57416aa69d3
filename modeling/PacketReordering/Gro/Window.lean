import PacketReordering.Gro.Queues

/-!
# Sequence numbers in a window

When the sequence numbers of a flow lie in a window of 2^30 numbers, the comparisons `before` and `after` of any two of
them compare their distances from the base of the window.

* `FlowKey` — what the packets of a flow have in common;
* `Body.InWindow` — the payload of a buffer lies in the window;
* `before_iff`, `after_iff` — the comparisons;
* `Apart` — segments in order and without overlap;
* `Tiled` — packets that lie one behind the other in a buffer.
-/

namespace PacketReordering.Gro

open Lib

/-- What tells flows apart: the link, the protocol, the addresses and the ports. -/
structure FlowKey where
  link : LinkHdr
  protocol : U8
  saddr : U32
  daddr : U32
  ports : U32
  deriving DecidableEq

section

variable {γ : Type} {base x y : U32} {b : Body γ} {s : Seg γ} {n : Option SkbId} {pre post : List (Seg γ)}

def Body.flowKey (b : Body γ) : FlowKey := ⟨b.link, b.ip.protocol, b.ip.saddr, b.ip.daddr, b.tcp.ports⟩

/-- The payload of `b` and the number behind it lie in the window at `base`. -/
def Body.InWindow (base : U32) (b : Body γ) : Prop := offset base b.seq + b.len.toNat ≤ 2 ^ 30

instance : Decidable (b.InWindow base) := inferInstanceAs (Decidable (_ ≤ _))

/-- Where the payload of the buffer begins and ends in the window. -/
def Body.first (base : U32) (b : Body γ) : ℕ := offset base b.seq

def Body.last (base : U32) (b : Body γ) : ℕ := offset base b.seqEnd

theorem Body.InWindow.last_eq (h : b.InWindow base) : b.last base = b.first base + b.len.toNat := by
  unfold InWindow at h
  have hadd := @offset_add 32 base b.seq b.len.toNat (by omega)
  rwa [BitVec.ofNat_toNat, BitVec.setWidth_eq] at hadd

theorem Body.InWindow.first_le (h : b.InWindow base) : b.first base ≤ b.last base := by
  rw [h.last_eq]
  omega

theorem Body.InWindow.last_le (h : b.InWindow base) : b.last base ≤ 2 ^ 30 := by
  rw [h.last_eq]
  exact h

theorem Body.InWindow.first_le_window (h : b.InWindow base) : b.first base ≤ 2 ^ 30 :=
  Nat.le_trans h.first_le h.last_le

theorem before_iff (hx : offset base x ≤ 2 ^ 30) (hy : offset base y ≤ 2 ^ 30) :
    before x y = true ↔ offset base x < offset base y := by
  rw [before, decide_eq_true_iff]
  exact serialLT_iff_offset (by omega) (by omega)

theorem after_iff (hx : offset base x ≤ 2 ^ 30) (hy : offset base y ≤ 2 ^ 30) :
    after x y = true ↔ offset base y < offset base x := before_iff hy hx

theorem before_eq_false_iff (hx : offset base x ≤ 2 ^ 30) (hy : offset base y ≤ 2 ^ 30) :
    before x y = false ↔ offset base y ≤ offset base x := by
  rw [Bool.eq_false_iff, ne_eq, before_iff hx hy]
  omega

/-! ### Segments in order -/

/-- Every segment ends where a later one begins, or before. -/
def Apart (base : U32) (segs : List (Seg γ)) : Prop :=
  segs.Pairwise fun x y => x.body.last base ≤ y.body.first base

@[simp] theorem apart_nil : Apart base ([] : List (Seg γ)) := List.Pairwise.nil

@[simp] theorem apart_cons : Apart base (s :: post) ↔ (∀ y ∈ post, s.body.last base ≤ y.body.first base) ∧ Apart base post :=
  List.pairwise_cons

theorem apart_append : Apart base (pre ++ post) ↔
    Apart base pre ∧ Apart base post ∧ ∀ x ∈ pre, ∀ y ∈ post, x.body.last base ≤ y.body.first base :=
  List.pairwise_append

theorem apart_middle : Apart base (pre ++ s :: post) ↔ Apart base (pre ++ post) ∧
    (∀ x ∈ pre, x.body.last base ≤ s.body.first base) ∧ ∀ y ∈ post, s.body.last base ≤ y.body.first base := by
  simp only [apart_append, apart_cons, List.forall_mem_cons]
  constructor
  · rintro ⟨hpre, ⟨hs, hpost⟩, hcross⟩
    exact ⟨⟨hpre, hpost, fun x hx => (hcross x hx).2⟩, fun x hx => (hcross x hx).1, hs⟩
  · rintro ⟨⟨hpre, hpost, hcross⟩, hpres, hs⟩
    exact ⟨hpre, ⟨hs, hpost⟩, fun x hx => ⟨hpres x hx, hcross x hx⟩⟩

@[simp] theorem apart_setHeadNext : Apart base (setHeadNext n post) ↔ Apart base post := by
  cases post <;> simp [setHeadNext]

theorem Apart.map {f : Seg γ → Seg γ} (h : Apart base post)
    (hf : ∀ x ∈ post, (f x).body.seq = x.body.seq ∧ (f x).body.len = x.body.len) : Apart base (post.map f) := by
  rw [Apart, List.pairwise_map]
  refine List.Pairwise.imp_of_mem (fun {x y} hx hy hxy => ?_) h
  rw [Body.last, Body.seqEnd, (hf x hx).1, (hf x hx).2, Body.first, (hf y hy).1]
  exact hxy

/-- The payloads of segments in order fit into what is left of the window. -/
theorem Apart.sum_len_le (h : Apart base post) (hwin : ∀ x ∈ post, x.body.InWindow base) {m : ℕ} (hm : m ≤ 2 ^ 30)
    (hfirst : ∀ x ∈ post, m ≤ x.body.first base) : m + (post.map fun x => x.body.len.toNat).sum ≤ 2 ^ 30 := by
  induction post generalizing m with
  | nil => simpa using hm
  | cons x post ih =>
    obtain ⟨hx, hpost⟩ := apart_cons.1 h
    obtain ⟨hxwin, hpostwin⟩ := List.forall_mem_cons.1 hwin
    have hle := hfirst x (List.mem_cons_self ..)
    have hlast := hxwin.last_eq
    have hrest := ih hpost hpostwin hxwin.last_le hx
    rw [List.map_cons, List.sum_cons]
    omega

theorem totalLen_toNat (h : (post.map fun x => x.body.len.toNat).sum < 2 ^ 32) :
    (totalLen post).toNat = (post.map fun x => x.body.len.toNat).sum := by
  induction post with
  | nil => rfl
  | cons x post ih =>
    rw [List.map_cons, List.sum_cons] at h ⊢
    rw [totalLen, BitVec.toNat_add, ih (by omega), Nat.mod_eq_of_lt h]

end

/-! ### Packets -/

/-- Where the payload of a packet begins and ends in the window. -/
def partFirst (base : U32) (c : Part) : ℕ := offset base c.seq

def partLast (base : U32) (c : Part) : ℕ := offset base (c.seq + c.len)

/-- The packets lie one behind the other, from `x` to `y`. -/
def Tiled (base : U32) : ℕ → List Part → ℕ → Prop
  | x, [], y => x = y
  | x, c :: cs, y => partFirst base c = x ∧ x ≤ partLast base c ∧ Tiled base (partLast base c) cs y

section

variable {base : U32} {cs ds : List Part} {x y z m n : ℕ}

theorem Tiled.append (hcs : Tiled base x cs y) (hds : Tiled base y ds z) : Tiled base x (cs ++ ds) z := by
  induction cs generalizing x with
  | nil =>
    obtain rfl : x = y := hcs
    exact hds
  | cons c cs ih =>
    obtain ⟨hfirst, hle, hcs⟩ := hcs
    exact ⟨hfirst, hle, ih hcs⟩

theorem Tiled.le (hcs : Tiled base x cs y) : x ≤ y := by
  induction cs generalizing x with
  | nil => exact Nat.le_of_eq hcs
  | cons c cs ih =>
    obtain ⟨-, hle, hcs⟩ := hcs
    exact Nat.le_trans hle (ih hcs)

theorem Tiled.within (hcs : Tiled base x cs y) :
    ∀ c ∈ cs, x ≤ partFirst base c ∧ partFirst base c ≤ partLast base c ∧ partLast base c ≤ y := by
  induction cs generalizing x with
  | nil => exact fun c hc => absurd hc List.not_mem_nil
  | cons c cs ih =>
    obtain ⟨hfirst, hle, hcs⟩ := hcs
    refine List.forall_mem_cons.2 ⟨⟨Nat.le_of_eq hfirst.symm, hfirst ▸ hle, hcs.le⟩, fun d hd => ?_⟩
    obtain ⟨hd, hdle, hdy⟩ := ih hcs d hd
    exact ⟨Nat.le_trans hle hd, hdle, hdy⟩

/-- What overlaps none of the packets lies before all of them or behind all of them. -/
theorem Tiled.clear (hcs : Tiled base x cs y) (hxy : x < y) (hmn : m < n)
    (hclear : ∀ c ∈ cs, partFirst base c < partLast base c → partLast base c ≤ m ∨ n ≤ partFirst base c) :
    y ≤ m ∨ n ≤ x := by
  induction cs generalizing x with
  | nil => exact absurd hcs (Nat.ne_of_lt hxy)
  | cons c cs ih =>
    obtain ⟨hfirst, hle, hcs⟩ := hcs
    obtain ⟨hc, hclear⟩ := List.forall_mem_cons.1 hclear
    by_cases hempty : partLast base c = x
    · rw [hempty] at hcs
      exact ih hcs hxy hclear
    · rcases hc (by omega) with hlast | hc
      · -- the next packet begins where this one ends
        by_cases hend : partLast base c = y
        · exact Or.inl (hend ▸ hlast)
        · have hlt := Nat.lt_of_le_of_ne hcs.le hend
          have hrest := ih hcs hlt hclear
          omega
      · exact Or.inr (hfirst ▸ hc)

end

end PacketReordering.Gro
