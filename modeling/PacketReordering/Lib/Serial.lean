import Mathlib.Algebra.Order.Ring.Nat
import Mathlib.Data.List.Basic
import Mathlib.Tactic.Common

/-!
# Serial numbers

Numbers of `w` bits compared by the sign of their difference.  The comparison is no order on the whole
circle; inside a window of half the circle it is the order of the offsets from the start of the window.

* `SerialLT a b` — `a` is before `b`: the difference `a - b` is negative as a two's complement number;
* `offset base a` — the distance from `base` to `a`;
* `serialLT_iff_offset` — the two agree on a window;
* `Tops` — the maximum of some numbers in a window.
-/

namespace PacketReordering.Lib

variable {w : ℕ}

/-- `a` is before `b` in serial order. -/
def SerialLT (a b : BitVec w) : Prop := (a - b).toInt < 0

instance (a b : BitVec w) : Decidable (SerialLT a b) := by unfold SerialLT; infer_instance

/-- The distance from `base` up to `a`, going round the circle. -/
def offset (base a : BitVec w) : ℕ := (a - base).toNat

theorem offset_injective (base : BitVec w) : Function.Injective (offset base) := by
  intro a b h
  have h' : a - base = b - base := BitVec.eq_of_toNat_eq h
  calc a = a - base + base := (BitVec.sub_add_cancel a base).symm
    _ = b - base + base := by rw [h']
    _ = b := BitVec.sub_add_cancel b base

@[simp] theorem offset_inj {base a b : BitVec w} : offset base a = offset base b ↔ a = b :=
  (offset_injective base).eq_iff

/-- Advancing by `n` inside the circle advances the offset by `n`. -/
theorem offset_add {base a : BitVec w} {n : ℕ} (h : offset base a + n < 2 ^ w) :
    offset base (a + BitVec.ofNat w n) = offset base a + n := by
  unfold offset at *
  have hsub : a + BitVec.ofNat w n - base = (a - base) + BitVec.ofNat w n := by
    rw [BitVec.sub_eq_add_neg, BitVec.sub_eq_add_neg]
    ac_rfl
  have hn : n < 2 ^ w := by omega
  rw [hsub, BitVec.toNat_add, BitVec.toNat_ofNat, Nat.mod_eq_of_lt hn, Nat.mod_eq_of_lt h]

theorem sub_eq_offset_sub (base a b : BitVec w) :
    (a - b).toNat = (2 ^ w - offset base b + offset base a) % 2 ^ w := by
  have hab : a - b = (a - base) - (b - base) := by grind
  rw [hab, BitVec.toNat_sub]
  rfl

/-- **Serial order is the order of the offsets** inside a window of half the circle. -/
theorem serialLT_iff_offset {base a b : BitVec w} (ha : 2 * offset base a < 2 ^ w) (hb : 2 * offset base b < 2 ^ w) :
    SerialLT a b ↔ offset base a < offset base b := by
  unfold SerialLT
  rw [BitVec.toInt_neg_iff, sub_eq_offset_sub base]
  constructor
  · intro h
    by_contra hle
    have hmod : (2 ^ w - offset base b + offset base a) % 2 ^ w = offset base a - offset base b := by
      rw [show 2 ^ w - offset base b + offset base a = offset base a - offset base b + 2 ^ w by omega,
        Nat.add_mod_right, Nat.mod_eq_of_lt (by omega)]
    omega
  · intro h
    rw [Nat.mod_eq_of_lt (by omega)]
    omega

/-! ### Maxima -/

/-- `n` is the maximum of `ns` in the window. -/
structure Tops (base n : BitVec 32) (ns : List (BitVec 32)) : Prop where
  mem : n ∈ ns
  le : ∀ m ∈ ns, offset base m ≤ offset base n
  window : offset base n ≤ 2 ^ 30

section

variable {base n m : BitVec 32} {ns ms : List (BitVec 32)}

/-- A maximum in the window is one in serial order. -/
theorem Tops.not_serialLT (ht : Tops base n ns) : ∀ m ∈ ns, ¬ SerialLT n m := by
  intro m hm
  have hle := ht.le m hm
  have hwin := ht.window
  have hlt : SerialLT n m ↔ offset base n < offset base m := serialLT_iff_offset (by omega) (by omega)
  rw [hlt]
  omega

theorem tops_singleton (hn : offset base n ≤ 2 ^ 30) : Tops base n [n] :=
  ⟨List.mem_singleton_self n, fun m hm => Nat.le_of_eq (by rw [List.mem_singleton.1 hm]), hn⟩

/-- One more number. -/
theorem Tops.raise (ht : Tops base n ns) (hm : offset base m ≤ 2 ^ 30) :
    Tops base (if SerialLT n m then m else n) (ns ++ [m]) := by
  obtain ⟨hmem, hle, hwin⟩ := ht
  have hlt : SerialLT n m ↔ offset base n < offset base m := serialLT_iff_offset (by omega) (by omega)
  by_cases hnm : SerialLT n m
  · rw [if_pos hnm]
    refine ⟨List.mem_append_right _ (List.mem_singleton_self m), List.forall_mem_append.2 ⟨fun e he => ?_, ?_⟩, hm⟩
    · have hen := hle e he
      have := hlt.1 hnm
      omega
    · simp
  · rw [if_neg hnm]
    refine ⟨List.mem_append_left _ hmem, List.forall_mem_append.2 ⟨hle, ?_⟩, hwin⟩
    simpa [hlt] using hnm

/-- A number at or behind the maximum that is the maximum of what is added. -/
theorem Tops.jump (ht : Tops base n ns) (hms : Tops base m ms) (hnm : offset base n ≤ offset base m) :
    Tops base m (ns ++ ms) := by
  refine ⟨List.mem_append_right _ hms.mem, List.forall_mem_append.2 ⟨fun e he => ?_, hms.le⟩, hms.window⟩
  have hen := ht.le e he
  omega

end

end PacketReordering.Lib
