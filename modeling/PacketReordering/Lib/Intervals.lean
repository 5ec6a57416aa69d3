import Mathlib.Data.List.Basic
import Mathlib.Tactic.Common

/-!
# Intervals in a row

A list of things that each cover a half open interval `[lo a, hi a)` of the natural numbers.

* `Ahead lo hi x l` — the intervals of `l` are not empty, follow one another without overlap and start at or behind `x`;
* `reach hi x l` — where they end;
* `ahead_append`, `Ahead.insert` — cutting a row in two, and putting one more interval in;
* `Ahead.forall_lt_iff` — only the first interval can start at `x`.
-/

namespace PacketReordering.Lib

variable {α : Type*} {lo hi : α → ℕ}

/-- The intervals of `l` follow one another from `x` on. -/
def Ahead (lo hi : α → ℕ) : ℕ → List α → Prop
  | _, [] => True
  | x, a :: l => x ≤ lo a ∧ lo a < hi a ∧ Ahead lo hi (hi a) l

/-- The end of the last interval of `l`, and `x` if there is none. -/
def reach {β : Type*} (hi : α → β) (x : β) (l : List α) : β := (l.getLast?.map hi).getD x

section

variable {β : Type*} {f : α → β}

@[simp] theorem reach_nil (x : β) : reach f x [] = x := rfl

@[simp] theorem reach_cons (x : β) (a : α) (l : List α) : reach f x (a :: l) = reach f (f a) l := by
  cases l with
  | nil => rfl
  | cons b l => simp [reach, List.getLast?_cons]

@[simp] theorem reach_concat (x : β) (l : List α) (a : α) : reach f x (l ++ [a]) = f a := by
  simp [reach]

end

theorem ahead_append {x : ℕ} {l m : List α} :
    Ahead lo hi x (l ++ m) ↔ Ahead lo hi x l ∧ Ahead lo hi (reach hi x l) m := by
  induction l generalizing x with
  | nil => simp [Ahead]
  | cons a l ih =>
    rw [List.cons_append, Ahead, Ahead, ih, reach_cons, and_assoc, and_assoc]

/-- Starting the row elsewhere: only its first interval is asked. -/
theorem Ahead.from {x y : ℕ} {l : List α} (h : Ahead lo hi x l) (hy : ∀ a ∈ l.head?, y ≤ lo a) : Ahead lo hi y l := by
  cases l with
  | nil => trivial
  | cons a l => exact ⟨hy a rfl, h.2⟩

theorem Ahead.mono {x y : ℕ} {l : List α} (h : Ahead lo hi x l) (hy : y ≤ x) : Ahead lo hi y l := by
  refine h.from fun a ha => ?_
  cases l with
  | nil => cases ha
  | cons b l =>
    obtain rfl : b = a := by simpa using ha
    exact Nat.le_trans hy h.1

theorem Ahead.le_lo {x : ℕ} {l : List α} (h : Ahead lo hi x l) : ∀ a ∈ l, x ≤ lo a := by
  induction l generalizing x with
  | nil => simp
  | cons b l ih =>
    intro a ha
    obtain ⟨hx, hlt, hl⟩ := h
    rcases List.mem_cons.1 ha with rfl | ha
    · exact hx
    · have := ih hl a ha
      omega

theorem Ahead.lo_lt_hi {x : ℕ} {l : List α} (h : Ahead lo hi x l) : ∀ a ∈ l, lo a < hi a := by
  induction l generalizing x with
  | nil => simp
  | cons b l ih => exact List.forall_mem_cons.2 ⟨h.2.1, ih h.2.2⟩

/-- **Putting an interval in.** -/
theorem Ahead.insert {x : ℕ} {l m : List α} {a : α} (h : Ahead lo hi x (l ++ m)) (hl : reach hi x l ≤ lo a)
    (ha : lo a < hi a) (hm : ∀ b ∈ m.head?, hi a ≤ lo b) : Ahead lo hi x (l ++ a :: m) := by
  rw [ahead_append] at h ⊢
  exact ⟨h.1, hl, ha, h.2.from hm⟩

/-- Only the first interval of the row can start at `x` itself. -/
theorem Ahead.forall_lt_iff {x : ℕ} {l : List α} (h : Ahead lo hi x l) :
    (∀ a ∈ l, x < lo a) ↔ ∀ a ∈ l.head?, x < lo a := by
  constructor
  · intro hall a ha
    exact hall a (List.mem_of_head? ha)
  · intro hhead a ha
    cases l with
    | nil => cases ha
    | cons b l =>
      have hb : x < lo b := hhead b rfl
      rcases List.mem_cons.1 ha with rfl | ha
      · exact hb
      · have := h.2.2.le_lo a ha
        have := h.2.1
        omega

theorem Ahead.congr {lo' hi' : α → ℕ} {x : ℕ} {l : List α} (h : Ahead lo hi x l)
    (heq : ∀ a ∈ l, lo' a = lo a ∧ hi' a = hi a) : Ahead lo' hi' x l := by
  induction l generalizing x with
  | nil => trivial
  | cons a l ih =>
    obtain ⟨hlo, hhi⟩ := heq a (List.mem_cons_self ..)
    refine ⟨by rw [hlo]; exact h.1, by rw [hlo, hhi]; exact h.2.1, ?_⟩
    rw [hhi]
    exact ih h.2.2 fun b hb => heq b (List.mem_cons_of_mem _ hb)

end PacketReordering.Lib
