import Mathlib.Data.List.Basic
import Mathlib.Data.List.Nodup
import Mathlib.Tactic.Common

/-!
# Linked lists in a store of links

The links of a store are two functions `nx pv : ι → Option ι`; a list `l : List ι` of cells is the shape that the
links spell out.

* `Chain nx s l e` — following `nx` from the link `s` visits exactly `l` and ends in the link `e`;
* `Dll nx pv p l n` — the cells of `l` are linked both ways, the first one back to `p` and the last one on to `n`;
* `Chain.relink`, `Dll.replace`, `Dll.splice` — what a list looks like after one link into it, or one stretch of it, is replaced.
-/

namespace PacketReordering.Lib

variable {ι : Type*} {nx nx' pv pv' : ι → Option ι}

/-! ### Singly linked chains -/

/-- Following `nx` from the link `s` visits `l` and ends in the link `e`. -/
def Chain (nx : ι → Option ι) : Option ι → List ι → Option ι → Prop
  | s, [], e => s = e
  | s, x :: l, e => s = some x ∧ Chain nx (nx x) l e

@[simp] theorem chain_nil {s e : Option ι} : Chain nx s [] e ↔ s = e := Iff.rfl

@[simp] theorem chain_cons {s e : Option ι} {x : ι} {l : List ι} :
    Chain nx s (x :: l) e ↔ s = some x ∧ Chain nx (nx x) l e := Iff.rfl

theorem chain_append {s e : Option ι} {l m : List ι} :
    Chain nx s (l ++ m) e ↔ ∃ t, Chain nx s l t ∧ Chain nx t m e := by
  induction l generalizing s with
  | nil => simp
  | cons x l ih => simp [ih, and_assoc]

theorem Chain.congr {s e : Option ι} {l : List ι} (h : Chain nx s l e) (heq : ∀ i ∈ l, nx' i = nx i) :
    Chain nx' s l e := by
  induction l generalizing s with
  | nil => exact h
  | cons x l ih =>
    refine ⟨h.1, ?_⟩
    rw [heq x (List.mem_cons_self ..)]
    exact ih h.2 fun i hi => heq i (List.mem_cons_of_mem _ hi)

/-- The first link of a chain that ends in `none` is its first cell. -/
theorem Chain.head_eq {s : Option ι} {l : List ι} (h : Chain nx s l none) : s = l.head? := by
  cases l with
  | nil => exact h
  | cons x l => exact h.1

/-- The last link of a chain leads to where it ends. -/
theorem Chain.last_eq {s e : Option ι} {l : List ι} {x : ι} (h : Chain nx s l e) (hx : l.getLast? = some x) :
    nx x = e := by
  obtain ⟨m, rfl⟩ := List.getLast?_eq_some_iff.1 hx
  obtain ⟨t, -, -, ht⟩ := chain_append.1 h
  exact ht

/-- **Writing the last link of a chain.**  The link that leaves `l` is `s` itself when `l` is empty and the link of
the last cell otherwise. -/
theorem Chain.relink [DecidableEq ι] {s s' t t' : Option ι} {l : List ι} (h : Chain nx s l t) (hnd : l.Nodup)
    (hs : s' = if l = [] then t' else s)
    (hnx : ∀ i ∈ l, nx' i = if l.getLast? = some i then t' else nx i) : Chain nx' s' l t' := by
  induction l generalizing s s' with
  | nil => simpa using hs
  | cons x l ih =>
    obtain ⟨hx, hl⟩ := h
    obtain ⟨hxl, hnd⟩ := List.nodup_cons.1 hnd
    refine ⟨by simpa [hx] using hs, ih hl hnd ?_ fun i hi => ?_⟩
    · have hx' := hnx x (List.mem_cons_self ..)
      cases l with
      | nil => simpa using hx'
      | cons y l =>
        have hne : (y :: l).getLast? ≠ some x := fun he => hxl (List.mem_of_getLast? he)
        simpa [List.getLast?_cons_cons, hne] using hx'
    · have hi' := hnx i (List.mem_cons_of_mem _ hi)
      cases l with
      | nil => simp at hi
      | cons y l => simpa [List.getLast?_cons_cons] using hi'

/-! ### Doubly linked lists -/

/-- The cells of `l` are linked both ways, entered from `p` and left to `n`. -/
def Dll (nx pv : ι → Option ι) : Option ι → List ι → Option ι → Prop
  | _, [], _ => True
  | p, x :: l, n => pv x = p ∧ nx x = l.head?.or n ∧ Dll nx pv (some x) l n

@[simp] theorem dll_nil {p n : Option ι} : Dll nx pv p [] n := trivial

@[simp] theorem dll_cons {p n : Option ι} {x : ι} {l : List ι} :
    Dll nx pv p (x :: l) n ↔ pv x = p ∧ nx x = l.head?.or n ∧ Dll nx pv (some x) l n := Iff.rfl

theorem dll_append {p n : Option ι} {l m : List ι} :
    Dll nx pv p (l ++ m) n ↔ Dll nx pv p l (m.head?.or n) ∧ Dll nx pv (l.getLast?.or p) m n := by
  induction l generalizing p with
  | nil => simp
  | cons x l ih =>
    have hlast : (x :: l).getLast?.or p = l.getLast?.or (some x) := by
      cases l <;> simp [List.getLast?_cons]
    have hhead : (l ++ m).head?.or n = l.head?.or (m.head?.or n) := by
      cases l <;> simp
    simp only [List.cons_append, dll_cons, ih, hlast, hhead, and_assoc]

theorem Dll.congr {p n : Option ι} {l : List ι} (h : Dll nx pv p l n)
    (heq : ∀ i ∈ l, nx' i = nx i ∧ pv' i = pv i) : Dll nx' pv' p l n := by
  induction l generalizing p with
  | nil => trivial
  | cons x l ih =>
    obtain ⟨hp, hn, hl⟩ := h
    obtain ⟨hnx, hpv⟩ := heq x (List.mem_cons_self ..)
    exact ⟨hpv.trans hp, hnx.trans hn, ih hl fun i hi => heq i (List.mem_cons_of_mem _ hi)⟩

/-- Writing the link that leaves a list. -/
theorem Dll.exit [DecidableEq ι] {p n n' : Option ι} {l : List ι} (h : Dll nx pv p l n) (hnd : l.Nodup)
    (heq : ∀ i ∈ l, pv' i = pv i ∧ nx' i = if l.getLast? = some i then n' else nx i) : Dll nx' pv' p l n' := by
  induction l generalizing p with
  | nil => trivial
  | cons x l ih =>
    obtain ⟨hp, hn, hl⟩ := h
    obtain ⟨hxl, hnd⟩ := List.nodup_cons.1 hnd
    obtain ⟨hpv, hnx⟩ := heq x (List.mem_cons_self ..)
    refine ⟨hpv.trans hp, ?_, ih hl hnd fun i hi => ?_⟩
    · cases l with
      | nil => simpa using hnx
      | cons y l =>
        have hne : (y :: l).getLast? ≠ some x := fun he => hxl (List.mem_of_getLast? he)
        rw [hnx, List.getLast?_cons_cons, if_neg hne, hn]
        simp
    · have hi' := heq i (List.mem_cons_of_mem _ hi)
      cases l with
      | nil => simp at hi
      | cons y l => simpa [List.getLast?_cons_cons] using hi'

/-- Writing the link that enters a list. -/
theorem Dll.entry [DecidableEq ι] {p p' n : Option ι} {l : List ι} (h : Dll nx pv p l n) (hnd : l.Nodup)
    (heq : ∀ i ∈ l, nx' i = nx i ∧ pv' i = if l.head? = some i then p' else pv i) : Dll nx' pv' p' l n := by
  cases l with
  | nil => trivial
  | cons x l =>
    obtain ⟨hp, hn, hl⟩ := h
    obtain ⟨hxl, hnd⟩ := List.nodup_cons.1 hnd
    obtain ⟨hnx, hpv⟩ := heq x (List.mem_cons_self ..)
    refine ⟨by simpa using hpv, hnx.trans hn, hl.congr fun i hi => ?_⟩
    obtain ⟨hnx', hpv'⟩ := heq i (List.mem_cons_of_mem _ hi)
    have hne : x ≠ i := fun he => hxl (he ▸ hi)
    exact ⟨hnx', by simpa [hne] using hpv'⟩

/-- **Replacing a stretch.**  When `mid'` is linked up on its own and the two links into it are written, the list
reads `pre ++ mid' ++ post`. -/
theorem Dll.replace [DecidableEq ι] {p n : Option ι} {pre mid mid' post : List ι}
    (h : Dll nx pv p (pre ++ (mid ++ post)) n) (hpre : pre.Nodup) (hpost : post.Nodup)
    (hmid : Dll nx' pv' (pre.getLast?.or p) mid' (post.head?.or n))
    (heqpre : ∀ i ∈ pre, pv' i = pv i ∧
      nx' i = if pre.getLast? = some i then mid'.head?.or (post.head?.or n) else nx i)
    (heqpost : ∀ i ∈ post, nx' i = nx i ∧
      pv' i = if post.head? = some i then mid'.getLast?.or (pre.getLast?.or p) else pv i) :
    Dll nx' pv' p (pre ++ (mid' ++ post)) n := by
  rw [dll_append, dll_append] at h
  obtain ⟨h1, -, h3⟩ := h
  rw [dll_append, dll_append]
  refine ⟨h1.exit hpre fun i hi => ?_, hmid, h3.entry hpost heqpost⟩
  obtain ⟨ha, hb⟩ := heqpre i hi
  refine ⟨ha, ?_⟩
  cases mid' <;> simpa using hb

/-- The rule for a whole list. -/
theorem Dll.splice [DecidableEq ι] {pre mid mid' post : List ι} (h : Dll nx pv none (pre ++ (mid ++ post)) none)
    (hpre : pre.Nodup) (hpost : post.Nodup) (hmid : Dll nx' pv' pre.getLast? mid' post.head?)
    (heqpre : ∀ i ∈ pre, pv' i = pv i ∧
      nx' i = if pre.getLast? = some i then mid'.head?.or post.head? else nx i)
    (heqpost : ∀ i ∈ post, nx' i = nx i ∧
      pv' i = if post.head? = some i then mid'.getLast?.or pre.getLast? else pv i) :
    Dll nx' pv' none (pre ++ (mid' ++ post)) none :=
  h.replace hpre hpost (by simpa using hmid) (by simpa using heqpre) (by simpa using heqpost)

/-- The links back are a chain through the cells in reverse. -/
theorem Dll.chain_reverse {p n : Option ι} {l : List ι} (h : Dll nx pv p l n) :
    Chain pv (l.getLast?.or p) l.reverse p := by
  induction l generalizing p with
  | nil => rfl
  | cons x l ih =>
    obtain ⟨hp, -, hl⟩ := h
    have hlast : (x :: l).getLast?.or p = l.getLast?.or (some x) := by
      cases l <;> simp [List.getLast?_cons]
    rw [List.reverse_cons, chain_append, hlast]
    exact ⟨some x, ih hl, rfl, hp⟩

end PacketReordering.Lib
