import Mathlib.Data.List.Chain
import Mathlib.Data.List.Nodup
import Mathlib.Data.Set.Basic
import Mathlib.Logic.Function.Basic
import Mathlib.Tactic.Common

/-!
# Circular lists

A cell has a `next` and a `prev`, and a list is a circle through a cell that is its head.  Cells of several lists lie in
the same store.

* `listAdd`, `listDelInit`, `listEmpty` — the operations, each on the cells it is given;
* `Ring` — the circle through a head;
* `Rings` — the lists of a store, which share no cell;
* `Rings.listAdd`, `Rings.listDelInit` — what the operations do to them.
-/

namespace PacketReordering.Lib

/-- The links of all cells. -/
@[ext] structure Links (ι : Type*) where
  next : ι → ι
  prev : ι → ι

variable {ι : Type*}

section Operations

variable [DecidableEq ι]

def Links.setNext (l : Links ι) (x y : ι) : Links ι := { l with next := Function.update l.next x y }

def Links.setPrev (l : Links ι) (x y : ι) : Links ι := { l with prev := Function.update l.prev x y }

/-- `__list_add(new, prev, next)` -/
def listAddBetween (new prev next : ι) (l : Links ι) : Links ι :=
  (((l.setPrev next new).setNext new next).setPrev new prev).setNext prev new

/-- `list_add(new, head)` -/
def listAdd (new head : ι) (l : Links ι) : Links ι := listAddBetween new head (l.next head) l

/-- `__list_del(prev, next)` -/
def listDel (prev next : ι) (l : Links ι) : Links ι := (l.setPrev next prev).setNext prev next

/-- `list_del_init(x)` -/
def listDelInit (x : ι) (l : Links ι) : Links ι := ((listDel (l.prev x) (l.next x) l).setNext x x).setPrev x x

/-- `list_empty(head)` -/
def listEmpty (head : ι) (l : Links ι) : Bool := l.next head == head

end Operations

/-! ### Circles -/

/-- `a` and `b` are neighbours. -/
def Link (l : Links ι) (a b : ι) : Prop := l.next a = b ∧ l.prev b = a

/-- The circle through `head` goes on with `xs` and comes back. -/
def Ring (l : Links ι) (head : ι) (xs : List ι) : Prop := List.IsChain (Link l) (head :: (xs ++ [head]))

/-- The cell is in no list. -/
def Alone (l : Links ι) (x : ι) : Prop := l.next x = x ∧ l.prev x = x

section

variable {l l' : Links ι} {head x new : ι} {xs pre post : List ι}

theorem ne_last_of_mem_dropLast {as : List ι} {a z : ι} (hnd : as.Nodup) (ha : a ∈ as.dropLast) (hz : as.getLast? = some z) :
    a ≠ z := by
  obtain ⟨bs, rfl⟩ := List.getLast?_eq_some_iff.1 hz
  rw [List.dropLast_concat] at ha
  rintro rfl
  exact List.disjoint_of_nodup_append hnd ha (List.mem_singleton_self a)

theorem ne_head_of_mem_tail {as : List ι} {a z : ι} (hnd : as.Nodup) (ha : a ∈ as.tail) (hz : as.head? = some z) : a ≠ z := by
  obtain ⟨bs, rfl⟩ := List.head?_eq_some_iff.1 hz
  rintro rfl
  exact (List.nodup_cons.1 hnd).1 ha

theorem head?_append_singleton (xs : List ι) (y : ι) : (xs ++ [y]).head? = some (xs.headD y) := by
  cases xs <;> rfl

theorem getLast?_cons_eq (xs : List ι) (y : ι) : (y :: xs).getLast? = some (xs.getLastD y) := by
  rcases List.eq_nil_or_concat' xs with rfl | ⟨as, a, rfl⟩
  · rfl
  · rw [← List.cons_append, List.getLast?_concat, List.getLastD_concat]

theorem chain_link_congr (h : List.IsChain (Link l) xs) (hnext : ∀ a ∈ xs.dropLast, l'.next a = l.next a)
    (hprev : ∀ b ∈ xs.tail, l'.prev b = l.prev b) : List.IsChain (Link l') xs := by
  rw [List.isChain_iff_forall_rel_of_append_cons_cons] at h ⊢
  intro a b as bs heq
  obtain ⟨hab, hba⟩ := h heq
  refine ⟨(hnext a ?_).trans hab, (hprev b ?_).trans hba⟩
  · rw [heq, List.dropLast_append_of_ne_nil (by simp)]
    simp
  · rw [heq]
    cases as <;> simp

theorem Ring.congr (h : Ring l head xs) (hnext : ∀ a ∈ head :: xs, l'.next a = l.next a)
    (hprev : ∀ a ∈ head :: xs, l'.prev a = l.prev a) : Ring l' head xs := by
  refine chain_link_congr h (fun a ha => hnext a ?_) fun b hb => hprev b ?_
  · rwa [← List.cons_append, List.dropLast_concat] at ha
  · rw [List.tail_cons, List.mem_append, List.mem_singleton] at hb
    rw [List.mem_cons]
    exact hb.symm

theorem Ring.next_head (h : Ring l head xs) : l.next head = xs.headD head := by
  cases xs with
  | nil => exact (List.isChain_cons_cons.1 h).1.1
  | cons x xs => exact (List.isChain_cons_cons.1 h).1.1

theorem Ring.prev_head (h : Ring l head xs) : l.prev head = xs.getLastD head := by
  rcases List.eq_nil_or_concat' xs with rfl | ⟨as, a, rfl⟩
  · exact (List.isChain_cons_cons.1 h).1.2
  · rw [Ring, List.append_assoc, List.singleton_append, List.isChain_cons_append_cons_cons] at h
    rw [h.2.1.2, List.getLastD_concat]

theorem Ring.next (h : Ring l head (pre ++ x :: post)) : l.next x = post.headD head := by
  rw [Ring, List.append_assoc, List.cons_append, List.isChain_cons_split] at h
  cases post with
  | nil => exact (List.isChain_cons_cons.1 h.2).1.1
  | cons y post => exact (List.isChain_cons_cons.1 h.2).1.1

theorem Ring.prev (h : Ring l head (pre ++ x :: post)) : l.prev x = pre.getLastD head := by
  rw [Ring, List.append_assoc, List.cons_append, List.isChain_cons_split] at h
  rcases List.eq_nil_or_concat' pre with rfl | ⟨as, a, rfl⟩
  · exact (List.isChain_cons_cons.1 h.1).1.2
  · have hleft := h.1
    rw [List.append_assoc, List.singleton_append, List.isChain_cons_append_cons_cons] at hleft
    rw [hleft.2.1.2, List.getLastD_concat]

variable [DecidableEq ι]

theorem Ring.listEmpty_eq (h : Ring l head xs) (hhead : head ∉ xs) : listEmpty head l = xs.isEmpty := by
  rw [listEmpty, h.next_head]
  cases xs with
  | nil => simp
  | cons x xs =>
    have hne : x ≠ head := fun he => hhead (he ▸ List.mem_cons_self ..)
    simp [hne]

/-! ### The operations on a circle -/

theorem listAdd_next (l : Links ι) (new head a : ι) :
    (listAdd new head l).next a = if a = head then new else if a = new then l.next head else l.next a := by
  simp only [listAdd, listAddBetween, Links.setNext, Links.setPrev, Function.update_apply]

theorem listAdd_prev (l : Links ι) (new head a : ι) :
    (listAdd new head l).prev a = if a = new then head else if a = l.next head then new else l.prev a := by
  simp only [listAdd, listAddBetween, Links.setNext, Links.setPrev, Function.update_apply]

theorem listDelInit_next (l : Links ι) (x a : ι) :
    (listDelInit x l).next a = if a = x then x else if a = l.prev x then l.next x else l.next a := by
  simp only [listDelInit, listDel, Links.setNext, Links.setPrev, Function.update_apply]

theorem listDelInit_prev (l : Links ι) (x a : ι) :
    (listDelInit x l).prev a = if a = x then x else if a = l.next x then l.prev x else l.prev a := by
  simp only [listDelInit, listDel, Links.setNext, Links.setPrev, Function.update_apply]

/-- The new cell comes first. -/
theorem Ring.listAdd (h : Ring l head xs) (hnd : (head :: xs).Nodup) (hnew : new ∉ head :: xs) :
    Ring (listAdd new head l) head (new :: xs) := by
  obtain ⟨hne, hnot⟩ := not_or.1 (mt List.mem_cons.2 hnew)
  have hfirst : (xs ++ [head]).head? = some (l.next head) := by rw [head?_append_singleton, h.next_head]
  have hnd' : (xs ++ [head]).Nodup := List.nodup_append_comm.1 hnd
  have hnotMem : new ∉ xs ++ [head] := by simpa [hne] using hnot
  have hnext : l.next head ≠ new := fun he => hnotMem (he ▸ List.mem_of_head? hfirst)
  refine List.isChain_cons_cons.2 ⟨⟨?_, ?_⟩, List.isChain_cons.2 ⟨fun y hy => ?_, ?_⟩⟩
  · rw [listAdd_next, if_pos rfl]
  · rw [listAdd_prev, if_pos rfl]
  · obtain rfl : l.next head = y := Option.some_inj.1 (hfirst.symm.trans hy)
    constructor
    · rw [listAdd_next, if_neg hne, if_pos rfl]
    · rw [listAdd_prev, if_neg hnext, if_pos rfl]
  · refine chain_link_congr h.tail (fun a ha => ?_) fun b hb => ?_
    · have hlast := ne_last_of_mem_dropLast hnd' ha List.getLast?_concat
      have hanew : a ≠ new := fun he => hnotMem (he ▸ List.dropLast_subset _ ha)
      rw [listAdd_next, if_neg hlast, if_neg hanew]
    · have hfirst := ne_head_of_mem_tail hnd' hb hfirst
      have hbnew : b ≠ new := fun he => hnotMem (he ▸ List.mem_of_mem_tail hb)
      rw [listAdd_prev, if_neg hbnew, if_neg hfirst]

/-- The cell is taken out. -/
theorem Ring.listDelInit (h : Ring l head (pre ++ x :: post)) (hnd : (head :: (pre ++ x :: post)).Nodup) :
    Ring (listDelInit x l) head (pre ++ post) := by
  have hlast : (head :: pre).getLast? = some (l.prev x) := by rw [getLast?_cons_eq, h.prev]
  have hfirst : (post ++ [head]).head? = some (l.next x) := by rw [head?_append_singleton, h.next]
  have hleft : (head :: pre).Nodup := hnd.sublist (List.Sublist.cons_cons _ (List.sublist_append_left ..))
  have hperm : (head :: (pre ++ x :: post)).Perm (x :: pre ++ (post ++ [head])) := by
    rw [← List.append_assoc, ← List.singleton_append]
    refine List.perm_append_comm.trans (List.Perm.append_right _ ?_)
    exact List.perm_middle
  obtain ⟨hxpre, hright, hdisjoint⟩ := List.nodup_append'.1 (hperm.nodup_iff.1 hnd)
  have hxleft : x ∉ head :: pre := by
    rw [List.mem_cons, not_or]
    refine ⟨fun he => hdisjoint (List.mem_cons_self ..) ?_, (List.nodup_cons.1 hxpre).1⟩
    rw [he]
    simp
  have hxright : x ∉ post ++ [head] := hdisjoint (List.mem_cons_self ..)
  have hprev : l.prev x ∈ head :: pre := List.mem_of_getLast? hlast
  have hnext : l.next x ∈ post ++ [head] := List.mem_of_head? hfirst
  have hchain : List.IsChain (Link l) ((head :: pre) ++ x :: (post ++ [head])) := by
    have hchain := h
    rwa [Ring, List.append_assoc, List.cons_append, ← List.cons_append] at hchain
  obtain ⟨hl, hr, -⟩ := List.isChain_append.1 hchain
  show List.IsChain (Link (Lib.listDelInit x l)) (head :: (pre ++ post ++ [head]))
  rw [List.append_assoc, ← List.cons_append]
  refine List.isChain_append.2 ⟨chain_link_congr hl (fun a ha => ?_) fun b hb => ?_,
    chain_link_congr hr.tail (fun a ha => ?_) fun b hb => ?_, fun a ha b hb => ?_⟩
  · have hax : a ≠ x := fun he => hxleft (he ▸ List.dropLast_subset _ ha)
    rw [listDelInit_next, if_neg hax, if_neg (ne_last_of_mem_dropLast hleft ha hlast)]
  · have hbx : b ≠ x := fun he => hxleft (he ▸ List.mem_of_mem_tail hb)
    have hbnext : b ≠ l.next x := fun he => hdisjoint (List.mem_cons_of_mem _ hb) (he ▸ hnext)
    rw [listDelInit_prev, if_neg hbx, if_neg hbnext]
  · rw [List.dropLast_concat] at ha
    have hax : a ≠ x := fun he => hxright (he ▸ List.mem_append_left _ ha)
    have haprev : a ≠ l.prev x := by
      intro he
      rcases List.mem_cons.1 hprev with hp | hp
      · exact ne_last_of_mem_dropLast hright (by rwa [List.dropLast_concat]) List.getLast?_concat (he.trans hp)
      · exact hdisjoint (List.mem_cons_of_mem _ hp) (he ▸ List.mem_append_left _ ha)
    rw [listDelInit_next, if_neg hax, if_neg haprev]
  · have hbx : b ≠ x := fun he => hxright (he ▸ List.mem_of_mem_tail hb)
    rw [listDelInit_prev, if_neg hbx, if_neg (ne_head_of_mem_tail hright hb hfirst)]
  · obtain rfl : l.prev x = a := Option.some_inj.1 (hlast.symm.trans ha)
    obtain rfl : l.next x = b := Option.some_inj.1 (hfirst.symm.trans hb)
    constructor
    · rw [listDelInit_next, if_neg (ne_of_mem_of_not_mem hprev hxleft), if_pos rfl]
    · rw [listDelInit_prev, if_neg (ne_of_mem_of_not_mem hnext hxright), if_pos rfl]

/-- A cell in no list stays as it is. -/
theorem Alone.listDelInit (h : Alone l x) : Lib.listDelInit x l = l := by
  obtain ⟨hnext, hprev⟩ := h
  refine Links.ext (funext fun a => ?_) (funext fun a => ?_)
  · rw [listDelInit_next, hnext, hprev]
    split
    · rename_i ha
      rw [ha, hnext]
    · rfl
  · rw [listDelInit_prev, hnext, hprev]
    split
    · rename_i ha
      rw [ha, hprev]
    · rfl

/-- The cell taken out is in no list. -/
theorem alone_listDelInit : Alone (Lib.listDelInit x l) x := by
  constructor
  · rw [listDelInit_next, if_pos rfl]
  · rw [listDelInit_prev, if_pos rfl]

/-- What `list_add` does not write. -/
theorem listAdd_other {a : ι} (ha : a ≠ head) (hnew : a ≠ new) (hnext : a ≠ l.next head) :
    (Lib.listAdd new head l).next a = l.next a ∧ (Lib.listAdd new head l).prev a = l.prev a := by
  rw [listAdd_next, listAdd_prev, if_neg ha, if_neg hnew, if_neg hnew, if_neg hnext]
  exact ⟨rfl, rfl⟩

/-- What `list_del_init` does not write. -/
theorem listDelInit_other {a : ι} (ha : a ≠ x) (hprev : a ≠ l.prev x) (hnext : a ≠ l.next x) :
    (Lib.listDelInit x l).next a = l.next a ∧ (Lib.listDelInit x l).prev a = l.prev a := by
  rw [listDelInit_next, listDelInit_prev, if_neg ha, if_neg ha, if_neg hprev, if_neg hnext]
  exact ⟨rfl, rfl⟩

end

/-! ### Several lists -/

/-- The heads `heads` have the lists `mem`, and no two lists share a cell. -/
structure Rings (l : Links ι) (heads : ι → Prop) (mem : ι → List ι) : Prop where
  ring : ∀ h, heads h → Ring l h (mem h)
  nodup : ∀ h, heads h → (mem h).Nodup
  disjoint : ∀ h g, heads h → heads g → h ≠ g → (mem h).Disjoint (mem g)
  notHead : ∀ h g, heads h → heads g → g ∉ mem h

section

variable {l l' : Links ι} {heads : ι → Prop} {mem : ι → List ι} {h g x : ι} {xs pre post : List ι}

theorem Rings.nodup_cons (hr : Rings l heads mem) (hh : heads h) : (h :: mem h).Nodup :=
  List.nodup_cons.2 ⟨hr.notHead h h hh hh, hr.nodup h hh⟩

/-- The cells of another list are none of those of this one. -/
theorem Rings.notMem_cons (hr : Rings l heads mem) (hh : heads h) (hg : heads g) (hne : h ≠ g) (hx : x ∈ g :: mem g) :
    x ∉ h :: mem h := by
  intro hmem
  rcases List.mem_cons.1 hx with rfl | hx
  · rcases List.mem_cons.1 hmem with rfl | hmem
    · exact hne rfl
    · exact hr.notHead h x hh hg hmem
  · rcases List.mem_cons.1 hmem with rfl | hmem
    · exact hr.notHead g x hg hh hx
    · exact hr.disjoint h g hh hg hne hmem hx

/-- The links of the cells of a list lead to cells of the list. -/
theorem Rings.next_mem (hr : Rings l heads mem) (hh : heads h) (hx : x ∈ h :: mem h) : l.next x ∈ h :: mem h := by
  rcases List.mem_cons.1 hx with rfl | hx
  · rw [(hr.ring x hh).next_head]
    cases mem x <;> simp
  · obtain ⟨pre, post, hmem⟩ := List.append_of_mem hx
    have hring := hr.ring h hh
    rw [hmem] at hring
    rw [hring.next, hmem]
    cases post <;> simp

theorem Rings.prev_mem (hr : Rings l heads mem) (hh : heads h) (hx : x ∈ h :: mem h) : l.prev x ∈ h :: mem h := by
  rcases List.mem_cons.1 hx with rfl | hx
  · rw [(hr.ring x hh).prev_head]
    rcases List.eq_nil_or_concat' (mem x) with hnil | ⟨as, a, hmem⟩
    · simp [hnil]
    · simp [hmem]
  · obtain ⟨pre, post, hmem⟩ := List.append_of_mem hx
    have hring := hr.ring h hh
    rw [hmem] at hring
    rw [hring.prev, hmem]
    rcases List.eq_nil_or_concat' pre with rfl | ⟨as, a, rfl⟩ <;> simp

variable [DecidableEq ι]

/-- One list changes, and the links of the others do not. -/
theorem Rings.update (hr : Rings l heads mem) (hh : heads h) (hring : Ring l' h xs) (hnd : xs.Nodup)
    (hxs : ∀ y ∈ xs, y ∈ mem h ∨ ∀ g, heads g → y ∉ g :: mem g)
    (hother : ∀ g, heads g → g ≠ h → ∀ a ∈ g :: mem g, l'.next a = l.next a ∧ l'.prev a = l.prev a) :
    Rings l' heads (Function.update mem h xs) := by
  have hout : ∀ g, heads g → g ≠ h → ∀ y ∈ xs, y ∉ g :: mem g := by
    intro g hg hne y hy
    rcases hxs y hy with hy | hy
    · exact hr.notMem_cons hg hh hne (List.mem_cons_of_mem _ hy)
    · exact hy g hg
  constructor
  · intro g hg
    by_cases hne : g = h
    · subst hne
      rwa [Function.update_self]
    · rw [Function.update_of_ne hne]
      exact (hr.ring g hg).congr (fun a ha => (hother g hg hne a ha).1) fun a ha => (hother g hg hne a ha).2
  · intro g hg
    by_cases hne : g = h
    · subst hne
      rwa [Function.update_self]
    · rw [Function.update_of_ne hne]
      exact hr.nodup g hg
  · intro g g' hg hg' hne
    by_cases h1 : g = h
    · subst h1
      rw [Function.update_self, Function.update_of_ne hne.symm]
      exact fun y hy hy' => hout g' hg' hne.symm y hy (List.mem_cons_of_mem _ hy')
    · by_cases h2 : g' = h
      · subst h2
        rw [Function.update_self, Function.update_of_ne hne]
        exact fun y hy hy' => hout g hg hne y hy' (List.mem_cons_of_mem _ hy)
      · rw [Function.update_of_ne h1, Function.update_of_ne h2]
        exact hr.disjoint g g' hg hg' hne
  · intro g g' hg hg'
    by_cases hne : g = h
    · subst hne
      rw [Function.update_self]
      intro hmem
      rcases hxs g' hmem with hmem | hmem
      · exact hr.notHead g g' hg hg' hmem
      · exact hmem g' hg' (List.mem_cons_self ..)
    · rw [Function.update_of_ne hne]
      exact hr.notHead g g' hg hg'

/-- **`list_add`** puts a cell of no list in front. -/
theorem Rings.listAdd (hr : Rings l heads mem) (hh : heads h) (hx : ∀ g, heads g → x ∉ g :: mem g) :
    Rings (Lib.listAdd x h l) heads (Function.update mem h (x :: mem h)) := by
  have hnd := hr.nodup_cons hh
  have hnext := hr.next_mem hh (List.mem_cons_self ..)
  refine hr.update hh ((hr.ring h hh).listAdd hnd (hx h hh)) ?_ ?_ ?_
  · exact List.nodup_cons.2 ⟨fun hmem => hx h hh (List.mem_cons_of_mem _ hmem), hr.nodup h hh⟩
  · intro y hy
    rcases List.mem_cons.1 hy with rfl | hy
    · exact Or.inr hx
    · exact Or.inl hy
  · intro g hg hne a ha
    have hout : ∀ b ∈ h :: mem h, a ≠ b := fun b hb he => hr.notMem_cons hg hh hne hb (he ▸ ha)
    exact listAdd_other (hout h (List.mem_cons_self ..)) (fun he => hx g hg (he ▸ ha)) (hout _ hnext)

/-- **`list_del_init`** takes a cell out of its list. -/
theorem Rings.listDelInit (hr : Rings l heads mem) (hh : heads h) (hmem : mem h = pre ++ x :: post) :
    Rings (Lib.listDelInit x l) heads (Function.update mem h (pre ++ post)) ∧
      ∀ g, heads g → x ∉ g :: Function.update mem h (pre ++ post) g := by
  have hnd := hr.nodup_cons hh
  have hring := hr.ring h hh
  rw [hmem] at hnd hring
  have hx : x ∈ mem h := hmem ▸ by simp
  have hprev := hr.prev_mem hh (List.mem_cons_of_mem _ hx)
  have hnext := hr.next_mem hh (List.mem_cons_of_mem _ hx)
  obtain ⟨hhead, hndMem⟩ := List.nodup_cons.1 hnd
  have hxout : x ∉ pre ++ post := (List.nodup_cons.1 (List.nodup_middle.1 hndMem)).1
  refine ⟨hr.update hh (hring.listDelInit hnd) (List.nodup_cons.1 (List.nodup_middle.1 hndMem)).2 ?_ ?_, ?_⟩
  · intro y hy
    refine Or.inl ?_
    rw [hmem]
    rcases List.mem_append.1 hy with hy | hy <;> simp [hy]
  · intro g hg hne a ha
    have hout : ∀ b ∈ h :: mem h, a ≠ b := fun b hb he => hr.notMem_cons hg hh hne hb (he ▸ ha)
    exact listDelInit_other (hout x (List.mem_cons_of_mem _ hx)) (hout _ hprev) (hout _ hnext)
  · intro g hg
    by_cases hne : g = h
    · subst hne
      rw [Function.update_self, List.mem_cons, not_or]
      exact ⟨fun he => hhead (he ▸ by simp), hxout⟩
    · rw [Function.update_of_ne hne]
      exact hr.notMem_cons hg hh hne (List.mem_cons_of_mem _ hx)

/-- The operations do not write the other cells that are in no list. -/
theorem Rings.alone_listAdd {a : ι} (hr : Rings l heads mem) (hh : heads h) (ha : ∀ g, heads g → a ∉ g :: mem g)
    (hax : a ≠ x) (halone : Alone l a) : Alone (Lib.listAdd x h l) a := by
  have hout : ∀ b ∈ h :: mem h, a ≠ b := fun b hb he => ha h hh (he ▸ hb)
  have hself : h ∈ h :: mem h := List.mem_cons_self ..
  obtain ⟨hnext, hprev⟩ := listAdd_other (hout h hself) hax (hout _ (hr.next_mem hh hself))
  exact ⟨hnext.trans halone.1, hprev.trans halone.2⟩

theorem Rings.alone_listDelInit {a : ι} (hr : Rings l heads mem) (hh : heads h) (hx : x ∈ mem h)
    (ha : ∀ g, heads g → a ∉ g :: mem g) (halone : Alone l a) : Alone (Lib.listDelInit x l) a := by
  have hout : ∀ b ∈ h :: mem h, a ≠ b := fun b hb he => ha h hh (he ▸ hb)
  have hself : x ∈ h :: mem h := List.mem_cons_of_mem _ hx
  obtain ⟨hnext, hprev⟩ := listDelInit_other (hout x hself) (hout _ (hr.prev_mem hh hself)) (hout _ (hr.next_mem hh hself))
  exact ⟨hnext.trans halone.1, hprev.trans halone.2⟩

end

end PacketReordering.Lib
