import PacketReordering.Gro.Queues
import Mathlib.Algebra.BigOperators.Group.Multiset.Basic
import Mathlib.Tactic.Abel

/-!
# Received packets, held and given away

The packets that were received, with their payload ranges and flags, as a multiset: where they are in the lists, and that
releasing segments only moves them.

* `segsParts`, `upsParts`, `Queues.parts` — the packets in held segments and in what went up;
* `flushSegs_parts`, `completeSegs_parts` — a release moves them.
-/

namespace PacketReordering.Gro

variable {γ δ : Type}

/-- The packets in these segments. -/
def segsParts (segs : List (Seg γ)) : Multiset Part := (segs.map fun x => (x.body.parts : Multiset Part)).sum

/-- The packets in what went up. -/
def upsParts (up : List (Up γ)) : Multiset Part := (up.map fun u => (u.body.parts : Multiset Part)).sum

/-- The packets in the held flows. -/
def flowsParts (fs : List (Flow γ δ)) : Multiset Part := (fs.map fun f => segsParts f.segs).sum

/-- All packets: the ones that went up and the ones that are held. -/
def Queues.parts (l : Queues γ δ) : Multiset Part := upsParts l.up + flowsParts l.flows

variable {x : Seg γ} {xs ys : List (Seg γ)} {u : Up γ} {us vs : List (Up γ)} {f : Flow γ δ} {fs gs : List (Flow γ δ)}

@[simp] theorem segsParts_nil : segsParts ([] : List (Seg γ)) = 0 := rfl

@[simp] theorem segsParts_cons : segsParts (x :: xs) = (x.body.parts : Multiset Part) + segsParts xs := by
  simp [segsParts]

@[simp] theorem segsParts_append : segsParts (xs ++ ys) = segsParts xs + segsParts ys := by
  simp [segsParts]

@[simp] theorem segsParts_setHeadNext {n : Option SkbId} : segsParts (setHeadNext n xs) = segsParts xs := by
  cases xs <;> simp [setHeadNext]

@[simp] theorem upsParts_nil : upsParts ([] : List (Up γ)) = 0 := rfl

@[simp] theorem upsParts_cons : upsParts (u :: us) = (u.body.parts : Multiset Part) + upsParts us := by
  simp [upsParts]

@[simp] theorem upsParts_append : upsParts (us ++ vs) = upsParts us + upsParts vs := by
  simp [upsParts]

@[simp] theorem flowsParts_nil : flowsParts ([] : List (Flow γ δ)) = 0 := rfl

@[simp] theorem flowsParts_cons : flowsParts (f :: fs) = segsParts f.segs + flowsParts fs := by
  simp [flowsParts]

@[simp] theorem flowsParts_append : flowsParts (fs ++ gs) = flowsParts fs + flowsParts gs := by
  simp [flowsParts]

@[simp] theorem pull_parts {b : Body γ} : b.pull.parts = b.parts := by
  unfold Body.pull
  split <;> rfl

theorem flushSegs_parts [GroComplete γ] (d : OfoDat δ) (segs : List (Seg γ)) :
    upsParts (flushSegs d segs).2 = segsParts segs := by
  induction segs generalizing d with
  | nil => rfl
  | cons x segs ih =>
    rw [flushSegs, upsParts_cons, ih, segsParts_cons, Seg.up, complete_parts]

theorem completeSegs_parts [GroComplete γ] (cond : OfoDat δ → SkbId → Body γ → Bool) (d : OfoDat δ) (segs : List (Seg γ)) :
    upsParts (completeSegs cond d segs).2.1 + segsParts (completeSegs cond d segs).2.2 = segsParts segs := by
  induction segs generalizing d with
  | nil => rfl
  | cons x segs ih =>
    rw [completeSegs]
    by_cases hcond : cond d x.id x.body = true
    · rw [if_pos hcond]
      simp only [upsParts_cons, segsParts_cons, Seg.up, complete_parts]
      rw [add_assoc, ih]
    · rw [if_neg hcond]
      simp

end PacketReordering.Gro
