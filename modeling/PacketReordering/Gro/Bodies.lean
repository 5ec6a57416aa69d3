import PacketReordering.Gro.Queues

/-!
# What all buffers of a queue have

* `Bodies` — the buffers of these segments have a property;
* `UpFrom` — a buffer went up as a segment with the property;
* `flushSegs_upFrom`, `completeSegs_upFrom` — the loops that send segments up.
-/

namespace PacketReordering.Gro

variable {γ δ : Type}

/-- The buffers of these segments have `P`. -/
def Bodies (P : Body γ → Prop) (segs : List (Seg γ)) : Prop := ∀ x ∈ segs, P x.body

section

variable {P Q : Body γ → Prop} {x : Seg γ} {xs ys : List (Seg γ)} {n : Option SkbId} {k : SkbId} {d : OfoDat δ}

@[simp] theorem bodies_nil : Bodies P [] := fun _ hx => absurd hx List.not_mem_nil

@[simp] theorem bodies_cons : Bodies P (x :: xs) ↔ P x.body ∧ Bodies P xs := List.forall_mem_cons

@[simp] theorem bodies_append : Bodies P (xs ++ ys) ↔ Bodies P xs ∧ Bodies P ys := List.forall_mem_append

@[simp] theorem bodies_setHeadNext : Bodies P (setHeadNext n xs) ↔ Bodies P xs := by
  cases xs <;> simp [setHeadNext]

theorem Bodies.imp (h : Bodies P xs) (hPQ : ∀ b, P b → Q b) : Bodies Q xs := fun x hx => hPQ _ (h x hx)

theorem Bodies.pull (h : Bodies P xs) (hpull : ∀ b, P b → P b.pull) : Bodies P (xs.map (pullSeg k)) := by
  intro y hy
  obtain ⟨x, hx, rfl⟩ := List.mem_map.1 hy
  unfold pullSeg
  split
  · exact hpull _ (h x hx)
  · exact h x hx

/-- The buffer went up as a segment, and it had `P`. -/
def UpFrom [GroComplete γ] (P : Body γ → Prop) (u : Up γ) : Prop :=
  ∃ b, P b ∧ u.body = b.complete ∧ u.freed = b.completeErr

/-- It went up as a segment that had `P`, or as it had been received. -/
def SentFrom [GroComplete γ] (P : Body γ → Prop) (u : Up γ) : Prop := u.via = .normal ∧ u.freed = false ∨ UpFrom P u

theorem SentFrom.of_via [GroComplete γ] {u : Up γ} (h : SentFrom P u) (hvia : u.via ≠ .normal) :
    ∃ b, P b ∧ u.body = b.complete := by
  obtain ⟨b, hb, hbody, -⟩ := h.resolve_left fun h => hvia h.1
  exact ⟨b, hb, hbody⟩

theorem flushSegs_upFrom [GroComplete γ] (h : Bodies P xs) : ∀ u ∈ (flushSegs d xs).2, UpFrom P u := by
  induction xs generalizing d with
  | nil => exact fun u hu => absurd hu List.not_mem_nil
  | cons x xs ih =>
    obtain ⟨hx, hxs⟩ := bodies_cons.1 h
    rw [flushSegs]
    exact List.forall_mem_cons.2 ⟨⟨x.body, hx, rfl, rfl⟩, ih hxs⟩

theorem completeSegs_upFrom [GroComplete γ] {cond : OfoDat δ → SkbId → Body γ → Bool} (h : Bodies P xs) :
    (∀ u ∈ (completeSegs cond d xs).2.1, UpFrom P u) ∧ Bodies P (completeSegs cond d xs).2.2 := by
  induction xs generalizing d with
  | nil => exact ⟨fun u hu => absurd hu List.not_mem_nil, bodies_nil⟩
  | cons x xs ih =>
    obtain ⟨hx, hxs⟩ := bodies_cons.1 h
    rw [completeSegs]
    split
    · obtain ⟨hup, hrest⟩ := @ih (d.setSeqNext (maxSeq d.seqNext x.body.seqEnd)) hxs
      exact ⟨List.forall_mem_cons.2 ⟨⟨x.body, hx, rfl, rfl⟩, hup⟩, hrest⟩
    · exact ⟨fun u hu => absurd hu List.not_mem_nil, h⟩

end

end PacketReordering.Gro
