import PacketReordering.OneSlot.Defs
import Mathlib.Algebra.Order.Group.Multiset

/-!
# The one-slot handlers: one verdict for each entry

* `Slot.Settled` — every entry has its verdict or is the retained one;
* `reorderFedora_step`, `dupackDropFedora_step`, `senderReorder_step` — what one packet does to it;
* `settled_iff` — when it holds along a run.
-/

namespace PacketReordering.OneSlot

open Lib

/-- Every entry of `handed` has exactly one verdict or is the one in `entry_saved`; `retained` is the flag that says
whether there is one. -/
structure Slot.Settled (t : Slot) (retained : Bool) (handed : List NfQueueEntry) : Prop where
  saved : retained = true → t.entrySaved ≠ none
  verdicts : (t.verdicts.map Prod.fst : Multiset NfQueueEntry) + (if retained then t.entrySaved.toList else []) = handed

instance (t : Slot) (retained : Bool) (handed : List NfQueueEntry) : Decidable (t.Settled retained handed) :=
  decidable_of_iff ((retained = true → t.entrySaved ≠ none) ∧
    (t.verdicts.map Prod.fst : Multiset NfQueueEntry) + (if retained then t.entrySaved.toList else []) = handed)
    ⟨fun h => ⟨h.1, h.2⟩, fun h => ⟨h.1, h.2⟩⟩

namespace Slot.Settled

variable {t : Slot} {handed : List NfQueueEntry} {e : NfQueueEntry} {v v' : Verdict} {retained : Bool}

theorem init : Slot.init.Settled false [] := ⟨fun h => absurd h (by simp), rfl⟩

theorem verdicts_eq (h : t.Settled false handed) : (t.verdicts.map Prod.fst : Multiset NfQueueEntry) = handed := by
  simpa using h.verdicts

/-- A verdict for the entry that was handed in. -/
theorem reinject (h : t.Settled retained handed) : (t.nfReinject e v).Settled retained (handed ++ [e]) := by
  refine ⟨h.saved, ?_⟩
  have hverdicts := h.verdicts
  simp only [Slot.nfReinject, List.map_append, List.map_cons, List.map_nil, ← Multiset.coe_add] at hverdicts ⊢
  rw [← hverdicts]
  exact add_right_comm _ _ _

/-- The entry that was handed in is retained. -/
theorem retain (h : t.Settled false handed) : ({ t with entrySaved := some e } : Slot).Settled true (handed ++ [e]) := by
  refine ⟨fun _ => Option.some_ne_none e, ?_⟩
  have hverdicts := h.verdicts_eq
  simp only [if_true, Option.toList_some, ← Multiset.coe_add, hverdicts]

/-- A verdict for the retained entry. -/
theorem release (h : t.Settled true handed) : ∃ t', t.reinjectSaved v = .ok t' ∧ t'.Settled false handed := by
  obtain ⟨saved, hsaved⟩ := Option.ne_none_iff_exists'.1 (h.saved rfl)
  refine ⟨t.nfReinject saved v, by rw [Slot.reinjectSaved, hsaved], fun h => absurd h (by simp), ?_⟩
  have hverdicts := h.verdicts
  simp only [if_true, hsaved, Option.toList_some] at hverdicts
  rw [← hverdicts]
  simp [Slot.nfReinject, ← Multiset.coe_add]

/-- A retained entry that nothing refers to any more has no verdict. -/
theorem not_forget (h : t.Settled true handed) : ¬ (t.nfReinject e v).Settled false (handed ++ [e]) := by
  intro h'
  obtain ⟨saved, hsaved⟩ := Option.ne_none_iff_exists'.1 (h.saved rfl)
  have hcount := congrArg Multiset.card h.verdicts
  have hcount' := congrArg Multiset.card h'.verdicts
  simp [Slot.nfReinject, hsaved] at hcount hcount'
  omega

end Slot.Settled

/-! ### The handlers -/

section

variable {past : List NfQueueEntry} {e : NfQueueEntry}

/-- The retained entry of `reorder_fedora` is settled after a packet that is no SYN. -/
theorem reorderFedora_step {s : ReorderFedora} (h : s.Settled s.hasReorder past)
    (hsyn : ¬(e.syn = true ∧ s.hasReorder = true)) :
    ∃ s', reorderQueueEnqueuePacket s e = .ok s' ∧ s'.Settled s'.hasReorder (past ++ [e]) := by
  unfold reorderQueueEnqueuePacket
  cases hreorder : s.hasReorder with
  | false =>
    rw [hreorder] at h
    split
    · exact ⟨_, rfl, h.reinject⟩
    · split
      · rw [if_neg (by simp)]
        exact ⟨_, rfl, by simpa [hreorder] using h.reinject⟩
      · split
        · exact ⟨_, rfl, by simpa [hreorder] using h.reinject⟩
        · rw [if_pos (by simp)]
          split
          · exact ⟨_, rfl, by simpa [hreorder] using h.reinject⟩
          · exact ⟨_, rfl, h.retain⟩
  | true =>
    rw [hreorder] at h
    rw [if_neg fun hs => hsyn ⟨hs, hreorder⟩]
    split
    · obtain ⟨t, ht, hsettled⟩ := h.release (v := .nfAccept)
      rw [if_pos (by simp), ht]
      exact ⟨_, rfl, hsettled.reinject⟩
    · split
      · exact ⟨_, rfl, by simpa [hreorder] using h.reinject⟩
      · rw [if_neg (by simp)]
        -- the two go up in the order of their sequence numbers
        obtain ⟨t, ht, hsettled⟩ : ∃ t : Slot,
            (if s32 (e.seq - s.seqSaved) < 0 then (s.nfReinject e .nfAccept).reinjectSaved .nfAccept
              else (s.reinjectSaved .nfAccept).map fun t => t.nfReinject e .nfAccept) = .ok t ∧
            t.Settled false (past ++ [e]) := by
          split
          · exact (h.reinject (e := e) (v := .nfAccept)).release
          · obtain ⟨t, ht, hsettled⟩ := h.release (v := .nfAccept)
            exact ⟨_, by rw [ht]; rfl, hsettled.reinject⟩
        simp only [ht]
        exact ⟨_, rfl, hsettled⟩

theorem reorderFedora_syn {s s' : ReorderFedora} (h : s.Settled s.hasReorder past)
    (hsyn : e.syn = true ∧ s.hasReorder = true) (hstep : reorderQueueEnqueuePacket s e = .ok s') :
    ¬ s'.Settled s'.hasReorder (past ++ [e]) := by
  rw [reorderQueueEnqueuePacket, if_pos hsyn.1] at hstep
  cases hstep
  rw [hsyn.2] at h
  exact h.not_forget

/-- The retained entry of `dupack_drop_fedora` is settled after a packet that is no SYN. -/
theorem dupackDropFedora_step {s : DupackDropFedora} (h : s.Settled (s.dupackCount == 1) past)
    (hsyn : ¬(e.syn = true ∧ s.dupackCount = 1)) :
    ∃ s', dupackDropEnqueuePacket s e = .ok s' ∧ s'.Settled (s'.dupackCount == 1) (past ++ [e]) := by
  unfold dupackDropEnqueuePacket
  by_cases hcount : s.dupackCount = 1
  · have hone : (s.dupackCount == 1) = true := by simpa using hcount
    rw [hone] at h
    rw [if_neg fun hs => hsyn ⟨hs, hcount⟩]
    split
    · obtain ⟨t, ht, hsettled⟩ := h.release (v := .nfDrop)
      simp only [ht]
      exact ⟨_, rfl, hsettled.reinject⟩
    · split
      · obtain ⟨t, ht, hsettled⟩ := h.release (v := .nfAccept)
        rw [if_neg (by rw [hcount]; decide), ht]
        exact ⟨{ s with dupackCount := 2, toSlot := t.nfReinject e .nfAccept }, rfl, hsettled.reinject⟩
      · refine ⟨_, rfl, ?_⟩
        simp only [hone]
        exact h.reinject
  · have hother : (s.dupackCount == 1) = false := by simpa using hcount
    rw [hother] at h
    split
    · exact ⟨_, rfl, h.reinject⟩
    · split
      · exact ⟨_, rfl, h.reinject⟩
      · split
        · split
          · exact ⟨_, rfl, h.retain⟩
          · refine ⟨_, rfl, ?_⟩
            simp only [hother]
            exact h.reinject
        · refine ⟨_, rfl, ?_⟩
          simp only [hother]
          exact h.reinject

theorem dupackDropFedora_syn {s s' : DupackDropFedora} (h : s.Settled (s.dupackCount == 1) past)
    (hsyn : e.syn = true ∧ s.dupackCount = 1) (hstep : dupackDropEnqueuePacket s e = .ok s') :
    ¬ s'.Settled (s'.dupackCount == 1) (past ++ [e]) := by
  rw [dupackDropEnqueuePacket, if_pos hsyn.1] at hstep
  cases hstep
  have hone : (s.dupackCount == 1) = true := by simpa using hsyn.2
  rw [hone] at h
  exact h.not_forget

theorem senderReorder_step {s : Slot} (h : s.Settled s.entrySaved.isSome past) :
    ∃ s', senderReorderEnqueuePacket s e = .ok s' ∧ s'.Settled s'.entrySaved.isSome (past ++ [e]) := by
  unfold senderReorderEnqueuePacket
  cases hsaved : s.entrySaved with
  | none =>
    rw [hsaved] at h
    split
    · exact ⟨_, rfl, by simpa [Slot.nfReinject, hsaved] using h.reinject⟩
    · exact ⟨_, rfl, h.retain⟩
  | some saved =>
    rw [hsaved] at h
    have hverdicts := h.verdicts
    simp only [Option.isSome_some, if_true, hsaved, Option.toList_some] at hverdicts
    split
    all_goals
      refine ⟨_, rfl, by simp [Slot.nfReinject], ?_⟩
      simp only [Slot.nfReinject, Option.isSome_none, Bool.false_eq_true, if_false, List.map_append, List.map_cons,
        List.map_nil, ← Multiset.coe_add, ← hverdicts]
      simp [add_right_comm]

end

/-! ### Runs -/

/-- **When every entry has exactly one verdict.**  `reorder_fedora` and `dupack_drop_fedora` forget the retained entry at
a SYN, and only then; `sender_reorder_3.2` never does. -/
theorem settled_iff (es : List NfQueueEntry) :
    ((∀ ps, ps <+: es → ∃ s : ReorderFedora, runFrom reorderQueueEnqueuePacket .init ps = .ok s ∧
        s.Settled s.hasReorder ps) ↔
      Steps reorderQueueEnqueuePacket (fun s e => ¬(e.syn = true ∧ s.hasReorder = true)) ReorderFedora.init es) ∧
    ((∀ ps, ps <+: es → ∃ s : DupackDropFedora, runFrom dupackDropEnqueuePacket .init ps = .ok s ∧
        s.Settled (s.dupackCount == 1) ps) ↔
      Steps dupackDropEnqueuePacket (fun s e => ¬(e.syn = true ∧ s.dupackCount = 1)) DupackDropFedora.init es) ∧
    ∀ ps, ps <+: es → ∃ s : Slot, runFrom senderReorderEnqueuePacket .init ps = .ok s ∧
      s.Settled s.entrySaved.isSome ps := by
  refine ⟨?_, ?_, ?_⟩
  · have hinit : ReorderFedora.init.Settled ReorderFedora.init.hasReorder [] := Slot.Settled.init
    refine Steps.iff_prefix (I := fun (s : ReorderFedora) past => s.Settled s.hasReorder past) ?_ ?_ hinit
    · exact fun s e past _ h hsyn => reorderFedora_step h hsyn
    · exact fun s e s' past _ h hsyn hstep => reorderFedora_syn h (not_not.1 hsyn) hstep
  · have hinit : DupackDropFedora.init.Settled (DupackDropFedora.init.dupackCount == 1) [] := Slot.Settled.init
    refine Steps.iff_prefix (I := fun (s : DupackDropFedora) past => s.Settled (s.dupackCount == 1) past) ?_ ?_ hinit
    · exact fun s e past _ h hsyn => dupackDropFedora_step h hsyn
    · exact fun s e s' past _ h hsyn hstep => dupackDropFedora_syn h (not_not.1 hsyn) hstep
  · refine (Steps.iff_prefix (C := fun _ _ => True) (I := fun (s : Slot) past => s.Settled s.entrySaved.isSome past) ?_ ?_
      Slot.Settled.init).2 (Steps.of_forall (fun _ _ => trivial) es _)
    · exact fun s e past _ h _ => senderReorder_step h
    · exact fun s e s' past _ _ hnot _ => absurd trivial hnot

/-- A SYN, a segment out of order, which is retained, and another SYN. -/
def synTwice : List NfQueueEntry :=
  [⟨0, true, false, false, false, false, 0, 0, 40, 5, 5⟩, ⟨1, false, false, false, false, false, 100, 0, 50, 5, 5⟩,
    ⟨2, true, false, false, false, false, 0, 0, 40, 5, 5⟩]

/-- After it the entry 1 has no verdict and nothing retains it. -/
theorem not_settled_synTwice :
    ¬ ∀ es ps : List NfQueueEntry, ps <+: es →
      ∃ s : ReorderFedora, runFrom reorderQueueEnqueuePacket .init ps = .ok s ∧ s.Settled s.hasReorder ps := by
  intro h
  obtain ⟨s, hrun, hsettled⟩ := h synTwice synTwice (List.prefix_refl _)
  have hlast : runFrom reorderQueueEnqueuePacket ReorderFedora.init synTwice = .ok
      { entrySaved := synTwice[1]?
        verdicts := [(⟨0, true, false, false, false, false, 0, 0, 40, 5, 5⟩, .nfAccept),
          (⟨2, true, false, false, false, false, 0, 0, 40, 5, 5⟩, .nfAccept)]
        seqNext := 1, seqSaved := 100, lengthSaved := 10, hasReorder := false } := by decide
  rw [hlast] at hrun
  cases hrun
  exact absurd hsettled (by decide)

end PacketReordering.OneSlot
