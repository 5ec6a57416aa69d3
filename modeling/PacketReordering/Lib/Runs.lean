import Mathlib.Data.List.Basic
import Mathlib.Tactic.Common

/-!
# Runs of a machine that may fail

A machine takes an input in each step and either moves on or stops with an error.  `runFrom step s xs` feeds it the
inputs `xs` one after the other.

* `runFrom_append` — a run over `xs ++ ys` is a run over `xs` and then one over `ys`;
* `Steps` — every step of a run meets a condition on the state it starts from and its input;
* `Steps.invariant`, `runFrom_invariant` — what each step preserves holds at the end of the run;
* `Steps.iff_prefix`, `Steps.iff_of_past`, `Steps.iff_along` — a condition that is exact for an invariant;
* `runFrom_error` — where the error of a run comes from;
* `Steps.unwind` — what inputs that do not matter leave of a run;
* `Agree.run` — two machines whose steps agree have runs that agree;
* `Steps.iff_lockstep` — a condition that is exact for two machines.
-/

namespace PacketReordering.Lib

variable {σ α ε : Type*} (step : σ → α → Except ε σ)

/-- Feed the inputs to the machine, stopping at the first error. -/
def runFrom (s : σ) : List α → Except ε σ
  | [] => .ok s
  | x :: xs =>
    match step s x with
    | .ok s' => runFrom s' xs
    | .error e => .error e

@[simp] theorem runFrom_nil (s : σ) : runFrom step s [] = .ok s := rfl

variable {step}

theorem runFrom_cons_ok {s s' : σ} {x : α} {xs : List α} (h : step s x = .ok s') :
    runFrom step s (x :: xs) = runFrom step s' xs := by
  rw [runFrom, h]

theorem runFrom_cons_error {s : σ} {x : α} {xs : List α} {e : ε} (h : step s x = .error e) :
    runFrom step s (x :: xs) = .error e := by
  rw [runFrom, h]

theorem runFrom_singleton {s : σ} {x : α} : runFrom step s [x] = step s x := by
  cases h : step s x with
  | ok s' => rw [runFrom_cons_ok h, runFrom_nil]
  | error e => rw [runFrom_cons_error h]

theorem runFrom_append {s : σ} {xs ys : List α} :
    runFrom step s (xs ++ ys) = (runFrom step s xs).bind fun s' => runFrom step s' ys := by
  induction xs generalizing s with
  | nil => rfl
  | cons x xs ih =>
    rw [List.cons_append]
    cases h : step s x with
    | ok s' => rw [runFrom_cons_ok h, runFrom_cons_ok h, ih]
    | error e => rw [runFrom_cons_error h, runFrom_cons_error h]; rfl

variable (step)

/-- Every step of the run over the inputs starts from a state that meets `C`, up to the first error. -/
def Steps (C : σ → α → Prop) (s : σ) : List α → Prop
  | [] => True
  | x :: xs => C s x ∧ ∀ s', step s x = .ok s' → Steps C s' xs

instance Steps.decidable (C : σ → α → Prop) [∀ s x, Decidable (C s x)] :
    ∀ (s : σ) (xs : List α), Decidable (Steps step C s xs)
  | _, [] => isTrue trivial
  | s, x :: xs =>
    match h : step s x with
    | .ok s' =>
      have := Steps.decidable C s' xs
      decidable_of_iff (C s x ∧ Steps step C s' xs) (by simp [Steps, h])
    | .error _ => decidable_of_iff (C s x) (by simp [Steps, h])

variable {step}

theorem Steps.of_forall {C : σ → α → Prop} (h : ∀ s x, C s x) (xs : List α) (s : σ) : Steps step C s xs := by
  induction xs generalizing s with
  | nil => trivial
  | cons x xs ih => exact ⟨h s x, fun s' _ => ih s'⟩

/-- Conditions on the inputs alone. -/
theorem Steps.and_mem {C : σ → α → Prop} {P : α → Prop} {s : σ} {xs : List α} (h : Steps step C s xs)
    (hP : ∀ x ∈ xs, P x) : Steps step (fun s x => C s x ∧ P x) s xs := by
  induction xs generalizing s with
  | nil => trivial
  | cons x xs ih =>
    obtain ⟨hC, hsteps⟩ := h
    exact ⟨⟨hC, hP x (List.mem_cons_self ..)⟩, fun s' hs' =>
      ih (hsteps s' hs') fun y hy => hP y (List.mem_cons_of_mem _ hy)⟩

/-- **Invariant rule.**  What holds at the start and is preserved by every step that meets `C` holds at the end. -/
theorem Steps.invariant {C : σ → α → Prop} {I : σ → List α → Prop}
    (hstep : ∀ s x s' past, I s past → C s x → step s x = .ok s' → I s' (past ++ [x])) :
    ∀ {xs past : List α} {s t : σ}, I s past → Steps step C s xs → runFrom step s xs = .ok t → I t (past ++ xs)
  | [], past, s, t, hI, _, hrun => by
    obtain rfl : s = t := by simpa using hrun
    simpa using hI
  | x :: xs, past, s, t, hI, ⟨hC, hsteps⟩, hrun => by
    cases h : step s x with
    | ok s' =>
      rw [runFrom_cons_ok h] at hrun
      have := Steps.invariant hstep (hstep s x s' past hI hC h) (hsteps s' h) hrun
      simpa using this
    | error e => rw [runFrom_cons_error h] at hrun; cases hrun

/-- The rule for an invariant of the state alone. -/
theorem Steps.always {C : σ → α → Prop} {I : σ → Prop} (hstep : ∀ s x s', I s → C s x → step s x = .ok s' → I s')
    {xs : List α} {s t : σ} (hI : I s) (hsteps : Steps step C s xs) (hrun : runFrom step s xs = .ok t) : I t := by
  have hinv : ∀ s x s' (_ : List α), I s → C s x → step s x = .ok s' → I s' := fun s x s' _ => hstep s x s'
  exact @Steps.invariant _ _ _ _ C (fun s _ => I s) hinv xs [] s t hI hsteps hrun

/-- What holds at the start and is preserved by every step holds at the end. -/
theorem runFrom_invariant {I : σ → List α → Prop}
    (hstep : ∀ s x s' past, I s past → step s x = .ok s' → I s' (past ++ [x])) {s t : σ} {xs : List α}
    (hI : I s []) (hrun : runFrom step s xs = .ok t) : I t xs := by
  exact Steps.invariant (fun s x s' past hI _ h => hstep s x s' past hI h) hI
    (Steps.of_forall (C := fun _ _ => True) (fun _ _ => trivial) xs s) hrun

/-- What holds at the start and is preserved by every step with one of the inputs holds at the end. -/
theorem runFrom_mem_invariant {I : σ → Prop} {s t : σ} {xs : List α}
    (hstep : ∀ s x s', x ∈ xs → I s → step s x = .ok s' → I s') (hI : I s) (hrun : runFrom step s xs = .ok t) : I t := by
  induction xs generalizing s with
  | nil =>
    obtain rfl : s = t := by simpa using hrun
    exact hI
  | cons x xs ih =>
    cases h : step s x with
    | ok s' =>
      rw [runFrom_cons_ok h] at hrun
      exact ih (fun s y s' hy => hstep s y s' (List.mem_cons_of_mem _ hy)) (hstep s x s' (List.mem_cons_self ..) hI h) hrun
    | error e =>
      rw [runFrom_cons_error h] at hrun
      cases hrun

/-- **Exact condition.**  When `I` is kept by the steps that meet `C` and lost by all others, it holds after every
beginning of a run exactly if every step meets `C`. -/
theorem Steps.iff_prefix {C : σ → α → Prop} {I : σ → List α → Prop} {s : σ} {xs past : List α}
    (hkeep : ∀ s x past, x ∈ xs → I s past → C s x → ∃ s', step s x = .ok s' ∧ I s' (past ++ [x]))
    (hlose : ∀ s x s' past, x ∈ xs → I s past → ¬C s x → step s x = .ok s' → ¬I s' (past ++ [x]))
    (hI : I s past) :
    (∀ ys, ys <+: xs → ∃ t, runFrom step s ys = .ok t ∧ I t (past ++ ys)) ↔ Steps step C s xs := by
  induction xs generalizing s past with
  | nil =>
    refine ⟨fun _ => trivial, fun _ ys hys => ⟨s, ?_, ?_⟩⟩
    · rw [List.prefix_nil.1 hys, runFrom_nil]
    · rw [List.prefix_nil.1 hys, List.append_nil]
      exact hI
  | cons x xs ih =>
    have hx : x ∈ x :: xs := List.mem_cons_self ..
    have ih := fun {s : σ} {past : List α} => @ih s past (fun s y past hy => hkeep s y past (List.mem_cons_of_mem _ hy))
      fun s y s' past hy => hlose s y s' past (List.mem_cons_of_mem _ hy)
    constructor
    · intro h
      obtain ⟨s', hrun, hI'⟩ := h [x] ⟨xs, rfl⟩
      have hstep : step s x = .ok s' := by rwa [runFrom_singleton] at hrun
      refine ⟨by_contra fun hC => hlose s x s' past hx hI hC hstep hI', fun s'' hs'' => ?_⟩
      obtain rfl : s' = s'' := by
        rw [hstep] at hs''
        injection hs''
      refine (ih hI').1 fun ys hys => ?_
      obtain ⟨t, ht, hIt⟩ := h (x :: ys) (List.cons_prefix_cons.2 ⟨rfl, hys⟩)
      rw [runFrom_cons_ok hstep] at ht
      exact ⟨t, ht, by rwa [List.append_assoc, List.singleton_append]⟩
    · rintro ⟨hC, hsteps⟩ ys hys
      cases ys with
      | nil => exact ⟨s, rfl, by rwa [List.append_nil]⟩
      | cons y ys =>
        obtain ⟨rfl, htail⟩ := List.cons_prefix_cons.1 hys
        obtain ⟨s', hstep, hI'⟩ := hkeep s y past hx hI hC
        obtain ⟨t, ht, hIt⟩ := (ih hI').2 (hsteps s' hstep) ys htail
        refine ⟨t, (runFrom_cons_ok hstep).trans ht, ?_⟩
        rwa [List.append_assoc, List.singleton_append] at hIt

/-- **Exact condition for what is never regained.**  When a step ends with `I` exactly if it begins with `I` and meets `C`,
a run ends with `I` exactly if every step meets `C`.  `R` holds throughout; it speaks of the inputs so far, which are the
beginning of those of the run. -/
theorem Steps.iff_of_past {C : σ → α → Prop} {R : σ → List α → Prop} {I : σ → Prop} {s t : σ} {all : List α}
    (hstep : ∀ s x s' past, past ++ [x] <+: all → R s past → step s x = .ok s' →
      R s' (past ++ [x]) ∧ (I s' ↔ I s ∧ C s x))
    (hR : R s []) (hI : I s) (hrun : runFrom step s all = .ok t) : R t all ∧ (I t ↔ Steps step C s all) := by
  have hall : ∀ (xs past : List α) (s : σ), past ++ xs = all → R s past → runFrom step s xs = .ok t →
      R t all ∧ (I t ↔ I s ∧ Steps step C s xs) := by
    intro xs
    induction xs with
    | nil =>
      intro past s hpast hR hrun
      obtain rfl : s = t := by simpa using hrun
      rw [List.append_nil] at hpast
      exact ⟨hpast ▸ hR, fun h => ⟨h, trivial⟩, fun h => h.1⟩
    | cons x xs ih =>
      intro past s hpast hR hrun
      cases h : step s x with
      | error e =>
        rw [runFrom_cons_error h] at hrun
        cases hrun
      | ok s' =>
        rw [runFrom_cons_ok h] at hrun
        have hpast' : past ++ [x] ++ xs = all := by rw [← hpast, List.append_assoc, List.singleton_append]
        obtain ⟨hR', hI'⟩ := hstep s x s' past ⟨xs, hpast'⟩ hR h
        obtain ⟨hRt, hIt⟩ := ih (past ++ [x]) s' hpast' hR' hrun
        refine ⟨hRt, ?_⟩
        rw [hIt, hI', and_assoc]
        refine and_congr_right fun _ => and_congr_right fun _ => ⟨fun hsteps s'' hs'' => ?_, fun hsteps => hsteps s' h⟩
        rw [h] at hs''
        cases hs''
        exact hsteps
  obtain ⟨hRt, hIt⟩ := hall all [] s rfl hR hrun
  exact ⟨hRt, hIt.trans (and_iff_right hI)⟩

/-- The rule for a property of the state alone. -/
theorem Steps.iff_of_step {C : σ → α → Prop} {R I : σ → Prop} {s t : σ} {xs : List α}
    (hstep : ∀ s x s', x ∈ xs → R s → step s x = .ok s' → R s' ∧ (I s' ↔ I s ∧ C s x))
    (hR : R s) (hI : I s) (hrun : runFrom step s xs = .ok t) : I t ↔ Steps step C s xs := by
  refine (Steps.iff_of_past (R := fun s _ => R s) (fun s x s' past hpast hR h => ?_) hR hI hrun).2
  exact hstep s x s' (hpast.subset (by simp)) hR h

/-- **Exact condition along a run.**  `I` speaks of the inputs so far, which are the beginning of those of the run; while
it holds, the steps that meet `D` are those that meet `C`, and these keep it. -/
theorem Steps.iff_along {C D : σ → α → Prop} {I : σ → List α → Prop} {s t : σ} {all : List α}
    (hstep : ∀ s x s' past, past ++ [x] <+: all → I s past → step s x = .ok s' →
      (D s x ↔ C s x) ∧ (C s x → I s' (past ++ [x])))
    (hI : I s []) (hrun : runFrom step s all = .ok t) :
    (Steps step D s all ↔ Steps step C s all) ∧ (Steps step C s all → I t all) := by
  have hall : ∀ (xs past : List α) (s : σ), past ++ xs = all → I s past → runFrom step s xs = .ok t →
      (Steps step D s xs ↔ Steps step C s xs) ∧ (Steps step C s xs → I t all) := by
    intro xs
    induction xs with
    | nil =>
      intro past s hpast hI hrun
      obtain rfl : s = t := by simpa using hrun
      refine ⟨Iff.rfl, fun _ => ?_⟩
      rwa [← hpast, List.append_nil]
    | cons x xs ih =>
      intro past s hpast hI hrun
      cases h : step s x with
      | error e =>
        rw [runFrom_cons_error h] at hrun
        cases hrun
      | ok s' =>
        rw [runFrom_cons_ok h] at hrun
        have hpast' : past ++ [x] ++ xs = all := by rw [← hpast, List.append_assoc, List.singleton_append]
        obtain ⟨hiff, hkeep⟩ := hstep s x s' past ⟨xs, hpast'⟩ hI h
        have hrest := fun hC => ih (past ++ [x]) s' hpast' (hkeep hC) hrun
        have hcons : ∀ E : σ → α → Prop, Steps step E s (x :: xs) ↔ E s x ∧ Steps step E s' xs := by
          intro E
          refine and_congr_right fun _ => ⟨fun hsteps => hsteps s' h, fun hsteps s'' hs'' => ?_⟩
          rw [h] at hs''
          cases hs''
          exact hsteps
        rw [hcons, hcons, hiff]
        exact ⟨and_congr_right fun hC => (hrest hC).1, fun hsteps => (hrest hsteps.1).2 hsteps.2⟩
  exact hall all [] s rfl hI hrun

/-- It is a state with `P` or an error with `E`. -/
def Yields (P : σ → Prop) (E : ε → Prop) : Except ε σ → Prop
  | .ok s => P s
  | .error e => E e

/-- **Unwinding.**  `R` compares a run with the one from which the inputs outside `keep` are gone: these do not change what
it compares, and after the others, if the second run does not stop there, it still holds.  `R` speaks of the inputs so far,
which are the beginning of those of the run. -/
theorem Steps.unwind {keep : α → Bool} {C : σ → α → Prop} {R : List α → σ → σ → Prop} {E : ε → Prop} {s t s' : σ}
    {all : List α}
    (hskip : ∀ past s t x s', past ++ [x] <+: all → keep x = false → R past s t → C s x → step s x = .ok s' →
      R (past ++ [x]) s' t)
    (hkeep : ∀ past s t x s', past ++ [x] <+: all → keep x = true → R past s t → C s x → step s x = .ok s' →
      Yields (R (past ++ [x]) s') E (step t x))
    (hR : R [] s t) (hsteps : Steps step C s all) (hrun : runFrom step s all = .ok s') :
    Yields (R all s') E (runFrom step t (all.filter keep)) := by
  have hall : ∀ (xs past : List α) (s t : σ), past ++ xs = all → R past s t → Steps step C s xs →
      runFrom step s xs = .ok s' → Yields (R all s') E (runFrom step t (xs.filter keep)) := by
    intro xs
    induction xs with
    | nil =>
      intro past s t hpast hR _ hrun
      obtain rfl : s = s' := by simpa using hrun
      rw [List.append_nil] at hpast
      exact hpast ▸ hR
    | cons x xs ih =>
      intro past s t hpast hR hsteps hrun
      obtain ⟨hC, hsteps⟩ := hsteps
      have hpast' : past ++ [x] ++ xs = all := by rw [← hpast, List.append_assoc, List.singleton_append]
      cases h : step s x with
      | error e =>
        rw [runFrom_cons_error h] at hrun
        cases hrun
      | ok s'' =>
        rw [runFrom_cons_ok h] at hrun
        cases hx : keep x with
        | false =>
          rw [List.filter_cons_of_neg (Bool.eq_false_iff.1 hx)]
          exact ih (past ++ [x]) s'' t hpast' (hskip past s t x s'' ⟨xs, hpast'⟩ hx hR hC h) (hsteps s'' h) hrun
        | true =>
          have hstep := hkeep past s t x s'' ⟨xs, hpast'⟩ hx hR hC h
          rw [List.filter_cons_of_pos hx]
          cases ht : step t x with
          | error e =>
            rw [ht] at hstep
            rw [runFrom_cons_error ht]
            exact hstep
          | ok t' =>
            rw [ht] at hstep
            rw [runFrom_cons_ok ht]
            exact ih (past ++ [x]) s'' t' hpast' hstep (hsteps s'' h) hrun
  exact hall all [] s t rfl hR hsteps hrun

/-- Every error of a run is an error of a step from a state that meets the invariant. -/
theorem runFrom_error {I : σ → Prop} {E : ε → Prop} (hstep : ∀ s x s', I s → step s x = .ok s' → I s')
    (herror : ∀ s x e, I s → step s x = .error e → E e) {s : σ} {xs : List α} {e : ε} (hI : I s)
    (hrun : runFrom step s xs = .error e) : E e := by
  induction xs generalizing s with
  | nil => cases hrun
  | cons x xs ih =>
    cases h : step s x with
    | ok s' =>
      rw [runFrom_cons_ok h] at hrun
      exact ih (hstep s x s' hI h) hrun
    | error e' =>
      rw [runFrom_cons_error h] at hrun
      cases hrun
      exact herror s x e hI h

theorem map_ok {β : Type*} {f : α → β} {x : Except ε α} {y : β} (h : x.map f = .ok y) : ∃ a, x = .ok a ∧ f a = y := by
  cases x with
  | error e => cases h
  | ok a =>
    cases h
    exact ⟨a, rfl, rfl⟩

/-! ### Two machines -/

/-- Both computations end well with related results, or both stop with the same error. -/
def Agree {τ : Type*} (R : σ → τ → Prop) : Except ε σ → Except ε τ → Prop
  | .ok s, .ok t => R s t
  | .error e, .error e' => e = e'
  | _, _ => False

section Agree

variable {τ : Type*} {R : σ → τ → Prop} {step' : τ → α → Except ε τ}

/-- **Simulation rule.**  When every step of two machines agrees, so do their runs. -/
theorem Agree.run (hstep : ∀ s t x, R s t → Agree R (step s x) (step' t x)) {s : σ} {t : τ} {xs : List α}
    (h : R s t) : Agree R (runFrom step s xs) (runFrom step' t xs) := by
  induction xs generalizing s t with
  | nil => exact h
  | cons x xs ih =>
    have hx := hstep s t x h
    cases hs : step s x with
    | ok s' =>
      cases ht : step' t x with
      | ok t' =>
        rw [runFrom_cons_ok hs, runFrom_cons_ok ht]
        rw [hs, ht] at hx
        exact ih hx
      | error e =>
        rw [hs, ht] at hx
        exact hx.elim
    | error e =>
      cases ht : step' t x with
      | ok t' =>
        rw [hs, ht] at hx
        exact hx.elim
      | error e' =>
        rw [runFrom_cons_error hs, runFrom_cons_error ht]
        rw [hs, ht] at hx
        exact hx

/-- **Exact condition for two machines.**  When related states stay related in the steps that meet `C`, and in no others,
the runs stay related exactly if every step meets `C`. -/
theorem Steps.iff_lockstep {C : τ → α → Prop}
    (hkeep : ∀ s t x, R s t → C t x → ∃ s' t', step s x = .ok s' ∧ step' t x = .ok t' ∧ R s' t')
    (hlose : ∀ s t x s' t', R s t → ¬C t x → step s x = .ok s' → step' t x = .ok t' → ¬R s' t') {s : σ} {t : τ} {xs : List α}
    (h : R s t) :
    (∀ ys, ys <+: xs → ∃ s' t', runFrom step s ys = .ok s' ∧ runFrom step' t ys = .ok t' ∧ R s' t') ↔
      Steps step' C t xs := by
  induction xs generalizing s t with
  | nil =>
    refine ⟨fun _ => trivial, fun _ ys hys => ⟨s, t, ?_, ?_, h⟩⟩
    · rw [List.prefix_nil.1 hys, runFrom_nil]
    · rw [List.prefix_nil.1 hys, runFrom_nil]
  | cons x xs ih =>
    constructor
    · intro hall
      obtain ⟨s', t', hs, ht, hR⟩ := hall [x] ⟨xs, rfl⟩
      rw [runFrom_singleton] at hs ht
      refine ⟨by_contra fun hC => hlose s t x s' t' h hC hs ht hR, fun t'' ht'' => ?_⟩
      obtain rfl : t' = t'' := by
        rw [ht] at ht''
        injection ht''
      refine (ih hR).1 fun ys hys => ?_
      obtain ⟨u, v, hu, hv, huv⟩ := hall (x :: ys) (List.cons_prefix_cons.2 ⟨rfl, hys⟩)
      rw [runFrom_cons_ok hs] at hu
      rw [runFrom_cons_ok ht] at hv
      exact ⟨u, v, hu, hv, huv⟩
    · rintro ⟨hC, hsteps⟩ ys hys
      cases ys with
      | nil => exact ⟨s, t, rfl, rfl, h⟩
      | cons y ys =>
        obtain ⟨rfl, htail⟩ := List.cons_prefix_cons.1 hys
        obtain ⟨s', t', hs', ht', hR⟩ := hkeep s t y h hC
        obtain ⟨u, v, hu, hv, huv⟩ := (ih hR).2 (hsteps t' ht') ys htail
        exact ⟨u, v, (runFrom_cons_ok hs').trans hu, (runFrom_cons_ok ht').trans hv, huv⟩

theorem Agree.exists_ok {s : σ} {y : Except ε τ} (h : Agree R (.ok s) y) : ∃ t, y = .ok t ∧ R s t := by
  cases y with
  | ok t => exact ⟨t, rfl, h⟩
  | error e => exact h.elim

end Agree

end PacketReordering.Lib
