import PacketReordering.Gro.GroList
import PacketReordering.Linux41.Complete
import Mathlib.Data.List.Induction

/-!
# `linux-4.1`: `napi_gro_flush` on the lists

* `Shortened.flow` — what `dev_gro_complete` leaves of a flow;
* `napiGroFlushFrom_cons` — a turn of the second loop;
* `napiGroFlush_spec` — `napi_gro_flush` over the memory is `flushLists`.
-/

namespace PacketReordering.Linux41

open Lib Gro

variable {s t u v : Mem} {l : Lists} {A B : List (Flow GsoEnd OfoExt)} {f : Flow GsoEnd OfoExt} {q : OfoId} {d : Dat}
  {segs : List Segment} {start : Option SkbId}

theorem completeFlow_append (flushOld : Bool) (groOfoTimeout groInseqTimeout timestamp : U64) (d : Dat)
    (segs : List Segment) :
    ∃ rel, segs = rel ++ (completeFlow flushOld groOfoTimeout groInseqTimeout timestamp d segs).2.2 ∧
      (completeFlow flushOld groOfoTimeout groInseqTimeout timestamp d segs).2.1.map Up.id = segIds rel := by
  cases segs with
  | nil => exact ⟨[], rfl, rfl⟩
  | cons x segs =>
    have hstamp : ∀ r, (stamp timestamp r).2 = r.2 := by
      intro r
      unfold stamp
      split <;> rfl
    unfold completeFlow
    simp only [← stamp.eq_def, hstamp]
    split
    · exact completeSegs_append _ _ _
    · split
      · exact completeSegs_append _ _ _
      · exact ⟨[], rfl, rfl⟩

variable {n : Option SkbId} {r : Dat × List (Up GsoEnd) × List Segment}

theorem Shortened.flow (flushOld : Bool) (groOfoTimeout groInseqTimeout timestamp : U64) (f : Flow GsoEnd OfoExt)
    (n : Option SkbId) :
    Shortened f n
      (completeFlow flushOld groOfoTimeout groInseqTimeout timestamp f.dat (setHeadNext n f.segs)) :=
  ⟨completeFlow_append ..⟩

/-! ### `napi_gro_flush` -/

/-- A turn of the second loop of `napi_gro_flush`. -/
theorem napiGroFlushFrom_cons (h : Flushing s l (A ++ [f])) {x : Segment} {xs : List Segment} (hx : f.segs = x :: xs)
    (flushOld : Bool) (groOfoTimeout groInseqTimeout : U64) (fuel : ℕ) :
    ∃ t, Flushing t (flushFlow flushOld groOfoTimeout groInseqTimeout f l) A ∧
      napiGroFlushFrom flushOld groOfoTimeout groInseqTimeout fuel (some x.id) s =
        match fuel with
        | 0 => .error .diverges
        | fuel + 1 =>
          napiGroFlushFrom flushOld groOfoTimeout groInseqTimeout fuel (heads A).getLast? t := by
  obtain ⟨hnext, hprev, hqueue, -⟩ := h.entry hx
  have hcompleting := h.completing hx
  have hcons : setHeadNext (heads l.flows).head? f.segs = { x with next := (heads l.flows).head? } :: xs := by
    rw [hx, setHeadNext]
  rw [hcons] at hcompleting
  obtain ⟨u, hu, hrun⟩ := devGroComplete_spec flushOld groOfoTimeout groInseqTimeout hcompleting h.links.clock
  rw [← hcons] at hu hrun
  have hshort := Shortened.flow flushOld groOfoTimeout groInseqTimeout (l.clock.ktime 0) f (heads l.flows).head?
  unfold flushFlow
  revert hu hrun hshort
  generalize completeFlow flushOld groOfoTimeout groInseqTimeout (l.clock.ktime 0) f.dat
    (setHeadNext (heads l.flows).head? f.segs) = r
  intro hu hrun hshort
  rw [napiGroFlushFrom.eq_def]
  have hrun' : devGroComplete s x.id flushOld groOfoTimeout groInseqTimeout = _ := hrun
  simp only [hqueue, hprev, hnext, hrun', completeResult]
  by_cases hrest : r.2.2 = []
  · simp only [hrest, if_true, List.isEmpty_nil]
    exact ⟨_, h.emptied hx hshort hu, rfl⟩
  · obtain ⟨y, ys, hy⟩ := List.exists_cons_of_ne_nil hrest
    have hleft := h.shortened hx hshort hu hy
    simp only [hy, List.cons_ne_nil, if_false, List.isEmpty_cons, segIds_cons, List.head?_cons, Bool.false_eq_true]
      at hleft ⊢
    exact ⟨_, hleft, rfl⟩

/-- **`napi_gro_flush` over the memory is `flushLists`.** -/
theorem napiGroFlush_spec (h : Rep s l) (flushOld : Bool) (groOfoTimeout groInseqTimeout : U64) :
    ∃ t, napiGroFlush s flushOld groOfoTimeout groInseqTimeout = .ok t ∧
      Rep t (flushLists l flushOld groOfoTimeout groInseqTimeout) := by
  have hloop : ∀ (A : List (Flow GsoEnd OfoExt)) (s : Mem) (l : Lists) (fuel : ℕ), Flushing s l A → A.length ≤ fuel →
      ∃ t, napiGroFlushFrom flushOld groOfoTimeout groInseqTimeout fuel (heads A).getLast? s = .ok t ∧
        Rep t (A.foldr (flushFlow flushOld groOfoTimeout groInseqTimeout) l) := by
    intro A
    induction A using List.reverseRecOn with
    | nil =>
      intro s l fuel h _
      refine ⟨s, ?_, ?_, h.count, h.bound⟩
      · rw [napiGroFlushFrom.eq_def]
        rfl
      · rw [h.list]
        exact h.links
    | append_singleton A f ih =>
      intro s l fuel h hfuel
      obtain ⟨x, xs, hx⟩ := List.exists_cons_of_ne_nil (h.links.flows f (by simp)).ne
      obtain ⟨t, ht, hrun⟩ := napiGroFlushFrom_cons h hx flushOld groOfoTimeout groInseqTimeout fuel
      rw [List.length_append, List.length_singleton] at hfuel
      obtain ⟨fuel, rfl⟩ := Nat.exists_eq_add_of_le' (Nat.le_trans (Nat.le_add_left 1 A.length) hfuel)
      obtain ⟨t', ht', hrep⟩ := ih t _ fuel ht (by omega)
      rw [heads_concat_getLast? hx, List.foldr_append]
      exact ⟨t', hrun.trans ht', hrep⟩
  obtain ⟨pv, hrev, hflushing⟩ := h.flushing
  rw [napiGroFlush, hrev]
  exact hloop l.flows _ { l with flows := [] } s.nskb hflushing h.links.flows_length_le

end PacketReordering.Linux41
