import PacketReordering.Linux318.Complete
import Mathlib.Data.List.Induction

/-!
# `linux-3.18.5`: `napi_gro_flush` on the lists

* `completeFlow_spec` — `dev_gro_complete` of a flow in the second loop;
* `isRecent_spec` — the test with which the loop may end early;
* `napiGroFlush_spec` — `napi_gro_flush` over the memory is `flushLists`.
-/

namespace PacketReordering.Linux318

open Lib Gro

variable {s t : Mem} {l : Lists} {A : List (Flow Stamp OfoExt)} {f : Flow Stamp OfoExt} {x : Segment} {xs : List Segment}

theorem Shortened.flow [GroComplete Stamp] (timeout timestamp : U64) (f : Flow Stamp OfoExt) (n : Option SkbId) :
    Shortened f n (completeFlow timeout timestamp f.dat (setHeadNext n f.segs)) :=
  ⟨completeFlow_append ..⟩

/-- `dev_gro_complete` of a flow in the second loop of `napi_gro_flush`, and the links around it. -/
theorem completeFlow_spec [GroComplete Stamp] (h : Flushing s l (A ++ [f])) (hx : f.segs = x :: xs) :
    (∃ u, devGroComplete s x.id 100000 = .ok (none, u) ∧
      Flushing { u.setPrevNext (heads A).getLast? (heads l.flows).head? with groCount := u.groCount - 1 }
        (flushFlow f l) A) ∨
    ∃ y u, devGroComplete s x.id 100000 = .ok (some y, u) ∧
      Flushing { u.setPrevNext (heads A).getLast? (some y) with
          next := Function.update (u.setPrevNext (heads A).getLast? (some y)).next y (heads l.flows).head?
          groList := some y }
        (flushFlow f l) A := by
  have hcompleting := h.completing hx
  have hcons : setHeadNext (heads l.flows).head? f.segs = { x with next := (heads l.flows).head? } :: xs := by
    rw [hx, setHeadNext]
  rw [hcons] at hcompleting
  have hrun := devGroComplete_spec 100000 hcompleting h.links.clock
  have hshort := Shortened.flow 100000 (l.clock.ktime 0) f (heads l.flows).head?
  rw [← hcons] at hrun
  unfold flushFlow
  revert hrun hshort
  generalize completeFlow 100000 (l.clock.ktime 0) f.dat (setHeadNext (heads l.flows).head? f.segs) = r
  intro hrun hshort
  by_cases hrest : r.2.2 = []
  · simp only [if_pos hrest] at hrun
    obtain ⟨u, hu, hrun⟩ := hrun
    simp only [hrest, List.isEmpty_nil, if_true]
    exact Or.inl ⟨u.pushQueue f.q, hrun, h.emptied hx (hshort.setDat _) hu⟩
  · simp only [if_neg hrest] at hrun
    obtain ⟨u, hu, hrun⟩ := hrun
    obtain ⟨y, ys, hy⟩ := List.exists_cons_of_ne_nil hrest
    have hleft := h.shortened hx hshort hu hy
    simp only [hy, segIds_cons, List.head?_cons, List.isEmpty_cons, Bool.false_eq_true, if_false] at hrun hleft ⊢
    exact Or.inr ⟨y.id, u, hrun, hleft⟩

/-- The test `flush_old && NAPI_GRO_CB(skb)->age == jiffies`. -/
theorem isRecent_spec (h : Flushing s l (A ++ [f])) (hx : f.segs = x :: xs) (flushOld : Bool) :
    (isRecent flushOld s x.id).1 =
        (flushOld && f.segs.head?.any fun p => decide (p.body.ext.age = l.clock.jiffies 0)) ∧
      Flushing (isRecent flushOld s x.id).2
        (if flushOld = true then { l with clock := l.clock.tickJiffies } else l) (A ++ [f]) := by
  have hbody := (h.entry hx).2.2.2.1
  have hclock : s.clock = l.clock := h.links.clock
  cases flushOld with
  | false => exact ⟨rfl, h⟩
  | true =>
    refine ⟨?_, ?_⟩
    · simp [isRecent, hbody, hclock, hx]
    · have htick := h.setClock l.clock.tickJiffies
      rw [← hclock] at htick
      rw [if_pos rfl, ← hclock]
      exact htick

/-- A turn of the second loop that is the last one. -/
theorem napiGroFlushFrom_stop [GroComplete Stamp] {flushOld : Bool} {i : SkbId} (old : Option SkbId) (fuel : ℕ)
    (hlive : i ∉ s.gone)
    (hstop : (isRecent flushOld s i).1 = true) :
    napiGroFlushFrom flushOld old fuel (some i) s = .ok { (isRecent flushOld s i).2 with groList := old } := by
  rw [napiGroFlushFrom.eq_def]
  simp only [touch_eq hlive, hstop, if_true]

/-- A turn of the second loop that is not. -/
theorem napiGroFlushFrom_go [GroComplete Stamp] {flushOld : Bool} (old : Option SkbId) (fuel : ℕ) (hlive : x.id ∉ s.gone)
    (hgo : (isRecent flushOld s x.id).1 = false) (h : Flushing (isRecent flushOld s x.id).2 l (A ++ [f]))
    (hx : f.segs = x :: xs) :
    ∃ t, Flushing t (flushFlow f l) A ∧ napiGroFlushFrom flushOld old (fuel + 1) (some x.id) s =
      napiGroFlushFrom flushOld old fuel (heads A).getLast? t := by
  obtain ⟨hnext, hprev, hqueue, -⟩ := h.entry hx
  rw [napiGroFlushFrom.eq_def]
  simp only [touch_eq hlive, hgo, Bool.false_eq_true, if_false, hqueue, hnext, hprev]
  rcases completeFlow_spec h hx with ⟨u, hrun, ht⟩ | ⟨y, u, hrun, ht⟩
  · rw [hrun]
    exact ⟨_, ht, rfl⟩
  · rw [hrun]
    exact ⟨_, ht, rfl⟩

/-- **`napi_gro_flush` over the memory is `flushLists`.** -/
theorem napiGroFlush_spec [GroComplete Stamp] (h : Rep s l) (flushOld : Bool) :
    ∃ t, napiGroFlush s flushOld = .ok t ∧ Rep t (flushLists l flushOld) := by
  have hloop : ∀ (A : List (Flow Stamp OfoExt)) (s : Mem) (l : Lists) (fuel : ℕ) (old : Option SkbId),
      Flushing s l A → A.length ≤ fuel → (A ≠ [] → old = (heads A).head?) →
      ∃ t, napiGroFlushFrom flushOld old fuel (heads A).getLast? s = .ok t ∧
        Rep t (flushFlows flushOld A.reverse l) := by
    intro A
    induction A using List.reverseRecOn with
    | nil =>
      intro s l fuel old h _ _
      refine ⟨s, ?_, ?_, h.count, h.bound⟩
      · rw [napiGroFlushFrom.eq_def]
        rfl
      · rw [h.list]
        exact h.links
    | append_singleton A f ih =>
      intro s l fuel old h hfuel hold
      obtain ⟨x, xs, hx⟩ := List.exists_cons_of_ne_nil (h.links.flows f (by simp)).ne
      obtain ⟨hrecent, hflushing⟩ := isRecent_spec h hx flushOld
      have hlive := (h.entry hx).2.2.2.2
      have hold' : A ≠ [] → old = (heads A).head? := by
        intro hA
        obtain ⟨g, gs, rfl⟩ := List.exists_cons_of_ne_nil hA
        obtain ⟨y, ys, hy⟩ := List.exists_cons_of_ne_nil (h.links.flows g (by simp)).ne
        rw [hold (by simp), heads_append, heads_cons hy]
        rfl
      rw [List.length_append, List.length_singleton] at hfuel
      obtain ⟨fuel, rfl⟩ := Nat.exists_eq_add_of_le' (Nat.le_trans (Nat.le_add_left 1 A.length) hfuel)
      rw [heads_concat_getLast? hx, List.reverse_concat, flushFlows]
      cases hstop : (isRecent flushOld s x.id).1 with
      | true =>
        rw [hstop] at hrecent
        obtain ⟨rfl, hage⟩ := Bool.and_eq_true_iff.1 hrecent.symm
        refine ⟨_, napiGroFlushFrom_stop old _ hlive hstop, ?_⟩
        simp only [if_true] at hflushing ⊢
        rw [if_pos hage]
        rw [List.reverse_cons, List.reverse_reverse]
        have hstart : (heads ((A ++ [f]) ++ l.flows)).head? = old := by
          rw [hold (by simp), heads_append, List.head?_append]
          cases hA : (heads (A ++ [f])).head? with
          | none =>
            have hlast := heads_concat_getLast? (A := A) hx
            rw [List.head?_eq_none_iff.1 hA] at hlast
            cases hlast
          | some i => rfl
        have hlinks := hflushing.links
        rw [hstart] at hlinks
        exact ⟨hlinks.setControl .., hflushing.count, hflushing.bound⟩
      | false =>
        obtain ⟨t, ht, hrun⟩ := napiGroFlushFrom_go old fuel hlive hstop hflushing hx
        obtain ⟨t', ht', hrep⟩ := ih t _ fuel old ht (by omega) hold'
        refine ⟨t', hrun.trans ht', ?_⟩
        rw [hstop] at hrecent
        cases flushOld with
        | false => exact hrep
        | true =>
          simp only [Bool.true_and] at hrecent
          simp only [← hrecent, Bool.false_eq_true, if_false, if_true] at hrep ⊢
          exact hrep
  obtain ⟨pv, hrev, hflushing⟩ := h.flushing
  rw [napiGroFlush, hrev]
  exact hloop l.flows _ { l with flows := [] } s.nskb s.groList hflushing h.links.flows_length_le fun _ => h.links.start_eq

end PacketReordering.Linux318
