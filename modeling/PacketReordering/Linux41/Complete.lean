import PacketReordering.Gro.Complete
import PacketReordering.Linux41.Lists

/-!
# `linux-4.1`: `dev_gro_complete`

* `completeEnd_spec` — the time stamp, and the queue that is empty now or not;
* `devGroComplete_spec` — the queue and what goes up, as `completeFlow` has them.
-/

namespace PacketReordering.Linux41

open Lib Gro

variable {s t u : Mem} {l : Lists} {q : OfoId} {d : Dat} {segs : List Segment}

/-- Mark the queue as flushed at the time `timestamp` when anything went up. -/
def stamp (timestamp : U64) (r : Dat × List (Up GsoEnd) × List Segment) : Dat × List (Up GsoEnd) × List Segment :=
  if r.2.1.isEmpty then r else ({ r.1 with ext := r.1.ext.setFlushed timestamp }, r.2)

theorem completeEnd_spec (timestamp : U64) {r : Dat × List (Up GsoEnd) × List Segment}
    (hframe : Frame s t (segIds segs) q) (hrel : Released s.tickKtime t (r.2.1.map Up.id) r.2.1)
    (hrep : QueueRep t q none r.1 r.2.2) (hprev : t.ofoPrev = s.ofoPrev) :
    ∃ u, Completed s u s.clock.tickKtime q segs (stamp timestamp r) ∧
      completeEnd t q timestamp (segIds r.2.2).head? (!r.2.1.isEmpty) = completeResult u q (stamp timestamp r) := by
  -- the memory when the queue has its time stamp
  obtain ⟨v, hv, hframev, hrelv, hrepv, hprevv⟩ : ∃ v, v = (if !r.2.1.isEmpty then
      t.setOfo q { t.ofo q with ext := (t.ofo q).ext.setFlushed timestamp } else t) ∧ Frame s v (segIds segs) q ∧
      Released s.tickKtime v (r.2.1.map Up.id) r.2.1 ∧ QueueRep v q none (stamp timestamp r).1 r.2.2 ∧
      v.ofoPrev = s.ofoPrev := by
    refine ⟨_, rfl, ?_⟩
    cases hempty : r.2.1.isEmpty with
    | true =>
      simp only [Bool.not_true, Bool.false_eq_true, if_false, stamp, hempty, if_true]
      exact ⟨hframe, hrel, hrep, hprev⟩
    | false =>
      simp only [Bool.not_false, if_true, stamp, hempty, Bool.false_eq_true, if_false]
      refine ⟨hframe.trans ?_, ?_, ⟨hrep.dll, hrep.body, hrep.queue, hrep.qlen, hrep.skbNum, ?_⟩, hprev⟩
      · constructor <;> simp +contextual [Napi.setOfo]
      · exact ⟨hrel.next, hrel.groList, hrel.clock, hrel.stray, hrel.sameFlow, hrel.flush, hrel.prev, hrel.body,
          hrel.queue, hrel.up, hrel.gone⟩
      · simp [Napi.setOfo, hrep.dat]
  have hsegs : (stamp timestamp r).2 = r.2 := by
    unfold stamp
    split <;> rfl
  unfold completeEnd completeResult
  rw [← hv, hsegs]
  cases hrest : r.2.2 with
  | nil =>
    refine ⟨v, ⟨hframev, hsegs ▸ hrelv, by rw [hsegs]; exact hrepv, by rw [hprevv], fun hne => ?_⟩, by simp⟩
    exact absurd (hsegs ▸ hrest) hne
  | cons x xs =>
    refine ⟨{ v with ofoNext := Function.update v.ofoNext q (some x.id) }, ⟨hframev.trans ?_, ?_, ?_, ?_, fun _ => ?_⟩, ?_⟩
    · constructor <;> simp +contextual
    · rw [hsegs]
      exact ⟨hrelv.next, hrelv.groList, hrelv.clock, hrelv.stray, hrelv.sameFlow, hrelv.flush, hrelv.prev, hrelv.body,
        hrelv.queue, hrelv.up, hrelv.gone⟩
    · rw [hsegs]
      exact ⟨hrepv.dll, hrepv.body, hrepv.queue, hrepv.qlen, hrepv.skbNum, hrepv.dat⟩
    · rw [← hprevv]
    · rw [hsegs, hrest]
      simp
    · simp

/-- **`dev_gro_complete` over the memory is `completeFlow`.** -/
theorem devGroComplete_spec {x : Segment} {xs : List Segment} (flushOld : Bool) (groOfoTimeout groInseqTimeout : U64)
    {c : Clock} (h : Completing s q d (x :: xs)) (hclock : s.clock = c) :
    ∃ u, Completed s u c.tickKtime q (x :: xs)
        (completeFlow flushOld groOfoTimeout groInseqTimeout (c.ktime 0) d (x :: xs)) ∧
      devGroComplete s x.id flushOld groOfoTimeout groInseqTimeout =
        .ok (completeResult u q (completeFlow flushOld groOfoTimeout groInseqTimeout (c.ktime 0) d (x :: xs))) := by
  subst hclock
  obtain ⟨hrep, hnd, hlive, hnext, hlen, hfirst, -⟩ := h
  have hrep' : QueueRep s.tickKtime q none d (x :: xs) :=
    ⟨hrep.dll, hrep.body, hrep.queue, hrep.qlen, hrep.skbNum, hrep.dat⟩
  have hframe : Frame s s.tickKtime (segIds (x :: xs)) q := by
    constructor <;> simp [Napi.tickKtime]
  have hqueue := hrep.queue x (by simp)
  have hbody : s.tickKtime.body x.id = x.body := hrep.body x (by simp)
  have hdat : s.tickKtime.ofo q = d := hrep.dat
  have hfirst' : s.tickKtime.ofoNext q = some x.id := hfirst
  -- each of the two loops
  have hloop : ∀ cond : Dat → SkbId → Skb → Bool, ∃ u,
      Completed s u s.clock.tickKtime q (x :: xs) (stamp (s.clock.ktime 0) (completeSegs cond d (x :: xs))) ∧
      (s.tickKtime.completeWhile cond q s.tickKtime.nskb (some x.id) false).map
        (fun r => completeEnd r.2.2 q (s.clock.ktime 0) r.1 r.2.1) =
        .ok (completeResult u q (stamp (s.clock.ktime 0) (completeSegs cond d (x :: xs)))) := by
    intro cond
    obtain ⟨t, ht, hq, -, hlast, hframe', hrel⟩ := completeWhile_spec cond false hrep' hnd hlive hnext hlen
    obtain ⟨u, hu, hend⟩ := completeEnd_spec (s.clock.ktime 0) (hframe.trans hframe') hrel hq hlast
    refine ⟨u, hu, ?_⟩
    have ht' : s.tickKtime.completeWhile cond q s.tickKtime.nskb (some x.id) false = _ := ht
    rw [ht', ← hend]
    rfl
  -- without a loop
  have hstay : ∃ u, Completed s u s.clock.tickKtime q (x :: xs) (d, [], x :: xs) ∧
      completeEnd s.tickKtime q (s.clock.ktime 0) (some x.id) false = completeResult u q (d, [], x :: xs) := by
    have hrel : Released s.tickKtime s.tickKtime [] [] := by
      constructor <;> simp
    exact completeEnd_spec (r := (d, [], x :: xs)) (s.clock.ktime 0) hframe hrel hrep' rfl
  rw [devGroComplete, touch_eq (hlive x.id (by simp))]
  simp only [hqueue, hfirst', hbody, hdat, completeFlow, ← stamp.eq_def]
  split
  · obtain ⟨u, hu, hrun⟩ := hloop fun _ _ _ => true
    exact ⟨u, hu, hrun⟩
  · split
    · obtain ⟨u, hu, hrun⟩ := hloop fun d _ b => !before d.seqNext b.seq
      exact ⟨u, hu, hrun⟩
    · obtain ⟨u, hu, hend⟩ := hstay
      exact ⟨u, hu, congrArg Except.ok hend⟩

end PacketReordering.Linux41
