import PacketReordering.Gro.Complete
import PacketReordering.Linux318.Lists

/-!
# `linux-3.18.5`: `dev_gro_complete`

* `overdue`, `young` — the two parts of a queue, before and from `skb_last` on;
* `completeFlow_eq` — the overdue segments go up, and then the young ones that are in sequence;
* `devGroComplete_spec` — the queue and what goes up, as `completeFlow` has them.
-/

namespace PacketReordering.Linux318

open Lib Gro

variable {s t u : Mem} {q : OfoId} {d : Dat} {segs rel rest : List Segment} {timeout timestamp : U64}

/-! ### The loops on the list -/

/-- The segments in front of `skb_last`. -/
def overdue (timeout timestamp : U64) (segs : List Segment) : List Segment :=
  if timeout ≠ 0 then segs.rdropWhile (isYoung timestamp timeout) else segs

/-- The segments from `skb_last` on. -/
def young (timeout timestamp : U64) (segs : List Segment) : List Segment :=
  if timeout ≠ 0 then segs.rtakeWhile (isYoung timestamp timeout) else []

theorem overdue_append_young (timeout timestamp : U64) (segs : List Segment) :
    overdue timeout timestamp segs ++ young timeout timestamp segs = segs := by
  unfold overdue young
  split
  · exact List.rdropWhile_append_rtakeWhile
  · exact List.append_nil segs

theorem skbLast_eq (timeout timestamp : U64) (segs : List Segment) :
    skbLast timestamp timeout segs = (segIds (young timeout timestamp segs)).head? := by
  unfold skbLast young
  split <;> rfl

/-- All of `segs` goes up in a loop of `dev_gro_complete`. -/
def completeAll [GroComplete Stamp] (d : Dat) (segs : List Segment) : Dat × List (Up Stamp) :=
  let r := completeSegs (fun _ _ _ => true) d segs
  (r.1, r.2.1)

/-- The first loop of `dev_gro_complete` goes up to the segment `n`. -/
theorem completeSegs_until [GroComplete Stamp] {n : Option SkbId} (d : Dat) (hn : n = (segIds rest).head?)
    (hrel : ∀ x ∈ rel, some x.id ≠ n) :
    completeSegs (fun _ p _ => decide (some p ≠ n)) d (rel ++ rest) =
      ((completeAll d rel).1, (completeAll d rel).2, rest) := by
  induction rel generalizing d with
  | nil =>
    cases rest with
    | nil => rfl
    | cons y ys =>
      have hstop : ¬decide (some y.id ≠ n) = true := by simp [hn]
      rw [List.nil_append, completeSegs, if_neg hstop]
      rfl
  | cons x rel ih =>
    have hgo : decide (some x.id ≠ n) = true := by simpa using hrel x (by simp)
    have ih := ih (d.setSeqNext (maxSeq d.seqNext x.body.seqEnd)) fun y hy => hrel y (by simp [hy])
    rw [List.cons_append, completeSegs, if_pos hgo, ih]
    rfl

/-- The first loop of `dev_gro_complete` over a queue whose segments are different buffers. -/
theorem completeSegs_overdue [GroComplete Stamp] (timeout timestamp : U64) (d : Dat) (hnd : (segIds segs).Nodup) :
    completeSegs (fun _ p _ => decide (some p ≠ skbLast timestamp timeout segs)) d segs =
      ((completeAll d (overdue timeout timestamp segs)).1, (completeAll d (overdue timeout timestamp segs)).2,
        young timeout timestamp segs) := by
  have hsegs := overdue_append_young timeout timestamp segs
  have hstop : ∀ x ∈ overdue timeout timestamp segs, some x.id ≠ skbLast timestamp timeout segs := by
    intro x hx he
    rw [← hsegs, segIds_append] at hnd
    rw [skbLast_eq] at he
    exact (List.nodup_append.1 hnd).2.2 x.id (mem_segIds hx) x.id (List.mem_of_head? he.symm) rfl
  have hloop := completeSegs_until d (skbLast_eq timeout timestamp segs) hstop
  rwa [hsegs] at hloop

/-- Both loops. -/
theorem completeFlow_eq [GroComplete Stamp] (timeout timestamp : U64) (d : Dat) (hnd : (segIds segs).Nodup) :
    completeFlow timeout timestamp d segs =
      let d := { d with ext := { d.ext with checked := timestamp } }
      let r := completeAll d (overdue timeout timestamp segs)
      let r' := completeSegs (fun d _ b => !before d.seqNext b.seq) r.1 (young timeout timestamp segs)
      (r'.1, r.2 ++ r'.2.1, r'.2.2) := by
  simp only [completeFlow, completeSegs_overdue timeout timestamp _ hnd]

theorem completeFlow_append [GroComplete Stamp] (timeout timestamp : U64) (d : Dat) (segs : List Segment) :
    ∃ rel, segs = rel ++ (completeFlow timeout timestamp d segs).2.2 ∧
      (completeFlow timeout timestamp d segs).2.1.map Up.id = segIds rel := by
  unfold completeFlow
  obtain ⟨rel, hsegs, hids⟩ := completeSegs_append (fun _ p _ => decide (some p ≠ skbLast timestamp timeout segs))
    { d with ext := { d.ext with checked := timestamp } } segs
  obtain ⟨rel', hsegs', hids'⟩ := completeSegs_append (fun (d : Dat) _ (b : Skb) => !before d.seqNext b.seq)
    (completeSegs (fun _ p _ => decide (some p ≠ skbLast timestamp timeout segs))
      { d with ext := { d.ext with checked := timestamp } } segs).1
    (completeSegs (fun _ p _ => decide (some p ≠ skbLast timestamp timeout segs))
      { d with ext := { d.ext with checked := timestamp } } segs).2.2
  refine ⟨rel ++ rel', ?_, ?_⟩
  · rw [List.append_assoc, ← hsegs', ← hsegs]
  · rw [List.map_append, segIds_append, hids, hids']

/-- Without a timeout, all of it goes up. -/
theorem completeFlow_all [GroComplete Stamp] (timestamp : U64) (d : Dat) (segs : List Segment) :
    (completeFlow 0 timestamp d segs).2.2 = [] := by
  have hcond : (fun (_ : Dat) (p : SkbId) (_ : Skb) => decide (some p ≠ skbLast timestamp 0 segs)) =
      fun _ _ _ => true := by
    funext d p b
    simp [skbLast]
  simp only [completeFlow, hcond, completeSegs_all]
  rfl

/-! ### The loops over the memory -/

/-- The first loop of `dev_gro_complete` finds `skb_last`. -/
theorem youngFrom_spec {pre : List Segment} {fuel : ℕ} {last n : Option SkbId} (hdll : Dll s.cbNext s.cbPrev none (segIds pre) n)
    (hbody : ∀ x ∈ pre, s.body x.id = x.body) (hlive : ∀ i ∈ segIds pre, i ∉ s.gone) (hfuel : pre.length ≤ fuel) :
    youngFrom timestamp timeout fuel (segIds pre).getLast? last s =
      .ok ((segIds (pre.rtakeWhile (isYoung timestamp timeout))).head?.or last, s) := by
  induction pre using List.reverseRecOn generalizing fuel last n with
  | nil =>
    rw [youngFrom.eq_def]
    rfl
  | append_singleton pre x ih =>
    have hx := hlive x.id (by simp)
    have hlast : (segIds (pre ++ [x])).getLast? = some x.id := by simp
    rw [segIds_append, dll_append] at hdll
    have hprev : s.cbPrev x.id = (segIds pre).getLast? := by
      have hcell := hdll.2
      simp only [segIds_cons, dll_cons] at hcell
      simpa using hcell.1
    rw [hlast, youngFrom.eq_def]
    simp only [touch_eq hx, hbody x (by simp), hprev]
    by_cases hyoung : isYoung timestamp timeout x = true
    · rw [if_pos (of_decide_eq_true hyoung), List.rtakeWhile_concat_pos _ _ _ hyoung]
      rw [List.length_append, List.length_singleton] at hfuel
      obtain ⟨fuel, rfl⟩ := Nat.exists_eq_add_of_le' (Nat.le_trans (Nat.le_add_left 1 pre.length) hfuel)
      have ih := @ih fuel (some x.id) _ hdll.1 (fun y hy => hbody y (by simp [hy])) (fun i hi => hlive i (by simp [hi])) (by omega)
      refine ih.trans ?_
      cases hyng : pre.rtakeWhile (isYoung timestamp timeout) <;> simp
    · rw [if_neg fun h => hyoung (decide_eq_true h), List.rtakeWhile_concat_neg _ _ _ hyoung]
      rfl

/-- What `dev_gro_complete` leaves, with the data of a queue that becomes free. -/
def aged (clock : Clock) (r : Dat × List (Up Stamp) × List Segment) : Dat × List (Up Stamp) × List Segment :=
  (agedDat r.1 (clock.jiffies 0), r.2)

/-- **`dev_gro_complete` over the memory is `completeFlow`.** -/
theorem devGroComplete_spec [GroComplete Stamp] {x : Segment} {xs : List Segment} (timeout : U64) {c : Clock}
    (h : Completing s q d (x :: xs)) (hclock : s.clock = c) :
    let r := completeFlow timeout (c.ktime 0) d (x :: xs)
    if r.2.2 = [] then
      ∃ u, Completed s u c.tickKtime.tickJiffies q (x :: xs) (aged c r) ∧
        devGroComplete s x.id timeout = .ok (none, u.pushQueue q)
    else
      ∃ u, Completed s u c.tickKtime q (x :: xs) r ∧
        devGroComplete s x.id timeout = .ok ((segIds r.2.2).head?, u) := by
  subst hclock
  intro r
  obtain ⟨hrep, hnd, hlive, hnext, hlen, hfirst, hlast⟩ := h
  -- the memory in front of the loops
  let d₀ : Dat := { d with ext := { d.ext with checked := s.clock.ktime 0 } }
  let s₀ : Mem := s.tickKtime.setOfo q { s.tickKtime.ofo q with ext := { (s.tickKtime.ofo q).ext with checked := s.clock.ktime 0 } }
  have hd₀ : s₀.ofo q = d₀ := by
    have hdat : s.ofo q = d := hrep.dat
    simp [s₀, d₀, Napi.setOfo, Napi.tickKtime, hdat]
  have hrep₀ : QueueRep s₀ q none d₀ (x :: xs) :=
    ⟨hrep.dll, hrep.body, hrep.queue, hrep.qlen, hrep.skbNum, hd₀⟩
  have hframe₀ : Frame s s₀ (segIds (x :: xs)) q := by
    constructor <;> simp +contextual [s₀, Napi.tickKtime, Napi.setOfo]
  have hyoung : (if timeout ≠ 0 then youngFrom (s.clock.ktime 0) timeout s₀.nskb (s₀.ofoPrev q) none s₀
      else .ok (none, s₀)) = .ok (skbLast (s.clock.ktime 0) timeout (x :: xs), s₀) := by
    unfold skbLast
    split
    · have hlast' : s₀.ofoPrev q = (segIds (x :: xs)).getLast? := hlast
      have hnskb : s₀.nskb = s.nskb := rfl
      rw [hlast', hnskb, youngFrom_spec hrep₀.dll hrep₀.body hlive hlen, Option.or_none]
    · rfl
  have hlen₀ : (x :: xs).length ≤ s₀.nskb := hlen
  -- the first loop
  let r₁ := completeSegs (fun _ p _ => decide (some p ≠ skbLast (s.clock.ktime 0) timeout (x :: xs))) d₀ (x :: xs)
  obtain ⟨v, hv, hrepv, hnextv, hprevv, hframev, hrelv⟩ := completeWhile_spec
    (fun _ p _ => decide (some p ≠ skbLast (s.clock.ktime 0) timeout (x :: xs))) false hrep₀ hnd hlive hnext hlen₀
  obtain ⟨rel, hsegs, hids⟩ : ∃ rel, x :: xs = rel ++ r₁.2.2 ∧ r₁.2.1.map Up.id = segIds rel := completeSegs_append _ _ _
  have hstop : (segIds r₁.2.2).head? = skbLast (s.clock.ktime 0) timeout (x :: xs) := by
    rw [skbLast_eq]
    exact congrArg (fun r => (segIds r.2.2).head?) (completeSegs_overdue timeout (s.clock.ktime 0) d₀ hnd)
  -- the second loop
  have hnd' := hnd
  rw [hsegs, segIds_append] at hnd'
  obtain ⟨-, hndv, hdis⟩ := List.nodup_append.1 hnd'
  have hmem : ∀ i ∈ segIds r₁.2.2, i ∈ segIds (x :: xs) := by
    intro i hi
    rw [hsegs, segIds_append]
    exact List.mem_append_right _ hi
  have hlivev : ∀ i ∈ segIds r₁.2.2, i ∉ v.gone := by
    intro i hi hg
    rcases (hrelv.gone i).1 hg with hm | hg
    · exact hdis i (hids ▸ hm) i hi rfl
    · exact hlive i (hmem i hi) hg
  have hnexty : ∀ y ∈ r₁.2.2, v.next y.id = y.next := by
    intro y hy
    rw [hrelv.next]
    refine hnext y ?_
    rw [hsegs]
    exact List.mem_append_right _ hy
  have hlenv : r₁.2.2.length ≤ v.nskb := by
    rw [hframev.nskb]
    have hlen' := congrArg List.length hsegs
    rw [List.length_append] at hlen'
    exact Nat.le_trans (by omega) hlen
  obtain ⟨w, hw, hrepw, hnextw, hprevw, hframew, hrelw⟩ := completeWhile_spec
    (fun (d : Dat) _ (b : Skb) => !before d.seqNext b.seq) false hrepv hndv hlivev hnexty hlenv
  have hframe : Frame s w (segIds (x :: xs)) q := (hframe₀.trans hframev).trans (hframew.mono hmem)
  have hreleased : Released s₀ w (r.2.1.map Up.id) r.2.1 := by
    have htrans := hrelv.trans hrelw
    rwa [← List.map_append] at htrans
  have hclock : w.clock = s.clock.tickKtime := hreleased.clock
  have hrun : devGroComplete s x.id timeout = .ok (completeEnd w q (segIds r.2.2).head?) := by
    have hfirst' : s₀.ofoNext q = (segIds (x :: xs)).head? := hfirst
    rw [← hfirst'] at hv
    rw [devGroComplete, touch_eq (hlive x.id (by simp)), hrep.queue x (by simp)]
    simp only [s₀] at hyoung hv
    simp only [hyoung, hv]
    rw [if_neg (by simpa [r₁] using hstop)]
    rw [hw]
    rfl
  have hrepr : QueueRep w q none r.1 r.2.2 := hrepw
  have hprev : w.ofoPrev q = s.ofoPrev q := (congrFun hprevw q).trans (congrFun hprevv q)
  rw [hrun]
  split
  · rename_i hrest
    rw [hrest]
    refine ⟨w.tickJiffies.setOfo q (agedDat (w.ofo q) (s.clock.jiffies 0)), ⟨hframe.trans ?_, ?_, ?_, hprev, ?_⟩, ?_⟩
    · constructor <;> simp +contextual [Napi.tickJiffies, Napi.setOfo]
    · exact ⟨hreleased.next, hreleased.groList, congrArg Clock.tickJiffies hclock, hreleased.stray, hreleased.sameFlow,
        hreleased.flush, hreleased.prev, hreleased.body, hreleased.queue, hreleased.up, hreleased.gone⟩
    · refine ⟨hrepr.dll, hrepr.body, hrepr.queue, hrepr.qlen, hrepr.skbNum, ?_⟩
      simp [Napi.setOfo, aged, hrepr.dat]
    · exact fun hne => absurd hrest hne
    · have hjiffies : w.clock.jiffies 0 = s.clock.jiffies 0 := congrArg (fun c => c.jiffies 0) hclock
      rw [← hjiffies]
      rfl
  · rename_i hrest
    obtain ⟨y, ys, hy⟩ := List.exists_cons_of_ne_nil hrest
    rw [hy]
    refine ⟨{ w with ofoNext := Function.update w.ofoNext q (some y.id) }, ⟨hframe.trans ?_, ?_, ?_, hprev, fun _ => ?_⟩, rfl⟩
    · constructor <;> simp +contextual
    · exact ⟨hreleased.next, hreleased.groList, hclock, hreleased.stray, hreleased.sameFlow, hreleased.flush,
        hreleased.prev, hreleased.body, hreleased.queue, hreleased.up, hreleased.gone⟩
    · exact ⟨hrepr.dll, hrepr.body, hrepr.queue, hrepr.qlen, hrepr.skbNum, hrepr.dat⟩
    · rw [hy]
      exact Function.update_self ..

end PacketReordering.Linux318
