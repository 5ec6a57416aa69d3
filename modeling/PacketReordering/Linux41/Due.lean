import PacketReordering.Linux41.Conservation

/-!
# `linux-4.1`: what `napi_gro_flush(napi, true)` releases

* `inSequence`, `due` — the segments of a flow that are to go up at a time;
* `keptFlows`, `releasedSegs`, `emptiedQueues` — the same for all flows, each with its reading of the clock;
* `completeFlow_due`, `flushLists_due` — these are what `napi_gro_flush` releases and keeps;
* `napiGroFlush_due` — from every state that a run reaches.
-/

namespace PacketReordering.Linux41

open Lib Gro

/-- The longest beginning of the queue in which each segment starts at or before the running `seq_next`. -/
def inSequence : U32 → List Segment → List Segment
  | _, [] => []
  | seqNext, x :: xs =>
    if before seqNext x.body.seq then [] else x :: inSequence (maxSeq seqNext x.body.seqEnd) xs

/-- The segments of the flow that are due at the time `t`. -/
def due (groOfoTimeout groInseqTimeout t : U64) (f : Flow GsoEnd OfoExt) : List Segment :=
  match f.segs with
  | [] => []
  | p :: _ =>
    if before f.dat.seqNext p.body.seq then if groOfoTimeout < t - f.dat.ext.timestamp then f.segs else []
    else if groInseqTimeout < t - f.dat.ext.timestamp then inSequence f.dat.seqNext f.segs else []

/-- The segments that are not due. -/
def notDue (groOfoTimeout groInseqTimeout t : U64) (f : Flow GsoEnd OfoExt) : List Segment :=
  f.segs.drop (due groOfoTimeout groInseqTimeout t f).length

section

variable (groOfoTimeout groInseqTimeout : U64) (ktime : ℕ → U64)

/-- The flows with segments left, in their order, each with these.  A flow with `n` older ones gets the reading `n`. -/
def keptFlows : List (Flow GsoEnd OfoExt) → List (OfoId × List Segment)
  | [] => []
  | f :: B =>
    let segs := notDue groOfoTimeout groInseqTimeout (ktime B.length) f
    if segs.isEmpty then keptFlows B else (f.q, segs) :: keptFlows B

/-- What goes up, beginning with the oldest flow. -/
def releasedSegs : List (Flow GsoEnd OfoExt) → List Segment
  | [] => []
  | f :: B => releasedSegs B ++ due groOfoTimeout groInseqTimeout (ktime B.length) f

/-- The queue objects of the flows without segments left. -/
def emptiedQueues : List (Flow GsoEnd OfoExt) → List OfoId
  | [] => []
  | f :: B =>
    if (notDue groOfoTimeout groInseqTimeout (ktime B.length) f).isEmpty then f.q :: emptiedQueues B
    else emptiedQueues B

end

/-! ### One flow -/

variable {groOfoTimeout groInseqTimeout : U64} {ktime : ℕ → U64}

theorem inSequence_append (seqNext : U32) (segs : List Segment) :
    inSequence seqNext segs ++ segs.drop (inSequence seqNext segs).length = segs := by
  induction segs generalizing seqNext with
  | nil => rfl
  | cons x segs ih =>
    rw [inSequence]
    split
    · rfl
    · rw [List.cons_append, List.length_cons, List.drop_succ_cons, ih]

/-- What is released and what stays held is the queue. -/
theorem due_append (t : U64) (f : Flow GsoEnd OfoExt) :
    due groOfoTimeout groInseqTimeout t f ++ notDue groOfoTimeout groInseqTimeout t f = f.segs := by
  unfold notDue due
  split
  · rename_i hnil
    rw [hnil]
    rfl
  · split
    · split
      · rw [List.drop_length, List.append_nil]
      · rfl
    · split
      · exact inSequence_append _ _
      · rfl

theorem completeSegs_inSequence (d : Dat) (segs : List Segment) :
    (completeSegs (fun d _ b => !before d.seqNext b.seq) d segs).2 =
      ((inSequence d.seqNext segs).map fun x => x.up .devGroComplete,
        segs.drop (inSequence d.seqNext segs).length) := by
  induction segs generalizing d with
  | nil => rfl
  | cons x segs ih =>
    rw [completeSegs, inSequence]
    by_cases hbefore : before d.seqNext x.body.seq = true
    · rw [if_neg (by simp [hbefore]), if_pos hbefore]
      rfl
    · rw [if_pos (by simpa using hbefore), if_neg hbefore]
      have hrest := ih (d.setSeqNext (maxSeq d.seqNext x.body.seqEnd))
      have hseq : (d.setSeqNext (maxSeq d.seqNext x.body.seqEnd)).seqNext = maxSeq d.seqNext x.body.seqEnd := rfl
      rw [hseq] at hrest
      simp only [hrest]
      rfl

theorem completeSegs_true (d : Dat) (segs : List Segment) :
    (completeSegs (fun _ _ _ => true) d segs).2 = (segs.map fun x => x.up .devGroComplete, []) := by
  induction segs generalizing d with
  | nil => rfl
  | cons x segs ih =>
    rw [completeSegs, if_pos rfl]
    simp only [ih]
    rfl

/-- **`dev_gro_complete(napi, skb, true)` releases what is due.** -/
theorem completeFlow_due (groOfoTimeout groInseqTimeout t : U64) (q : OfoId) (d : Dat) (segs : List Segment) :
    (completeFlow true groOfoTimeout groInseqTimeout t d segs).2 =
      ((due groOfoTimeout groInseqTimeout t ⟨q, d, segs⟩).map fun x => x.up .devGroComplete,
        notDue groOfoTimeout groInseqTimeout t ⟨q, d, segs⟩) := by
  cases segs with
  | nil => rfl
  | cons p segs =>
    have hstamp : ∀ r : Dat × List (Up GsoEnd) × List Segment,
        (if r.2.1.isEmpty then r else ({ r.1 with ext := r.1.ext.setFlushed t }, r.2)).2 = r.2 := by
      intro r
      split <;> rfl
    simp only [completeFlow, hstamp, notDue, due, Bool.not_true, Bool.false_or, Bool.not_not]
    by_cases hbefore : before d.seqNext p.body.seq = true
    · rw [if_pos hbefore]
      by_cases hage : groOfoTimeout < t - d.ext.timestamp
      · rw [if_pos (by simp [hbefore, hage]), if_pos hage, completeSegs_true, List.drop_length]
      · rw [if_neg (by simp [hage]), if_neg (by simp [hbefore]), if_neg hage]
        rfl
    · rw [Bool.not_eq_true] at hbefore
      rw [if_neg (by simp [hbefore])]
      by_cases hage : groInseqTimeout < t - d.ext.timestamp
      · rw [if_pos (by simp [hbefore, hage]), completeSegs_inSequence]
        simp [hbefore, hage]
      · rw [if_neg (by simp [hage])]
        simp [hbefore, hage]

/-! ### The flows as they are read off the memory -/

theorem inSequence_erase (seqNext : U32) (segs : List Segment) :
    inSequence seqNext (segs.map Seg.erase) = (inSequence seqNext segs).map Seg.erase := by
  induction segs generalizing seqNext with
  | nil => rfl
  | cons x segs ih =>
    rw [List.map_cons, inSequence, inSequence, ih, erase_body, apply_ite (List.map Seg.erase)]
    rfl

theorem due_erase (groOfoTimeout groInseqTimeout t : U64) (f : Flow GsoEnd OfoExt) :
    due groOfoTimeout groInseqTimeout t f.erase = (due groOfoTimeout groInseqTimeout t f).map Seg.erase := by
  obtain ⟨q, d, segs⟩ := f
  cases segs with
  | nil => rfl
  | cons p segs =>
    have hbegins : inSequence d.seqNext (p.erase :: segs.map Seg.erase) = _ := inSequence_erase d.seqNext (p :: segs)
    simp only [due, Flow.erase, List.map_cons, erase_body, hbegins, apply_ite (List.map Seg.erase), List.map_nil]

theorem notDue_erase (groOfoTimeout groInseqTimeout t : U64) (f : Flow GsoEnd OfoExt) :
    notDue groOfoTimeout groInseqTimeout t f.erase = (notDue groOfoTimeout groInseqTimeout t f).map Seg.erase := by
  rw [notDue, notDue, due_erase, List.length_map, List.map_drop]
  rfl

/-- The first segment's `skb->next` does not matter. -/
theorem setHeadNext_erase (n : Option SkbId) (segs : List Segment) :
    (setHeadNext n segs).map Seg.erase = segs.map Seg.erase := by
  cases segs <;> rfl

/-! ### All flows -/

/-- What `flushLists` makes of the flows `fs`, when those of `l` stay. -/
structure FlushedTo (l l' : Lists) (groOfoTimeout groInseqTimeout : U64) (fs : List (Flow GsoEnd OfoExt)) : Prop where
  flows : l'.flows.map (fun f => (f.q, f.segs.map Seg.erase)) =
    keptFlows groOfoTimeout groInseqTimeout l.clock.ktime (fs.map Flow.erase)
  up : l'.up.map Up.erase = l.up.map Up.erase ++
    (releasedSegs groOfoTimeout groInseqTimeout l.clock.ktime (fs.map Flow.erase)).map fun x => x.up .devGroComplete
  free : l'.free.map FreeQueue.q =
    emptiedQueues groOfoTimeout groInseqTimeout l.clock.ktime (fs.map Flow.erase) ++ l.free.map FreeQueue.q
  clock : ∀ n, l'.clock.ktime n = l.clock.ktime (n + fs.length)

theorem flushFlow_due {l l' : Lists} {fs : List (Flow GsoEnd OfoExt)} (f : Flow GsoEnd OfoExt)
    (h : FlushedTo l l' groOfoTimeout groInseqTimeout fs) :
    FlushedTo l (flushFlow true groOfoTimeout groInseqTimeout f l') groOfoTimeout groInseqTimeout (f :: fs) := by
  have htime : l'.clock.ktime 0 = l.clock.ktime (fs.map Flow.erase).length := by
    rw [h.clock, Nat.zero_add, List.length_map]
  have herase : (⟨f.q, f.dat, setHeadNext (heads l'.flows).head? f.segs⟩ : Flow GsoEnd OfoExt).erase = f.erase :=
    congrArg (Gro.Flow.mk f.q f.dat) (setHeadNext_erase _ _)
  have hdue := completeFlow_due groOfoTimeout groInseqTimeout (l'.clock.ktime 0) f.q f.dat (setHeadNext (heads l'.flows).head? f.segs)
  have hkept := notDue_erase groOfoTimeout groInseqTimeout (l'.clock.ktime 0)
    ⟨f.q, f.dat, setHeadNext (heads l'.flows).head? f.segs⟩
  have hreleased := due_erase groOfoTimeout groInseqTimeout (l'.clock.ktime 0)
    ⟨f.q, f.dat, setHeadNext (heads l'.flows).head? f.segs⟩
  rw [herase] at hkept hreleased
  unfold flushFlow
  simp only
  generalize completeFlow true groOfoTimeout groInseqTimeout (l'.clock.ktime 0) f.dat
    (setHeadNext (heads l'.flows).head? f.segs) = r at hdue
  obtain ⟨d, rel, rest⟩ := r
  obtain ⟨hrel, hrest⟩ : rel = _ ∧ rest = _ := by simpa using hdue
  rw [← hrest] at hkept
  have hup : (rel.map Up.erase : List (Up GsoEnd)) =
      (due groOfoTimeout groInseqTimeout (l'.clock.ktime 0) f.erase).map fun x => x.up .devGroComplete := by
    rw [hrel, hreleased, List.map_map, List.map_map]
    rfl
  have hclock : ∀ n, l'.clock.tickKtime.ktime n = l.clock.ktime (n + (f :: fs).length) := by
    intro n
    rw [List.length_cons, ← Nat.add_assoc, Nat.add_right_comm]
    exact h.clock (n + 1)
  have hups : (l'.up ++ rel).map Up.erase = l.up.map Up.erase ++
      (releasedSegs groOfoTimeout groInseqTimeout l.clock.ktime ((f :: fs).map Flow.erase)).map
        fun x => x.up .devGroComplete := by
    rw [List.map_append, h.up, hup, List.map_cons, releasedSegs, List.map_append, List.append_assoc, htime]
  cases hempty : rest.isEmpty with
  | true =>
    rw [if_pos rfl]
    have hnil : rest.map Seg.erase = [] := by simpa using hempty
    refine ⟨?_, hups, ?_, hclock⟩
    · simp only [List.map_cons, keptFlows, ← htime, hkept, hnil, List.isEmpty_nil, if_true]
      exact h.flows
    · simp only [List.map_cons, emptiedQueues, ← htime, hkept, hnil, List.isEmpty_nil, if_true, List.cons_append, h.free]
      rfl
  | false =>
    rw [if_neg Bool.false_ne_true]
    have hne : (rest.map Seg.erase).isEmpty = false := by simpa using hempty
    refine ⟨?_, hups, ?_, hclock⟩
    · simp only [List.map_cons, keptFlows, ← htime, hkept, hne, Bool.false_eq_true, if_false, h.flows]
      rfl
    · simp only [List.map_cons, emptiedQueues, ← htime, hkept, hne, Bool.false_eq_true, if_false]
      exact h.free

theorem flushLists_due (l : Lists) (groOfoTimeout groInseqTimeout : U64) :
    FlushedTo l (flushLists l true groOfoTimeout groInseqTimeout) groOfoTimeout groInseqTimeout l.flows := by
  rw [flushLists]
  induction l.flows with
  | nil => exact ⟨rfl, (List.append_nil _).symm, rfl, fun n => rfl⟩
  | cons f fs ih => exact flushFlow_due f ih

/-- **`napi_gro_flush(napi, true)` releases exactly what is due**, beginning with the oldest flow; the flows with segments
left stay on `gro_list` in their order, each behind its first segment, and the queue objects of the others are free. -/
theorem napiGroFlush_due {mem s : Mem} {cs : List Call} (h : run mem cs = .ok s) (groOfoTimeout groInseqTimeout : U64)
    (ktime : ℕ → U64) :
    ∃ t, step s (.flush true groOfoTimeout groInseqTimeout ktime) = .ok t ∧
      t.view.flows.map (fun f => (f.q, f.segs)) = keptFlows groOfoTimeout groInseqTimeout ktime s.view.flows ∧
      t.up.map Up.erase = s.up.map Up.erase ++
        (releasedSegs groOfoTimeout groInseqTimeout ktime s.view.flows).map (fun x => x.up .devGroComplete) ∧
      t.view.free.map FreeQueue.q =
        emptiedQueues groOfoTimeout groInseqTimeout ktime s.view.flows ++ s.view.free.map FreeQueue.q ∧
      cells t.next t.nskb t.groList = heads t.view.flows ∧ t.groCount.toNat = t.view.flows.length := by
  obtain ⟨l, hl⟩ := Between.run h
  have hagree := step_spec s l (.flush true groOfoTimeout groInseqTimeout ktime) hl.rep
  have hdue := flushLists_due { l with clock := { l.clock with ktime := ktime } } groOfoTimeout groInseqTimeout
  cases hstep : step s (.flush true groOfoTimeout groInseqTimeout ktime) with
  | error e =>
    rw [hstep] at hagree
    exact hagree.elim
  | ok t =>
    rw [hstep] at hagree
    have hrep : Rep t (flushLists { l with clock := { l.clock with ktime := ktime } } true groOfoTimeout groInseqTimeout) :=
      hagree
    revert hrep hdue
    generalize flushLists { l with clock := { l.clock with ktime := ktime } } true groOfoTimeout groInseqTimeout = l'
    intro hdue hrep
    have hbound : l'.flows.length ≤ 8 := hrep.bound
    refine ⟨t, rfl, ?_, ?_, ?_, ?_, ?_⟩
    · rw [hrep.view_eq, hl.rep.view_eq, Queues.erase, List.map_map]
      exact hdue.flows
    · rw [hl.rep.view_eq, hrep.links.up, hl.rep.links.up]
      exact hdue.up
    · rw [hrep.view_eq, hl.rep.view_eq]
      exact hdue.free
    · rw [hrep.view_eq, cells_eq hrep.links.chain hrep.links.heads_length_le]
      exact heads_erase.symm
    · rw [hrep.view_eq, hrep.count, BitVec.toNat_ofNat, Queues.erase, List.length_map]
      omega

/-- A segment in sequence, a segment behind a hole and a packet of another flow: with a time-out of 5 for data in sequence
only, the first and the third are due. -/
theorem napiGroFlush_due_two :
    ∃ s t, run default [.receive (.plain 0 1 7 100 10 0) fun _ => 0, .receive (.plain 1 1 7 150 10 0) fun _ => 0,
        .receive (.plain 2 1 8 100 10 0) fun _ => 0] = .ok s ∧
      step s (.flush true 10 5 fun _ => 6) = .ok t ∧
      t.view.flows.map (fun f => (f.q, f.segs)) = keptFlows 10 5 (fun _ => 6) s.view.flows := by
  have hok : (run default [.receive (.plain 0 1 7 100 10 0) fun _ => 0, .receive (.plain 1 1 7 150 10 0) fun _ => 0,
      .receive (.plain 2 1 8 100 10 0) fun _ => 0]).toBool = true := by decide +kernel
  cases hrun : run default [.receive (.plain 0 1 7 100 10 0) fun _ => 0, .receive (.plain 1 1 7 150 10 0) fun _ => 0,
      .receive (.plain 2 1 8 100 10 0) fun _ => 0] with
  | error e =>
    rw [hrun] at hok
    cases hok
  | ok s =>
    obtain ⟨t, ht, hflows, -⟩ := napiGroFlush_due hrun 10 5 fun _ => 6
    exact ⟨s, t, rfl, ht, hflows⟩

end PacketReordering.Linux41
