import PacketReordering.Linux318.Arrivals

/-!
# `linux-3.18.5`: a packet is touched after it was given away

A packet that is shorter than the segments of its flow makes the flow go up.  When the walk has linked the packet into the
queue by then, it goes up too, and the step `pull` of `dev_gro_receive` touches it.

* `linked` — the walk links the packet into the queue;
* `keepsOff` — no packet is linked and given away in one call;
* `run_stray` — this is the exact condition;
* `not_untouched_secondShort` — the code does not meet it.
-/

namespace PacketReordering.Linux318

open Lib Gro

/-- Why `skb_gro_merge(p, skb)` fails. -/
def refusal (p skb : Skb) : Option MergeError :=
  match skbGroMerge p skb with
  | .failed err => some err
  | _ => none

/-- The walk along these segments of a queue links the packet `b` into it, by itself or with the payload of the segment
behind it. -/
def linked (b : Skb) : List Segment → U32 → Bool
  | [], _ => false
  | p2 :: rest, inSeq =>
    let inSeqNext := if inSeq = p2.body.seq then p2.body.seqEnd else inSeq
    if before b.seqEnd p2.body.seq then true
    else if b.seqEnd = p2.body.seq then
      match refusal b p2.body with
      | none => true
      | some err => decide (err = .tooBig) && decide (inSeq ≠ b.seq)
    else if b.seq = p2.body.seqEnd then
      decide (refusal p2.body b = some .tooBig) && (rest.isEmpty || linked b rest inSeqNext)
    else after b.seq p2.body.seqEnd && (rest.isEmpty || linked b rest inSeqNext)

/-- The packet is not of a held flow, or is not to join it, or is as long as the segments of the flow, or is not linked. -/
def linkedOnlyFull (env : Env) (l : Lists) (pkt : Packet) : Bool :=
  match pkt.parse env with
  | .tcp i b _ =>
    match splitFlow (sameFlowAs env b) l.flows with
    | none => true
    | some (_, f, _) =>
      match f.segs with
      | [] => true
      | p :: segs =>
        notHeld env i b p.body || before b.seq f.dat.seqNext || decide (tcpSkbMss p.body ≤ b.len) ||
          !linked (stampWalk l.clock (sized b p.body)) (p :: segs) f.dat.seqNext
  | _ => true

/-- No packet that a call links into a queue is shorter than the first segment of its flow. -/
def keepsOff (env : Env) (s : Mem) (c : Call) : Bool :=
  match c with
  | .receive pkt clock => linkedOnlyFull env { s.view with clock := clock } pkt
  | _ => true

section

variable {env : Env} {pkt : Packet} {l l' : Lists} {n : Option SkbId} {k : SkbId} {i b c : Skb} {inSeq : U32} {tr : Track}
  {w : Walked} {segs rest pre : List Segment} {f : Flow Stamp OfoExt} {A B : List (Flow Stamp OfoExt)} {p : Segment}
  {whole : Bool} {clock : Clock}

/-! ### The walk -/

theorem Bridged.fate_eq [GroComplete Stamp] {p2 : Segment} {e seq2 : U32}
    (hw : Bridged n e tr pre p2 rest inSeq seq2 w) : w.fate = .merged := by
  cases hw <;> rfl

theorem refusal_failed {q b : Skb} {err : MergeError} (h : skbGroMerge q b = .failed err) : refusal q b = some err := by
  rw [refusal, h]

theorem refusal_merged {q b q' b' : Skb} (h : skbGroMerge q b = .merged q' b') : refusal q b = none := by
  rw [refusal, h]

theorem linked_front {p2 : Segment} (hseq : b.seqEnd = p2.body.seq) :
    linked b (p2 :: rest) inSeq =
      match refusal b p2.body with
      | none => true
      | some err => decide (err = .tooBig) && decide (inSeq ≠ b.seq) := by
  have hbefore : before b.seqEnd p2.body.seq = false := by rw [hseq, before_self]
  simp only [linked, hbefore, if_pos hseq]
  rfl

theorem linked_behind {p2 : Segment} (hnot : before b.seqEnd p2.body.seq = false ∧ b.seqEnd ≠ p2.body.seq) :
    linked b (p2 :: rest) inSeq =
      ((if b.seq = p2.body.seqEnd then decide (refusal p2.body b = some .tooBig) else after b.seq p2.body.seqEnd) &&
        (rest.isEmpty || linked b rest (if inSeq = p2.body.seq then p2.body.seqEnd else inSeq))) := by
  rw [linked, if_neg (by simp [hnot.1]), if_neg hnot.2]
  split <;> rfl

theorem Refused.not_linked {p2 : Segment} (h : Refused b p2 inSeq) : linked b (p2 :: rest) inSeq = false := by
  rcases h with ⟨hseq, err, hmerge, hin⟩ | ⟨hnot, hend, err, hmerge, herr⟩
  · rw [linked_front hseq, refusal_failed hmerge]
    by_cases herr : err = .tooBig
    · simp [hin herr]
    · simp [herr]
  · rw [linked_behind hnot, if_pos hend, refusal_failed hmerge]
    simp [herr]

theorem Beyond.linked {p2 : Segment} (hnot : before b.seqEnd p2.body.seq = false ∧ b.seqEnd ≠ p2.body.seq)
    (h : Beyond b p2 inSeq) : Linux318.linked b (p2 :: rest) inSeq =
      (rest.isEmpty || Linux318.linked b rest (if inSeq = p2.body.seq then p2.body.seqEnd else inSeq)) := by
  rw [linked_behind hnot]
  rcases h with ⟨hend, hin, hmerge⟩ | ⟨hend, hafter⟩
  · rw [if_pos hend, refusal_failed hmerge]
    simp
  · rw [if_neg hend, hafter, Bool.true_and]

theorem leave_linked [GroComplete Stamp] {p2 : Segment} (h : Turn n k b p2 rest pre inSeq tr (.inl w)) :
    linked b (p2 :: rest) inSeq = decide (w.fate = .held) := by
  cases h with
  | insert hseq =>
    rcases hseq with hbefore | ⟨hseq, hin, hmerge⟩
    · simp [linked, hbefore]
    · rw [linked_front hseq, refusal_failed hmerge]
      simp [hin]
  | mergeFront hseq hmerge =>
    rw [linked_front hseq, refusal_merged hmerge]
    simp
  | refuseLast hrest hwhy => simpa using hwhy.not_linked
  | refuse hrest hwhy => simpa using hwhy.not_linked
  | append hrest hnot hseq =>
    rw [hseq.linked hnot, hrest]
    simp
  | appendRelease hrest hnot hseq hin hmerge =>
    rw [linked_behind hnot, if_pos hseq, refusal_failed hmerge, hrest]
    simp
  | merge hnot hseq hmerge hw =>
    rw [linked_behind hnot, if_pos hseq, refusal_merged hmerge, hw.fate_eq]
    simp
  | overlap hnot hseq hafter =>
    rw [linked_behind hnot, if_neg hseq, hafter]
    simp

theorem next_linked [GroComplete Stamp] {p2 : Segment} {pre' : List Segment} {tr' : Track}
    (h : Turn n k b p2 rest pre inSeq tr (.inr (pre', tr'))) :
    linked b (p2 :: rest) inSeq = linked b rest (if inSeq = p2.body.seq then p2.body.seqEnd else inSeq) := by
  cases h with
  | pass hrest hnot hseq =>
    rw [hseq.linked hnot]
    simp [hrest]
  | passRelease hrest hnot hseq hin hmerge =>
    rw [linked_behind hnot, if_pos hseq, refusal_failed hmerge]
    simp [hrest]

/-- **The walk links the packet exactly if `linked` says so.** -/
theorem walkSegs_linked [GroComplete Stamp] (hne : segs ≠ []) (h : walkSegs n k b segs [] inSeq tr = .ok w) :
    linked b segs inSeq = decide (w.fate = .held) := by
  have hbody : ∀ (pre : List Segment) (p2 : Segment) (rest : List Segment) (inSeq : U32),
      linked b (behind n pre p2 :: rest) inSeq = linked b (p2 :: rest) inSeq := by
    intro pre p2 rest inSeq
    unfold behind
    split <;> rfl
  refine walkSegs_induct (I := fun post _ inSeq' _ => linked b post inSeq' = linked b segs inSeq)
    (P := fun w => linked b segs inSeq = decide (w.fate = .held)) ?_ ?_ hne rfl h
  · intro p2 rest pre inSeq' tr' w hI hturn
    rw [← hI, ← hbody pre]
    exact leave_linked hturn
  · intro p2 rest pre inSeq' tr' pre' tr'' hI hturn
    have hnext := next_linked hturn
    rw [behind_body, hbody] at hnext
    rw [← hI, hnext]

/-! ### Calls -/

theorem Walked.exit_eq [GroComplete Stamp] (h : Turn n k b p rest pre inSeq tr (.inl w)) (hfate : w.fate = .held) :
    w.exit = .final := by
  cases h with
  | merge hnot hseq hmerge hw =>
    rw [hw.fate_eq] at hfate
    cases hfate
  | insert hseq => rfl
  | mergeFront hseq hmerge => rfl
  | append hrest hnot hseq => rfl
  | appendRelease hrest hnot hseq hin hmerge => rfl
  | refuseLast hrest hwhy => cases hfate
  | refuse hrest hwhy => cases hfate
  | overlap hnot hseq hafter => cases hfate

theorem walkSegs_held_exit [GroComplete Stamp] (hne : segs ≠ []) (h : walkSegs n k b segs [] inSeq tr = .ok w) :
    w.fate = .held → w.exit = .final :=
  walkSegs_induct (I := fun _ _ _ _ => True) (P := fun w => w.fate = .held → w.exit = .final)
    (fun _ _ _ _ _ _ _ hturn => Walked.exit_eq hturn) (fun _ _ _ _ _ _ _ _ _ => trivial) hne trivial h

theorem endLists_stray [GroComplete Stamp] {q : OfoId} :
    (endLists l k b A B q w whole).stray = l.stray ++ if whole = true ∧ w.fate = .held then [k, k] else [] := by
  unfold endLists dropFlow
  cases whole <;> cases w.fate <;> simp

/-- A packet that joins no held flow is not linked to anything. -/
theorem linkedOnlyFull_new {flush : Bool} (hparse : pkt.parse env = .tcp i b flush)
    (hsplit : splitFlow (sameFlowAs env b) l.flows = none) : linkedOnlyFull env l pkt = true := by
  unfold linkedOnlyFull
  rw [hparse]
  simp only [hsplit]

theorem Found.linkedOnlyFull_eq (hfound : Found env l pkt i b A f B p) :
    linkedOnlyFull env l pkt =
      (notHeld env i b p.body || before b.seq f.dat.seqNext || decide (tcpSkbMss p.body ≤ b.len) ||
        !linked (stampWalk l.clock (sized b p.body)) f.segs f.dat.seqNext) := by
  obtain ⟨flush, hparse⟩ := hfound.parse
  obtain ⟨segs, hsegs⟩ := List.head?_eq_some_iff.1 hfound.head
  unfold linkedOnlyFull
  rw [hparse]
  simp only [hfound.split, hsegs]

theorem Arrival.stray [GroComplete Stamp] (h : Arrival env l pkt l') :
    l'.stray = [] ↔ l.stray = [] ∧ linkedOnlyFull env l pkt = true := by
  cases h with
  | other hparse =>
    have hfull : linkedOnlyFull env l pkt = true := by
      unfold linkedOnlyFull
      rw [hparse]
    simp [hfull]
  | unheld hwhy hqueue =>
    have hfull : linkedOnlyFull env l pkt = true := by
      cases hwhy with
      | badHeader hparse =>
        unfold linkedOnlyFull
        rw [hparse]
      | tcp hparse hsplit hwhy => exact linkedOnlyFull_new hparse hsplit
    simp [hfull]
  | late hold hlate =>
    obtain ⟨i, flush, hparse, -⟩ := hold.parse
    simp [linkedOnlyFull_new hparse hold.split]
  | fresh hold hlate hfull =>
    obtain ⟨i, flush, hparse, -⟩ := hold.parse
    simp [linkedOnlyFull_new hparse hold.split]
  | evict hold hlate hflows hfull =>
    obtain ⟨i, flush, hparse, -⟩ := hold.parse
    simp [linkedOnlyFull_new hparse hold.split, dropFlow]
  | @found i b c A B f p w whole clock hfound hway =>
    rw [endLists_stray, hfound.linkedOnlyFull_eq]
    cases hway with
    | flush hwhy => simp [hwhy, stayed]
    | late hhold hlate => simp [hlate]
    | walked hhold hlate hwalk =>
      have hlinked := walkSegs_linked hfound.ne hwalk
      have hexit := walkSegs_held_exit hfound.ne hwalk
      rw [hlinked, hhold, hlate]
      by_cases hfate : w.fate = .held
      · have hflushes : w.flushes (stampWalk l.clock (sized b p.body)) (tcpSkbMss p.body) = decide (b.len < tcpSkbMss p.body) := by
          unfold Walked.flushes
          rw [hexit hfate]
          rfl
        rw [hflushes]
        simp [hfate, BitVec.not_lt]
      · simp [hfate]

theorem flushLists_stray [GroComplete Stamp] {flushOld : Bool} : (flushLists l flushOld).stray = l.stray := by
  have hflow : ∀ f l, (flushFlow f l).stray = l.stray := by
    intro f l
    unfold flushFlow
    simp only
    split <;> rfl
  have hflows : ∀ fs l, (flushFlows flushOld fs l).stray = l.stray := by
    intro fs
    induction fs with
    | nil => exact fun l => rfl
    | cons f fs ih =>
      intro l
      rw [flushFlows]
      split
      · simp only
        split
        · rfl
        · rw [ih, hflow]
      · rw [ih, hflow]
  exact hflows _ _

theorem stepLists_stray {c : Call} (hne : ∀ f ∈ l.flows, f.segs ≠ []) (hstep : stepLists env l c = .ok l') :
    l'.stray = [] ↔ l.stray = [] ∧ ∀ pkt clock, c = .receive pkt clock → linkedOnlyFull env { l with clock := clock } pkt = true := by
  let _ := env.groComplete
  cases c with
  | receive pkt clock =>
    have harrival := @receiveLists_ok env { l with clock := clock } _ _ _ hne hstep
    rw [harrival.stray]
    simp
  | flush flushOld clock =>
    cases hstep
    rw [flushLists_stray]
    simp
  | clean clock =>
    cases hstep
    simp [cleanLists]

/-! ### The condition does not look at `skb->next` -/

theorem linked_erase : linked b (segs.map Seg.erase) inSeq = linked b segs inSeq := by
  induction segs generalizing inSeq with
  | nil => rfl
  | cons x segs ih =>
    rw [List.map_cons, linked, linked]
    simp only [erase_body, ih, List.isEmpty_map]
    rfl

theorem sameFlowAs_erase : sameFlowAs env b f.erase = sameFlowAs env b f := by
  obtain ⟨q, d, segs⟩ := f
  cases segs <;> rfl

theorem linkedOnlyFull_erase : linkedOnlyFull env l.erase pkt = linkedOnlyFull env l pkt := by
  unfold linkedOnlyFull
  cases pkt.parse env with
  | other b => rfl
  | badHeader b => rfl
  | tcp i b flush =>
    simp only [Queues.erase, splitFlow_erase fun _ => sameFlowAs_erase]
    cases splitFlow (sameFlowAs env b) l.flows with
    | none => rfl
    | some r =>
      obtain ⟨A, f, B⟩ := r
      obtain ⟨q, d, segs⟩ := f
      cases segs with
      | nil => rfl
      | cons p segs =>
        have hlinked := @linked_erase (stampWalk l.clock (sized b p.body)) d.seqNext (p :: segs)
        rw [List.map_cons] at hlinked
        simp only [Option.map_some, Flow.erase, List.map_cons, erase_body, hlinked]
        rfl

end

/-- **No buffer is touched after it was given away exactly if no call links a packet that is shorter than the first segment
of its flow.** -/
theorem run_stray {env : Env} {mem s : Mem} {cs : List Call} (hrun : run env mem cs = .ok s) :
    s.stray = [] ↔ Steps (step env) (fun s c => keepsOff env s c = true) (netifNapiAdd mem) cs := by
  refine Steps.iff_of_step (R := fun s => ∃ l, Rep s l) (I := fun s => s.stray = []) ?_ ⟨_, netifNapiAdd_rep mem⟩ ?_ hrun
  · rintro s c s' - ⟨l, hrep⟩ hstep
    have hagree := step_spec env s l c hrep
    rw [hstep] at hagree
    obtain ⟨l', hl', hrep'⟩ := hagree.exists_ok
    refine ⟨⟨l', hrep'⟩, ?_⟩
    show s'.stray = [] ↔ s.stray = [] ∧ keepsOff env s c = true
    rw [hrep.links.stray, hrep'.links.stray, stepLists_stray (fun f hf => (hrep.links.flows f hf).ne) hl']
    cases c with
    | receive pkt clock =>
      have herase : keepsOff env s (.receive pkt clock) = linkedOnlyFull env { l with clock := clock } pkt := by
        unfold keepsOff
        rw [hrep.view_eq]
        exact @linkedOnlyFull_erase env pkt { l with clock := clock }
      rw [herase]
      simp
    | flush flushOld clock => simp [keepsOff]
    | clean clock => simp [keepsOff]
  · exact (netifNapiAdd_rep mem).links.stray

/-- Two segments with a hole between them, the second one of `len` bytes. -/
def secondOf (len : ℕ) : List Call :=
  [.receive (.plain 0 1 7 1000 100 0) ⟨fun _ => 0, fun _ => 1⟩, .receive (.plain 1 1 7 1200 len 0) ⟨fun _ => 10, fun _ => 1⟩]

theorem run_stray_secondFull :
    ∃ s, run .inet default (secondOf 100) = .ok s ∧ s.stray = [] ∧
      Steps (step .inet) (fun s c => keepsOff .inet s c = true) (netifNapiAdd default) (secondOf 100) := by
  have hsteps : Steps (step .inet) (fun s c => keepsOff .inet s c = true) (netifNapiAdd default) (secondOf 100) := by
    decide +kernel
  have hend : (run .inet default (secondOf 100)).map (fun _ => ()) = .ok () := by decide +kernel
  cases hrun : run .inet default (secondOf 100) with
  | error e =>
    rw [hrun] at hend
    cases hend
  | ok s => exact ⟨s, rfl, (run_stray hrun).2 hsteps, hsteps⟩

/-- The second segment is linked behind the first one, goes up with it, and is touched after that. -/
theorem not_untouched_secondShort :
    ¬ ∀ (env : Env) (mem : Mem) (cs : List Call) (s : Mem), run env mem cs = .ok s → s.stray = [] := by
  intro h
  have hend : (run .inet default (secondOf 50)).map (fun s => (s.up.map Up.id, s.stray)) = .ok ([0, 1], [1, 1]) := by
    decide +kernel
  cases hrun : run .inet default (secondOf 50) with
  | error e =>
    rw [hrun] at hend
    cases hend
  | ok s =>
    rw [hrun] at hend
    have hstray : s.stray = [1, 1] := by
      simp only [Except.map, Except.ok.injEq, Prod.mk.injEq] at hend
      exact hend.2
    rw [h .inet default (secondOf 50) s hrun] at hstray
    cases hstray

end PacketReordering.Linux318
