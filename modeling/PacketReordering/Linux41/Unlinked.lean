import PacketReordering.Linux41.Due
import PacketReordering.Linux41.Gso

/-!
# `linux-4.1`: segments that go up linked

`skb->next` is the link of `gro_list` as long as the buffer is the first segment of its queue, and nobody clears it when
the buffer goes up.  It is `NULL` for the oldest flow, and for segments that have never been the first of a queue.

* `linkedView` — the lists read off the memory, with the values of `skb->next`;
* `walkLinked`, `evictLinked`, `flushLinked` — a release meets a segment with a link;
* `Unlinked` — no segment went up with a link;
* `run_unlinked` — the exact condition;
* `not_unlinked_newerFlow` — the code does not meet it.
-/

namespace PacketReordering.Linux41

open Lib Gro

/-! ### The condition -/

/-- The flow with these links. -/
def withLinks (next : SkbId → Option SkbId) (f : Flow GsoEnd OfoExt) : Flow GsoEnd OfoExt :=
  { f with segs := f.segs.map fun x => { x with next := next x.id } }

/-- The lists read off the memory, each segment with its `skb->next`. -/
def linkedView (s : Mem) : Lists := { s.view with flows := s.view.flows.map (withLinks s.next) }

/-- One of the segments has a link. -/
def anyLinked (segs : List Segment) : Bool := segs.any fun x => x.next.isSome

/-- The packet `b` is in the segment `p2` now, and the walk releases the queue up to it. -/
def releasesBehind (b p2 : Skb) : List Segment → Bool
  | [] => false
  | p3 :: rest =>
    p2.tcp.psh || decide (b.seqEnd = p3.body.seq) &&
      match skbGroMerge p2 p3.body with
      | .overrun => false
      | .failed err => decide (err ≠ .inval)
      | .merged b3 _ => b3.tcp.psh && !rest.isEmpty

/-- The turn of the walk at the segment `p2` of the queue `pre ++ p2 :: rest` releases segments; these are the first ones
of `pre ++ [p2]`. -/
def turnReleases (b : Skb) (p2 : Segment) (rest pre : List Segment) (inSeq : U32) : List Segment :=
  if before b.seqEnd p2.body.seq then if b.tcp.psh && b.seq == inSeq then pre else []
  else if b.seqEnd = p2.body.seq then
    match refusal b p2.body with
    | none => []
    | some err =>
      if err = .inval || inSeq ≠ b.seq then []
      else if err = .tooBig || p2.body.tcp.psh || p2.body.ext then if rest.isEmpty then [] else pre ++ [p2]
      else pre
  else if b.seq = p2.body.seqEnd && inSeq = p2.body.seq then
    match skbGroMerge p2.body b with
    | .overrun => []
    | .failed err => if err = .inval || rest.isEmpty && b.tcp.psh then [] else pre ++ [p2]
    | .merged b2 _ => if releasesBehind b b2 rest then pre ++ [p2] else []
  else []

/-- The walk goes on behind `p2`. -/
def goesOn (b : Skb) (p2 : Segment) (rest : List Segment) : Bool :=
  !before b.seqEnd p2.body.seq && decide (b.seqEnd ≠ p2.body.seq) && !rest.isEmpty &&
    if b.seq = p2.body.seqEnd then (refusal p2.body b).any fun err => decide (err ≠ .inval)
    else after b.seq p2.body.seqEnd

/-- The walk along the queue `pre ++ post` meets a release of a segment with a link; `pNext` is the link of `gro_list`
behind the flow. -/
def walkLinked (pNext : Option SkbId) (b : Skb) : (post pre : List Segment) → U32 → Bool
  | [], _, _ => false
  | p2 :: rest, pre, inSeq =>
    let p2 := behind pNext pre p2
    let released := turnReleases b p2 rest pre inSeq
    anyLinked released ||
      goesOn b p2 rest &&
        walkLinked pNext b rest (if released.isEmpty then pre ++ [p2] else [])
          (if inSeq = p2.body.seq then p2.body.seqEnd else inSeq)

/-- The packet `b` is to become a new flow, there are too many, and a segment of the oldest one has a link; the first
segment's is cleared. -/
def evictLinked (l : Lists) (b : Skb) : Bool :=
  match findFree (fitsHash b.tcpHash) resetOfo l.free with
  | none => false
  | some (x, _) =>
    !before b.seq (takenDat x.dat b 0).seqNext && decide (maxGroSkbs ≤ l.flows.length) &&
      l.flows.getLast?.any fun g => anyLinked g.segs.tail

/-- The packet makes `dev_gro_receive` release a segment with a link. -/
def arrivalLinked (l : Lists) (pkt : Packet) : Bool :=
  match pkt.parse with
  | .tcp b flush linear =>
    match splitFlow (sameFlowAs b) l.flows with
    | some (_, f, B) =>
      !(notHeld f b flush linear || isLate f.dat b) &&
        walkLinked (heads B).head? (walker b) f.segs [] (walkDat f.dat b).seqNext
    | none => !(flush || decide (b.groLen < 1) || hasFlag b.tcp.flagWord flushFlags || linear) && evictLinked l b
  | _ => false

section

variable (flushOld : Bool) (groOfoTimeout groInseqTimeout : U64) (ktime : ℕ → U64)

/-- The segments of the flow that `napi_gro_flush` releases at the time `t`. -/
def flushedSegs (t : U64) (f : Flow GsoEnd OfoExt) : List Segment :=
  if flushOld then due groOfoTimeout groInseqTimeout t f else f.segs

/-- A flow stays.  A flow with `n` older ones gets the reading `n` of the clock. -/
def anyStays : List (Flow GsoEnd OfoExt) → Bool
  | [] => false
  | f :: B =>
    flushOld && !(notDue groOfoTimeout groInseqTimeout (ktime B.length) f).isEmpty || anyStays B

/-- `napi_gro_flush` releases a segment with a link: the first one of a flow while an older flow stays, or a later one. -/
def flushLinked : List (Flow GsoEnd OfoExt) → Bool
  | [] => false
  | f :: B =>
    flushLinked B ||
      match flushedSegs flushOld groOfoTimeout groInseqTimeout (ktime B.length) f with
      | [] => false
      | _ :: segs => anyStays flushOld groOfoTimeout groInseqTimeout ktime B || anyLinked segs

end

/-- The call releases no segment with a link. -/
def releasesUnlinked (s : Mem) (c : Call) : Bool :=
  match c with
  | .receive pkt _ => !arrivalLinked (linkedView s) pkt
  | .flush flushOld groOfoTimeout groInseqTimeout ktime =>
    !flushLinked flushOld groOfoTimeout groInseqTimeout ktime (linkedView s).flows
  | .clean _ => true

/-- No segment went up with a link. -/
def Unlinked (us : List (Up GsoEnd)) : Prop := ∀ u ∈ us, u.via ≠ .normal → u.next = none

section

variable {l l' : Lists} {pkt : Packet} {n : Option SkbId} {k : SkbId} {b : Skb} {inSeq seq2 : U32} {tr tr' : Track}
  {w : Walked} {segs rest pre : List Segment} {p2 : Segment} {f : Flow GsoEnd OfoExt} {A B : List (Flow GsoEnd OfoExt)}
  {us vs : List (Up GsoEnd)}

/-! ### What goes up -/

theorem unlinked_append : Unlinked (us ++ vs) ↔ Unlinked us ∧ Unlinked vs := List.forall_mem_append

@[simp] theorem unlinked_nil : Unlinked [] := fun _ hu => absurd hu List.not_mem_nil

theorem unlinked_normal : Unlinked (us ++ [Parsed.up k b]) ↔ Unlinked us := by
  rw [unlinked_append]
  refine and_iff_left ?_
  rintro u hu hvia
  obtain rfl := List.mem_singleton.1 hu
  exact absurd rfl hvia

theorem unlinked_ups {f : Segment → Up GsoEnd} (hf : ∀ x, (f x).next = x.next ∧ (f x).via ≠ .normal) :
    Unlinked (segs.map f) ↔ anyLinked segs = false := by
  unfold Unlinked anyLinked
  rw [List.forall_mem_map, List.any_eq_false]
  refine forall₂_congr fun x _ => ?_
  rw [(hf x).1]
  simp [(hf x).2]

theorem unlinked_flushSegs {d : Dat} : Unlinked (flushSegs d segs).2 ↔ anyLinked segs = false := by
  induction segs generalizing d with
  | nil => simp [flushSegs, anyLinked]
  | cons x segs ih =>
    have hcons : Unlinked (x.up (.skbGroFlush d.seqNext) :: (flushSegs (d.setSeqNext x.body.seqEnd) segs).2) ↔
        x.next = none ∧ Unlinked (flushSegs (d.setSeqNext x.body.seqEnd) segs).2 := by
      unfold Unlinked
      rw [List.forall_mem_cons]
      simp [Seg.up]
    rw [flushSegs, hcons, ih]
    simp [anyLinked]

theorem unlinked_release : Unlinked (tr.release segs).up ↔ Unlinked tr.up ∧ anyLinked segs = false := by
  unfold Track.release
  split
  · rename_i hnil
    rw [hnil]
    exact ⟨fun h => ⟨h, rfl⟩, fun h => h.1⟩
  · exact unlinked_append.trans (and_congr_right fun _ => unlinked_flushSegs)

/-! ### The walk -/

/-- The segments `segs` were released, the last one perhaps with more payload. -/
def Released (tr tr' : Track) (segs : List Segment) : Prop :=
  tr' = tr.release segs ∨
    ∃ pre p2 b, segs = pre ++ [p2] ∧ b.seq = p2.body.seq ∧ tr' = tr.release (pre ++ [{ p2 with body := b }])

theorem Released.refl : Released tr tr [] := Or.inl rfl

theorem Released.self : Released tr (tr.release segs) segs := Or.inl rfl

/-- The last segment had less payload before. -/
theorem Released.grown {b2 : Skb} (h : Released tr tr' (pre ++ [{ p2 with body := b2 }])) (hseq : b2.seq = p2.body.seq) :
    Released tr tr' (pre ++ [p2]) := by
  rcases h with rfl | ⟨pre', q, b, hsegs, hb, rfl⟩
  · exact Or.inr ⟨pre, p2, b2, rfl, hseq, rfl⟩
  · obtain ⟨rfl, hq⟩ := List.append_inj' hsegs rfl
    cases hq
    exact Or.inr ⟨pre, p2, b, rfl, hb.trans hseq, rfl⟩

theorem Released.unlinked_iff (h : Released tr tr' segs) : Unlinked tr'.up ↔ Unlinked tr.up ∧ anyLinked segs = false := by
  rcases h with rfl | ⟨pre, p2, b, rfl, -, rfl⟩
  · exact unlinked_release
  · rw [unlinked_release]
    simp [anyLinked]

theorem mergedBehindSegs_released (h : mergedBehindSegs n b tr pre p2 rest inSeq seq2 = .ok w) :
    Released tr w.track (if inSeq = seq2 && releasesBehind b p2.body rest then pre ++ [p2] else []) := by
  unfold mergedBehindSegs at h
  cases rest with
  | nil =>
    simp only [if_true, ite_self] at h
    cases h
    simpa [releasesBehind] using Released.refl
  | cons p3 ps =>
    by_cases hin : inSeq = seq2
    · simp only [hin, decide_true, Bool.true_and, if_true] at h ⊢
      by_cases hpsh : p2.body.tcp.psh = true
      · rw [if_pos hpsh, if_neg (List.cons_ne_nil _ _)] at h
        cases h
        simpa [releasesBehind, hpsh] using Released.self
      · rw [if_neg hpsh] at h
        rw [Bool.not_eq_true] at hpsh
        by_cases hseq : b.seqEnd = p3.body.seq
        · rw [if_pos hseq] at h
          cases hmerge : skbGroMerge p2.body p3.body with
          | overrun =>
            rw [hmerge] at h
            cases h
          | failed err =>
            rw [hmerge] at h
            cases err <;> cases h <;> simp [releasesBehind, hpsh, hseq, hmerge, Released.refl, Released.self]
          | merged b3 s3 =>
            rw [hmerge] at h
            simp only at h
            by_cases hpsh3 : b3.tcp.psh = true
            · rw [if_pos hpsh3] at h
              cases ps with
              | nil =>
                cases h
                simpa [releasesBehind, hpsh, hseq, hmerge] using Released.refl
              | cons p4 ps =>
                cases h
                have hgrown : Released tr (tr.release (pre ++ [{ p2 with body := b3 }])) (pre ++ [p2]) :=
                  Or.inr ⟨pre, p2, b3, rfl, (skbGroMerge_control hmerge).2.2.1, rfl⟩
                simpa [releasesBehind, hpsh, hseq, hmerge, hpsh3] using hgrown
            · rw [if_neg hpsh3] at h
              cases h
              simpa [releasesBehind, hpsh, hseq, hmerge, hpsh3] using Released.refl
        · rw [if_neg hseq] at h
          cases h
          simpa [releasesBehind, hpsh, hseq] using Released.refl
    · simp only [hin, decide_false, Bool.false_and, Bool.false_eq_true, if_false] at h ⊢
      repeat' split at h
      all_goals first | cases h; exact Released.refl | cases h

/-- What a turn has come to: the segments `released` are gone, and the walk goes on or not. -/
structure TurnsTo (b : Skb) (p2 : Segment) (rest pre : List Segment) (tr : Track) (released : List Segment)
    (z : Walked ⊕ (List Segment × Track)) : Prop where
  left : ∀ w, z = .inl w → Released tr w.track released ∧ goesOn b p2 rest = false
  right : ∀ pre' tr', z = .inr (pre', tr') → tr' = tr.release released ∧ goesOn b p2 rest = true ∧
    pre' = if released.isEmpty then pre ++ [p2] else []

theorem TurnsTo.leave {released : List Segment} (h : Released tr w.track released) (hnot : goesOn b p2 rest = false) :
    TurnsTo b p2 rest pre tr released (.inl w) where
  left _ hw := by
    cases hw
    exact ⟨h, hnot⟩
  right _ _ hz := nomatch hz

theorem TurnsTo.next {released pre' : List Segment} (h : tr' = tr.release released) (hgoes : goesOn b p2 rest = true)
    (hpre : pre' = if released.isEmpty then pre ++ [p2] else []) :
    TurnsTo b p2 rest pre tr released (.inr (pre', tr')) where
  left _ hz := nomatch hz
  right _ _ hz := by
    cases hz
    exact ⟨h, hgoes, hpre⟩

theorem mergeInFrontSegs_released {new : Segment} (hseq : b.seqEnd = p2.body.seq)
    (h : mergeInFrontSegs n b tr pre new p2 rest inSeq = .ok w) :
    Released tr w.track (turnReleases b p2 rest pre inSeq) := by
  have hbefore : before b.seqEnd p2.body.seq = false := by rw [hseq, before_self]
  rw [turnReleases, if_neg (by simp [hbefore]), if_pos hseq]
  unfold mergeInFrontSegs at h
  split at h
  · cases h
  · rename_i hmerge
    cases h
    simpa [refusal_failed hmerge] using Released.refl
  · rename_i err hinval hmerge
    simp only [refusal_failed hmerge]
    split at h
    · rename_i hin
      cases h
      simpa [hin] using Released.refl
    · rename_i hin
      rw [ne_eq, not_not] at hin
      rw [if_neg (by simpa [hin] using hinval)]
      split at h
      · rename_i hwhy
        rw [if_pos hwhy]
        split at h
        · rename_i hrest
          cases h
          simpa [hrest] using Released.refl
        · rename_i hrest
          cases h
          simpa [hrest] using Released.self
      · rename_i hwhy
        rw [if_neg hwhy]
        cases h
        exact Released.self
  · rename_i b' s' hmerge
    cases h
    simpa [refusal_merged hmerge] using Released.refl

theorem turnSegs_turnsTo {z : Walked ⊕ (List Segment × Track)} (h : turnSegs n k b p2 rest pre inSeq tr = .ok z) :
    TurnsTo b p2 rest pre tr (turnReleases b p2 rest pre inSeq) z := by
  unfold turnSegs at h
  simp only at h
  by_cases hbefore : before b.seqEnd p2.body.seq = true
  · rw [if_pos hbefore] at h
    have hstop : goesOn b p2 rest = false := by simp [goesOn, hbefore]
    rw [turnReleases, if_pos hbefore]
    split at h
    · rename_i hpsh
      cases h
      rw [if_pos hpsh]
      exact TurnsTo.leave Released.self hstop
    · rename_i hpsh
      cases h
      rw [if_neg hpsh]
      exact TurnsTo.leave Released.refl hstop
  · rw [if_neg hbefore] at h
    by_cases hseq : b.seqEnd = p2.body.seq
    · rw [if_pos hseq] at h
      have hstop : goesOn b p2 rest = false := by simp [goesOn, hseq]
      cases hw : mergeInFrontSegs n b tr pre (behind n pre ⟨k, none, b⟩) p2 rest inSeq with
      | error e =>
        rw [hw] at h
        cases h
      | ok w =>
        rw [hw] at h
        cases h
        exact TurnsTo.leave (mergeInFrontSegs_released hseq hw) hstop
    · rw [if_neg hseq] at h
      rw [turnReleases, if_neg hbefore, if_neg hseq]
      by_cases hend : b.seq = p2.body.seqEnd
      · rw [if_pos hend] at h
        split at h
        · cases h
        · rename_i hmerge
          cases h
          refine TurnsTo.leave ?_ (by simp [goesOn, hend, refusal_failed hmerge])
          simpa [hmerge] using Released.refl
        · rename_i err hinval hmerge
          have hinval : err ≠ .inval := hinval
          split at h
          · rename_i hrest
            have hstop : goesOn b p2 rest = false := by simp [goesOn, hrest]
            split at h
            · rename_i hwhy
              obtain ⟨hin, hpsh⟩ : inSeq = p2.body.seq ∧ b.tcp.psh = true := by simpa using hwhy
              cases h
              refine TurnsTo.leave ?_ hstop
              simpa [hmerge, hrest, hpsh] using Released.refl
            · rename_i hpsh
              split at h
              · rename_i hin
                have hpsh : b.tcp.psh = false := by simpa [hin] using hpsh
                cases h
                refine TurnsTo.leave ?_ hstop
                simpa [hmerge, hend, hin, hpsh, hinval] using Released.self
              · rename_i hin
                cases h
                refine TurnsTo.leave ?_ hstop
                simpa [hin] using Released.refl
          · rename_i hrest
            have hgoes : goesOn b p2 rest = true := by
              simp [goesOn, hbefore, hseq, hrest, hend, refusal_failed hmerge, hinval]
            split at h
            · rename_i hin
              cases h
              refine TurnsTo.next ?_ hgoes ?_
              · simp [hmerge, hend, hin, hrest, hinval]
              · simp [hmerge, hend, hin, hrest, hinval]
            · rename_i hin
              cases h
              refine TurnsTo.next ?_ hgoes ?_
              · simp [hin, Track.release]
              · simp [hin]
        · rename_i b2 s2 hmerge
          have hstop : goesOn b p2 rest = false := by simp [goesOn, hend, refusal_merged hmerge]
          cases hw : mergedBehindSegs n b tr pre { p2 with body := b2 } rest inSeq p2.body.seq with
          | error e =>
            rw [hw] at h
            cases h
          | ok w =>
            rw [hw] at h
            cases h
            have hreleased := mergedBehindSegs_released hw
            refine TurnsTo.leave ?_ hstop
            by_cases hin : inSeq = p2.body.seq
            · cases hbehind : releasesBehind b b2 rest with
              | true =>
                simp only [hin, hbehind, decide_true, Bool.true_and, if_true] at hreleased
                simpa [hmerge, hend, hin, hbehind] using hreleased.grown (skbGroMerge_control hmerge).2.2.1
              | false => simpa [hmerge, hend, hin, hbehind] using hreleased
            · simpa [hin] using hreleased
      · rw [if_neg hend] at h
        rw [if_neg (by simp [hend])]
        split at h
        · rename_i hafter
          split at h
          · rename_i hrest
            cases h
            exact TurnsTo.leave Released.refl (by simp [goesOn, hrest])
          · rename_i hrest
            cases h
            exact TurnsTo.next rfl (by simp [goesOn, hbefore, hseq, hrest, hend, hafter]) rfl
        · rename_i hafter
          cases h
          exact TurnsTo.leave Released.refl (by simp [goesOn, hend, hafter])

/-- **The walk releases no segment with a link exactly if `walkLinked` does not see it.** -/
theorem walkSegs_unlinked {post : List Segment} (h : walkSegs n k b post pre inSeq tr = .ok w) :
    Unlinked w.track.up ↔ Unlinked tr.up ∧ walkLinked n b post pre inSeq = false := by
  induction post generalizing pre inSeq tr with
  | nil =>
    cases h
    exact ⟨fun hup => ⟨hup, rfl⟩, fun hup => hup.1⟩
  | cons p2 rest ih =>
    rw [walkSegs] at h
    rw [walkLinked]
    generalize behind n pre p2 = p2 at h ⊢
    cases hz : turnSegs n k b p2 rest pre inSeq tr with
    | error e =>
      rw [hz] at h
      cases h
    | ok z =>
      rw [hz] at h
      have hturn := turnSegs_turnsTo hz
      obtain w' | ⟨pre', tr'⟩ := z
      · cases h
        obtain ⟨hreleased, hstop⟩ := hturn.left _ rfl
        rw [hreleased.unlinked_iff, hstop, Bool.false_and, Bool.or_false]
      · obtain ⟨rfl, hgoes, rfl⟩ := hturn.right _ _ rfl
        rw [ih h, unlinked_release, hgoes, Bool.true_and, Bool.or_eq_false_iff, and_assoc]

/-! ### Arrivals -/

theorem takenDat_seqNext {d : Dat} {t : U64} : (takenDat d b t).seqNext = (takenDat d b 0).seqNext := rfl

theorem anyLinked_setHeadNext : anyLinked (setHeadNext n segs) = (!segs.isEmpty && n.isSome || anyLinked segs.tail) := by
  cases segs <;> simp [anyLinked, setHeadNext]

theorem arrivalLinked_new {flush linear : Bool} (hparse : pkt.parse = .tcp b flush linear)
    (hsplit : splitFlow (sameFlowAs b) l.flows = none) :
    arrivalLinked l pkt =
      (!(flush || decide (b.groLen < 1) || hasFlag b.tcp.flagWord flushFlags || linear) && evictLinked l b) := by
  unfold arrivalLinked
  rw [hparse]
  simp only [hsplit]

theorem Holdable.arrivalLinked_eq {x : FreeQueue OfoExt} {free : List (FreeQueue OfoExt)} (hold : Holdable l pkt b x free) :
    arrivalLinked l pkt =
      (!before b.seq (takenDat x.dat b 0).seqNext && decide (maxGroSkbs ≤ l.flows.length) &&
        l.flows.getLast?.any fun g => anyLinked g.segs.tail) := by
  obtain ⟨flush, linear, hparse, hwhy⟩ := hold.parse
  rw [arrivalLinked_new hparse hold.split, hwhy, Bool.not_false, Bool.true_and, evictLinked, hold.queue]

theorem Found.arrivalLinked_eq {flush linear : Bool} (hfound : Found l pkt b flush linear A f B) :
    arrivalLinked l pkt =
      (!(notHeld f b flush linear || isLate f.dat b) &&
        walkLinked (heads B).head? (walker b) f.segs [] (walkDat f.dat b).seqNext) := by
  unfold arrivalLinked
  rw [hfound.parse]
  simp only [hfound.split]

theorem Unheld.arrivalLinked_eq (h : Unheld l pkt b) : arrivalLinked l pkt = false := by
  cases h with
  | badHeader hparse =>
    unfold arrivalLinked
    rw [hparse]
  | tcp hparse hsplit hwhy => rw [arrivalLinked_new hparse hsplit, hwhy, Bool.not_true, Bool.false_and]

/-- `dev_gro_complete` with `flush_old` unset releases everything. -/
theorem completeFlow_false (groOfoTimeout groInseqTimeout t : U64) (d : Dat) (segs : List Segment) :
    (completeFlow false groOfoTimeout groInseqTimeout t d segs).2 = (segs.map fun x => x.up .devGroComplete, []) := by
  cases segs with
  | nil => rfl
  | cons p segs =>
    have hstamp : ∀ r : Dat × List (Up GsoEnd) × List Segment,
        (if r.2.1.isEmpty then r else ({ r.1 with ext := r.1.ext.setFlushed t }, r.2)).2 = r.2 := by
      intro r
      split <;> rfl
    simp only [completeFlow, hstamp]
    exact completeSegs_true d (p :: segs)

theorem unlinked_complete : Unlinked (segs.map fun x => x.up .devGroComplete) ↔ anyLinked segs = false :=
  unlinked_ups fun _ => ⟨rfl, fun h => Via.noConfusion h⟩

theorem Arrival.unlinked (harrival : Arrival l pkt l') :
    Unlinked l'.up ↔ Unlinked l.up ∧ arrivalLinked l pkt = false := by
  cases harrival with
  | other hparse =>
    have hlinked : arrivalLinked l pkt = false := by
      unfold arrivalLinked
      rw [hparse]
    rw [unlinked_normal, and_iff_left hlinked]
  | unheld hwhy hqueue => rw [unlinked_normal, and_iff_left hwhy.arrivalLinked_eq]
  | late hold hlate =>
    rw [takenDat_seqNext] at hlate
    rw [unlinked_normal, hold.arrivalLinked_eq, hlate]
    simp
  | fresh hold hlate hfull =>
    rw [hold.arrivalLinked_eq, decide_eq_false (Nat.not_le.2 hfull)]
    simp
  | evict hold hlate hflows hfull =>
    rw [takenDat_seqNext] at hlate
    rw [hold.arrivalLinked_eq, hlate, decide_eq_true hfull, hflows, List.getLast?_concat, completeFlow_false,
      unlinked_append, unlinked_complete, anyLinked_setHeadNext]
    simp
  | drop hfound hwhy =>
    show Unlinked (l.up ++ [Parsed.up l.nskb (walker _)]) ↔ _
    rw [unlinked_normal, hfound.arrivalLinked_eq, hwhy]
    simp
  | @walked b flush linear A B f w hfound hwhy hwalk =>
    rw [hfound.arrivalLinked_eq, hwhy, Bool.not_false, Bool.true_and, ← walkSegs_unlinked hwalk]
    unfold walkedLists
    cases w.fate with
    | held => rfl
    | merged => rfl
    | normal => exact unlinked_normal

/-! ### `napi_gro_flush` -/

section

variable {flushOld : Bool} {groOfoTimeout groInseqTimeout : U64} {ktime : ℕ → U64}

theorem due_setHeadNext (t : U64) (q : OfoId) (d : Dat) :
    due groOfoTimeout groInseqTimeout t ⟨q, d, setHeadNext n segs⟩ =
      setHeadNext n (due groOfoTimeout groInseqTimeout t ⟨q, d, segs⟩) := by
  cases segs with
  | nil => rfl
  | cons p segs =>
    simp only [due, setHeadNext, inSequence]
    split
    · split <;> rfl
    · split <;> rfl

theorem length_setHeadNext : (setHeadNext n segs).length = segs.length := by
  cases segs <;> rfl

theorem completeFlow_flushed (t : U64) (f : Flow GsoEnd OfoExt) :
    (completeFlow flushOld groOfoTimeout groInseqTimeout t f.dat (setHeadNext n f.segs)).2.1 =
        ((setHeadNext n (flushedSegs flushOld groOfoTimeout groInseqTimeout t f)).map fun x => x.up .devGroComplete) ∧
      (completeFlow flushOld groOfoTimeout groInseqTimeout t f.dat (setHeadNext n f.segs)).2.2.isEmpty =
        !(flushOld && !(notDue groOfoTimeout groInseqTimeout t f).isEmpty) := by
  cases flushOld with
  | false =>
    rw [completeFlow_false]
    exact ⟨rfl, rfl⟩
  | true =>
    rw [completeFlow_due groOfoTimeout groInseqTimeout t f.q]
    constructor
    · rw [due_setHeadNext]
      rfl
    · rw [Bool.eq_iff_iff]
      simp [notDue, due_setHeadNext, length_setHeadNext]

/-- What `flushLists` makes of the flows `fs`. -/
structure FlushedUnlinked (flushOld : Bool) (groOfoTimeout groInseqTimeout : U64) (l l' : Lists)
    (fs : List (Flow GsoEnd OfoExt)) : Prop where
  up : Unlinked l'.up ↔ Unlinked l.up ∧ flushLinked flushOld groOfoTimeout groInseqTimeout l.clock.ktime fs = false
  heads : (heads l'.flows).head?.isSome = anyStays flushOld groOfoTimeout groInseqTimeout l.clock.ktime fs
  clock : ∀ n, l'.clock.ktime n = l.clock.ktime (n + fs.length)

theorem flushFlow_unlinked {fs : List (Flow GsoEnd OfoExt)} (f : Flow GsoEnd OfoExt)
    (h : FlushedUnlinked flushOld groOfoTimeout groInseqTimeout l l' fs) :
    FlushedUnlinked flushOld groOfoTimeout groInseqTimeout l
      (flushFlow flushOld groOfoTimeout groInseqTimeout f l') (f :: fs) := by
  have htime : l'.clock.ktime 0 = l.clock.ktime fs.length := by rw [h.clock, Nat.zero_add]
  have hclock : ∀ n, l'.clock.tickKtime.ktime n = l.clock.ktime (n + (f :: fs).length) := by
    intro n
    rw [List.length_cons, ← Nat.add_assoc, Nat.add_right_comm]
    exact h.clock (n + 1)
  obtain ⟨hrel, hrest⟩ := @completeFlow_flushed (Gro.heads l'.flows).head? flushOld groOfoTimeout groInseqTimeout
    (l'.clock.ktime 0) f
  have hup : Unlinked (l'.up ++ (completeFlow flushOld groOfoTimeout groInseqTimeout (l'.clock.ktime 0) f.dat
      (setHeadNext (Gro.heads l'.flows).head? f.segs)).2.1) ↔
      Unlinked l.up ∧ flushLinked flushOld groOfoTimeout groInseqTimeout l.clock.ktime (f :: fs) = false := by
    rw [unlinked_append, h.up, hrel, unlinked_complete, anyLinked_setHeadNext, h.heads, flushLinked, htime, and_assoc,
      ← Bool.or_eq_false_iff]
    cases flushedSegs flushOld groOfoTimeout groInseqTimeout (l.clock.ktime fs.length) f <;> simp [anyLinked]
  rw [htime] at hrest
  unfold flushFlow
  simp only [htime] at hup ⊢
  split
  · rename_i hempty
    refine ⟨hup, ?_, hclock⟩
    rw [hempty, Eq.comm, Bool.not_eq_true'] at hrest
    rw [anyStays, hrest, Bool.false_or]
    exact h.heads
  · rename_i hempty
    refine ⟨hup, ?_, hclock⟩
    rw [Bool.not_eq_true] at hempty
    rw [hempty, Eq.comm, Bool.not_eq_false'] at hrest
    rw [anyStays, hrest, Bool.true_or]
    generalize (completeFlow flushOld groOfoTimeout groInseqTimeout (l.clock.ktime fs.length) f.dat
      (setHeadNext (Gro.heads l'.flows).head? f.segs)).2.2 = segs at hempty
    cases segs with
    | nil => cases hempty
    | cons x segs =>
      rw [heads_mk]
      rfl

theorem flushLists_unlinked :
    FlushedUnlinked flushOld groOfoTimeout groInseqTimeout l (flushLists l flushOld groOfoTimeout groInseqTimeout)
      l.flows := by
  rw [flushLists]
  induction l.flows with
  | nil => exact ⟨by simp [flushLinked], rfl, fun n => rfl⟩
  | cons f fs ih => exact flushFlow_unlinked f ih

end

/-! ### The lists with their links -/

theorem withLinks_ids {next : SkbId → Option SkbId} : (withLinks next f).ids = f.ids := List.map_map

theorem heads_withLinks {next : SkbId → Option SkbId} {fs : List (Flow GsoEnd OfoExt)} :
    heads (fs.map (withLinks next)) = heads fs := by
  rw [heads, List.filterMap_map]
  exact List.filterMap_congr fun f _ => congrArg List.head? withLinks_ids

theorem allIds_withLinks {next : SkbId → Option SkbId} {fs : List (Flow GsoEnd OfoExt)} :
    allIds (fs.map (withLinks next)) = allIds fs := by
  rw [allIds, List.flatMap_map]
  exact congrArg List.flatten (List.map_congr_left fun f _ => withLinks_ids)

theorem totalLen_withLinks {next : SkbId → Option SkbId} : totalLen (withLinks next f).segs = totalLen f.segs := by
  unfold withLinks
  induction f.segs with
  | nil => rfl
  | cons x segs ih => simp [totalLen] at ih ⊢; rw [ih]

theorem withLinks_holds {s : Mem} (h : Holds s f) : Holds s (withLinks s.next f) where
  ne hnil := h.ne (List.map_eq_nil_iff.1 hnil)
  rep :=
    { dll := by
        have hdll := h.rep.dll
        rwa [← Flow.ids, ← @withLinks_ids f s.next] at hdll
      body := List.forall_mem_map.2 h.rep.body
      queue := List.forall_mem_map.2 h.rep.queue
      qlen := h.rep.qlen.trans totalLen_withLinks.symm
      skbNum := by rw [withLinks, List.length_map]; exact h.rep.skbNum
      dat := h.rep.dat }
  next := by rw [withLinks_ids]; exact h.next
  prev := by rw [withLinks_ids]; exact h.prev
  stale := by
    unfold withLinks
    rw [← List.map_tail]
    exact List.forall_mem_map.2 fun _ _ => rfl

/-- **The memory represents the lists with their links.** -/
theorem linkedView_rep {s : Mem} (h : Rep s l) : Rep s (linkedView s) := by
  have hflows : (linkedView s).flows = l.flows.map (withLinks s.next) := by
    rw [linkedView, h.view_eq, Queues.erase]
    simp only [List.map_map]
    refine List.map_congr_left fun f _ => ?_
    simp [withLinks, Flow.erase, Seg.erase]
  have hview : linkedView s = { l with flows := l.flows.map (withLinks s.next) } := by
    rw [← hflows, linkedView, h.view_eq]
    rfl
  have hlinks := h.links
  rw [hview]
  exact
    { links :=
        { chain := by rw [heads_withLinks]; exact hlinks.chain
          flows := List.forall_mem_map.2 fun f hf => withLinks_holds (hlinks.flows f hf)
          free := hlinks.free
          nodup := by rw [allIds_withLinks]; exact hlinks.nodup
          live := by rw [allIds_withLinks]; exact hlinks.live
          gone := hlinks.gone
          queues := by rw [List.map_map]; exact hlinks.queues
          nskb := hlinks.nskb
          clock := hlinks.clock
          up := hlinks.up
          stray := hlinks.stray }
      count := by rw [List.length_map]; exact h.count
      bound := by rw [List.length_map]; exact h.bound }

theorem stepLists_unlinked {c : Call} {s : Mem} (hstep : stepLists (linkedView s) c = .ok l') :
    Unlinked l'.up ↔ Unlinked s.up ∧ releasesUnlinked s c = true := by
  have hup : (linkedView s).up = s.up := rfl
  cases c with
  | receive pkt ktime =>
    have harrival := @receiveLists_ok
      { linkedView s with clock := { (linkedView s).clock with ktime := ktime } } _ _ hstep
    have hiff := harrival.unlinked
    rw [releasesUnlinked, Bool.not_eq_true']
    exact hiff
  | flush flushOld groOfoTimeout groInseqTimeout ktime =>
    cases hstep
    rw [releasesUnlinked, Bool.not_eq_true']
    exact flushLists_unlinked.up
  | clean ktime =>
    cases hstep
    simp [cleanLists, releasesUnlinked, hup]

end

/-- **No segment goes up with a link exactly if no release meets one**: while an older flow stays on `gro_list` no segment
of a flow goes up, and none that was the first of its queue before another took its place. -/
theorem run_unlinked {mem s : Mem} {cs : List Call} (hrun : run mem cs = .ok s) :
    (∀ u ∈ s.up, u.via ≠ .normal → u.next = none) ↔
      Steps step (fun s c => releasesUnlinked s c = true) (netifNapiAdd mem) cs := by
  refine Steps.iff_of_step (R := fun s => ∃ l, Rep s l) (I := fun s => Unlinked s.up) ?_ ⟨_, netifNapiAdd_rep mem⟩
    unlinked_nil hrun
  rintro s c s' - ⟨l, hrep⟩ hstep
  have hagree := step_spec s (linkedView s) c (linkedView_rep hrep)
  rw [hstep] at hagree
  obtain ⟨l', hl', hrep'⟩ := hagree.exists_ok
  refine ⟨⟨l', hrep'⟩, ?_⟩
  rw [hrep'.links.up]
  exact stepLists_unlinked hl'

/-- Two segments of a flow with a hole between them; a packet with PSH behind the first one releases it. -/
def releaseFirst : List Call :=
  [.receive (.plain 1 1 7 100 10 0) fun _ => 0, .receive (.plain 2 1 7 120 10 0) fun _ => 0,
    .receive (.plain 3 1 7 110 5 tcpFlagPsh) fun _ => 0]

theorem run_unlinked_oneFlow :
    ∃ s, run default releaseFirst = .ok s ∧ s.up.map (fun u => (u.id, u.next)) = [(0, none)] ∧
      ∀ u ∈ s.up, u.via ≠ .normal → u.next = none := by
  have hsteps : Steps step (fun s c => releasesUnlinked s c = true) (netifNapiAdd default) releaseFirst := by
    decide +kernel
  have hend : (run default releaseFirst).map (fun s => s.up.map fun u => (u.id, u.next)) = .ok [(0, none)] := by
    decide +kernel
  obtain ⟨s, hrun, hups⟩ := map_ok hend
  exact ⟨s, hrun, hups, (run_unlinked hrun).2 hsteps⟩

/-- With an older flow on `gro_list`, the released segment points at it. -/
theorem not_unlinked_newerFlow :
    ¬ ∀ (mem : Mem) (cs : List Call) (s : Mem), run mem cs = .ok s → ∀ u ∈ s.up, u.via ≠ .normal → u.next = none := by
  intro h
  have hend : (run default (.receive (.plain 0 1 8 100 10 0) (fun _ => 0) :: releaseFirst)).map
      (fun s => (s.up.map fun u => (u.id, u.next, decide (u.via = .normal)), s.groList, s.next 2)) =
      .ok ([(1, some 0, false)], some 2, some 0) := by decide +kernel
  obtain ⟨s, hrun, hvalue⟩ := map_ok hend
  simp only [Prod.mk.injEq] at hvalue
  obtain ⟨u, us, hu, hvalues, -⟩ := List.map_eq_cons_iff.1 hvalue.1
  simp only [Prod.mk.injEq, decide_eq_false_iff_not] at hvalues
  have hnone := h default _ s hrun u (by simp [hu]) hvalues.2.2
  rw [hvalues.2.1] at hnone
  cases hnone

end PacketReordering.Linux41
