import PacketReordering.Linux41.Spacing
import PacketReordering.Linux41.Unlinked

/-!
# `linux-4.1`: releases across a hole

`skb_gro_flush` releases the segments of a queue up to a given one, and does not look whether bytes are missing between
them or in front of them.  Its callers do, in most places.

* `acrossHole` — one of the segments starts after the end of what comes before it;
* `walkCrosses` — the walk meets a release of such segments;
* `InTurn` — every segment that `skb_gro_flush` released started at or before `seq_next`;
* `run_inTurn_iff` — exactly if no walk meets a release of such segments;
* `fillsGap` — flush point 31, which releases a segment behind the packet in hand;
* `run_inTurn` — no segment is released across a hole if no packet is in that place, and `seq_next` has not gone past
  held segments;
* `not_inTurn_missingPiece` — the code does not meet it.
-/

namespace PacketReordering.Linux41

open Lib Gro

/-! ### The condition -/

/-- With `seqNext` expected, one of these segments starts after what is expected when it is its turn. -/
def acrossHole : U32 → List Segment → Bool
  | _, [] => false
  | seqNext, x :: xs => before seqNext x.body.seq || acrossHole x.body.seqEnd xs

/-- What is expected after these segments. -/
def expectedAfter : U32 → List Segment → U32
  | seqNext, [] => seqNext
  | _, x :: xs => expectedAfter x.body.seqEnd xs

/-- The walk along the queue `pre ++ post` meets a release of segments with a hole in front of one of them; `seqNext` is
the number that the queue expects. -/
def walkCrosses (pNext : Option SkbId) (b : Skb) : (post pre : List Segment) → U32 → U32 → Bool
  | [], _, _, _ => false
  | p2 :: rest, pre, inSeq, seqNext =>
    let p2 := behind pNext pre p2
    let released := turnReleases b p2 rest pre inSeq
    acrossHole seqNext released ||
      goesOn b p2 rest &&
        walkCrosses pNext b rest (if released.isEmpty then pre ++ [p2] else [])
          (if inSeq = p2.body.seq then p2.body.seqEnd else inSeq) (expectedAfter seqNext released)

/-- The packet makes `tcp_gro_receive` release a segment behind a hole. -/
def arrivalCrosses (l : Lists) (pkt : Packet) : Bool :=
  match pkt.parse with
  | .tcp b flush linear =>
    match splitFlow (sameFlowAs b) l.flows with
    | some (_, f, B) =>
      !(notHeld f b flush linear || isLate f.dat b) &&
        walkCrosses (heads B).head? (walker b) f.segs [] (walkDat f.dat b).seqNext (walkDat f.dat b).seqNext
    | none => false
  | _ => false

/-- The call does not. -/
def releasesInTurn (s : Mem) (c : Call) : Bool :=
  match c with
  | .receive pkt _ => !arrivalCrosses (linkedView s) pkt
  | _ => true

/-- Every segment that `skb_gro_flush` released started at or before the number that its queue expected by then. -/
def InTurn (us : List (Up GsoEnd)) : Prop :=
  ∀ u ∈ us, ∀ seqNext, u.via = .skbGroFlush seqNext → before seqNext u.body.seq = false

section

variable {l l' : Lists} {pkt : Packet} {n : Option SkbId} {k : SkbId} {b : Skb} {inSeq seqNext : U32} {tr tr' : Track}
  {w : Walked} {segs rest pre : List Segment} {p2 x : Segment} {f : Flow GsoEnd OfoExt} {A B : List (Flow GsoEnd OfoExt)}
  {us vs : List (Up GsoEnd)}

/-! ### What goes up -/

theorem inTurn_append : InTurn (us ++ vs) ↔ InTurn us ∧ InTurn vs := List.forall_mem_append

@[simp] theorem inTurn_nil : InTurn [] := fun _ hu => absurd hu List.not_mem_nil

/-- What goes up in another way does not count. -/
theorem inTurn_append_other (h : ∀ u ∈ vs, ∀ seqNext, u.via ≠ .skbGroFlush seqNext) : InTurn (us ++ vs) ↔ InTurn us := by
  rw [inTurn_append]
  exact and_iff_left fun u hu seqNext hvia => absurd hvia (h u hu seqNext)

theorem inTurn_normal : InTurn (us ++ [Parsed.up k b]) ↔ InTurn us := by
  refine inTurn_append_other fun u hu seqNext hvia => ?_
  rw [List.mem_singleton.1 hu] at hvia
  cases hvia

theorem inTurn_complete : InTurn (us ++ segs.map fun x => x.up .devGroComplete) ↔ InTurn us := by
  refine inTurn_append_other fun u hu seqNext hvia => ?_
  obtain ⟨x, -, rfl⟩ := List.mem_map.1 hu
  cases hvia

theorem inTurn_flushSegs {d : Dat} :
    InTurn (flushSegs d segs).2 ↔ acrossHole d.seqNext segs = false := by
  induction segs generalizing d with
  | nil => simp [flushSegs, acrossHole]
  | cons x segs ih =>
    have hseq : x.body.complete.seq = x.body.seq := by
      unfold Body.complete
      split <;> rfl
    have hcons : InTurn (x.up (.skbGroFlush d.seqNext) :: (flushSegs (d.setSeqNext x.body.seqEnd) segs).2) ↔
        before d.seqNext x.body.seq = false ∧ InTurn (flushSegs (d.setSeqNext x.body.seqEnd) segs).2 := by
      unfold InTurn
      rw [List.forall_mem_cons]
      refine and_congr_left fun _ => ?_
      simp [Seg.up, hseq]
    rw [flushSegs, hcons, ih, acrossHole, Bool.or_eq_false_iff]
    rfl

theorem flushSegs_seqNext {d : Dat} : (flushSegs d segs).1.seqNext = expectedAfter d.seqNext segs := by
  induction segs generalizing d with
  | nil => rfl
  | cons x segs ih => exact ih

theorem inTurn_release : InTurn (tr.release segs).up ↔ InTurn tr.up ∧ acrossHole tr.dat.seqNext segs = false := by
  unfold Track.release
  split
  · rename_i hnil
    rw [hnil]
    exact ⟨fun h => ⟨h, rfl⟩, fun h => h.1⟩
  · exact inTurn_append.trans (and_congr_right fun _ => inTurn_flushSegs)

theorem release_seqNext : (tr.release segs).dat.seqNext = expectedAfter tr.dat.seqNext segs := by
  unfold Track.release
  split
  · rename_i hnil
    rw [hnil]
    rfl
  · exact flushSegs_seqNext

/-! ### The walk -/

theorem acrossHole_concat : acrossHole seqNext (pre ++ [x]) =
    (acrossHole seqNext pre || before (expectedAfter seqNext pre) x.body.seq) := by
  induction pre generalizing seqNext with
  | nil => simp [acrossHole, expectedAfter]
  | cons y pre ih => rw [List.cons_append, acrossHole, ih, acrossHole, expectedAfter, Bool.or_assoc]

/-- How much payload the last segment has does not matter. -/
theorem Released.inTurn_iff (h : Released tr tr' segs) :
    InTurn tr'.up ↔ InTurn tr.up ∧ acrossHole tr.dat.seqNext segs = false := by
  rcases h with rfl | ⟨pre, p2, b, rfl, hseq, rfl⟩
  · exact inTurn_release
  · rw [inTurn_release, acrossHole_concat, acrossHole_concat, hseq]

/-- **The walk releases no segment behind a hole exactly if `walkCrosses` does not see it.** -/
theorem walkSegs_inTurn {post : List Segment} (h : walkSegs n k b post pre inSeq tr = .ok w) :
    InTurn w.track.up ↔ InTurn tr.up ∧ walkCrosses n b post pre inSeq tr.dat.seqNext = false := by
  induction post generalizing pre inSeq tr with
  | nil =>
    cases h
    exact ⟨fun hup => ⟨hup, rfl⟩, fun hup => hup.1⟩
  | cons p2 rest ih =>
    rw [walkSegs] at h
    rw [walkCrosses]
    generalize behind n pre p2 = p2 at h ⊢
    cases hz : turnSegs n k b p2 rest pre inSeq tr with
    | error e =>
      rw [hz] at h
      cases h
    | ok z =>
      rw [hz] at h
      have hturn := turnSegs_turnsTo hz
      obtain w' | ⟨pre', tr'⟩ := z
      · cases h
        obtain ⟨hreleased, hstop⟩ := hturn.left _ rfl
        rw [hreleased.inTurn_iff, hstop, Bool.false_and, Bool.or_false]
      · obtain ⟨rfl, hgoes, rfl⟩ := hturn.right _ _ rfl
        rw [ih h, inTurn_release, release_seqNext, hgoes, Bool.true_and, Bool.or_eq_false_iff, and_assoc]

/-! ### Calls -/

theorem arrivalCrosses_new {flush linear : Bool} (hparse : pkt.parse = .tcp b flush linear)
    (hsplit : splitFlow (sameFlowAs b) l.flows = none) : arrivalCrosses l pkt = false := by
  unfold arrivalCrosses
  rw [hparse]
  simp only [hsplit]

theorem Found.arrivalCrosses_eq {flush linear : Bool} (hfound : Found l pkt b flush linear A f B) :
    arrivalCrosses l pkt =
      (!(notHeld f b flush linear || isLate f.dat b) &&
        walkCrosses (heads B).head? (walker b) f.segs [] (walkDat f.dat b).seqNext (walkDat f.dat b).seqNext) := by
  unfold arrivalCrosses
  rw [hfound.parse]
  simp only [hfound.split]

theorem Unheld.arrivalCrosses_eq (h : Unheld l pkt b) : arrivalCrosses l pkt = false := by
  cases h with
  | badHeader hparse =>
    unfold arrivalCrosses
    rw [hparse]
  | tcp hparse hsplit hwhy => exact arrivalCrosses_new hparse hsplit

theorem Holdable.arrivalCrosses_eq {x : FreeQueue OfoExt} {free : List (FreeQueue OfoExt)} (hold : Holdable l pkt b x free) :
    arrivalCrosses l pkt = false := by
  obtain ⟨flush, linear, hparse, -⟩ := hold.parse
  exact arrivalCrosses_new hparse hold.split

theorem Arrival.inTurn (harrival : Arrival l pkt l') : InTurn l'.up ↔ InTurn l.up ∧ arrivalCrosses l pkt = false := by
  cases harrival with
  | other hparse =>
    have hcrosses : arrivalCrosses l pkt = false := by
      unfold arrivalCrosses
      rw [hparse]
    rw [inTurn_normal, and_iff_left hcrosses]
  | unheld hwhy hqueue => rw [inTurn_normal, and_iff_left hwhy.arrivalCrosses_eq]
  | late hold hlate => rw [inTurn_normal, and_iff_left hold.arrivalCrosses_eq]
  | fresh hold hlate hfull => rw [and_iff_left hold.arrivalCrosses_eq]
  | evict hold hlate hflows hfull => rw [completeFlow_false, inTurn_complete, and_iff_left hold.arrivalCrosses_eq]
  | drop hfound hwhy =>
    show InTurn (l.up ++ [Parsed.up l.nskb (walker _)]) ↔ _
    rw [inTurn_normal, hfound.arrivalCrosses_eq, hwhy]
    simp
  | @walked b flush linear A B f w hfound hwhy hwalk =>
    rw [hfound.arrivalCrosses_eq, hwhy, Bool.not_false, Bool.true_and, ← walkSegs_inTurn hwalk]
    unfold walkedLists
    cases w.fate with
    | held => rfl
    | merged => rfl
    | normal => exact inTurn_normal

theorem flushLists_inTurn {flushOld : Bool} {groOfoTimeout groInseqTimeout : U64} :
    InTurn (flushLists l flushOld groOfoTimeout groInseqTimeout).up ↔ InTurn l.up := by
  have hfold : ∀ (fs : List (Flow GsoEnd OfoExt)) (l : Lists),
      InTurn (fs.foldr (flushFlow flushOld groOfoTimeout groInseqTimeout) l).up ↔ InTurn l.up := by
    intro fs l
    induction fs with
    | nil => rfl
    | cons f fs ih =>
      rw [List.foldr_cons, ← ih]
      unfold flushFlow
      simp only
      rw [(completeFlow_flushed _ f).1]
      split <;> exact inTurn_complete
  exact hfold _ _

theorem stepLists_inTurn {c : Call} (hstep : stepLists l c = .ok l') :
    InTurn l'.up ↔ InTurn l.up ∧ ∀ pkt ktime, c = .receive pkt ktime → arrivalCrosses l pkt = false := by
  cases c with
  | receive pkt ktime =>
    have hiff := (@receiveLists_ok { l with clock := { l.clock with ktime := ktime } } _ _ hstep).inTurn
    refine hiff.trans (and_congr_right fun _ => ⟨fun h pkt' ktime' hc => ?_, fun h => h pkt ktime rfl⟩)
    cases hc
    exact h
  | flush flushOld groOfoTimeout groInseqTimeout ktime =>
    cases hstep
    exact flushLists_inTurn.trans (and_iff_left fun pkt ktime hc => (nomatch hc)).symm
  | clean ktime =>
    cases hstep
    exact (and_iff_left fun pkt ktime hc => (nomatch hc)).symm

theorem releasesInTurn_iff {s : Mem} {c : Call} : releasesInTurn s c = true ↔
    ∀ pkt ktime, c = .receive pkt ktime → arrivalCrosses (linkedView s) pkt = false := by
  cases c with
  | receive pkt ktime =>
    rw [releasesInTurn, Bool.not_eq_true']
    refine ⟨fun h pkt' ktime' hc => ?_, fun h => h pkt ktime rfl⟩
    cases hc
    exact h
  | flush | clean => exact ⟨fun _ pkt ktime hc => (nomatch hc), fun _ => rfl⟩

end

/-- **No arrival releases a segment across a hole exactly if no walk meets such a release.** -/
theorem run_inTurn_iff {mem s : Mem} {cs : List Call} (hrun : run mem cs = .ok s) :
    InTurn s.up ↔ Steps step (fun s c => releasesInTurn s c = true) (netifNapiAdd mem) cs := by
  refine Steps.iff_of_step (R := fun s => ∃ l, Rep s l) (I := fun s => InTurn s.up) ?_ ⟨_, netifNapiAdd_rep mem⟩
    inTurn_nil hrun
  rintro s c s' - ⟨l, hrep⟩ hstep
  have hagree := step_spec s (linkedView s) c (linkedView_rep hrep)
  rw [hstep] at hagree
  obtain ⟨l', hl', hrep'⟩ := hagree.exists_ok
  refine ⟨⟨l', hrep'⟩, ?_⟩
  rw [hrep'.links.up, releasesInTurn_iff]
  exact stepLists_inTurn hl'

/-! ### Where it happens -/

/-- Flush point 31 at the segment `p2`: the packet is not empty, next in sequence and right in front of `p2`; it is not
merged with it, as the two are too long together or `p2` has to come last; and `p2` is not the last segment. -/
def standsBetween (b : Skb) (p2 : Segment) (rest : List Segment) (inSeq : U32) : Bool :=
  decide (b.len ≠ 0) && decide (inSeq = b.seq) && decide (b.seqEnd = p2.body.seq) && !rest.isEmpty &&
    (refusal b p2.body).any fun err =>
      decide (err ≠ .inval) && (decide (err = .tooBig) || p2.body.tcp.psh || p2.body.ext)

/-- The walk along these segments of a queue comes to flush point 31; `inSeq` is the number up to which the queue is in
sequence. -/
def fillsGap (b : Skb) : U32 → List Segment → Bool
  | _, [] => false
  | inSeq, p2 :: rest =>
    standsBetween b p2 rest inSeq ||
      goesOn b p2 rest && fillsGap b (if inSeq = p2.body.seq then p2.body.seqEnd else inSeq) rest

/-- The packet is not held or does not come to flush point 31, and no segment of its flow begins before `seq_next`. -/
def arrivalInTurn (l : Lists) (pkt : Packet) : Bool :=
  match pkt.parse with
  | .tcp b flush linear =>
    match splitFlow (sameFlowAs b) l.flows with
    | some (_, f, _) =>
      notHeld f b flush linear || isLate f.dat b ||
        f.segs.all (fun x => !before x.body.seq (walkDat f.dat b).seqNext) &&
          !fillsGap (walker b) (walkDat f.dat b).seqNext f.segs
    | none => true
  | _ => true

/-- The call keeps held segments apart, and is not the place where they go up too early. -/
def keepsInTurn (s : Mem) (c : Call) : Bool :=
  keepsApart s c &&
    match c with
    | .receive pkt _ => arrivalInTurn s.view pkt
    | _ => true

section

variable {base : U32} {l : Lists} {pkt : Packet} {n : Option SkbId} {b : Skb} {inSeq seqNext : U32}
  {segs rest pre : List Segment} {p2 : Segment}

/-- If everything in front ends by `inSeq`, it goes from `seqNext` to `inSeq` without a hole. -/
def Reached (base : U32) (seqNext : U32) (pre : List Segment) (inSeq : U32) : Prop :=
  offset base inSeq ≤ 2 ^ 30 → (∀ x ∈ pre, x.body.last base ≤ offset base inSeq) →
    acrossHole seqNext pre = false ∧ expectedAfter seqNext pre = inSeq

theorem reached_nil : Reached base seqNext [] seqNext := fun _ _ => ⟨rfl, rfl⟩

theorem expectedAfter_concat : expectedAfter seqNext (pre ++ [p2]) = p2.body.seqEnd := by
  induction pre generalizing seqNext with
  | nil => rfl
  | cons x pre ih => exact ih

theorem Reached.concat (h : Reached base seqNext pre inSeq) (hfits : Apart base (pre ++ [p2]))
    (hwin : p2.body.InWindow base) (hseq : before p2.body.seq inSeq = false) :
    Reached base seqNext (pre ++ [p2]) (if inSeq = p2.body.seq then p2.body.seqEnd else inSeq) := by
  intro hle hall
  have hpre : ∀ x ∈ pre, x.body.last base ≤ p2.body.first base := fun x hx =>
    (apart_append.1 hfits).2.2 x hx p2 (List.mem_singleton_self p2)
  rw [List.forall_mem_append] at hall
  obtain ⟨-, hp2⟩ := hall
  have hp2 := hp2 p2 (List.mem_singleton_self p2)
  by_cases hin : inSeq = p2.body.seq
  · obtain ⟨hhole, hexpected⟩ := h (hin ▸ hwin.first_le_window) (hin ▸ hpre)
    rw [if_pos hin, acrossHole_concat, hhole, hexpected, hin, before_self]
    exact ⟨rfl, expectedAfter_concat⟩
  · -- `p2` begins at `inSeq` at the earliest, and cannot end there
    exfalso
    rw [if_neg hin] at hle hp2
    have hfirst : offset base inSeq ≤ p2.body.first base := (before_eq_false_iff hwin.first_le_window hle).1 hseq
    have hlast := hwin.first_le
    have heq : offset base inSeq = offset base p2.body.seq := le_antisymm hfirst (hlast.trans hp2)
    exact hin (offset_injective base heq)

theorem turnReleases_acrossHole (hbwin : b.InWindow base) (hfits : Fits base b pre (p2 :: rest))
    (hreached : Reached base seqNext pre inSeq) :
    acrossHole seqNext (turnReleases b p2 rest pre inSeq) = standsBetween b p2 rest inSeq := by
  have hp2win : p2.body.InWindow base := hfits.window p2 (by simp)
  have hb : inSeq = b.seq → acrossHole seqNext pre = false ∧ expectedAfter seqNext pre = b.seq := by
    rintro rfl
    exact hreached hbwin.first_le_window hfits.behind
  have hp2 : inSeq = p2.body.seq → acrossHole seqNext (pre ++ [p2]) = false := by
    rintro rfl
    obtain ⟨hhole, hexpected⟩ := hreached hp2win.first_le_window (apart_middle.1 hfits.apart).2.1
    rw [acrossHole_concat, hhole, hexpected, before_self]
    rfl
  unfold turnReleases
  by_cases hbefore : before b.seqEnd p2.body.seq = true
  · have hne : b.seqEnd ≠ p2.body.seq := by
      intro heq
      rw [heq, before_self] at hbefore
      cases hbefore
    rw [if_pos hbefore, standsBetween, decide_eq_false hne]
    split
    · rename_i hpsh
      obtain ⟨-, hin⟩ : b.tcp.psh = true ∧ b.seq = inSeq := by simpa using hpsh
      simpa using (hb hin.symm).1
    · simp [acrossHole]
  · rw [if_neg hbefore]
    by_cases hseq : b.seqEnd = p2.body.seq
    · rw [if_pos hseq]
      unfold standsBetween
      cases hrefusal : refusal b p2.body with
      | none => simp [acrossHole]
      | some err =>
        simp only [Option.any_some]
        by_cases hwhy : (decide (err = .inval) || decide (inSeq ≠ b.seq)) = true
        · rw [if_pos hwhy]
          rcases Bool.or_eq_true_iff.1 hwhy with hinval | hin
          · simp [acrossHole, of_decide_eq_true hinval]
          · simp [acrossHole, of_decide_eq_true hin]
        · rw [if_neg hwhy]
          obtain ⟨hinval, hin⟩ : err ≠ .inval ∧ inSeq = b.seq := by simpa using hwhy
          obtain ⟨hhole, hexpected⟩ := hb hin
          by_cases hlast : (decide (err = .tooBig) || p2.body.tcp.psh || p2.body.ext) = true
          · rw [if_pos hlast, hlast]
            by_cases hrest : rest.isEmpty = true
            · simp [hrest, acrossHole]
            · -- the bytes of the packet are missing in front of `p2`
              have hgap : before b.seq p2.body.seq = decide (b.len ≠ 0) := by
                have hlen := hbwin.last_eq
                have hzero : b.len.toNat = 0 ↔ b.len = 0 := by bv_omega
                rw [Bool.eq_iff_iff, before_iff hbwin.first_le_window hp2win.first_le_window, decide_eq_true_iff, ← hseq,
                  ne_eq, ← hzero]
                unfold Body.last Body.first at hlen
                omega
              rw [if_neg hrest, acrossHole_concat, hhole, hexpected, hgap]
              simp [hin, hseq, hrest, hinval]
          · rw [if_neg hlast, hhole, Bool.eq_false_iff.2 hlast]
            simp
    · rw [if_neg hseq, standsBetween, decide_eq_false hseq]
      simp only [Bool.and_false, Bool.false_and]
      split
      · rename_i hwhy
        obtain ⟨hend, hin⟩ : b.seq = p2.body.seqEnd ∧ inSeq = p2.body.seq := by simpa using hwhy
        repeat' split
        all_goals first | exact hp2 hin | rfl
      · rfl

/-- A turn behind which the walk goes on releases nothing, or everything up to `p2`. -/
theorem goesOn_releases (hgoes : goesOn b p2 rest = true) : turnReleases b p2 rest pre inSeq = [] ∨
    inSeq = p2.body.seq ∧ turnReleases b p2 rest pre inSeq = pre ++ [p2] := by
  obtain ⟨⟨⟨hbefore, hseq⟩, -⟩, hwhy⟩ : ((before b.seqEnd p2.body.seq = false ∧ b.seqEnd ≠ p2.body.seq) ∧
      rest.isEmpty = false) ∧ _ := by simpa [goesOn, and_assoc] using hgoes
  unfold turnReleases
  rw [if_neg (by simp [hbefore]), if_neg hseq]
  split
  · rename_i hwhy'
    obtain ⟨hend, hin⟩ : b.seq = p2.body.seqEnd ∧ inSeq = p2.body.seq := by simpa using hwhy'
    rw [if_pos hend] at hwhy
    unfold refusal at hwhy
    cases hmerge : skbGroMerge p2.body b with
    | overrun => exact Or.inl rfl
    | failed err =>
      simp only
      split
      · exact Or.inl rfl
      · exact Or.inr ⟨hin, rfl⟩
    | merged b2 s2 =>
      rw [hmerge] at hwhy
      cases hwhy
  · exact Or.inl rfl

/-- The packet lies behind a segment behind which the walk goes on. -/
theorem goesOn_last (hgoes : goesOn b p2 rest = true) (hbwin : b.InWindow base) (hp2win : p2.body.InWindow base) :
    p2.body.last base ≤ b.first base := by
  unfold goesOn at hgoes
  obtain ⟨-, hwhy⟩ := Bool.and_eq_true_iff.1 hgoes
  split at hwhy
  · rename_i hend
    exact Nat.le_of_eq (congrArg (offset base) hend.symm)
  · exact Nat.le_of_lt ((after_iff hbwin.first_le_window hp2win.last_le).1 hwhy)

/-- **Only at flush point 31**, as long as no segment begins before `seq_next`. -/
theorem walkCrosses_eq_fillsGap {post : List Segment} (hbwin : b.InWindow base) (hfits : Fits base b pre post)
    (hreached : Reached base seqNext pre inSeq) (hpost : ∀ x ∈ post, before x.body.seq inSeq = false) :
    walkCrosses n b post pre inSeq seqNext = fillsGap b inSeq post := by
  induction post generalizing pre inSeq seqNext with
  | nil => rfl
  | cons p2 rest ih =>
    have hsame : standsBetween b (behind n pre p2) rest inSeq = standsBetween b p2 rest inSeq := by
      unfold standsBetween
      rw [behind_body]
    have hgoes : goesOn b (behind n pre p2) rest = goesOn b p2 rest := by
      unfold goesOn
      rw [behind_body]
    have hmiddle := apart_middle.1 hfits.apart
    have hfits' : Fits base b pre (behind n pre p2 :: rest) := by
      refine ⟨by simpa using hfits.window, apart_middle.2 ?_, hfits.behind⟩
      rwa [behind_body]
    obtain ⟨hp2, hrest⟩ := List.forall_mem_cons.1 hpost
    have hp2win : p2.body.InWindow base := hfits.window p2 (by simp)
    rw [walkCrosses, fillsGap, turnReleases_acrossHole hbwin hfits' hreached, hsame, hgoes, behind_body]
    cases hon : goesOn b p2 rest with
    | false => rw [Bool.false_and, Bool.false_and]
    | true =>
      rw [Bool.true_and, Bool.true_and]
      congr 1
      have hle : p2.body.last base ≤ b.first base := goesOn_last hon hbwin hp2win
      rw [← hgoes] at hon
      have hrest' : ∀ x ∈ rest, before x.body.seq (if inSeq = p2.body.seq then p2.body.seqEnd else inSeq) = false := by
        intro x hx
        split
        · have hxwin : x.body.InWindow base := hfits.window x (by simp [hx])
          exact (before_eq_false_iff hxwin.first_le_window hp2win.last_le).2 (hmiddle.2.2 x hx)
        · exact hrest x hx
      obtain hnone | ⟨hin, hall⟩ : turnReleases b (behind n pre p2) rest pre inSeq = [] ∨
          inSeq = (behind n pre p2).body.seq ∧ turnReleases b (behind n pre p2) rest pre inSeq = pre ++ [behind n pre p2] :=
        goesOn_releases hon
      · rw [hnone]
        refine ih ⟨?_, ?_, ?_⟩ ?_ hrest'
        · simpa using hfits'.window
        · simpa using hfits'.apart
        · refine List.forall_mem_append.2 ⟨hfits.behind, fun x hx => ?_⟩
          rw [List.mem_singleton.1 hx, behind_body]
          exact hle
        · have happ : Apart base (pre ++ [behind n pre p2]) := by
            have hsub : (pre ++ [behind n pre p2]).Sublist (pre ++ behind n pre p2 :: rest) := by simp
            exact List.Pairwise.sublist hsub hfits'.apart
          have hwin : (behind n pre p2).body.InWindow base := by rwa [behind_body]
          have hlater : before (behind n pre p2).body.seq inSeq = false := by rwa [behind_body]
          have hconcat := hreached.concat happ hwin hlater
          rwa [behind_body] at hconcat
      · rw [hall]
        have hne : (pre ++ [behind n pre p2]).isEmpty = false := by simp
        rw [behind_body] at hin
        simp only [hne, Bool.false_eq_true, if_false, if_pos hin, expectedAfter_concat, behind_body]
        rw [if_pos hin] at hrest'
        refine ih ⟨?_, ?_, fun x hx => absurd hx List.not_mem_nil⟩ reached_nil hrest'
        · exact fun x hx => hfits.window x (List.mem_append_right _ (List.mem_cons_of_mem _ hx))
        · exact (apart_append.1 (apart_middle.1 hfits.apart).1).2.1

/-! ### Runs -/

theorem fillsGap_erase : fillsGap b inSeq (segs.map Seg.erase) = fillsGap b inSeq segs := by
  induction segs generalizing inSeq with
  | nil => rfl
  | cons x xs ih =>
    have hstands : standsBetween b x.erase (xs.map Seg.erase) inSeq = standsBetween b x xs inSeq := by
      rw [standsBetween, standsBetween, List.isEmpty_map]
      rfl
    have hgoes : goesOn b x.erase (xs.map Seg.erase) = goesOn b x xs := by
      rw [goesOn, goesOn, List.isEmpty_map]
      rfl
    rw [List.map_cons, fillsGap, fillsGap, hstands, hgoes, ih]
    rfl

theorem arrivalInTurn_erase : arrivalInTurn l.erase pkt = arrivalInTurn l pkt := by
  unfold arrivalInTurn
  cases pkt.parse with
  | other b => rfl
  | badHeader b => rfl
  | tcp b flush linear =>
    simp only [Queues.erase, splitFlow_erase fun _ => sameFlowAs_erase]
    cases splitFlow (sameFlowAs b) l.flows with
    | none => rfl
    | some r =>
      simp only [Option.map_some, notHeld_erase]
      congr 2
      · simp [Flow.erase, Seg.erase, Function.comp_def]
      · exact congrArg _ fillsGap_erase

end

section

variable {base : FlowKey → U32} {l : Lists} {pkt : Packet}

theorem Spaced.arrivalCrosses_eq (h : Spaced base l) (hwin : pkt.windowed base = true)
    (hne : ∀ f ∈ l.flows, f.segs ≠ []) (hturn : arrivalInTurn l pkt = true) : arrivalCrosses l pkt = false := by
  unfold arrivalInTurn at hturn
  unfold arrivalCrosses
  cases hparse : pkt.parse with
  | other b => rfl
  | badHeader b => rfl
  | tcp b flush linear =>
    rw [hparse] at hturn
    simp only at hturn ⊢
    cases hsplit : splitFlow (sameFlowAs b) l.flows with
    | none => rfl
    | some r =>
      obtain ⟨A, f, B⟩ := r
      simp only [hsplit] at hturn ⊢
      cases hwhy : notHeld f b flush linear || isLate f.dat b with
      | true => rfl
      | false =>
        rw [hwhy, Bool.false_or, Bool.and_eq_true, Bool.not_eq_true'] at hturn
        obtain ⟨hahead, hgap⟩ := hturn
        obtain ⟨hflows, hmatch, -⟩ := splitFlow_some hsplit
        have hf : f ∈ l.flows := hflows ▸ by simp
        obtain ⟨key, hbodies, hapart⟩ := h.apart f hf
        obtain ⟨p, segs, hsegs⟩ := List.exists_cons_of_ne_nil (hne f hf)
        have hkeyed : Keyed base key (walker b) :=
          (keyed_rule base).join key pkt b flush linear f p segs hwin hparse hsegs ((bodies_cons.1 (hsegs ▸ hbodies)).1)
            hmatch (Bool.or_eq_false_iff.1 hwhy).1
        have hfits : Fits (base key) (walker b) [] f.segs :=
          ⟨fun x hx => (hbodies x hx).2, hapart, fun x hx => absurd hx List.not_mem_nil⟩
        have hpost : ∀ x ∈ f.segs, before x.body.seq (walkDat f.dat b).seqNext = false := by simpa using hahead
        rw [walkCrosses_eq_fillsGap hkeyed.2 hfits reached_nil hpost, hgap]
        rfl

end

/-- **An arrival releases no segment across a hole**, in every run in which held segments stay apart, no packet that walks
along its queue finds a segment that begins before `seq_next`, and none comes to flush point 31. -/
theorem run_inTurn {base : FlowKey → U32} {mem s : Mem} {cs : List Call}
    (hwin : ∀ c ∈ cs, c.Meets fun pkt => pkt.windowed base = true)
    (hsteps : Steps step (fun s c => keepsInTurn s c = true) (netifNapiAdd mem) cs) (hrun : run mem cs = .ok s) :
    ∀ u ∈ s.up, ∀ seqNext, u.via = .skbGroFlush seqNext → before seqNext u.body.seq = false := by
  have hinit : ∃ l, Rep (netifNapiAdd mem) l ∧ Spaced base l ∧ InTurn l.up :=
    ⟨_, netifNapiAdd_rep mem, ⟨⟨fun f hf => absurd hf List.not_mem_nil, fun u hu => absurd hu List.not_mem_nil⟩,
      fun f hf => absurd hf List.not_mem_nil⟩, inTurn_nil⟩
  have hstep : ∀ s c s', (∃ l, Rep s l ∧ Spaced base l ∧ InTurn l.up) →
      keepsInTurn s c = true ∧ (c.Meets fun pkt => pkt.windowed base = true) → step s c = .ok s' →
      ∃ l, Rep s' l ∧ Spaced base l ∧ InTurn l.up := by
    rintro s c s' ⟨l, hrep, hl, hup⟩ ⟨hkeep, hc⟩ hstep
    obtain ⟨hapart, hturn⟩ := Bool.and_eq_true_iff.1 hkeep
    have hne : ∀ f ∈ l.flows, f.segs ≠ [] := fun f hf => (hrep.links.flows f hf).ne
    have hagree := step_spec s l c hrep
    rw [hstep] at hagree
    obtain ⟨l', hl', hrep'⟩ := hagree.exists_ok
    refine ⟨l', hrep', stepLists_spaced hl hc hne (fun pkt ktime hcall => ?_) hl',
      (stepLists_inTurn hl').2 ⟨hup, fun pkt ktime hcall => ?_⟩⟩
    · rwa [hcall, keepsApart, hrep.view_eq, spacedArrival_erase] at hapart
    · subst hcall
      simp only [hrep.view_eq, arrivalInTurn_erase] at hturn
      exact hl.arrivalCrosses_eq hc hne hturn
  obtain ⟨l, hrep, -, hup⟩ := Steps.always hstep hinit (hsteps.and_mem hwin) hrun
  rw [hrep.links.up]
  exact hup

theorem releaseFirst_windowed : ∀ c ∈ releaseFirst, c.Meets fun pkt => pkt.windowed (fun _ => 0) = true := by
  intro c hc
  simp only [releaseFirst, List.mem_cons, List.not_mem_nil, or_false] at hc
  rcases hc with rfl | rfl | rfl
  · show (Packet.plain 1 1 7 100 10 0).windowed (fun _ => 0) = true
    decide +kernel
  · show (Packet.plain 2 1 7 120 10 0).windowed (fun _ => 0) = true
    decide +kernel
  · show (Packet.plain 3 1 7 110 5 tcpFlagPsh).windowed (fun _ => 0) = true
    decide +kernel

/-- The first segment goes up with the packet behind it, the second one stays. -/
theorem run_inTurn_releaseFirst :
    ∃ s, run default releaseFirst = .ok s ∧ s.up.map (fun u => (u.body.seq, u.body.len, u.via)) =
        [(100, 15, .skbGroFlush 100)] ∧
      ∀ u ∈ s.up, ∀ seqNext, u.via = .skbGroFlush seqNext → before seqNext u.body.seq = false := by
  have hsteps : Steps step (fun s c => keepsInTurn s c = true) (netifNapiAdd default) releaseFirst := by decide +kernel
  have hend : (run default releaseFirst).map (fun s => s.up.map fun u => (u.body.seq, u.body.len, u.via)) =
      .ok [(100, 15, .skbGroFlush 100)] := by decide +kernel
  obtain ⟨s, hrun, hups⟩ := map_ok hend
  exact ⟨s, hrun, hups, @run_inTurn (fun _ => 0) _ _ _ releaseFirst_windowed hsteps hrun⟩

/-- The payloads of two packets of one flow do not overlap. -/
def Packet.disjoint (base : FlowKey → U32) (pkt pkt' : Packet) : Bool :=
  match pkt.parse, pkt'.parse with
  | .tcp b _ _, .tcp b' _ _ =>
    decide (b.flowKey ≠ b'.flowKey) || decide (b.last (base b.flowKey) ≤ b'.first (base b.flowKey)) ||
      decide (b'.last (base b.flowKey) ≤ b.first (base b.flowKey))
  | _, _ => true

/-- Two segments with a hole between them, and the packet right in front of the first one, which has PSH. -/
def missingPiece : List Packet :=
  [.plain 1 1 7 1200 100 tcpFlagPsh, .plain 2 1 7 1400 100 0, .plain 3 1 7 1100 100 tcpFlagPsh]

/-- The first segment goes up before the packet. -/
theorem not_inTurn_missingPiece :
    ¬ ∀ (base : FlowKey → U32) (mem : Mem) (pkts : List Packet) (s : Mem), (∀ pkt ∈ pkts, pkt.windowed base = true) →
      (pkts.Pairwise fun pkt pkt' => pkt.disjoint base pkt' = true) →
      run mem (pkts.map fun pkt => .receive pkt fun _ => 0) = .ok s →
      ∀ u ∈ s.up, ∀ seqNext, u.via = .skbGroFlush seqNext → before seqNext u.body.seq = false := by
  intro h
  have hend : (run default (missingPiece.map fun pkt => .receive pkt fun _ => 0)).map
      (fun s => s.up.map fun u => (u.body.seq, u.via)) = .ok [(1200, .skbGroFlush 1100), (1100, .normal)] := by
    decide +kernel
  obtain ⟨s, hrun, hvalue⟩ := map_ok hend
  obtain ⟨u, us, hu, hvalues, -⟩ := List.map_eq_cons_iff.1 hvalue
  simp only [Prod.mk.injEq] at hvalues
  have hnot := h (fun _ => 0) default missingPiece s (by decide +kernel) (by decide +kernel) hrun u (by simp [hu]) 1100
    hvalues.2
  rw [hvalues.1] at hnot
  exact absurd hnot (by decide)

end PacketReordering.Linux41
