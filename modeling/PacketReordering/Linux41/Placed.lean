import PacketReordering.Linux41.Holes
import PacketReordering.Linux41.Staged

/-!
# `linux-4.1`: the place of a packet in its queue

Where the walk puts a packet that overlaps nothing that is held: between what it belongs behind and what it belongs in front
of.  A packet that it turns away goes up as it is, which may be too early or too late.

* `overtakes` — it is too early or too late;
* `Spot` — a packet on its way along the queue;
* `walkSegs_placed` — the packet goes between what is in front of it and what is behind it, if it does not overtake;
* `walkSegs_upto` — nothing reaches further than before, or than the packet.
-/

namespace PacketReordering.Linux41

open Lib Gro

/-- The walk turns the packet away, so that it goes up as it is: in front of a packet in the queue that begins before it,
or, if the walk releases the queue up to `p2`, behind packets in `p2` that begin where it ends. -/
def overtakes (h : U32) (b : Skb) : (post pre : List Segment) → U32 → Bool
  | [], _, _ => false
  | p2 :: rest, pre, inSeq =>
    let released := turnReleases b p2 rest pre inSeq
    if goesOn b p2 rest then
      overtakes h b rest (if released.isEmpty then pre ++ [p2] else []) (if inSeq = p2.body.seq then p2.body.seqEnd else inSeq)
    else
      turnedAway b (p2 :: rest) inSeq &&
        if released.isEmpty then (segsData h (pre ++ [p2])).any fun c => before c.seq b.seq
        else standsBetween b p2 rest inSeq && !(p2.body.data h).isEmpty

/-- The packet is behind the segments `pre` of the queue `pre ++ post`, and overlaps none. -/
structure Spot (base : U32) (key : FlowKey) (b : Skb) (pre post : List Segment) : Prop where
  bodies : Bodies (OfFlow base key key.ports) (pre ++ post)
  staged : Staged base (pre ++ post)
  passed : Bodies (fun c => c.last base ≤ b.first base) pre
  clear : b.len ≠ 0 → Bodies (fun c => c.len ≠ 0 → c.last base ≤ b.first base ∨ b.last base ≤ c.first base) (pre ++ post)

/-- Some of the held data is in front of the packet now, and the rest of it behind the packet; this is the order of the
numbers unless the packet has overtaken, which it cannot when it is held. -/
structure Placed (base : U32) (h : U32) (b : Skb) (up held : List Part) (overtaken : Bool) (w : Walked) : Prop where
  staged : Staged base w.segs
  seated : w.fate ≠ .normal → overtaken = false
  data : ∃ front back, held = front ++ back ∧
    upsData h w.track.up ++ (if w.fate = .normal then b.data h else []) ++ segsData h w.segs =
      up ++ front ++ b.data h ++ back ∧
    (b.len ≠ 0 → ((∀ d ∈ front, partLast base d ≤ b.first base) ∧ (∀ d ∈ back, b.last base ≤ partFirst base d) ↔
      overtaken = false))

section

variable {base : U32} {key : FlowKey} {h : U32} {n : Option SkbId} {k : SkbId} {b : Skb} {tr : Track} {w : Walked}
  {segs rest pre post : List Segment} {p2 q2 : Segment} {inSeq seq2 : U32} {up held rel front back : List Part} {m : ℕ}

/-! ### The condition -/

/-- Only the buffers count. -/
theorem turnReleases_congr (b : Skb) (inSeq : U32) {rest' pre' : List Segment} (hp2 : p2.body = q2.body)
    (hrest : rest.map Seg.body = rest'.map Seg.body) (hpre : pre.map Seg.body = pre'.map Seg.body) :
    (turnReleases b p2 rest pre inSeq).map Seg.body = (turnReleases b q2 rest' pre' inSeq).map Seg.body := by
  have hempty : rest.isEmpty = rest'.isEmpty := by
    rw [← List.isEmpty_map (f := Seg.body), hrest, List.isEmpty_map]
  have hconcat : (pre ++ [p2]).map Seg.body = (pre' ++ [q2]).map Seg.body := by simp [hpre, hp2]
  have hbehind : ∀ b2 : Skb, releasesBehind b b2 rest = releasesBehind b b2 rest' := by
    intro b2
    match rest, rest', hrest with
    | [], [], _ => rfl
    | x :: xs, y :: ys, hrest =>
      rw [List.map_cons, List.map_cons, List.cons.injEq] at hrest
      have hys : xs.isEmpty = ys.isEmpty := by rw [← List.isEmpty_map (f := Seg.body), hrest.2, List.isEmpty_map]
      rw [releasesBehind, releasesBehind, hrest.1, hys]
  unfold turnReleases
  rw [hp2, hempty]
  simp only [hbehind]
  repeat' split
  all_goals first | exact hpre | exact hconcat | rfl

theorem turnedAway_congr (b : Skb) (inSeq : U32) {post' : List Segment} (hpost : post.map Seg.body = post'.map Seg.body) :
    turnedAway b post inSeq = turnedAway b post' inSeq := by
  induction post generalizing post' inSeq with
  | nil =>
    obtain rfl : post' = [] := List.map_eq_nil_iff.1 hpost.symm
    rfl
  | cons p2 rest ih =>
    obtain ⟨q2, rest', rfl, hp2, hrest⟩ := List.map_eq_cons_iff.1 hpost.symm
    have hempty : rest.isEmpty = rest'.isEmpty := by
      rw [← List.isEmpty_map (f := Seg.body), ← hrest, List.isEmpty_map]
    rw [turnedAway, turnedAway, hp2, hempty]
    simp only [ih _ hrest.symm]

theorem overtakes_congr {post' pre' : List Segment} (hpost : post.map Seg.body = post'.map Seg.body)
    (hpre : pre.map Seg.body = pre'.map Seg.body) : overtakes h b post pre inSeq = overtakes h b post' pre' inSeq := by
  induction post generalizing post' pre pre' inSeq with
  | nil =>
    obtain rfl : post' = [] := List.map_eq_nil_iff.1 hpost.symm
    rfl
  | cons p2 rest ih =>
    have haway := turnedAway_congr b inSeq hpost
    obtain ⟨q2, rest', rfl, hp2, hrest⟩ := List.map_eq_cons_iff.1 hpost.symm
    have hempty : rest.isEmpty = rest'.isEmpty := by
      rw [← List.isEmpty_map (f := Seg.body), ← hrest, List.isEmpty_map]
    have hreleased := turnReleases_congr b inSeq hp2.symm hrest.symm hpre
    have hnone : (turnReleases b p2 rest pre inSeq).isEmpty = (turnReleases b q2 rest' pre' inSeq).isEmpty := by
      rw [← List.isEmpty_map (f := Seg.body), hreleased, List.isEmpty_map]
    have hconcat : (pre ++ [p2]).map Seg.body = (pre' ++ [q2]).map Seg.body := by simp [hpre, hp2]
    have hgoes : goesOn b p2 rest = goesOn b q2 rest' := by rw [goesOn, goesOn, hp2, hempty]
    have hstands : standsBetween b p2 rest inSeq = standsBetween b q2 rest' inSeq := by
      rw [standsBetween, standsBetween, hp2, hempty]
    simp only [overtakes, hnone, hgoes, hstands, haway, hp2, segsData_congr hconcat]
    congr 1
    refine ih hrest.symm ?_
    split
    · exact hconcat
    · rfl

/-! ### The data of a queue -/

theorem data_upto (hsegs : Bodies (OfFlow base key key.ports) segs) (hle : Bodies (fun c => c.last base ≤ m) segs) :
    ∀ d ∈ segsData key.ports segs, partLast base d ≤ m := by
  intro d hd
  obtain ⟨x, hx, hd⟩ := List.mem_flatMap.1 hd
  exact ((hsegs x hx).data_within hd).2.2.trans (hle x hx)

theorem data_from (hsegs : Bodies (OfFlow base key key.ports) segs)
    (hle : Bodies (fun c => c.len ≠ 0 → m ≤ c.first base) segs) : ∀ d ∈ segsData key.ports segs, m ≤ partFirst base d := by
  intro d hd
  obtain ⟨x, hx, hd⟩ := List.mem_flatMap.1 hd
  have hlen : x.body.len ≠ 0 := by
    intro hzero
    rw [(hsegs x hx).data_nil hzero] at hd
    exact absurd hd List.not_mem_nil
  exact (hle x hx hlen).trans ((hsegs x hx).data_within hd).1

/-- The packets of the queue lie in the window, and none is empty. -/
theorem data_window (hsegs : Bodies (OfFlow base key key.ports) segs) :
    ∀ d ∈ segsData key.ports segs, partFirst base d < partLast base d ∧ partLast base d ≤ 2 ^ 30 := by
  intro d hd
  obtain ⟨x, hx, hd⟩ := List.mem_flatMap.1 hd
  obtain ⟨-, hlt, hlast⟩ := (hsegs x hx).data_within hd
  exact ⟨hlt, hlast.trans (hsegs x hx).window.last_le⟩

/-! ### A turn of the walk -/

theorem Spot.front_data (hspot : Spot base key b pre post) : ∀ d ∈ segsData key.ports pre, partLast base d ≤ b.first base :=
  data_upto (bodies_append.1 hspot.bodies).1 hspot.passed

theorem Spot.passed_first (hspot : Spot base key b pre post) : Bodies (fun c => c.first base ≤ b.first base) pre :=
  fun x hx => ((bodies_append.1 hspot.bodies).1 x hx).window.first_le.trans (hspot.passed x hx)

theorem Spot.first_le (hspot : Spot base key b pre (p2 :: rest)) : Bodies (fun c => p2.body.first base ≤ c.first base) rest :=
  fun y hy => ((List.pairwise_cons.1 (staged_append.1 hspot.staged).2.1).1 y hy).1

/-- Everything from a segment on that begins where the packet ends is behind it. -/
theorem Spot.beyond (hspot : Spot base key b pre (p2 :: rest)) (hle : b.last base ≤ p2.body.first base) :
    Bodies (fun c => b.last base ≤ c.first base) (p2 :: rest) :=
  List.forall_mem_cons.2 ⟨hle, fun y hy => hle.trans (hspot.first_le y hy)⟩

/-- Everything behind a segment that ends where the packet begins is behind it. -/
theorem Spot.beyond_rest (hspot : Spot base key b pre (p2 :: rest)) (hlen : b.len ≠ 0) (hle : b.first base ≤ p2.body.last base) :
    Bodies (fun c => c.len ≠ 0 → b.last base ≤ c.first base) rest := by
  intro y hy hylen
  have hmem : y ∈ pre ++ p2 :: rest := List.mem_append_right _ (List.mem_cons_of_mem _ hy)
  have hbegin := hspot.staged.behind_last hy hylen
  have hend := (hspot.bodies y hmem).window.last_eq
  have hpos : y.body.len.toNat ≠ 0 := by bv_omega
  have hclear := hspot.clear hlen y hmem hylen
  omega

theorem Placed.of_ordered (front back : List Part) (hstaged : Staged base w.segs) (hheld : held = front ++ back)
    (hdata : upsData h w.track.up ++ (if w.fate = .normal then b.data h else []) ++ segsData h w.segs =
      up ++ front ++ b.data h ++ back)
    (hfront : ∀ d ∈ front, partLast base d ≤ b.first base) (hback : b.len ≠ 0 → ∀ d ∈ back, b.last base ≤ partFirst base d) :
    Placed base h b up held false w :=
  ⟨hstaged, fun _ => rfl, front, back, hheld, hdata, fun hlen => iff_of_true ⟨hfront, hback hlen⟩ rfl⟩

theorem merged_data {p skb p' skb' : Skb} (hmerge : skbGroMerge p skb = .merged p' skb') :
    p'.data h = p.data h ++ skb.data h := by
  rw [Body.data, (skbGroMerge_control hmerge).2.1, List.filter_append]
  rfl

/-- The segment `q2` has taken the payload of the packet, and perhaps takes that of the next one. -/
theorem Behind.placed (hw : Behind n b tr pre q2 rest inSeq seq2 w) (hend : q2.body.seqEnd = b.seqEnd)
    (hstaged : Staged base (pre ++ q2 :: rest)) (hpre : Bodies (fun c => c.last base ≤ q2.body.first base) pre) :
    Staged base w.segs ∧ upsData h w.track.up ++ segsData h w.segs =
      upsData h tr.up ++ segsData h pre ++ q2.body.data h ++ segsData h rest := by
  obtain ⟨-, hsq2, hcross⟩ := staged_append.1 hstaged
  obtain ⟨hq2, hsrest⟩ := List.pairwise_cons.1 hsq2
  cases hw with
  | stay hwhy => exact ⟨hstaged, by simp⟩
  | release hin hne hwhy => exact ⟨staged_setHeadNext.2 hsrest, by simp [release_data]⟩
  | @bridge p3 ps b3 s3 hps hseq hmerge =>
    subst hps
    obtain ⟨hfirst, hlast⟩ := skbGroMerge_seqEnd (hend.trans hseq) hmerge
    have hp3 := (List.pairwise_cons.1 hsrest).1
    have hsub : (pre ++ ps).Sublist (pre ++ q2 :: p3 :: ps) :=
      (List.Sublist.refl pre).append ((List.sublist_cons_self ..).trans (List.sublist_cons_self ..))
    refine ⟨?_, by simp [merged_data hmerge]⟩
    refine Staged.put (s := { q2 with body := b3 }) (List.Pairwise.sublist hsub hstaged) (fun x hx => ?_) fun y hy => ?_
    · simp only [Body.first, hfirst]
      exact ⟨(hcross x hx q2 (List.mem_cons_self ..)).1, fun _ => hpre x hx⟩
    · simp only [Body.first, Body.last, hfirst, hlast]
      exact ⟨(hq2 y (List.mem_cons_of_mem _ hy)).1, (hp3 y hy).2⟩
  | @bridgeRelease p3 ps b3 s3 hps hseq hmerge hin hpsh hne =>
    subst hps
    exact ⟨staged_setHeadNext.2 (List.pairwise_cons.1 hsrest).2, by simp [release_data, merged_data hmerge]⟩

/-- The packet is held. -/
theorem turn_held_placed (hturn : Turn n k b p2 rest pre inSeq tr (.inl w)) (hfate : w.fate ≠ .normal)
    (hspot : Spot base key b pre (p2 :: rest)) (hbof : OfFlow base key key.ports b) :
    Placed base key.ports b (upsData key.ports tr.up) (segsData key.ports (pre ++ p2 :: rest)) false w := by
  have hbwin := hbof.window
  have hble := hbwin.first_le
  have hp2mem : p2 ∈ pre ++ p2 :: rest := List.mem_append_right _ (List.mem_cons_self ..)
  have hp2win := (hspot.bodies p2 hp2mem).window
  have hp2le := hp2win.first_le
  have hpre : Bodies (fun c => c.first base ≤ b.first base ∧ c.last base ≤ b.first base) pre :=
    fun x hx => ⟨hspot.passed_first x hx, hspot.passed x hx⟩
  have hbodies := (bodies_append.1 hspot.bodies).2
  obtain ⟨-, hsp2, hcross⟩ := staged_append.1 hspot.staged
  have hp2rest := (List.pairwise_cons.1 hsp2).1
  cases hturn with
  | drop hseq hwhy => exact absurd rfl hfate
  | dropRelease hin hwhy => exact absurd rfl hfate
  | dropReleaseTo hnot hseq hin hmerge hne hinval hwhy => exact absurd rfl hfate
  | insert hseq =>
    have hle : b.last base ≤ p2.body.first base := by
      rcases hseq with ⟨hbefore, -⟩ | ⟨-, hseq, -⟩
      · exact Nat.le_of_lt ((before_iff hbwin.last_le hp2win.first_le_window).1 hbefore)
      · exact Nat.le_of_eq (congrArg (offset base) hseq)
    have hback := hspot.beyond hle
    refine Placed.of_ordered _ _ ?_ segsData_append (by simp) hspot.front_data fun _ => data_from hbodies
      (hback.imp fun c hc _ => hc)
    refine Staged.put hspot.staged (fun x hx => ?_) fun y hy => ?_
    · rw [behind_body]
      exact ⟨(hpre x hx).1, fun _ => (hpre x hx).2⟩
    · rw [behind_body]
      exact ⟨hble.trans (hback y hy), fun _ => hback y hy⟩
  | @mergeFront b' s' hnot hseq hmerge =>
    have hle : b.last base ≤ p2.body.first base := Nat.le_of_eq (congrArg (offset base) hseq)
    have hback := hspot.beyond hle
    obtain ⟨hfirst, hlast⟩ := skbGroMerge_seqEnd hseq hmerge
    have hsub : (pre ++ rest).Sublist (pre ++ p2 :: rest) := (List.Sublist.refl pre).append (List.sublist_cons_self ..)
    refine Placed.of_ordered _ _ ?_ segsData_append (by simp [merged_data hmerge]) hspot.front_data fun _ => data_from hbodies
      (hback.imp fun c hc _ => hc)
    refine Staged.put (s := { behind n pre ⟨k, none, b⟩ with body := b' }) (List.Pairwise.sublist hsub hspot.staged)
      (fun x hx => ?_) fun y hy => ?_
    · simp only [Body.first, hfirst]
      exact ⟨(hpre x hx).1, fun _ => (hpre x hx).2⟩
    · simp only [Body.first, Body.last, hfirst, hlast]
      exact ⟨hble.trans (hback y (List.mem_cons_of_mem _ hy)), (hp2rest y hy).2⟩
  | append hrest hnot hseq =>
    subst hrest
    have hle : p2.body.last base ≤ b.first base := by
      rcases hseq with ⟨hseq, -⟩ | ⟨-, hafter⟩
      · exact Nat.le_of_eq (congrArg (offset base) hseq.symm)
      · exact Nat.le_of_lt ((after_iff hbwin.first_le_window hp2win.last_le).1 hafter)
    have hall : Bodies (fun c => c.first base ≤ b.first base ∧ c.last base ≤ b.first base) (pre ++ [p2]) :=
      bodies_append.2 ⟨hpre, bodies_cons.2 ⟨⟨hp2le.trans hle, hle⟩, bodies_nil⟩⟩
    refine Placed.of_ordered _ _ ?_ (List.append_nil _).symm (by simp)
      (data_upto hspot.bodies (hall.imp fun c hc => hc.2)) fun _ d hd => absurd hd List.not_mem_nil
    show Staged base (pre ++ p2 :: [⟨k, none, b⟩])
    rw [List.append_cons]
    refine Staged.put (by rw [List.append_nil]; exact hspot.staged) (fun x hx => ?_) fun y hy => absurd hy List.not_mem_nil
    exact ⟨(hall x hx).1, fun _ => (hall x hx).2⟩
  | appendRelease hrest hnot hseq hin hmerge hne hpsh =>
    subst hrest
    have hle : p2.body.last base ≤ b.first base := Nat.le_of_eq (congrArg (offset base) hseq.symm)
    have hall : Bodies (fun c => c.last base ≤ b.first base) (pre ++ [p2]) :=
      bodies_append.2 ⟨hspot.passed, bodies_cons.2 ⟨hle, bodies_nil⟩⟩
    exact Placed.of_ordered _ _ (List.pairwise_singleton _ _) (List.append_nil _).symm (by simp [release_data])
      (data_upto hspot.bodies hall) fun _ d hd => absurd hd List.not_mem_nil
  | @merge b2 s2 _ hnot hseq hmerge hw =>
    have hle : p2.body.last base = b.first base := congrArg (offset base) hseq.symm
    obtain ⟨hfirst, hlast⟩ := skbGroMerge_seqEnd hseq.symm hmerge
    have hrest := fun hlen => hspot.beyond_rest hlen (Nat.le_of_eq hle.symm)
    -- what ends where an empty segment begins, ends in front of it
    have hprep2 : Bodies (fun c => c.last base ≤ p2.body.first base) pre := by
      intro x hx
      by_cases hp2len : p2.body.len = 0
      · have hp2last := hp2win.last_eq
        rw [hp2len] at hp2last
        have hx' := hspot.passed x hx
        simp at hp2last
        omega
      · exact (hcross x hx p2 (List.mem_cons_self ..)).2 hp2len
    have hsub : (pre ++ rest).Sublist (pre ++ p2 :: rest) := (List.Sublist.refl pre).append (List.sublist_cons_self ..)
    have hstaged : Staged base (pre ++ { p2 with body := b2 } :: rest) := by
      refine Staged.put (List.Pairwise.sublist hsub hspot.staged) (fun x hx => ?_) fun y hy => ?_
      · simp only [Body.first, hfirst]
        exact ⟨(hcross x hx p2 (List.mem_cons_self ..)).1, fun _ => hprep2 x hx⟩
      · simp only [Body.first, Body.last, hfirst, hlast]
        refine ⟨(hp2rest y hy).1, fun hylen => ?_⟩
        by_cases hlen : b.len = 0
        · have hblast := hbwin.last_eq
          rw [hlen] at hblast
          have hy' := (hp2rest y hy).2 hylen
          simp at hblast
          unfold Body.last Body.first at *
          omega
        · exact hrest hlen y hy hylen
    obtain ⟨hstagedw, hdata⟩ := hw.placed (h := key.ports) hlast hstaged (by simpa [Body.first, hfirst] using hprep2)
    refine Placed.of_ordered (segsData key.ports (pre ++ [p2])) (segsData key.ports rest) hstagedw ?_ ?_ ?_ ?_
    · simp
    · rw [if_neg hfate, List.append_nil, hdata]
      simp [merged_data hmerge]
    · refine data_upto ?_ (bodies_append.2 ⟨hspot.passed, bodies_cons.2 ⟨Nat.le_of_eq hle, bodies_nil⟩⟩)
      have hall := hspot.bodies
      rw [List.append_cons, bodies_append] at hall
      exact hall.1
    · exact fun hlen => data_from (bodies_cons.1 hbodies).2 (hrest hlen)

theorem flushSegs_length (d : Dat) : (flushSegs d segs).2.length = segs.length := by
  induction segs generalizing d with
  | nil => rfl
  | cons x segs ih => rw [flushSegs, List.length_cons, ih, List.length_cons]

theorem release_length : (tr.release segs).up.length = tr.up.length + segs.length := by
  unfold Track.release
  split
  · rename_i hnil
    rw [hnil, List.length_nil, Nat.add_zero]
  · rw [Track.flush, List.length_append, flushSegs_length]

theorem Released.length {tr' : Track} (hreleased : Released tr tr' segs) : tr'.up.length = tr.up.length + segs.length := by
  rcases hreleased with rfl | ⟨xs, x, c, rfl, -, rfl⟩
  · exact release_length
  · rw [release_length, List.length_append, List.length_append, List.length_singleton, List.length_singleton]

/-- What the turn releases is nothing exactly if nothing went up. -/
theorem Released.isEmpty_eq {xs : List Segment} (hreleased : Released tr (tr.release xs) segs) :
    segs.isEmpty = xs.isEmpty := by
  have hlength := hreleased.length
  rw [release_length] at hlength
  rw [Bool.eq_iff_iff, List.isEmpty_iff_length_eq_zero, List.isEmpty_iff_length_eq_zero]
  omega

/-- The packet goes up as it is, in front of everything in the queue. -/
theorem Spot.drop_iff (hspot : Spot base key b pre (p2 :: rest)) (hbof : OfFlow base key key.ports b) (hlen : b.len ≠ 0)
    (hle : b.first base ≤ p2.body.last base) :
    (∀ d ∈ segsData key.ports (pre ++ p2 :: rest), b.last base ≤ partFirst base d) ↔
      ((segsData key.ports (pre ++ [p2])).any fun c => before c.seq b.seq) = false := by
  have hbwin := hbof.window
  have hend := hbwin.last_eq
  have hpos : b.len.toNat ≠ 0 := by bv_omega
  have hwindow := data_window hspot.bodies
  have hsame : segsData key.ports (pre ++ p2 :: rest) = segsData key.ports (pre ++ [p2]) ++ segsData key.ports rest := by
    simp
  have hbodies := (bodies_append.1 hspot.bodies).2
  have hrest := data_from (bodies_cons.1 hbodies).2 (hspot.beyond_rest hlen hle)
  rw [List.any_eq_false]
  have hbefore : ∀ d ∈ segsData key.ports (pre ++ [p2]), before d.seq b.seq = true ↔ partFirst base d < b.first base := by
    intro d hd
    have hd' := hwindow d (hsame ▸ List.mem_append_left _ hd)
    exact before_iff (Nat.le_of_lt (Nat.lt_of_lt_of_le hd'.1 hd'.2)) hbwin.first_le_window
  constructor
  · intro hall d hd
    have hd' := hall d (hsame ▸ List.mem_append_left _ hd)
    rw [hbefore d hd]
    omega
  · intro hall d hd
    rw [hsame] at hd
    rcases List.mem_append.1 hd with hd | hd
    · have hnot := hall d hd
      rw [hbefore d hd] at hnot
      have hlt := (hwindow d (hsame ▸ List.mem_append_left _ hd)).1
      rw [segsData_append, List.mem_append] at hd
      rcases hd with hd | hd
      · have hpassed := hspot.front_data d hd
        omega
      · rw [segsData_cons, segsData_nil, List.append_nil] at hd
        have hp2mem : p2 ∈ pre ++ p2 :: rest := List.mem_append_right _ (List.mem_cons_self ..)
        have hwithin := (hspot.bodies p2 hp2mem).data_within hd
        have hp2len : p2.body.len ≠ 0 := by
          intro hzero
          rw [(hspot.bodies p2 hp2mem).data_nil hzero] at hd
          exact absurd hd List.not_mem_nil
        have hclear := hspot.clear hlen p2 hp2mem hp2len
        omega
    · exact hrest d hd

/-- The walk turns the packet away. -/
theorem turn_drop_placed (hturn : Turn n k b p2 rest pre inSeq tr (.inl w)) (hfate : w.fate = .normal)
    (hreleased : Released tr w.track (turnReleases b p2 rest pre inSeq))
    (hspot : Spot base key b pre (p2 :: rest)) (hbof : OfFlow base key key.ports b) :
    Placed base key.ports b (upsData key.ports tr.up) (segsData key.ports (pre ++ p2 :: rest))
      (if (turnReleases b p2 rest pre inSeq).isEmpty then
        (segsData key.ports (pre ++ [p2])).any fun c => before c.seq b.seq
      else standsBetween b p2 rest inSeq && !(p2.body.data key.ports).isEmpty) w := by
  have hbwin := hbof.window
  have hble := hbwin.first_le
  have hp2mem : p2 ∈ pre ++ p2 :: rest := List.mem_append_right _ (List.mem_cons_self ..)
  have hp2win := (hspot.bodies p2 hp2mem).window
  have hp2le := hp2win.first_le
  have hbodies := (bodies_append.1 hspot.bodies).2
  cases hturn with
  | drop hseq hwhy =>
    have hnone : turnReleases b p2 rest pre inSeq = [] := List.isEmpty_iff.1 (@Released.isEmpty_eq tr _ [] hreleased)
    have hle : b.first base ≤ p2.body.last base := by
      rcases hwhy with ⟨hseq, -⟩ | ⟨-, hseq, -⟩ | ⟨-, -, hafter⟩
      · have hmeet : b.last base = p2.body.first base := congrArg (offset base) hseq
        omega
      · exact Nat.le_of_eq (congrArg (offset base) hseq)
      · by_contra hlt
        rw [after_iff hbwin.first_le_window hp2win.last_le |>.2 (Nat.lt_of_not_le hlt)] at hafter
        cases hafter
    rw [hnone]
    refine ⟨hspot.staged, fun h => absurd hfate h, [], segsData key.ports (pre ++ p2 :: rest), rfl, by simp, fun hlen => ?_⟩
    have hiff := hspot.drop_iff hbof hlen hle
    simpa using hiff
  | dropRelease hin hwhy =>
    have hle : b.last base ≤ p2.body.first base := by
      rcases hwhy with ⟨hbefore, -⟩ | ⟨-, hseq, -⟩
      · exact Nat.le_of_lt ((before_iff hbwin.last_le hp2win.first_le_window).1 hbefore)
      · exact Nat.le_of_eq (congrArg (offset base) hseq)
    have hstands : standsBetween b p2 rest inSeq = false := by
      rcases hwhy with ⟨hbefore, -⟩ | ⟨-, -, err, hmerge, hinval, hwhy⟩
      · have hne : b.seqEnd ≠ p2.body.seq := by
          intro heq
          rw [heq, before_self] at hbefore
          cases hbefore
        rw [standsBetween, decide_eq_false hne]
        simp
      · rw [standsBetween, refusal_failed hmerge, Option.any_some, hwhy]
        simp
    have hfalse : (if (turnReleases b p2 rest pre inSeq).isEmpty then
        (segsData key.ports (pre ++ [p2])).any fun c => before c.seq b.seq
        else standsBetween b p2 rest inSeq && !(p2.body.data key.ports).isEmpty) = false := by
      rw [hreleased.isEmpty_eq, hstands, Bool.false_and]
      split
      · rename_i hpre
        rw [List.isEmpty_iff.1 hpre, List.nil_append, segsData_cons, segsData_nil, List.append_nil, List.any_eq_false]
        intro d hd
        obtain ⟨hfirst, hlt, hlast⟩ := (hspot.bodies p2 hp2mem).data_within hd
        have hlimit := hp2win.last_le
        have hd' : partFirst base d ≤ 2 ^ 30 := by omega
        rw [before_iff hd' hbwin.first_le_window]
        exact Nat.not_lt.2 (hble.trans (hle.trans hfirst))
      · rfl
    rw [hfalse]
    refine Placed.of_ordered _ _ (staged_setHeadNext.2 (staged_append.1 hspot.staged).2.1) segsData_append
      (by simp [release_data]) hspot.front_data fun _ => data_from hbodies ((hspot.beyond hle).imp fun c hc _ => hc)
  | dropReleaseTo hnot hseq hin hmerge hne hinval hwhy =>
    have hle : b.last base = p2.body.first base := congrArg (offset base) hseq
    have hsome : (turnReleases b p2 rest pre inSeq).isEmpty = false := by
      rw [hreleased.isEmpty_eq]
      simp
    rw [hsome]
    refine ⟨staged_setHeadNext.2 ?_, fun h => absurd hfate h, segsData key.ports (pre ++ [p2]), segsData key.ports rest,
      by simp, by simp [release_data], fun hlen => ?_⟩
    · exact (List.pairwise_cons.1 (staged_append.1 hspot.staged).2.1).2
    · have hstands : standsBetween b p2 rest inSeq = true := by
        have hlast : rest.isEmpty = false := by simpa using hne
        rw [standsBetween, refusal_failed hmerge, Option.any_some, hwhy, hlast, decide_eq_true hlen, decide_eq_true hin,
          decide_eq_true hseq, decide_eq_true hinval]
        rfl
      have hend := hbwin.last_eq
      have hpos : b.len.toNat ≠ 0 := by bv_omega
      have hrest : ∀ d ∈ segsData key.ports rest, b.last base ≤ partFirst base d :=
        data_from (bodies_cons.1 hbodies).2 (hspot.beyond_rest hlen (by omega))
      -- packets in `p2` are behind the packet
      have hfront : (∀ d ∈ segsData key.ports (pre ++ [p2]), partLast base d ≤ b.first base) ↔
          p2.body.data key.ports = [] := by
        rw [segsData_append, List.forall_mem_append, segsData_cons, segsData_nil, List.append_nil,
          List.eq_nil_iff_forall_not_mem]
        refine (and_iff_right hspot.front_data).trans (forall₂_congr fun d hd => ?_)
        obtain ⟨hfirst, hlt, hlast⟩ := (hspot.bodies p2 hp2mem).data_within hd
        refine iff_of_false ?_ fun h => h
        omega
      rw [and_iff_left hrest, hfront, hstands]
      simp
  | insert | mergeFront | append | appendRelease => cases hfate
  | merge hnot hseq hmerge hw =>
    rw [hw.fate_eq] at hfate
    cases hfate

/-! ### The walk -/

/-- What is released on the way is in front of the packet. -/
theorem Placed.released {kept : List Part} {overtaken : Bool} (hplaced : Placed base h b (up ++ rel) kept overtaken w)
    (hrel : ∀ d ∈ rel, partLast base d ≤ b.first base) : Placed base h b up (rel ++ kept) overtaken w := by
  obtain ⟨front, back, rfl, hdata, hiff⟩ := hplaced.data
  refine ⟨hplaced.staged, hplaced.seated, rel ++ front, back, (List.append_assoc ..).symm, ?_, fun hlen => ?_⟩
  · rw [hdata]
    simp only [List.append_assoc]
  · rw [← hiff hlen, List.forall_mem_append, and_iff_right hrel]

theorem Spot.linked (hspot : Spot base key b pre (p2 :: rest)) : Spot base key b pre (behind n pre p2 :: rest) := by
  have hbodies := hspot.bodies
  have hclear := hspot.clear
  simp only [bodies_append, bodies_cons] at hbodies hclear
  refine ⟨?_, staged_behind.2 hspot.staged, hspot.passed, ?_⟩
  · simpa only [bodies_append, bodies_cons, behind_body] using hbodies
  · simpa only [bodies_append, bodies_cons, behind_body] using hclear

theorem Spot.drop_front (hspot : Spot base key b pre post) : Spot base key b [] post :=
  ⟨(bodies_append.1 hspot.bodies).2, (staged_append.1 hspot.staged).2.1, bodies_nil,
    fun hlen => (bodies_append.1 (hspot.clear hlen)).2⟩

theorem Spot.pass (hspot : Spot base key b pre (p2 :: rest)) (hle : p2.body.last base ≤ b.first base) :
    Spot base key b (pre ++ [p2]) rest := by
  have hsame : pre ++ [p2] ++ rest = pre ++ p2 :: rest := (List.append_cons ..).symm
  refine ⟨?_, ?_, bodies_append.2 ⟨hspot.passed, bodies_cons.2 ⟨hle, bodies_nil⟩⟩, ?_⟩
  · rw [hsame]
    exact hspot.bodies
  · rw [hsame]
    exact hspot.staged
  · rw [hsame]
    exact hspot.clear

/-- **The walk puts the packet between what it belongs behind and what it belongs in front of, or it overtakes.** -/
theorem walkSegs_placed (hbof : OfFlow base key key.ports b) (hne : post ≠ []) (hspot : Spot base key b pre post)
    (hwalk : walkSegs n k b post pre inSeq tr = .ok w) :
    Placed base key.ports b (upsData key.ports tr.up) (segsData key.ports (pre ++ post))
      (overtakes key.ports b post pre inSeq) w := by
  induction post generalizing pre inSeq tr with
  | nil => exact absurd rfl hne
  | cons p2 rest ih =>
    have hspot := hspot.linked (n := n)
    rw [walkSegs] at hwalk
    have hpost : (p2 :: rest).map Seg.body = (behind n pre p2 :: rest).map Seg.body := by simp
    have hqueue : (pre ++ p2 :: rest).map Seg.body = (pre ++ behind n pre p2 :: rest).map Seg.body := by simp
    rw [segsData_congr hqueue, overtakes_congr hpost rfl]
    generalize behind n pre p2 = p2 at hwalk hspot ⊢
    rw [overtakes]
    cases hz : turnSegs n k b p2 rest pre inSeq tr with
    | error e =>
      rw [hz] at hwalk
      cases hwalk
    | ok z =>
      rw [hz] at hwalk
      have hturns := turnSegs_turnsTo hz
      have hturn := turnSegs_ok hz
      obtain w' | ⟨pre', tr'⟩ := z
      · cases hwalk
        obtain ⟨hreleased, hstop⟩ := hturns.left _ rfl
        have haway := leave_turnedAway hturn
        simp only [hstop, haway]
        by_cases hfate : w.fate = .normal
        · simpa [hfate] using turn_drop_placed hturn hfate hreleased hspot hbof
        · simpa [hfate] using turn_held_placed hturn hfate hspot hbof
      · obtain ⟨-, hgoes, hpre⟩ := hturns.right _ _ rfl
        have hp2win := (hspot.bodies p2 (List.mem_append_right _ (List.mem_cons_self ..))).window
        have hpass := hspot.pass (goesOn_last hgoes hbof.window hp2win)
        simp only [hgoes, if_true, ← hpre]
        cases hturn with
        | pass hrest hnot hseq =>
          have hplaced := ih hrest hpass hwalk
          rwa [← List.append_cons] at hplaced
        | passRelease hrest hnot hseq hin hmerge hinval =>
          have hplaced := ih hrest hpass.drop_front hwalk
          rw [release_data] at hplaced
          rw [List.append_cons, segsData_append]
          exact hplaced.released hpass.front_data

/-- Nothing reaches further than before, or than the packet. -/
theorem walkSegs_upto (hb : b.last base ≤ m) (hsegs : Bodies (fun c => c.last base ≤ m) segs)
    (hwalk : walkSegs n k b segs [] inSeq tr = .ok w) : Bodies (fun c => c.last base ≤ m) w.segs := by
  have hrule : HeldRule (fun _ => False) fun (_ : Unit) (c : Skb) => c.last base ≤ m :=
    { pull := fun _ c hc => by rw [pull_ends.2.1]; exact hc
      merge := fun _ p skb p' skb' _ hskb hseq hmerge => by
        rw [Body.last, (skbGroMerge_seqEnd hseq hmerge).2]
        exact hskb
      fresh := fun _ _ _ _ hC => hC.elim
      join := fun _ _ _ _ _ _ _ _ hC => hC.elim }
  exact (@walkSegs_keeps Unit _ _ () _ _ _ _ _ _ (fun _ => True) hrule (fun _ _ _ _ => trivial) _ hb trivial hsegs hwalk).1

end

end PacketReordering.Linux41
