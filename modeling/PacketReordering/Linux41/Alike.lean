import PacketReordering.Linux41.Arrivals
import PacketReordering.Linux41.Complete

/-!
# `linux-4.1`: what the walk looks at

`tcp_gro_receive` and `dev_gro_complete` look at the buffers of a queue, not at where they lie: on two queues with the same
buffers they do the same.  Of the segments that go up only those with the ports `h` are compared.

* `SegsAlike`, `upView` — queues with the same buffers, and what goes up;
* `walkSegs_alike` — the walk along two such queues;
* `completeFlow_alike` — `dev_gro_complete` on two such queues.
-/

namespace PacketReordering.Linux41

open Lib Gro

/-- The buffer of a segment, and if it is the packet `k`. -/
def segView (k : SkbId) (x : Segment) : Skb × Bool := (x.body, decide (x.id = k))

/-- The queues have the same buffers, and the packet, `k` in one and `k'` in the other, is in the same place. -/
def SegsAlike (k k' : SkbId) (xs ys : List Segment) : Prop := xs.map (segView k) = ys.map (segView k')

/-- What went up with the ports `h`, and on which way. -/
def upView (h : U32) (us : List (Up GsoEnd)) : List (Via × Skb) :=
  (us.filter fun u => u.body.tcp.ports == h).map fun u => (u.via, u.body)

structure TrackAlike (h : U32) (tr tr' : Track) : Prop where
  dat : tr.dat = tr'.dat
  ktime : tr.clock.ktime = tr'.clock.ktime
  up : upView h tr.up = upView h tr'.up

structure WalkedAlike (h : U32) (k k' : SkbId) (w w' : Walked) : Prop where
  track : TrackAlike h w.track w'.track
  segs : SegsAlike k k' w.segs w'.segs
  fate : w.fate = w'.fate

/-- The same of what a turn of the walk comes to. -/
def TurnAlike (h : U32) (k k' : SkbId) : Walked ⊕ (List Segment × Track) → Walked ⊕ (List Segment × Track) → Prop
  | .inl w, .inl w' => WalkedAlike h k k' w w'
  | .inr r, .inr r' => SegsAlike k k' r.1 r'.1 ∧ TrackAlike h r.2 r'.2
  | _, _ => False

variable {h : U32} {k k' : SkbId} {n n' : Option SkbId} {b : Skb} {tr tr' : Track} {x y p2 p2' new new' : Segment}
  {xs ys xs' ys' pre pre' rest rest' : List Segment} {inSeq seq2 : U32} {d : Dat} {us us' vs vs' : List (Up GsoEnd)}

/-! ### Queues with the same buffers -/

theorem SegsAlike.nil : SegsAlike k k' [] [] := rfl

theorem SegsAlike.cons (hx : segView k x = segView k' y) (hxs : SegsAlike k k' xs ys) :
    SegsAlike k k' (x :: xs) (y :: ys) := by
  unfold SegsAlike
  rw [List.map_cons, List.map_cons, hx, hxs]

theorem SegsAlike.append (hxs : SegsAlike k k' xs ys) (hxs' : SegsAlike k k' xs' ys') :
    SegsAlike k k' (xs ++ xs') (ys ++ ys') := by
  unfold SegsAlike
  rw [List.map_append, List.map_append, hxs, hxs']

theorem SegsAlike.concat (hxs : SegsAlike k k' xs ys) (hx : segView k x = segView k' y) :
    SegsAlike k k' (xs ++ [x]) (ys ++ [y]) := hxs.append (SegsAlike.cons hx SegsAlike.nil)

theorem SegsAlike.setHeadNext (hxs : SegsAlike k k' xs ys) :
    SegsAlike k k' (setHeadNext n xs) (setHeadNext n' ys) := by
  have hmap : ∀ (j : SkbId) (m : Option SkbId) (zs : List Segment),
      (Gro.setHeadNext m zs).map (segView j) = zs.map (segView j) := by
    intro j m zs
    cases zs <;> rfl
  unfold SegsAlike
  rw [hmap, hmap]
  exact hxs

theorem SegsAlike.eq_nil_iff (hxs : SegsAlike k k' xs ys) : xs = [] ↔ ys = [] := by
  rw [← List.map_eq_nil_iff (f := segView k), hxs, List.map_eq_nil_iff]

theorem segView_behind : segView k (behind n pre x) = segView k x := by
  unfold behind
  split <;> rfl

theorem segView_body (hx : segView k x = segView k' y) : x.body = y.body := congrArg Prod.fst hx

/-- The buffer of a segment is replaced. -/
theorem segView_setBody (hx : segView k x = segView k' y) {c : Skb} :
    segView k { x with body := c } = segView k' { y with body := c } := by
  rw [segView, segView, Prod.mk.injEq] at hx ⊢
  exact ⟨rfl, hx.2⟩

theorem SegsAlike.bodies (hxs : SegsAlike k k' xs ys) : xs.map Seg.body = ys.map Seg.body := by
  have hmap := congrArg (List.map Prod.fst) hxs
  rw [List.map_map, List.map_map] at hmap
  exact hmap

/-- The packet is in neither of the queues. -/
theorem SegsAlike.of_bodies (hxs : xs.map Seg.body = ys.map Seg.body) (hk : ∀ x ∈ xs, x.id ≠ k) (hk' : ∀ y ∈ ys, y.id ≠ k') :
    SegsAlike k k' xs ys := by
  have hmap : ∀ (j : SkbId) (zs : List Segment), (∀ z ∈ zs, z.id ≠ j) →
      zs.map (segView j) = (zs.map Seg.body).map fun c => (c, false) := by
    intro j zs hzs
    rw [List.map_map]
    refine List.map_congr_left fun z hz => ?_
    rw [segView, decide_eq_false (hzs z hz)]
    rfl
  unfold SegsAlike
  rw [hmap k xs hk, hmap k' ys hk', hxs]

theorem SegsAlike.pull (hxs : SegsAlike k k' xs ys) :
    (xs.map (pullSeg k)).map Seg.body = (ys.map (pullSeg k')).map Seg.body := by
  have hmap : ∀ (j : SkbId) (zs : List Segment), (zs.map (pullSeg j)).map Seg.body =
      (zs.map (segView j)).map fun v => if v.2 then v.1.pull else v.1 := by
    intro j zs
    rw [List.map_map, List.map_map]
    refine List.map_congr_left fun z _ => ?_
    rw [Function.comp_apply, Function.comp_apply, segView, pullSeg]
    by_cases hz : z.id = j <;> simp [hz]
  rw [hmap, hmap, hxs]

/-! ### What goes up -/

theorem upView_append : upView h (us ++ vs) = upView h us ++ upView h vs := by
  rw [upView, List.filter_append, List.map_append]
  rfl

/-- Segments that go up with the same buffers. -/
theorem upView_of_map (hus : us.map (fun u => (u.via, u.body)) = vs.map fun u => (u.via, u.body)) :
    upView h us = upView h vs := by
  have hfilter : ∀ ws : List (Up GsoEnd),
      upView h ws = (ws.map fun u => (u.via, u.body)).filter fun v => v.2.tcp.ports == h := by
    intro ws
    rw [List.filter_map]
    rfl
  rw [hfilter, hfilter, hus]

theorem flushSegs_alike (hxs : xs.map Seg.body = ys.map Seg.body) :
    (flushSegs d xs).1 = (flushSegs d ys).1 ∧
      (flushSegs d xs).2.map (fun u => (u.via, u.body)) = (flushSegs d ys).2.map fun u => (u.via, u.body) := by
  induction xs generalizing d ys with
  | nil =>
    rw [List.map_eq_nil_iff.1 hxs.symm]
    exact ⟨rfl, rfl⟩
  | cons x xs ih =>
    obtain ⟨y, ys, rfl, hy, hys⟩ := List.map_eq_cons_iff.1 hxs.symm
    obtain ⟨hdat, hup⟩ := ih (d := d.setSeqNext x.body.seqEnd) hys.symm
    rw [flushSegs, flushSegs, hy]
    refine ⟨hdat, ?_⟩
    simp only [List.map_cons, hup, Seg.up, hy]

theorem TrackAlike.release (htr : TrackAlike h tr tr') (hxs : SegsAlike k k' xs ys) :
    TrackAlike h (tr.release xs) (tr'.release ys) := by
  unfold Track.release
  by_cases hnil : xs = []
  · rw [if_pos hnil, if_pos (hxs.eq_nil_iff.1 hnil)]
    exact htr
  · rw [if_neg hnil, if_neg (fun hys => hnil (hxs.eq_nil_iff.2 hys))]
    have hdat : ({ tr.dat with ext := tr.dat.ext.setFlushed (tr.clock.ktime 0) } : Dat) =
        { tr'.dat with ext := tr'.dat.ext.setFlushed (tr'.clock.ktime 0) } := by rw [htr.dat, htr.ktime]
    obtain ⟨hflush, hup⟩ := flushSegs_alike (d := { tr'.dat with ext := tr'.dat.ext.setFlushed (tr'.clock.ktime 0) }) hxs.bodies
    refine ⟨?_, ?_, ?_⟩
    · rw [Track.flush, hdat]
      exact hflush
    · show (tr.clock.tickKtime).ktime = (tr'.clock.tickKtime).ktime
      unfold Clock.tickKtime
      rw [htr.ktime]
    · rw [Track.flush, hdat]
      show upView h (tr.up ++ _) = upView h (tr'.up ++ _)
      rw [upView_append, upView_append, htr.up, upView_of_map hup]

/-! ### A turn of the walk -/

theorem mergeInFrontSegs_alike (htr : TrackAlike h tr tr') (hpre : SegsAlike k k' pre pre')
    (hnew : segView k new = segView k' new') (hp2 : segView k p2 = segView k' p2') (hrest : SegsAlike k k' rest rest') :
    Agree (WalkedAlike h k k') (mergeInFrontSegs n b tr pre new p2 rest inSeq)
      (mergeInFrontSegs n' b tr' pre' new' p2' rest' inSeq) := by
  have hbody := segView_body hp2
  have hall : SegsAlike k k' (pre ++ p2 :: rest) (pre' ++ p2' :: rest') := hpre.append (SegsAlike.cons hp2 hrest)
  have hfront : SegsAlike k k' (pre ++ [p2]) (pre' ++ [p2']) := hpre.concat hp2
  unfold mergeInFrontSegs
  rw [hbody]
  cases skbGroMerge b p2'.body with
  | overrun => exact rfl
  | merged b' c =>
    exact ⟨htr, hpre.append (SegsAlike.cons (segView_setBody hnew) hrest), rfl⟩
  | failed err =>
    have hleave : Agree (WalkedAlike h k k')
        (if inSeq ≠ b.seq then .ok ⟨tr, pre ++ new :: p2 :: rest, .held⟩
          else if err = .tooBig || p2'.body.tcp.psh || p2'.body.ext then
            if rest = [] then .ok ⟨tr, pre ++ [p2], .normal⟩
            else .ok ⟨tr.release (pre ++ [p2]), setHeadNext n rest, .normal⟩
          else .ok ⟨tr.release pre, setHeadNext n (p2 :: rest), .normal⟩)
        (if inSeq ≠ b.seq then .ok ⟨tr', pre' ++ new' :: p2' :: rest', .held⟩
          else if err = .tooBig || p2'.body.tcp.psh || p2'.body.ext then
            if rest' = [] then .ok ⟨tr', pre' ++ [p2'], .normal⟩
            else .ok ⟨tr'.release (pre' ++ [p2']), setHeadNext n' rest', .normal⟩
          else .ok ⟨tr'.release pre', setHeadNext n' (p2' :: rest'), .normal⟩ : Except Fault Walked) := by
      by_cases hseq : inSeq ≠ b.seq
      · rw [if_pos hseq, if_pos hseq]
        exact ⟨htr, hpre.append (SegsAlike.cons hnew (SegsAlike.cons hp2 hrest)), rfl⟩
      · rw [if_neg hseq, if_neg hseq]
        by_cases hwhy : (err = .tooBig || p2'.body.tcp.psh || p2'.body.ext) = true
        · rw [if_pos hwhy, if_pos hwhy]
          by_cases hnil : rest = []
          · rw [if_pos hnil, if_pos (hrest.eq_nil_iff.1 hnil)]
            exact ⟨htr, hfront, rfl⟩
          · rw [if_neg hnil, if_neg (fun hys => hnil (hrest.eq_nil_iff.2 hys))]
            exact ⟨htr.release hfront, hrest.setHeadNext, rfl⟩
        · rw [if_neg hwhy, if_neg hwhy]
          exact ⟨htr.release hpre, (SegsAlike.cons hp2 hrest).setHeadNext, rfl⟩
    cases err with
    | inval => exact ⟨htr, hall, rfl⟩
    | tooBig | fail => exact hleave

theorem mergedBehindSegs_alike (htr : TrackAlike h tr tr') (hpre : SegsAlike k k' pre pre')
    (hp2 : segView k p2 = segView k' p2') (hrest : SegsAlike k k' rest rest') :
    Agree (WalkedAlike h k k') (mergedBehindSegs n b tr pre p2 rest inSeq seq2)
      (mergedBehindSegs n' b tr' pre' p2' rest' inSeq seq2) := by
  have hbody := segView_body hp2
  have hfront : SegsAlike k k' (pre ++ [p2]) (pre' ++ [p2']) := hpre.concat hp2
  unfold mergedBehindSegs
  rw [hbody]
  by_cases hpsh : (decide (inSeq = seq2) && p2'.body.tcp.psh) = true
  · rw [if_pos hpsh, if_pos hpsh]
    by_cases hnil : rest = []
    · rw [if_pos hnil, if_pos (hrest.eq_nil_iff.1 hnil)]
      exact ⟨htr, hfront, rfl⟩
    · rw [if_neg hnil, if_neg (fun hys => hnil (hrest.eq_nil_iff.2 hys))]
      exact ⟨htr.release hfront, hrest.setHeadNext, rfl⟩
  · rw [if_neg hpsh, if_neg hpsh]
    cases rest with
    | nil =>
      rw [hrest.eq_nil_iff.1 rfl]
      exact ⟨htr, hfront, rfl⟩
    | cons p3 rest =>
      obtain ⟨p3', rest', rfl, hp3, hrest⟩ := List.map_eq_cons_iff.1 (Eq.symm hrest)
      have hp3 := hp3.symm
      have hrest : SegsAlike k k' rest rest' := hrest.symm
      have hbody3 := segView_body hp3
      have hall : SegsAlike k k' (pre ++ p2 :: p3 :: rest) (pre' ++ p2' :: p3' :: rest') :=
        hpre.append (SegsAlike.cons hp2 (SegsAlike.cons hp3 hrest))
      simp only
      rw [hbody3]
      by_cases hseq : b.seqEnd = p3'.body.seq
      · rw [if_pos hseq, if_pos hseq]
        cases skbGroMerge p2'.body p3'.body with
        | overrun => exact rfl
        | failed err =>
          have hleave : Agree (WalkedAlike h k k')
              (if inSeq = seq2 then .ok ⟨tr.release (pre ++ [p2]), setHeadNext n (p3 :: rest), .merged⟩
                else .ok ⟨tr, pre ++ p2 :: p3 :: rest, .merged⟩)
              (if inSeq = seq2 then .ok ⟨tr'.release (pre' ++ [p2']), setHeadNext n' (p3' :: rest'), .merged⟩
                else .ok ⟨tr', pre' ++ p2' :: p3' :: rest', .merged⟩ : Except Fault Walked) := by
            by_cases hin : inSeq = seq2
            · rw [if_pos hin, if_pos hin]
              exact ⟨htr.release hfront, (SegsAlike.cons hp3 hrest).setHeadNext, rfl⟩
            · rw [if_neg hin, if_neg hin]
              exact ⟨htr, hall, rfl⟩
          cases err with
          | inval => exact ⟨htr, hall, rfl⟩
          | tooBig | fail => exact hleave
        | merged b3 c =>
          have hfront3 := hpre.concat (segView_setBody (c := b3) hp2)
          simp only
          by_cases hin : (decide (inSeq = seq2) && b3.tcp.psh) = true
          · rw [if_pos hin, if_pos hin]
            by_cases hnil : rest = []
            · rw [if_pos hnil, if_pos (hrest.eq_nil_iff.1 hnil)]
              exact ⟨htr, hfront3, rfl⟩
            · rw [if_neg hnil, if_neg (fun hys => hnil (hrest.eq_nil_iff.2 hys))]
              exact ⟨htr.release hfront3, hrest.setHeadNext, rfl⟩
          · rw [if_neg hin, if_neg hin]
            exact ⟨htr, hpre.append (SegsAlike.cons (segView_setBody hp2) hrest), rfl⟩
      · rw [if_neg hseq, if_neg hseq]
        exact ⟨htr, hall, rfl⟩

/-- The two come to something together. -/
theorem Agree.inl {w w' : Except Fault Walked} (hw : Agree (WalkedAlike h k k') w w') :
    Agree (TurnAlike h k k') (w.map .inl) (w'.map .inl) := by
  cases w with
  | error e =>
    cases w' with
    | error e' => exact hw
    | ok v' => exact hw.elim
  | ok v =>
    cases w' with
    | error e' => exact hw.elim
    | ok v' => exact hw

theorem turnSegs_alike (n n' : Option SkbId) (b : Skb) (inSeq : U32) (htr : TrackAlike h tr tr') (hpre : SegsAlike k k' pre pre')
    (hp2 : segView k p2 = segView k' p2') (hrest : SegsAlike k k' rest rest') :
    Agree (TurnAlike h k k') (turnSegs n k b p2 rest pre inSeq tr) (turnSegs n' k' b p2' rest' pre' inSeq tr') := by
  have hbody := segView_body hp2
  have hself : ∀ m m' : Option SkbId, segView k ⟨k, m, b⟩ = segView k' ⟨k', m', b⟩ := by
    intro m m'
    simp [segView]
  have hnew : segView k (behind n pre ⟨k, none, b⟩) = segView k' (behind n' pre' ⟨k', none, b⟩) := by
    rw [segView_behind, segView_behind]
    exact hself _ _
  have hall : SegsAlike k k' (pre ++ p2 :: rest) (pre' ++ p2' :: rest') := hpre.append (SegsAlike.cons hp2 hrest)
  have hfront : SegsAlike k k' (pre ++ [p2]) (pre' ++ [p2']) := hpre.concat hp2
  have hlast : SegsAlike k k' (pre ++ [p2, ⟨k, none, b⟩]) (pre' ++ [p2', ⟨k', none, b⟩]) :=
    hpre.append (SegsAlike.cons hp2 (SegsAlike.cons (hself _ _) SegsAlike.nil))
  have hnil := hrest.eq_nil_iff
  unfold turnSegs
  simp only
  rw [hbody]
  by_cases hbefore : before b.seqEnd p2'.body.seq = true
  · rw [if_pos hbefore, if_pos hbefore]
    by_cases hpsh : (b.tcp.psh && b.seq == inSeq) = true
    · rw [if_pos hpsh, if_pos hpsh]
      exact ⟨htr.release hpre, (SegsAlike.cons hp2 hrest).setHeadNext, rfl⟩
    · rw [if_neg hpsh, if_neg hpsh]
      exact ⟨htr, hpre.append (SegsAlike.cons hnew (SegsAlike.cons hp2 hrest)), rfl⟩
  rw [if_neg hbefore, if_neg hbefore]
  by_cases hfrontOf : b.seqEnd = p2'.body.seq
  · rw [if_pos hfrontOf, if_pos hfrontOf]
    exact Agree.inl (mergeInFrontSegs_alike htr hpre hnew hp2 hrest)
  rw [if_neg hfrontOf, if_neg hfrontOf]
  by_cases hbehind : b.seq = p2'.body.seqEnd
  · rw [if_pos hbehind, if_pos hbehind]
    cases skbGroMerge p2'.body b with
    | overrun => exact rfl
    | merged b2 c => exact Agree.inl (mergedBehindSegs_alike htr hpre (segView_setBody hp2) hrest)
    | failed err =>
      have hleave : Agree (TurnAlike h k k')
          (if rest = [] then
            if inSeq = p2'.body.seq && b.tcp.psh then .ok (.inl ⟨tr, pre ++ [p2], .normal⟩)
            else if inSeq = p2'.body.seq then .ok (.inl ⟨tr.release (pre ++ [p2]), [⟨k, n, b⟩], .held⟩)
            else .ok (.inl ⟨tr, pre ++ [p2, ⟨k, none, b⟩], .held⟩)
          else if inSeq = p2'.body.seq then .ok (.inr ([], tr.release (pre ++ [p2])))
          else .ok (.inr (pre ++ [p2], tr)))
          (if rest' = [] then
            if inSeq = p2'.body.seq && b.tcp.psh then .ok (.inl ⟨tr', pre' ++ [p2'], .normal⟩)
            else if inSeq = p2'.body.seq then .ok (.inl ⟨tr'.release (pre' ++ [p2']), [⟨k', n', b⟩], .held⟩)
            else .ok (.inl ⟨tr', pre' ++ [p2', ⟨k', none, b⟩], .held⟩)
          else if inSeq = p2'.body.seq then .ok (.inr ([], tr'.release (pre' ++ [p2'])))
          else .ok (.inr (pre' ++ [p2'], tr')) : Except Fault (Walked ⊕ (List Segment × Track))) := by
        by_cases hend : rest = []
        · rw [if_pos hend, if_pos (hnil.1 hend)]
          by_cases hpsh : (decide (inSeq = p2'.body.seq) && b.tcp.psh) = true
          · rw [if_pos hpsh, if_pos hpsh]
            exact ⟨htr, hfront, rfl⟩
          · rw [if_neg hpsh, if_neg hpsh]
            by_cases hin : inSeq = p2'.body.seq
            · rw [if_pos hin, if_pos hin]
              exact ⟨htr.release hfront, SegsAlike.cons (hself _ _) SegsAlike.nil, rfl⟩
            · rw [if_neg hin, if_neg hin]
              exact ⟨htr, hlast, rfl⟩
        · rw [if_neg hend, if_neg (fun hys => hend (hnil.2 hys))]
          by_cases hin : inSeq = p2'.body.seq
          · rw [if_pos hin, if_pos hin]
            exact ⟨SegsAlike.nil, htr.release hfront⟩
          · rw [if_neg hin, if_neg hin]
            exact ⟨hfront, htr⟩
      cases err with
      | inval => exact ⟨htr, hall, rfl⟩
      | tooBig | fail => exact hleave
  rw [if_neg hbehind, if_neg hbehind]
  by_cases hafter : after b.seq p2'.body.seqEnd = true
  · rw [if_pos hafter, if_pos hafter]
    by_cases hend : rest = []
    · rw [if_pos hend, if_pos (hnil.1 hend)]
      exact ⟨htr, hlast, rfl⟩
    · rw [if_neg hend, if_neg (fun hys => hend (hnil.2 hys))]
      exact ⟨hfront, htr⟩
  · rw [if_neg hafter, if_neg hafter]
    exact ⟨htr, hall, rfl⟩

/-! ### The walk and `dev_gro_complete` -/

/-- **The walk looks at the buffers only.** -/
theorem walkSegs_alike (htr : TrackAlike h tr tr') (hpre : SegsAlike k k' pre pre') (hxs : SegsAlike k k' xs ys) :
    Agree (WalkedAlike h k k') (walkSegs n k b xs pre inSeq tr) (walkSegs n' k' b ys pre' inSeq tr') := by
  induction xs generalizing ys pre pre' inSeq tr tr' with
  | nil =>
    rw [hxs.eq_nil_iff.1 rfl]
    exact ⟨htr, hpre, rfl⟩
  | cons p2 rest ih =>
    obtain ⟨p2', rest', rfl, hp2, hrest⟩ := List.map_eq_cons_iff.1 (Eq.symm hxs)
    have hrest : SegsAlike k k' rest rest' := hrest.symm
    have hbehind : segView k (behind n pre p2) = segView k' (behind n' pre' p2') := by
      rw [segView_behind, segView_behind, hp2]
    have hturn := turnSegs_alike n n' b inSeq htr hpre hbehind hrest
    rw [walkSegs, walkSegs, segView_body hbehind]
    cases hfirst : turnSegs n k b (behind n pre p2) rest pre inSeq tr with
    | error e =>
      cases hsecond : turnSegs n' k' b (behind n' pre' p2') rest' pre' inSeq tr' with
      | error e' =>
        rw [hfirst, hsecond] at hturn
        exact hturn
      | ok r' =>
        rw [hfirst, hsecond] at hturn
        exact hturn.elim
    | ok r =>
      rw [hfirst] at hturn
      obtain ⟨r', hsecond, hr⟩ := hturn.exists_ok
      rw [hsecond]
      cases r with
      | inl w =>
        cases r' with
        | inl w' => exact hr
        | inr r' => exact hr.elim
      | inr r =>
        cases r' with
        | inl w' => exact hr.elim
        | inr r' => exact ih hr.2 hr.1 hrest

/-- The data of the queue, what went up and the buffers left are the same. -/
def CompleteAlike (r r' : Dat × List (Up GsoEnd) × List Segment) : Prop :=
  r.1 = r'.1 ∧ r.2.1.map (fun u => (u.via, u.body)) = r'.2.1.map (fun u => (u.via, u.body)) ∧
    r.2.2.map Seg.body = r'.2.2.map Seg.body

theorem completeSegs_alike {cond : Dat → SkbId → Skb → Bool} (hcond : ∀ d i j c, cond d i c = cond d j c)
    (hxs : xs.map Seg.body = ys.map Seg.body) : CompleteAlike (completeSegs cond d xs) (completeSegs cond d ys) := by
  induction xs generalizing d ys with
  | nil =>
    rw [List.map_eq_nil_iff.1 hxs.symm]
    exact ⟨rfl, rfl, rfl⟩
  | cons x xs ih =>
    obtain ⟨y, ys, rfl, hy, hys⟩ := List.map_eq_cons_iff.1 hxs.symm
    rw [completeSegs, completeSegs, hy, hcond d y.id x.id x.body]
    by_cases hgo : cond d x.id x.body = true
    · rw [if_pos hgo, if_pos hgo]
      obtain ⟨hdat, hup, hleft⟩ := ih (d := d.setSeqNext (maxSeq d.seqNext x.body.seqEnd)) hys.symm
      refine ⟨hdat, ?_, hleft⟩
      simp only [List.map_cons, hup, Seg.up, hy]
    · rw [if_neg hgo, if_neg hgo]
      exact ⟨rfl, rfl, hxs⟩

/-- **`dev_gro_complete` looks at the buffers only.** -/
theorem completeFlow_alike (flushOld : Bool) (groOfoTimeout groInseqTimeout timestamp : U64)
    (hxs : xs.map Seg.body = ys.map Seg.body) :
    CompleteAlike (completeFlow flushOld groOfoTimeout groInseqTimeout timestamp d xs)
      (completeFlow flushOld groOfoTimeout groInseqTimeout timestamp d ys) := by
  cases xs with
  | nil =>
    rw [List.map_eq_nil_iff.1 hxs.symm]
    exact ⟨rfl, rfl, rfl⟩
  | cons x xs =>
    obtain ⟨y, ys, rfl, hy, hys⟩ := List.map_eq_cons_iff.1 hxs.symm
    have hstamp : ∀ r r', CompleteAlike r r' → CompleteAlike (stamp timestamp r) (stamp timestamp r') := by
      rintro ⟨d, us, zs⟩ ⟨d', us', zs'⟩ ⟨rfl, hup, hleft⟩
      have hempty : us.isEmpty = us'.isEmpty := by
        rw [← List.isEmpty_map (f := fun u : Up GsoEnd => (u.via, u.body)), hup, List.isEmpty_map]
      unfold stamp
      simp only [hempty]
      split
      · exact ⟨rfl, hup, hleft⟩
      · exact ⟨rfl, hup, hleft⟩
    simp only [completeFlow, ← stamp.eq_def, hy]
    refine hstamp _ _ ?_
    split
    · exact completeSegs_alike (fun _ _ _ _ => rfl) hxs
    · split
      · exact completeSegs_alike (fun _ _ _ _ => rfl) hxs
      · exact ⟨rfl, rfl, hxs⟩

end PacketReordering.Linux41
