import PacketReordering.Linux41.Lists

/-!
# `linux-4.1`: what a turn of the walk can do

* `Behind`, `Turn` — the ways in which `mergedBehindSegs` and `turnSegs` can end;
* `turnSegs_ok`, `turnSegs_error` — there are no others, and the only fault is the one of the copy loop;
* `walkSegs_induct`, `walkSegs_track` — rules for properties of the whole walk.
-/

namespace PacketReordering.Linux41

open Gro

variable {n : Option SkbId} {k : SkbId} {b : Skb} {p2 : Segment} {rest pre : List Segment} {inSeq seq2 : U32}
  {tr : Track}

/-- The segment `p2` has taken the payload of the packet. -/
inductive Behind (n : Option SkbId) (b : Skb) (tr : Track) (pre : List Segment) (p2 : Segment) (rest : List Segment)
    (inSeq seq2 : U32) : Walked → Prop
  | stay (hwhy : rest = [] ∨ (decide (inSeq = seq2) && p2.body.tcp.psh) = false) :
    Behind n b tr pre p2 rest inSeq seq2 ⟨tr, pre ++ p2 :: rest, .merged⟩
  | release (hin : inSeq = seq2) (hrest : rest ≠ [])
      (hwhy : p2.body.tcp.psh = true ∨ ∃ p3 ps err, rest = p3 :: ps ∧ b.seqEnd = p3.body.seq ∧
        skbGroMerge p2.body p3.body = .failed err ∧ err ≠ .inval) :
    Behind n b tr pre p2 rest inSeq seq2 ⟨tr.release (pre ++ [p2]), setHeadNext n rest, .merged⟩
  | bridge {p3 : Segment} {ps : List Segment} {b3 s3 : Skb} (hrest : rest = p3 :: ps) (hseq : b.seqEnd = p3.body.seq)
      (hmerge : skbGroMerge p2.body p3.body = .merged b3 s3) :
    Behind n b tr pre p2 rest inSeq seq2 ⟨tr, pre ++ { p2 with body := b3 } :: ps, .merged⟩
  | bridgeRelease {p3 : Segment} {ps : List Segment} {b3 s3 : Skb} (hrest : rest = p3 :: ps)
      (hseq : b.seqEnd = p3.body.seq) (hmerge : skbGroMerge p2.body p3.body = .merged b3 s3) (hin : inSeq = seq2)
      (hpsh : b3.tcp.psh = true) (hps : ps ≠ []) :
    Behind n b tr pre p2 rest inSeq seq2
      ⟨tr.release (pre ++ [{ p2 with body := b3 }]), setHeadNext n ps, .merged⟩

/-- A turn of the walk at the segment `p2`. -/
inductive Turn (n : Option SkbId) (k : SkbId) (b : Skb) (p2 : Segment) (rest pre : List Segment) (inSeq : U32)
    (tr : Track) : Walked ⊕ (List Segment × Track) → Prop
  | drop (hseq : before b.seqEnd p2.body.seq = false)
      (hwhy : (b.seqEnd = p2.body.seq ∧ ∃ err, skbGroMerge b p2.body = .failed err ∧
          (err = .inval ∨ rest = [] ∧ inSeq = b.seq)) ∨
        (b.seqEnd ≠ p2.body.seq ∧ b.seq = p2.body.seqEnd ∧ ∃ err, skbGroMerge p2.body b = .failed err ∧
          (err = .inval ∨ rest = [] ∧ inSeq = p2.body.seq ∧ b.tcp.psh = true)) ∨
        (b.seqEnd ≠ p2.body.seq ∧ b.seq ≠ p2.body.seqEnd ∧ after b.seq p2.body.seqEnd = false)) :
    Turn n k b p2 rest pre inSeq tr (.inl ⟨tr, pre ++ p2 :: rest, .normal⟩)
  | dropRelease (hin : inSeq = b.seq)
      (hwhy : before b.seqEnd p2.body.seq = true ∧ b.tcp.psh = true ∨
        before b.seqEnd p2.body.seq = false ∧ b.seqEnd = p2.body.seq ∧ ∃ err, skbGroMerge b p2.body = .failed err ∧
          err ≠ .inval ∧ (err = .tooBig || p2.body.tcp.psh || p2.body.ext) = false) :
    Turn n k b p2 rest pre inSeq tr (.inl ⟨tr.release pre, setHeadNext n (p2 :: rest), .normal⟩)
  | dropReleaseTo {err : MergeError} (hnot : before b.seqEnd p2.body.seq = false) (hseq : b.seqEnd = p2.body.seq)
      (hin : inSeq = b.seq) (hmerge : skbGroMerge b p2.body = .failed err) (hrest : rest ≠ []) (hne : err ≠ .inval)
      (hwhy : (err = .tooBig || p2.body.tcp.psh || p2.body.ext) = true) :
    Turn n k b p2 rest pre inSeq tr (.inl ⟨tr.release (pre ++ [p2]), setHeadNext n rest, .normal⟩)
  | insert
      (hseq : before b.seqEnd p2.body.seq = true ∧ (b.tcp.psh && b.seq == inSeq) = false ∨
        before b.seqEnd p2.body.seq = false ∧ b.seqEnd = p2.body.seq ∧ inSeq ≠ b.seq ∧
          ∃ err, skbGroMerge b p2.body = .failed err ∧ err ≠ .inval) :
    Turn n k b p2 rest pre inSeq tr (.inl ⟨tr, pre ++ behind n pre ⟨k, none, b⟩ :: p2 :: rest, .held⟩)
  | mergeFront {b' s' : Skb} (hnot : before b.seqEnd p2.body.seq = false) (hseq : b.seqEnd = p2.body.seq)
      (hmerge : skbGroMerge b p2.body = .merged b' s') :
    Turn n k b p2 rest pre inSeq tr
      (.inl ⟨tr, pre ++ { behind n pre ⟨k, none, b⟩ with body := b' } :: rest, .held⟩)
  | append (hrest : rest = []) (hnot : before b.seqEnd p2.body.seq = false ∧ b.seqEnd ≠ p2.body.seq)
      (hseq : (b.seq = p2.body.seqEnd ∧ inSeq ≠ p2.body.seq ∧
          ∃ err, skbGroMerge p2.body b = .failed err ∧ err ≠ .inval) ∨
        (b.seq ≠ p2.body.seqEnd ∧ after b.seq p2.body.seqEnd = true)) :
    Turn n k b p2 rest pre inSeq tr (.inl ⟨tr, pre ++ [p2, ⟨k, none, b⟩], .held⟩)
  | appendRelease {err : MergeError} (hrest : rest = [])
      (hnot : before b.seqEnd p2.body.seq = false ∧ b.seqEnd ≠ p2.body.seq) (hseq : b.seq = p2.body.seqEnd)
      (hin : inSeq = p2.body.seq) (hmerge : skbGroMerge p2.body b = .failed err) (hne : err ≠ .inval)
      (hpsh : b.tcp.psh = false) :
    Turn n k b p2 rest pre inSeq tr (.inl ⟨tr.release (pre ++ [p2]), [⟨k, n, b⟩], .held⟩)
  | merge {b2 s2 : Skb} {w : Walked} (hnot : before b.seqEnd p2.body.seq = false ∧ b.seqEnd ≠ p2.body.seq)
      (hseq : b.seq = p2.body.seqEnd) (hmerge : skbGroMerge p2.body b = .merged b2 s2)
      (hw : Behind n b tr pre { p2 with body := b2 } rest inSeq p2.body.seq w) :
    Turn n k b p2 rest pre inSeq tr (.inl w)
  | pass (hrest : rest ≠ []) (hnot : before b.seqEnd p2.body.seq = false ∧ b.seqEnd ≠ p2.body.seq)
      (hseq : (b.seq = p2.body.seqEnd ∧ inSeq ≠ p2.body.seq ∧
          ∃ err, skbGroMerge p2.body b = .failed err ∧ err ≠ .inval) ∨
        (b.seq ≠ p2.body.seqEnd ∧ after b.seq p2.body.seqEnd = true)) :
    Turn n k b p2 rest pre inSeq tr (.inr (pre ++ [p2], tr))
  | passRelease {err : MergeError} (hrest : rest ≠ [])
      (hnot : before b.seqEnd p2.body.seq = false ∧ b.seqEnd ≠ p2.body.seq) (hseq : b.seq = p2.body.seqEnd)
      (hin : inSeq = p2.body.seq) (hmerge : skbGroMerge p2.body b = .failed err) (hne : err ≠ .inval) :
    Turn n k b p2 rest pre inSeq tr (.inr ([], tr.release (pre ++ [p2])))

theorem mergedBehindSegs_ok {w : Walked} (h : mergedBehindSegs n b tr pre p2 rest inSeq seq2 = .ok w) :
    Behind n b tr pre p2 rest inSeq seq2 w := by
  unfold mergedBehindSegs at h
  by_cases hpsh : (decide (inSeq = seq2) && p2.body.tcp.psh) = true
  · rw [if_pos hpsh] at h
    obtain ⟨hin, hpsh⟩ : inSeq = seq2 ∧ p2.body.tcp.psh = true := by simpa using hpsh
    split at h
    · rename_i hrest
      cases h
      rw [hrest]
      exact Behind.stay (Or.inl rfl)
    · rename_i hrest
      cases h
      exact Behind.release hin hrest (Or.inl hpsh)
  · rw [if_neg hpsh] at h
    have hstay : rest = [] ∨ (decide (inSeq = seq2) && p2.body.tcp.psh) = false := Or.inr (Bool.eq_false_iff.2 hpsh)
    cases rest with
    | nil =>
      cases h
      exact Behind.stay hstay
    | cons p3 ps =>
      simp only at h
      split at h
      · rename_i hseq
        split at h
        · cases h
        · cases h
          exact Behind.stay hstay
        · rename_i err hinval hmerge
          split at h
          · rename_i hin
            cases h
            exact Behind.release hin (List.cons_ne_nil _ _) (Or.inr ⟨p3, ps, err, rfl, hseq, hmerge, hinval⟩)
          · cases h
            exact Behind.stay hstay
        · rename_i b3 s3 hmerge
          split at h
          · rename_i hin
            obtain ⟨hin, hpsh⟩ : inSeq = seq2 ∧ b3.tcp.psh = true := by simpa using hin
            split at h
            · rename_i hps
              cases h
              rw [hps]
              exact Behind.bridge rfl hseq hmerge
            · rename_i hps
              cases h
              exact Behind.bridgeRelease rfl hseq hmerge hin hpsh hps
          · cases h
            exact Behind.bridge rfl hseq hmerge
      · cases h
        exact Behind.stay hstay

theorem mergeInFrontSegs_ok {w : Walked} (hseq : b.seqEnd = p2.body.seq) (hnot : before b.seqEnd p2.body.seq = false)
    (h : mergeInFrontSegs n b tr pre (behind n pre ⟨k, none, b⟩) p2 rest inSeq = .ok w) :
    Turn n k b p2 rest pre inSeq tr (.inl w) := by
  unfold mergeInFrontSegs at h
  split at h
  · cases h
  · rename_i hmerge
    cases h
    exact Turn.drop hnot (Or.inl ⟨hseq, _, hmerge, Or.inl rfl⟩)
  · rename_i err hinval hmerge
    split at h
    · rename_i hin
      cases h
      exact Turn.insert (Or.inr ⟨hnot, hseq, hin, err, hmerge, hinval⟩)
    · rename_i hin
      rw [ne_eq, not_not] at hin
      split at h
      · rename_i hwhy
        split at h
        · rename_i hrest
          cases h
          rw [hrest]
          exact Turn.drop hnot (Or.inl ⟨hseq, _, hmerge, Or.inr ⟨rfl, hin⟩⟩)
        · rename_i hrest
          cases h
          exact Turn.dropReleaseTo hnot hseq hin hmerge hrest hinval hwhy
      · rename_i hwhy
        cases h
        exact Turn.dropRelease hin (Or.inr ⟨hnot, hseq, err, hmerge, hinval, Bool.eq_false_iff.2 hwhy⟩)
  · rename_i b' s' hmerge
    cases h
    exact Turn.mergeFront hnot hseq hmerge

theorem turnSegs_ok {z : Walked ⊕ (List Segment × Track)} (h : turnSegs n k b p2 rest pre inSeq tr = .ok z) :
    Turn n k b p2 rest pre inSeq tr z := by
  unfold turnSegs at h
  simp only at h
  by_cases hbefore : before b.seqEnd p2.body.seq = true
  · rw [if_pos hbefore] at h
    split at h
    · rename_i hpsh
      obtain ⟨hpsh, hin⟩ : b.tcp.psh = true ∧ b.seq = inSeq := by simpa using hpsh
      cases h
      exact Turn.dropRelease hin.symm (Or.inl ⟨hbefore, hpsh⟩)
    · rename_i hpsh
      cases h
      exact Turn.insert (Or.inl ⟨hbefore, Bool.eq_false_iff.2 hpsh⟩)
  · rw [if_neg hbefore] at h
    rw [Bool.not_eq_true] at hbefore
    by_cases hseq : b.seqEnd = p2.body.seq
    · rw [if_pos hseq] at h
      cases hw : mergeInFrontSegs n b tr pre (behind n pre ⟨k, none, b⟩) p2 rest inSeq with
      | error e =>
        rw [hw] at h
        cases h
      | ok w =>
        rw [hw] at h
        cases h
        exact mergeInFrontSegs_ok hseq hbefore hw
    · rw [if_neg hseq] at h
      by_cases hend : b.seq = p2.body.seqEnd
      · rw [if_pos hend] at h
        split at h
        · cases h
        · rename_i hmerge
          cases h
          exact Turn.drop hbefore (Or.inr (Or.inl ⟨hseq, hend, _, hmerge, Or.inl rfl⟩))
        · rename_i err hinval hmerge
          split at h
          · rename_i hrest
            split at h
            · rename_i hwhy
              obtain ⟨hin, hpsh⟩ : inSeq = p2.body.seq ∧ b.tcp.psh = true := by simpa using hwhy
              cases h
              rw [hrest]
              exact Turn.drop hbefore (Or.inr (Or.inl ⟨hseq, hend, _, hmerge, Or.inr ⟨rfl, hin, hpsh⟩⟩))
            · rename_i hpsh
              split at h
              · rename_i hin
                cases h
                exact Turn.appendRelease hrest ⟨hbefore, hseq⟩ hend hin hmerge hinval (by simpa [hin] using hpsh)
              · rename_i hin
                cases h
                exact Turn.append hrest ⟨hbefore, hseq⟩ (Or.inl ⟨hend, hin, err, hmerge, hinval⟩)
          · rename_i hrest
            split at h
            · rename_i hin
              cases h
              exact Turn.passRelease hrest ⟨hbefore, hseq⟩ hend hin hmerge hinval
            · rename_i hin
              cases h
              exact Turn.pass hrest ⟨hbefore, hseq⟩ (Or.inl ⟨hend, hin, err, hmerge, hinval⟩)
        · rename_i b2 s2 hmerge
          cases hw : mergedBehindSegs n b tr pre { p2 with body := b2 } rest inSeq p2.body.seq with
          | error e =>
            rw [hw] at h
            cases h
          | ok w =>
            rw [hw] at h
            cases h
            exact Turn.merge ⟨hbefore, hseq⟩ hend hmerge (mergedBehindSegs_ok hw)
      · rw [if_neg hend] at h
        split at h
        · rename_i hafter
          split at h
          · rename_i hrest
            cases h
            exact Turn.append hrest ⟨hbefore, hseq⟩ (Or.inr ⟨hend, hafter⟩)
          · rename_i hrest
            cases h
            exact Turn.pass hrest ⟨hbefore, hseq⟩ (Or.inr ⟨hend, hafter⟩)
        · rename_i hafter
          cases h
          exact Turn.drop hbefore (Or.inr (Or.inr ⟨hseq, hend, by simpa using hafter⟩))

theorem mergedBehindSegs_error {e : Fault} (h : mergedBehindSegs n b tr pre p2 rest inSeq seq2 = .error e) :
    e = .copyOverrun := by
  unfold mergedBehindSegs at h
  repeat' split at h
  all_goals first | cases h; rfl | cases h

theorem turnSegs_error {e : Fault} (h : turnSegs n k b p2 rest pre inSeq tr = .error e) : e = .copyOverrun := by
  unfold turnSegs at h
  simp only at h
  split at h
  · split at h <;> cases h
  · split at h
    · cases hw : mergeInFrontSegs n b tr pre (behind n pre ⟨k, none, b⟩) p2 rest inSeq with
      | ok w =>
        rw [hw] at h
        cases h
      | error e' =>
        rw [hw] at h
        cases h
        unfold mergeInFrontSegs at hw
        repeat' split at hw
        all_goals first | cases hw; rfl | cases hw
    · split at h
      · split at h
        · cases h
          rfl
        · cases h
        · repeat' split at h
          all_goals cases h
        · rename_i b2 s2 hmerge
          cases hw : mergedBehindSegs n b tr pre { p2 with body := b2 } rest inSeq p2.body.seq with
          | ok w =>
            rw [hw] at h
            cases h
          | error e' =>
            rw [hw] at h
            cases h
            exact mergedBehindSegs_error hw
      · repeat' split at h
        all_goals cases h

theorem walkSegs_error {post : List Segment} {e : Fault} (h : walkSegs n k b post pre inSeq tr = .error e) :
    e = .copyOverrun := by
  induction post generalizing pre inSeq tr with
  | nil => cases h
  | cons p2 rest ih =>
    rw [walkSegs] at h
    cases ht : turnSegs n k b (behind n pre p2) rest pre inSeq tr with
    | error e' =>
      rw [ht] at h
      cases h
      exact turnSegs_error ht
    | ok z =>
      rw [ht] at h
      obtain w | ⟨pre', tr'⟩ := z
      · cases h
      · exact ih h

/-- **Rule for the walk.**  `I` holds of the segments still to be looked at, the ones passed, the frontier and the track
at every turn; `P` holds of what the walk comes to. -/
theorem walkSegs_induct {I : List Segment → List Segment → U32 → Track → Prop} {P : Walked → Prop}
    (hnil : ∀ pre inSeq tr, I [] pre inSeq tr → P ⟨tr, pre, .normal⟩)
    (hleave : ∀ p2 rest pre inSeq tr w, I (p2 :: rest) pre inSeq tr →
      Turn n k b (behind n pre p2) rest pre inSeq tr (.inl w) → P w)
    (hnext : ∀ p2 rest pre inSeq tr pre' tr', I (p2 :: rest) pre inSeq tr →
      Turn n k b (behind n pre p2) rest pre inSeq tr (.inr (pre', tr')) →
      I rest pre' (if inSeq = p2.body.seq then p2.body.seqEnd else inSeq) tr')
    {post : List Segment} {w : Walked} (hI : I post pre inSeq tr) (h : walkSegs n k b post pre inSeq tr = .ok w) :
    P w := by
  induction post generalizing pre inSeq tr with
  | nil =>
    cases h
    exact hnil _ _ _ hI
  | cons p2 rest ih =>
    have hbody : (behind n pre p2).body = p2.body := by
      unfold behind
      split <;> rfl
    rw [walkSegs] at h
    simp only [hbody] at h
    cases ht : turnSegs n k b (behind n pre p2) rest pre inSeq tr with
    | error e =>
      rw [ht] at h
      cases h
    | ok z =>
      rw [ht] at h
      have hturn := turnSegs_ok ht
      obtain w' | ⟨pre', tr'⟩ := z
      · cases h
        exact hleave _ _ _ _ _ _ hI hturn
      · exact ih (hnext _ _ _ _ _ _ _ hI hturn) h

/-- The walk changes the track by releasing segments only. -/
theorem walkSegs_track {R : Track → Prop} (hR : ∀ tr rel, R tr → R (tr.release rel)) {post : List Segment} {w : Walked}
    (htr : R tr) (h : walkSegs n k b post pre inSeq tr = .ok w) : R w.track := by
  refine walkSegs_induct (I := fun _ _ _ tr => R tr) (P := fun w => R w.track) ?_ ?_ ?_ htr h
  · exact fun pre inSeq tr htr => htr
  · intro p2 rest pre inSeq tr w htr hturn
    cases hturn with
    | drop | insert | mergeFront | append => exact htr
    | dropRelease | dropReleaseTo | appendRelease => exact hR _ _ htr
    | merge hnot hseq hmerge hw =>
      cases hw with
      | stay | bridge => exact htr
      | release | bridgeRelease => exact hR _ _ htr
  · intro p2 rest pre inSeq tr pre' tr' htr hturn
    cases hturn with
    | pass => exact htr
    | passRelease => exact hR _ _ htr

end PacketReordering.Linux41
