import PacketReordering.Linux318.Lists

/-!
# `linux-3.18.5`: what a turn of the walk can do

* `Bridged`, `Turn` — the ways in which `bridgeSegs` and `turnSegs` can end;
* `turnSegs_ok` — there are no others;
* `walkSegs_induct` — a rule for properties of the whole walk.
-/

namespace PacketReordering.Linux318

open Gro

variable {n : Option SkbId} {k : SkbId} {b : Skb} {p2 : Segment} {rest pre : List Segment} {seqNext inSeq seq2 : U32}
  {tr : Track}

/-- The segment `p2` has taken the payload of the packet, which ends at `seqNext`. -/
inductive Bridged [GroComplete Stamp] (n : Option SkbId) (seqNext : U32) (tr : Track) (pre : List Segment) (p2 : Segment)
    (rest : List Segment) (inSeq seq2 : U32) : Walked → Prop
  | last (hrest : rest = []) : Bridged n seqNext tr pre p2 rest inSeq seq2 ⟨tr, pre ++ [p2], .merged, .final⟩
  | release {p3 : Segment} {ps : List Segment} (hrest : rest = p3 :: ps) (hseq : seqNext = p3.body.seq)
      (hmerge : skbGroMerge p2.body p3.body = .failed .tooBig) (hin : inSeq = seq2) :
    Bridged n seqNext tr pre p2 rest inSeq seq2 ⟨tr.flush (pre ++ [p2]), setHeadNext n rest, .merged, .null⟩
  | stay {p3 : Segment} {ps : List Segment} (hrest : rest = p3 :: ps) (hseq : seqNext = p3.body.seq)
      (hmerge : skbGroMerge p2.body p3.body = .failed .tooBig) (hin : inSeq ≠ seq2) :
    Bridged n seqNext tr pre p2 rest inSeq seq2 ⟨tr, pre ++ p2 :: rest, .merged, .null⟩
  | refuseLast {p3 : Segment} {err : MergeError} (hrest : rest = [p3]) (hseq : seqNext = p3.body.seq)
      (hmerge : skbGroMerge p2.body p3.body = .failed err) (hne : err ≠ .tooBig) :
    Bridged n seqNext tr pre p2 rest inSeq seq2 ⟨tr, pre ++ p2 :: rest, .merged, .head⟩
  | refuse {p3 : Segment} {ps : List Segment} {err : MergeError} (hrest : rest = p3 :: ps) (hps : ps ≠ [])
      (hseq : seqNext = p3.body.seq) (hmerge : skbGroMerge p2.body p3.body = .failed err) (hne : err ≠ .tooBig) :
    Bridged n seqNext tr pre p2 rest inSeq seq2 ⟨tr.flush (pre ++ [p2, p3]), setHeadNext n ps, .merged, .null⟩
  | bridge {p3 : Segment} {ps : List Segment} {b2 b3 : Skb} (hrest : rest = p3 :: ps) (hseq : seqNext = p3.body.seq)
      (hmerge : skbGroMerge p2.body p3.body = .merged b2 b3) :
    Bridged n seqNext tr pre p2 rest inSeq seq2
      ⟨tr, pre ++ { p2 with body := { b2 with ext := b2.ext.min b3.ext } } :: ps, .merged, .final⟩
  | overlap {p3 : Segment} {ps : List Segment} (hrest : rest = p3 :: ps) (hseq : seqNext ≠ p3.body.seq)
      (hafter : after seqNext p3.body.seq = true) :
    Bridged n seqNext tr pre p2 rest inSeq seq2 ⟨tr, pre ++ p2 :: rest, .merged, .head⟩
  | gap {p3 : Segment} {ps : List Segment} (hrest : rest = p3 :: ps) (hseq : seqNext ≠ p3.body.seq)
      (hafter : after seqNext p3.body.seq = false) :
    Bridged n seqNext tr pre p2 rest inSeq seq2 ⟨tr, pre ++ p2 :: rest, .merged, .final⟩

/-- `p2` and the packet cannot be merged, and what is in sequence does not allow both in the queue. -/
def Refused (b : Skb) (p2 : Segment) (inSeq : U32) : Prop :=
  (b.seqEnd = p2.body.seq ∧ ∃ err, skbGroMerge b p2.body = .failed err ∧ (err = .tooBig → inSeq = b.seq)) ∨
    ((before b.seqEnd p2.body.seq = false ∧ b.seqEnd ≠ p2.body.seq) ∧ b.seq = p2.body.seqEnd ∧
      ∃ err, skbGroMerge p2.body b = .failed err ∧ err ≠ .tooBig)

/-- The packet comes behind `p2` and is not merged with it; `inSeq ≠ p2.body.seq` where they touch. -/
def Beyond (b : Skb) (p2 : Segment) (inSeq : U32) : Prop :=
  (b.seq = p2.body.seqEnd ∧ inSeq ≠ p2.body.seq ∧ skbGroMerge p2.body b = .failed .tooBig) ∨
    (b.seq ≠ p2.body.seqEnd ∧ after b.seq p2.body.seqEnd = true)

/-- A turn of the walk at the segment `p2`. -/
inductive Turn [GroComplete Stamp] (n : Option SkbId) (k : SkbId) (b : Skb) (p2 : Segment) (rest pre : List Segment)
    (inSeq : U32)
    (tr : Track) : Walked ⊕ (List Segment × Track) → Prop
  | insert
      (hseq : before b.seqEnd p2.body.seq = true ∨
        b.seqEnd = p2.body.seq ∧ inSeq ≠ b.seq ∧ skbGroMerge b p2.body = .failed .tooBig) :
    Turn n k b p2 rest pre inSeq tr (.inl ⟨tr, pre ++ behind n pre ⟨k, none, b⟩ :: p2 :: rest, .held, .final⟩)
  | mergeFront {b' s' : Skb} (hseq : b.seqEnd = p2.body.seq) (hmerge : skbGroMerge b p2.body = .merged b' s') :
    Turn n k b p2 rest pre inSeq tr
      (.inl ⟨tr, pre ++ { behind n pre ⟨k, none, b⟩ with body := { b' with ext := b'.ext.of s'.ext } } :: rest,
        .held, .final⟩)
  | refuseLast (hrest : rest = []) (hwhy : Refused b p2 inSeq) :
    Turn n k b p2 rest pre inSeq tr (.inl ⟨tr, pre ++ [p2], .normal, .head⟩)
  | refuse (hrest : rest ≠ []) (hwhy : Refused b p2 inSeq) :
    Turn n k b p2 rest pre inSeq tr (.inl ⟨tr.flush (pre ++ [p2]), setHeadNext n rest, .normal, .null⟩)
  | append (hrest : rest = []) (hnot : before b.seqEnd p2.body.seq = false ∧ b.seqEnd ≠ p2.body.seq)
      (hseq : Beyond b p2 inSeq) :
    Turn n k b p2 rest pre inSeq tr (.inl ⟨tr, pre ++ [p2, ⟨k, none, b⟩], .held, .final⟩)
  | appendRelease (hrest : rest = []) (hnot : before b.seqEnd p2.body.seq = false ∧ b.seqEnd ≠ p2.body.seq)
      (hseq : b.seq = p2.body.seqEnd) (hin : inSeq = p2.body.seq)
      (hmerge : skbGroMerge p2.body b = .failed .tooBig) :
    Turn n k b p2 rest pre inSeq tr (.inl ⟨tr.flush (pre ++ [p2]), [⟨k, n, b⟩], .held, .final⟩)
  | pass (hrest : rest ≠ []) (hnot : before b.seqEnd p2.body.seq = false ∧ b.seqEnd ≠ p2.body.seq)
      (hseq : Beyond b p2 inSeq) :
    Turn n k b p2 rest pre inSeq tr (.inr (pre ++ [p2], tr))
  | passRelease (hrest : rest ≠ []) (hnot : before b.seqEnd p2.body.seq = false ∧ b.seqEnd ≠ p2.body.seq)
      (hseq : b.seq = p2.body.seqEnd) (hin : inSeq = p2.body.seq)
      (hmerge : skbGroMerge p2.body b = .failed .tooBig) :
    Turn n k b p2 rest pre inSeq tr (.inr ([], tr.flush (pre ++ [p2])))
  | merge {b2 s2 : Skb} {w : Walked} (hnot : before b.seqEnd p2.body.seq = false ∧ b.seqEnd ≠ p2.body.seq)
      (hseq : b.seq = p2.body.seqEnd) (hmerge : skbGroMerge p2.body b = .merged b2 s2)
      (hw : Bridged n b.seqEnd tr pre { p2 with body := addFlags b2 b.tcp.flagWord } rest inSeq p2.body.seq w) :
    Turn n k b p2 rest pre inSeq tr (.inl w)
  | overlap (hnot : before b.seqEnd p2.body.seq = false ∧ b.seqEnd ≠ p2.body.seq) (hseq : b.seq ≠ p2.body.seqEnd)
      (hafter : after b.seq p2.body.seqEnd = false) :
    Turn n k b p2 rest pre inSeq tr (.inl ⟨tr, pre ++ p2 :: rest, .normal, .head⟩)

theorem bridgeSegs_ok [GroComplete Stamp] {w : Walked} (h : bridgeSegs n seqNext tr pre p2 rest inSeq seq2 = .ok w) :
    Bridged n seqNext tr pre p2 rest inSeq seq2 w := by
  cases rest with
  | nil =>
    cases h
    exact Bridged.last rfl
  | cons p3 ps =>
    rw [bridgeSegs] at h
    split at h
    · rename_i hseq
      split at h
      · cases h
      · rename_i hmerge
        split at h
        · rename_i hin
          cases h
          exact Bridged.release rfl hseq hmerge hin
        · rename_i hin
          cases h
          exact Bridged.stay rfl hseq hmerge hin
      · rename_i err hne hmerge
        split at h
        · rename_i hps
          cases h
          rw [hps]
          exact Bridged.refuseLast rfl hseq hmerge hne
        · rename_i hps
          cases h
          exact Bridged.refuse rfl hps hseq hmerge hne
      · rename_i b2 b3 hmerge
        cases h
        exact Bridged.bridge rfl hseq hmerge
    · rename_i hseq
      split at h
      · rename_i hafter
        cases h
        exact Bridged.overlap rfl hseq hafter
      · rename_i hafter
        cases h
        exact Bridged.gap rfl hseq (Bool.eq_false_iff.2 hafter)

theorem dropBehind_ok [GroComplete Stamp] (hwhy : Refused b p2 inSeq) :
    Turn n k b p2 rest pre inSeq tr (.inl (dropBehind n tr pre p2 rest)) := by
  unfold dropBehind
  by_cases hrest : rest = []
  · rw [if_pos hrest]
    exact Turn.refuseLast hrest hwhy
  · rw [if_neg hrest]
    exact Turn.refuse hrest hwhy

theorem mergeInFrontSegs_ok [GroComplete Stamp] {w : Walked} (hseq : b.seqEnd = p2.body.seq)
    (h : mergeInFrontSegs n b tr pre (behind n pre ⟨k, none, b⟩) p2 rest inSeq = .ok w) :
    Turn n k b p2 rest pre inSeq tr (.inl w) := by
  unfold mergeInFrontSegs at h
  split at h
  · cases h
  · rename_i err hmerge
    split at h
    · rename_i hin
      obtain ⟨herr, hne⟩ : err = .tooBig ∧ inSeq ≠ b.seq := by simpa using hin
      rw [herr] at hmerge
      cases h
      exact Turn.insert (Or.inr ⟨hseq, hne, hmerge⟩)
    · rename_i hin
      cases h
      refine dropBehind_ok (Or.inl ⟨hseq, err, hmerge, fun herr => ?_⟩)
      simpa [herr] using hin
  · rename_i b' s' hmerge
    cases h
    exact Turn.mergeFront hseq hmerge

theorem turnSegs_ok [GroComplete Stamp] {z : Walked ⊕ (List Segment × Track)}
    (h : turnSegs n k b p2 rest pre inSeq tr = .ok z) :
    Turn n k b p2 rest pre inSeq tr z := by
  unfold turnSegs at h
  simp only at h
  by_cases hbefore : before b.seqEnd p2.body.seq = true
  · rw [if_pos hbefore] at h
    cases h
    exact Turn.insert (Or.inl hbefore)
  rw [if_neg hbefore] at h
  rw [Bool.not_eq_true] at hbefore
  by_cases hseq : b.seqEnd = p2.body.seq
  · rw [if_pos hseq] at h
    cases hw : mergeInFrontSegs n b tr pre (behind n pre ⟨k, none, b⟩) p2 rest inSeq with
    | error e =>
      rw [hw] at h
      cases h
    | ok w =>
      rw [hw] at h
      cases h
      exact mergeInFrontSegs_ok hseq hw
  rw [if_neg hseq] at h
  by_cases hend : b.seq = p2.body.seqEnd
  · rw [if_pos hend] at h
    split at h
    · cases h
    · rename_i hmerge
      -- the packet does not fit into `p2`
      split at h
      · rename_i hrest
        split at h
        · rename_i hin
          cases h
          exact Turn.appendRelease hrest ⟨hbefore, hseq⟩ hend hin hmerge
        · rename_i hin
          cases h
          exact Turn.append hrest ⟨hbefore, hseq⟩ (Or.inl ⟨hend, hin, hmerge⟩)
      · rename_i hrest
        split at h
        · rename_i hin
          cases h
          exact Turn.passRelease hrest ⟨hbefore, hseq⟩ hend hin hmerge
        · rename_i hin
          cases h
          exact Turn.pass hrest ⟨hbefore, hseq⟩ (Or.inl ⟨hend, hin, hmerge⟩)
    · rename_i err hne hmerge
      cases h
      exact dropBehind_ok (Or.inr ⟨⟨hbefore, hseq⟩, hend, err, hmerge, hne⟩)
    · rename_i b2 s2 hmerge
      unfold mergedBehindSegs at h
      simp only at h
      cases hw : bridgeSegs n b.seqEnd tr pre { p2 with body := addFlags b2 b.tcp.flagWord } rest inSeq p2.body.seq with
      | error e =>
        rw [hw] at h
        cases h
      | ok w =>
        rw [hw] at h
        cases h
        exact Turn.merge ⟨hbefore, hseq⟩ hend hmerge (bridgeSegs_ok hw)
  · rw [if_neg hend] at h
    split at h
    · rename_i hafter
      split at h
      · rename_i hrest
        cases h
        exact Turn.append hrest ⟨hbefore, hseq⟩ (Or.inr ⟨hend, hafter⟩)
      · rename_i hrest
        cases h
        exact Turn.pass hrest ⟨hbefore, hseq⟩ (Or.inr ⟨hend, hafter⟩)
    · rename_i hafter
      cases h
      exact Turn.overlap ⟨hbefore, hseq⟩ hend (Bool.eq_false_iff.2 hafter)

/-- **Rule for the walk.**  `I` holds of the segments still to be looked at, the ones passed, the frontier and the track
at every turn; `P` holds of what the walk comes to. -/
theorem walkSegs_induct [GroComplete Stamp] {I : List Segment → List Segment → U32 → Track → Prop} {P : Walked → Prop}
    (hleave : ∀ p2 rest pre inSeq tr w, I (p2 :: rest) pre inSeq tr →
      Turn n k b (behind n pre p2) rest pre inSeq tr (.inl w) → P w)
    (hnext : ∀ p2 rest pre inSeq tr pre' tr', I (p2 :: rest) pre inSeq tr →
      Turn n k b (behind n pre p2) rest pre inSeq tr (.inr (pre', tr')) →
      I rest pre' (if inSeq = p2.body.seq then p2.body.seqEnd else inSeq) tr')
    {post : List Segment} {w : Walked} (hpost : post ≠ []) (hI : I post pre inSeq tr)
    (h : walkSegs n k b post pre inSeq tr = .ok w) : P w := by
  induction post generalizing pre inSeq tr with
  | nil => exact absurd rfl hpost
  | cons p2 rest ih =>
    rw [walkSegs] at h
    simp only [behind_body] at h
    cases ht : turnSegs n k b (behind n pre p2) rest pre inSeq tr with
    | error e =>
      rw [ht] at h
      cases h
    | ok z =>
      rw [ht] at h
      have hturn := turnSegs_ok ht
      obtain w' | ⟨pre', tr'⟩ := z
      · cases h
        exact hleave _ _ _ _ _ _ hI hturn
      · have hrest : rest ≠ [] := by
          cases hturn with
          | pass hrest hnot hseq => exact hrest
          | passRelease hrest hnot hseq hin hmerge => exact hrest
        exact ih hrest (hnext _ _ _ _ _ _ _ hI hturn) h

end PacketReordering.Linux318
