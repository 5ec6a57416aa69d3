import PacketReordering.Linux41.Arrivals
import PacketReordering.Linux41.Step

/-!
# `linux-4.1`: the copy loop of `skb_gro_merge`

`do { *--frag = *--frag2; } while (--i);` copies `nr_frags` descriptors when there is one at least.  An empty packet that
is held has none: `gro_pull_from_frag0` takes the fragment that held nothing but its headers.

* `Copies` — what the loop does to the descriptors when it ends;
* `copiesNothing`, `meetsEmptied` — a merge is to copy from a held segment that has no fragment;
* `walkSegs_ok_iff`, `stepLists_ok_iff` — the condition for the walk and for a call;
* `run_copies` — the exact condition for runs;
* `not_copies_emptyAck` — the code does not meet it.
-/

namespace PacketReordering.Linux41

open Lib Gro

/-- The merge of `skb` into `p` copies descriptors: there is one, and the loop writes those behind the ones of `p` and no
other. -/
def Copies (p skb : Skb) : Prop :=
  1 ≤ skb.frags.length ∧
    ∃ frags, copyFrags (fragArray skb.frags) skb.frags.length (p.frags.length + skb.frags.length) (fragArray p.frags) =
        some frags ∧
      ∀ j, frags j =
        if p.frags.length ≤ j ∧ j < p.frags.length + skb.frags.length then fragArray skb.frags (j - p.frags.length)
        else fragArray p.frags j

/-- `skb_gro_merge(p, skb)` comes to the copy loop with `nr_frags(skb)` equal to 0. -/
def copiesNothing (p skb : Skb) : Bool :=
  decide (skb.headlen ≤ skb.dataOffset) && skb.frags.isEmpty && !headersDiffer p skb && !gsoSizesDiffer p skb &&
    decide (p.skbLen + skb.groLen < 65536) && decide (p.frags.length ≤ maxSkbFrags)

/-- The walk of the packet `b` comes to a segment without fragments that starts where the packet ends, and the packet, or
the segment that has taken it, could take that one too. -/
def meetsEmptied (b : Skb) : List Segment → U32 → Bool
  | [], _ => false
  | p2 :: rest, inSeq =>
    let inSeqNext := if inSeq = p2.body.seq then p2.body.seqEnd else inSeq
    if before b.seqEnd p2.body.seq then false
    else if b.seqEnd = p2.body.seq then copiesNothing b p2.body
    else if b.seq = p2.body.seqEnd then
      match skbGroMerge p2.body b with
      | .overrun => false
      | .failed err => decide (err ≠ .inval) && meetsEmptied b rest inSeqNext
      | .merged b2 _ =>
        !(decide (inSeq = p2.body.seq) && b2.tcp.psh) &&
          rest.head?.any fun p3 => decide (b.seqEnd = p3.body.seq) && copiesNothing b2 p3.body
    else after b.seq p2.body.seqEnd && meetsEmptied b rest inSeqNext

/-- The packet is of a held flow, and its walk comes to such a segment. -/
def arrivalMeetsEmptied (l : Lists) (pkt : Packet) : Bool :=
  match pkt.parse with
  | .tcp b flush linear =>
    match splitFlow (sameFlowAs b) l.flows with
    | none => false
    | some (_, f, _) =>
      !(notHeld f b flush linear || isLate f.dat b) && meetsEmptied (walker b) f.segs (walkDat f.dat b).seqNext
  | _ => false

/-- The call does not. -/
def copiesSomething (s : Mem) (c : Call) : Bool :=
  match c with
  | .receive pkt _ => !arrivalMeetsEmptied s.view pkt
  | _ => true

section

variable {l : Lists} {pkt : Packet} {n : Option SkbId} {k : SkbId} {b c p skb : Skb} {inSeq seq2 : U32} {tr : Track}
  {segs rest pre : List Segment} {p2 : Segment} {flush : Bool}

/-! ### One merge -/

/-- The loop ends when there is a descriptor to copy. -/
theorem copies_of_ne (p : Skb) (hne : skb.frags ≠ []) : Copies p skb := by
  have hpos : 0 < skb.frags.length := List.length_pos_iff.2 hne
  refine ⟨hpos, _, copyFrags_eq hpos (Nat.le_add_left _ _), fun j => ?_⟩
  rw [Nat.add_sub_cancel]

theorem mergeData_overrun {m : ℕ} :
    mergeData m p skb = .overrun ↔
      p.skbLen + skb.groLen < 65536 ∧ skb.headlen ≤ skb.dataOffset ∧ p.frags.length ≤ m ∧ skb.frags = [] := by
  unfold mergeData
  by_cases hbig : p.skbLen + skb.groLen ≥ 65536
  · rw [if_pos hbig]
    exact ⟨fun h => (nomatch h), fun h => absurd h.1 (Nat.not_lt.2 hbig)⟩
  rw [if_neg hbig]
  by_cases hhead : skb.headlen ≤ skb.dataOffset
  · rw [if_pos hhead]
    dsimp only
    by_cases hfrags : skb.frags = []
    · rw [hfrags, List.length_nil, Nat.add_zero, copyFrags_none]
      by_cases hmany : p.frags.length > m
      · rw [if_pos hmany]
        exact ⟨fun h => (nomatch h), fun h => absurd h.2.2.1 (Nat.not_le.2 hmany)⟩
      · rw [if_neg hmany]
        exact ⟨fun _ => ⟨Nat.not_le.1 hbig, hhead, Nat.not_lt.1 hmany, rfl⟩, fun _ => rfl⟩
    · obtain ⟨-, frags, hcopy, -⟩ := copies_of_ne p hfrags
      rw [hcopy]
      split
      · exact ⟨fun h => (nomatch h), fun h => absurd h.2.2.2 hfrags⟩
      · exact ⟨fun h => (nomatch h), fun h => absurd h.2.2.2 hfrags⟩
  · rw [if_neg hhead]
    have hnot : ∀ r : MergeResult GsoEnd, r ≠ .overrun → (r = .overrun ↔ p.skbLen + skb.groLen < 65536 ∧
        skb.headlen ≤ skb.dataOffset ∧ p.frags.length ≤ m ∧ skb.frags = []) :=
      fun r hr => ⟨fun h => absurd h hr, fun h => absurd h.2.1 hhead⟩
    split
    · split
      · exact hnot _ fun h => nomatch h
      · exact hnot _ fun h => nomatch h
    · exact hnot _ fun h => nomatch h

theorem skbGroMerge_overrun : skbGroMerge p skb = .overrun ↔ copiesNothing p skb = true := by
  unfold skbGroMerge copiesNothing
  by_cases hheaders : headersDiffer p skb = true
  · simp [hheaders]
  by_cases hsizes : gsoSizesDiffer p skb = true
  · simp [hheaders, hsizes]
  rw [if_neg hheaders, if_neg hsizes]
  have hdata := @mergeData_overrun p skb maxSkbFrags
  cases hmerge : mergeData maxSkbFrags p skb with
  | overrun =>
    obtain ⟨hbig, hhead, hmany, hfrags⟩ := hdata.1 hmerge
    simp [hheaders, hsizes, hbig, hhead, hmany, hfrags]
  | failed err | merged p' skb' =>
    have hnot : ¬ (p.skbLen + skb.groLen < 65536 ∧ skb.headlen ≤ skb.dataOffset ∧ p.frags.length ≤ maxSkbFrags ∧
        skb.frags = []) := fun h => by
      rw [hdata.2 h] at hmerge
      cases hmerge
    refine ⟨fun h => (nomatch h), fun h => ?_⟩
    simp only [Bool.and_eq_true, decide_eq_true_eq, List.isEmpty_iff] at h
    exact absurd ⟨h.1.2, h.1.1.1.1.1, h.2, h.1.1.1.1.2⟩ hnot

theorem mergeData_copies {m : ℕ} {p' skb' : Skb} (h : mergeData m p skb = .merged p' skb')
    (hhead : skb.headlen ≤ skb.dataOffset) : Copies p skb := by
  refine copies_of_ne p fun hnil => ?_
  unfold mergeData at h
  rw [if_pos hhead, hnil] at h
  simp only [List.length_nil, copyFrags_none] at h
  split at h
  · cases h
  · split at h <;> cases h

/-- **A merge that goes through has copied what there was to copy.** -/
theorem skbGroMerge_copies {p' skb' : Skb} (h : skbGroMerge p skb = .merged p' skb')
    (hhead : skb.headlen ≤ skb.dataOffset) : Copies p skb := by
  unfold skbGroMerge at h
  split at h
  · cases h
  · split at h
    · cases h
    · cases hdata : mergeData maxSkbFrags p skb with
      | merged q r => exact mergeData_copies hdata hhead
      | failed err | overrun =>
        rw [hdata] at h
        cases h

/-! ### A packet that is not linear -/

theorem groHeader_fast {hlen : ℕ} (h : b.groHeader hlen = some c) :
    hlen ≤ c.frag0Len ∧ c = b ∨ hlen ≤ c.headlen ∧ c.frag0Len = 0 ∧ b.headlen ≤ c.headlen := by
  unfold Body.groHeader Body.pskbMayPull at h
  split at h
  · split at h
    · rename_i hle
      cases h
      exact Or.inr ⟨hle, rfl, Nat.le_refl _⟩
    · rename_i hlt
      split at h
      · cases h
        exact Or.inr ⟨Nat.le_refl _, rfl, Nat.le_of_not_le hlt⟩
      · cases h
  · rename_i hfast
    cases h
    exact Or.inl ⟨Nat.not_lt.1 hfast, rfl⟩

/-- `frag0` is the first fragment. -/
def Frag0 (b : Skb) : Prop := b.frag0Len ≠ 0 → b.frags ≠ []

theorem Frag0.groHeader {hlen : ℕ} (hb : Frag0 b) (h : b.groHeader hlen = some c) : Frag0 c := by
  rcases groHeader_fast h with ⟨-, rfl⟩ | ⟨-, hzero, -⟩
  · exact hb
  · exact fun hne => absurd hzero hne

theorem inetHeader_frag0 (hb : Frag0 b) {flush : Bool} (h : inetHeader b = (c, some flush)) : Frag0 c := by
  unfold inetHeader at h
  split at h
  · cases h
  · rename_i d hd
    split at h
    · cases h
    · cases h
      have hd : Frag0 d := hb.groHeader hd
      exact hd

theorem tcpHeader_frags (hb : Frag0 b) (h : b.tcpHeader = (c, true)) (hhead : c.headlen ≤ b.dataOffset) :
    c.frags ≠ [] := by
  unfold Body.tcpHeader at h
  simp only at h
  split at h
  · cases h
  · rename_i d hd
    split at h
    · cases h
    · split at h
      · cases h
      · rename_i hlen e he
        cases h
        have hhead : e.headlen ≤ b.dataOffset := hhead
        have hd : Frag0 d := hb.groHeader hd
        rcases groHeader_fast he with ⟨hle, rfl⟩ | ⟨hle, -⟩
        · have hne : e.frag0Len ≠ 0 := by omega
          exact hd hne
        · omega

/-- The headers of a packet that is not linear lie in its first fragment. -/
theorem parse_frags (h : pkt.parse = .tcp b flush false) : b.frags ≠ [] := by
  have hpkt : Frag0 { pkt.body with parts := [pkt.body.part], free := .no, isTcp := false, ext := false } := by
    rcases pkt.frag0_eq with hzero | ⟨-, hhead⟩
    · exact fun hne => absurd hzero hne
    · intro _ hnil
      rw [show pkt.body.frags = [] from hnil] at hhead
      cases hhead
  unfold Packet.parse at h
  split at h
  · cases h
  · simp only at h
    split at h
    · cases h
    · rename_i c fl hinet
      have hc : Frag0 c := inetHeader_frag0 hpkt hinet
      split at h
      · cases h
      · split at h
        · cases h
        · rename_i d htcp
          rw [Parsed.tcp.injEq] at h
          obtain ⟨rfl, -, hlinear⟩ := h
          have hc' : Frag0 { c with isTcp := true } := hc
          exact tcpHeader_frags hc' htcp (Nat.not_lt.1 (of_decide_eq_false hlinear))

/-! ### The walk -/

/-- What a turn says about the rest of the walk. -/
def TurnMeets (b : Skb) (p2 : Segment) (rest : List Segment) (inSeq : U32) :
    Except Fault (Walked ⊕ (List Segment × Track)) → Prop
  | .error _ => meetsEmptied b (p2 :: rest) inSeq = true
  | .ok (.inl _) => meetsEmptied b (p2 :: rest) inSeq = false
  | .ok (.inr _) =>
    meetsEmptied b (p2 :: rest) inSeq = meetsEmptied b rest (if inSeq = p2.body.seq then p2.body.seqEnd else inSeq)

theorem copiesNothing_failed {err : MergeError} (h : skbGroMerge p skb = .failed err) : copiesNothing p skb = false := by
  rw [← Bool.not_eq_true, ← skbGroMerge_overrun, h]
  exact fun hf => nomatch hf

theorem copiesNothing_merged {p' skb' : Skb} (h : skbGroMerge p skb = .merged p' skb') :
    copiesNothing p skb = false := by
  rw [← Bool.not_eq_true, ← skbGroMerge_overrun, h]
  exact fun hf => nomatch hf

/-- The packet is in the segment `p2` now. -/
theorem mergedBehindSegs_meets :
    (mergedBehindSegs n b tr pre p2 rest inSeq seq2).toBool =
      !(!(decide (inSeq = seq2) && p2.body.tcp.psh) &&
        rest.head?.any fun p3 => decide (b.seqEnd = p3.body.seq) && copiesNothing p2.body p3.body) := by
  unfold mergedBehindSegs
  split
  · rename_i hpsh
    rw [hpsh, Bool.not_true, Bool.false_and]
    split <;> rfl
  · rename_i hpsh
    rw [Bool.not_eq_true] at hpsh
    rw [hpsh]
    cases rest with
    | nil => rfl
    | cons p3 ps =>
      simp only [List.head?_cons, Option.any_some, Bool.not_false, Bool.true_and]
      split
      · rename_i hseq
        rw [decide_eq_true hseq, Bool.true_and]
        cases hmerge : skbGroMerge p2.body p3.body with
        | overrun =>
          rw [skbGroMerge_overrun.1 hmerge]
          rfl
        | failed err =>
          rw [copiesNothing_failed hmerge]
          cases err with
          | inval => rfl
          | tooBig | fail =>
            simp only
            split <;> rfl
        | merged b3 s3 =>
          rw [copiesNothing_merged hmerge]
          simp only
          repeat' split
          all_goals rfl
      · rename_i hseq
        rw [decide_eq_false hseq, Bool.false_and]
        rfl

theorem mergeInFrontSegs_meets {new : Segment} :
    (mergeInFrontSegs n b tr pre new p2 rest inSeq).toBool = !copiesNothing b p2.body := by
  unfold mergeInFrontSegs
  cases hmerge : skbGroMerge b p2.body with
  | overrun =>
    rw [skbGroMerge_overrun.1 hmerge]
    rfl
  | failed err =>
    rw [copiesNothing_failed hmerge]
    cases err with
    | inval => rfl
    | tooBig | fail =>
      simp only
      repeat' split
      all_goals rfl
  | merged b' s' =>
    rw [copiesNothing_merged hmerge]
    rfl

/-- A turn that is the last one, when it ends. -/
theorem TurnMeets.last {x : Except Fault Walked} (h : x.toBool = !meetsEmptied b (p2 :: rest) inSeq) :
    TurnMeets b p2 rest inSeq (x.map .inl) := by
  cases x with
  | error e =>
    rw [Eq.comm, Bool.not_eq_eq_eq_not] at h
    exact h
  | ok w =>
    rw [Eq.comm, Bool.not_eq_eq_eq_not] at h
    exact h

theorem turnSegs_meets (hb : b.frags ≠ []) : TurnMeets b p2 rest inSeq (turnSegs n k b p2 rest pre inSeq tr) := by
  have hleave : ∀ w, meetsEmptied b (p2 :: rest) inSeq = false → TurnMeets b p2 rest inSeq (.ok (.inl w)) :=
    fun _ h => h
  unfold turnSegs
  simp only
  by_cases hbefore : before b.seqEnd p2.body.seq = true
  · rw [if_pos hbefore]
    have hnot : meetsEmptied b (p2 :: rest) inSeq = false := by rw [meetsEmptied, if_pos hbefore]
    split <;> exact hleave _ hnot
  rw [if_neg hbefore]
  by_cases hseq : b.seqEnd = p2.body.seq
  · rw [if_pos hseq]
    refine TurnMeets.last ?_
    rw [mergeInFrontSegs_meets, meetsEmptied, if_neg hbefore, if_pos hseq]
  rw [if_neg hseq]
  by_cases hend : b.seq = p2.body.seqEnd
  · rw [if_pos hend]
    have hmeets : ∀ r, skbGroMerge p2.body b = r → meetsEmptied b (p2 :: rest) inSeq = match r with
        | .overrun => false
        | .failed err => decide (err ≠ .inval) &&
          meetsEmptied b rest (if inSeq = p2.body.seq then p2.body.seqEnd else inSeq)
        | .merged b2 _ =>
          !(decide (inSeq = p2.body.seq) && b2.tcp.psh) &&
            rest.head?.any fun p3 => decide (b.seqEnd = p3.body.seq) && copiesNothing b2 p3.body := by
      rintro r rfl
      rw [meetsEmptied, if_neg hbefore, if_neg hseq, if_pos hend]
    split
    · -- the arriving packet has a fragment
      rename_i hmerge
      have hnothing := skbGroMerge_overrun.1 hmerge
      simp [copiesNothing, hb] at hnothing
    · rename_i hmerge
      exact hleave _ (hmeets _ hmerge)
    · rename_i err hinval hmerge
      have hrest := hmeets _ hmerge
      have hinval : err ≠ .inval := hinval
      simp only [hinval, ne_eq, not_false_eq_true, decide_true, Bool.true_and] at hrest
      split
      · rename_i hnil
        have hnot : meetsEmptied b (p2 :: rest) inSeq = false := by
          rw [hrest, hnil]
          rfl
        split
        · exact hleave _ hnot
        · split <;> exact hleave _ hnot
      · split <;> exact hrest
    · rename_i b2 s2 hmerge
      refine TurnMeets.last ?_
      rw [mergedBehindSegs_meets, hmeets _ hmerge]
  · rw [if_neg hend]
    have hmeets : meetsEmptied b (p2 :: rest) inSeq = (after b.seq p2.body.seqEnd &&
        meetsEmptied b rest (if inSeq = p2.body.seq then p2.body.seqEnd else inSeq)) := by
      rw [meetsEmptied, if_neg hbefore, if_neg hseq, if_neg hend]
    split
    · rename_i hafter
      rw [hafter, Bool.true_and] at hmeets
      split
      · rename_i hnil
        rw [hnil] at hmeets
        subst hnil
        exact hleave _ hmeets
      · exact hmeets
    · rename_i hafter
      rw [Bool.not_eq_true] at hafter
      rw [hafter, Bool.false_and] at hmeets
      exact hleave _ hmeets

/-- **The walk ends exactly if it meets no emptied segment.** -/
theorem walkSegs_toBool (hb : b.frags ≠ []) : (walkSegs n k b segs pre inSeq tr).toBool = !meetsEmptied b segs inSeq := by
  induction segs generalizing pre inSeq tr with
  | nil => rfl
  | cons p2 rest ih =>
    have hbody : meetsEmptied b (behind n pre p2 :: rest) inSeq = meetsEmptied b (p2 :: rest) inSeq := by
      unfold behind
      split <;> rfl
    have hturn := @turnSegs_meets n k b inSeq tr rest pre (behind n pre p2) hb
    rw [walkSegs]
    cases hz : turnSegs n k b (behind n pre p2) rest pre inSeq tr with
    | error e =>
      rw [hz, TurnMeets, hbody] at hturn
      rw [hturn]
      rfl
    | ok z =>
      rw [hz] at hturn
      obtain w | ⟨pre', tr'⟩ := z
      · rw [TurnMeets, hbody] at hturn
        rw [hturn]
        rfl
      · rw [TurnMeets, hbody, behind_body] at hturn
        rw [hturn]
        simp only [behind_body]
        exact ih

/-! ### Calls -/

theorem receiveFoundLists_toBool {linear : Bool} {A B : List (Flow GsoEnd OfoExt)} {f : Flow GsoEnd OfoExt}
    (hparse : pkt.parse = .tcp b flush linear) :
    (receiveFoundLists l k b flush linear A f B).toBool =
      !(!(notHeld f b flush linear || isLate f.dat b) && meetsEmptied (walker b) f.segs (walkDat f.dat b).seqNext) := by
  unfold receiveFoundLists
  simp only
  split
  · rename_i hwhy
    have hwhy : (notHeld f b flush linear || isLate f.dat b) = true := hwhy
    rw [hwhy]
    rfl
  · rename_i hwhy
    have hwhy : (notHeld f b flush linear || isLate f.dat b) = false := Bool.eq_false_iff.2 hwhy
    have hlinear : linear = false := by
      cases linear with
      | false => rfl
      | true => simp [notHeld] at hwhy
    rw [hlinear] at hparse
    have hfrags : b.frags ≠ [] := parse_frags hparse
    have hwalk := @walkSegs_toBool (heads B).head? k (walker b) (walkDat f.dat b).seqNext ⟨walkDat f.dat b, l.clock, l.up⟩
      f.segs [] hfrags
    rw [hwhy, Bool.not_false, Bool.true_and, ← hwalk]
    simp only [walker, walkDat]
    generalize walkSegs (heads B).head? k _ f.segs [] _ _ = r
    cases r with
    | error e => rfl
    | ok w =>
      simp only
      split <;> rfl

theorem receiveFlushLists_toBool (hfree : l.free ≠ []) : (receiveFlushLists l k b).toBool = true := by
  unfold receiveFlushLists
  split
  · rename_i hnone
    exact absurd (findFree_none hnone) hfree
  · rfl

theorem receiveNewLists_toBool (hfree : l.free ≠ []) : (receiveNewLists l k b).toBool = true := by
  unfold receiveNewLists
  simp only
  split
  · rename_i hnone
    exact absurd (findFree_none hnone) hfree
  · split
    · rfl
    · unfold receiveHeldLists
      split
      · rename_i hfull
        split
        · rename_i hlast
          rw [List.getLast?_eq_none_iff.1 hlast] at hfull
          exact absurd hfull (by decide)
        · rfl
      · rfl

/-- **A call ends exactly if it meets no emptied segment.** -/
theorem stepLists_toBool {c : Call} (hfree : l.free ≠ []) :
    (stepLists l c).toBool = match c with
      | .receive pkt _ => !arrivalMeetsEmptied l pkt
      | _ => true := by
  cases c with
  | receive pkt ktime =>
    show (receiveLists { l with clock := { l.clock with ktime := ktime } } pkt).toBool = _
    unfold receiveLists arrivalMeetsEmptied
    simp only
    cases hparse : pkt.parse with
    | other b => rfl
    | badHeader b => exact receiveFlushLists_toBool hfree
    | tcp b flush linear =>
      simp only
      unfold receiveTcpLists
      simp only
      cases hsplit : splitFlow (sameFlowAs b) l.flows with
      | none =>
        simp only
        split
        · exact receiveFlushLists_toBool hfree
        · exact receiveNewLists_toBool hfree
      | some r => exact receiveFoundLists_toBool hparse
  | flush flushOld groOfoTimeout groInseqTimeout ktime => rfl
  | clean ktime => rfl

theorem meetsEmptied_erase : meetsEmptied b (segs.map Seg.erase) inSeq = meetsEmptied b segs inSeq := by
  induction segs generalizing inSeq with
  | nil => rfl
  | cons x segs ih =>
    rw [List.map_cons, meetsEmptied, meetsEmptied]
    simp only [erase_body, ih, List.head?_map, Option.any_map]
    rfl

theorem arrivalMeetsEmptied_erase : arrivalMeetsEmptied l.erase pkt = arrivalMeetsEmptied l pkt := by
  unfold arrivalMeetsEmptied
  cases pkt.parse with
  | other b => rfl
  | badHeader b => rfl
  | tcp b flush linear =>
    simp only [Queues.erase, splitFlow_erase fun _ => sameFlowAs_erase]
    cases splitFlow (sameFlowAs b) l.flows with
    | none => rfl
    | some r =>
      simp only [Option.map_some, notHeld_erase]
      rw [Flow.erase, meetsEmptied_erase]

theorem step_toBool {s : Mem} {c : Call} (h : Rep s l) : (step s c).toBool = copiesSomething s c := by
  have hagree := step_spec s l c h
  have hlists := @stepLists_toBool l c h.free_ne_nil
  have hsame : (step s c).toBool = (stepLists l c).toBool := by
    cases hs : step s c with
    | ok s' =>
      rw [hs] at hagree
      obtain ⟨l', hl', -⟩ := hagree.exists_ok
      rw [hl']
      rfl
    | error e =>
      rw [hs] at hagree
      cases hl : stepLists l c with
      | ok l' =>
        rw [hl] at hagree
        exact hagree.elim
      | error e' => rfl
  rw [hsame, hlists]
  cases c with
  | receive pkt ktime => rw [copiesSomething, h.view_eq, arrivalMeetsEmptied_erase]
  | flush flushOld groOfoTimeout groInseqTimeout ktime => rfl
  | clean ktime => rfl

end

/-- **The copy loops of a run end exactly if no packet comes to an emptied segment.**  A run goes on as long as they do, and
a loop that ends has copied the descriptors of `skb` behind those of `p`. -/
theorem run_copies (mem : Mem) (cs : List Call) :
    ((∃ s, run mem cs = .ok s) ↔ Steps step (fun s c => copiesSomething s c = true) (netifNapiAdd mem) cs) ∧
      ∀ p skb p' skb', skbGroMerge p skb = .merged p' skb' → skb.headlen ≤ skb.dataOffset → Copies p skb := by
  have hkeep : ∀ s c (past : List Call), c ∈ cs → (∃ l, Rep s l) → copiesSomething s c = true →
      ∃ s', step s c = .ok s' ∧ ∃ l, Rep s' l := by
    rintro s c past - ⟨l, hrep⟩ hcopies
    have hok := step_toBool (c := c) hrep
    rw [hcopies] at hok
    have hagree := step_spec s l c hrep
    cases hstep : step s c with
    | error e =>
      rw [hstep] at hok
      cases hok
    | ok s' =>
      rw [hstep] at hagree
      obtain ⟨l', -, hrep'⟩ := hagree.exists_ok
      exact ⟨s', rfl, l', hrep'⟩
  have hlose : ∀ s c s' (past : List Call), c ∈ cs → (∃ l, Rep s l) → ¬ copiesSomething s c = true → step s c = .ok s' →
      ¬ ∃ l, Rep s' l := by
    rintro s c s' past - ⟨l, hrep⟩ hnot hstep
    have hok := step_toBool (c := c) hrep
    rw [hstep] at hok
    exact absurd hok.symm hnot
  have hinit : ∃ l, Rep (netifNapiAdd mem) l := ⟨_, netifNapiAdd_rep mem⟩
  have hexact := @Steps.iff_prefix _ _ _ step (fun s c => copiesSomething s c = true) (fun s _ => ∃ l, Rep s l)
    (netifNapiAdd mem) cs [] hkeep hlose hinit
  refine ⟨?_, fun p skb p' skb' hmerge hhead => skbGroMerge_copies hmerge hhead⟩
  rw [← hexact]
  constructor
  · rintro ⟨t, ht⟩ ys ⟨zs, rfl⟩
    rw [run, runFrom_append] at ht
    have hagree := run_spec mem ys
    cases hys : runFrom step (netifNapiAdd mem) ys with
    | error e =>
      rw [hys] at ht
      cases ht
    | ok s =>
      rw [run, hys] at hagree
      obtain ⟨l, -, hrep⟩ := hagree.exists_ok
      exact ⟨s, rfl, l, hrep⟩
  · intro hall
    obtain ⟨t, ht, -⟩ := hall cs List.prefix_rfl
    exact ⟨t, ht⟩

/-- Two packets with a hole between them, and one that fills it. -/
theorem run_copies_bridge :
    ∃ s, run default [.receive (.plain 0 1 7 100 10 0) fun _ => 0, .receive (.plain 1 1 7 120 10 0) fun _ => 0,
      .receive (.plain 2 1 7 110 10 0) fun _ => 0] = .ok s := by
  have hsteps : Steps step (fun s c => copiesSomething s c = true) (netifNapiAdd default)
      [.receive (.plain 0 1 7 100 10 0) fun _ => 0, .receive (.plain 1 1 7 120 10 0) fun _ => 0,
        .receive (.plain 2 1 7 110 10 0) fun _ => 0] := by decide +kernel
  exact (run_copies default _).1.2 hsteps

/-- An ACK without payload is held behind a hole; the packet that ends where it starts is to take it. -/
theorem not_copies_emptyAck : ¬ ∀ (mem : Mem) (cs : List Call), ∃ s, run mem cs = .ok s := by
  intro h
  have hfault : (run default [.receive (.plain 0 1 7 1000 100 0) fun _ => 0, .receive (.plain 1 1 7 2000 0 0) fun _ => 0,
      .receive (.plain 2 1 7 1900 100 0) fun _ => 0]).map (fun _ => ()) = .error .copyOverrun := by decide +kernel
  obtain ⟨s, hrun⟩ := h default [.receive (.plain 0 1 7 1000 100 0) fun _ => 0,
    .receive (.plain 1 1 7 2000 0 0) fun _ => 0, .receive (.plain 2 1 7 1900 100 0) fun _ => 0]
  rw [hrun] at hfault
  cases hfault

end PacketReordering.Linux41
