import PacketReordering.Gro.Bodies
import PacketReordering.Gro.Window
import PacketReordering.Linux318.Turns
import PacketReordering.Linux318.Walk

/-!
# `linux-3.18.5`: the walk finds the place of a packet

When the sequence numbers of a flow lie in a window, the walk along its queue comes to this: the packet takes its place
among the segments, in order, by itself or merged with its neighbours, and then the first segments go up.

* `Placed` — the queue with the packet in its place;
* `Settled` — what the walk comes to;
* `walkSegs_settled` — it does.
-/

namespace PacketReordering.Linux318

open Lib Gro

variable {base : U32} {n : Option SkbId} {k : SkbId} {b : Skb} {tr : Track} {w : Walked} {inSeq : U32}
  {p2 : Segment} {rest pre post segs rel rel' : List Segment}

/-- A merged buffer reaches from where `p` begins to where `skb` ends. -/
theorem skbGroMerge_seqEnd {p skb p' skb' : Skb} (hseq : p.seqEnd = skb.seq) (h : skbGroMerge p skb = .merged p' skb') :
    p'.seq = p.seq ∧ p'.seqEnd = skb.seqEnd := by
  obtain ⟨-, -, -, -, -, frags, rfl⟩ := skbGroMerge_merged h
  refine ⟨rfl, ?_⟩
  simp only [Body.seqEnd, Body.append] at hseq ⊢
  rw [← hseq]
  bv_omega

/-! ### Segments without their links -/

/-- The segments without the values of `skb->next`. -/
def erased (segs : List Segment) : List Segment := segs.map Seg.erase

@[simp] theorem erased_nil : erased [] = [] := rfl

@[simp] theorem erased_cons : erased (p2 :: rest) = p2.erase :: erased rest := rfl

@[simp] theorem erased_append : erased (pre ++ post) = erased pre ++ erased post := List.map_append

@[simp] theorem erased_setHeadNext : erased (setHeadNext n segs) = erased segs := by
  cases segs <;> rfl

@[simp] theorem erase_behind : (behind n pre p2).erase = p2.erase := by
  unfold behind
  split <;> rfl

@[simp] theorem bodies_erased {P : Skb → Prop} : Bodies P (erased segs) ↔ Bodies P segs := by
  induction segs with
  | nil => exact Iff.rfl
  | cons x segs ih => rw [erased_cons, bodies_cons, bodies_cons, ih, erase_body]

@[simp] theorem apart_erased : Apart base (erased segs) ↔ Apart base segs := by
  rw [Apart, erased, List.pairwise_map]
  exact Iff.rfl

theorem bodies_of_erased_eq {P : Skb → Prop} (h : erased pre = erased post) (hpost : Bodies P post) : Bodies P pre := by
  rw [← bodies_erased, h, bodies_erased]
  exact hpost

theorem apart_of_erased_eq (h : erased pre = erased post) (hpost : Apart base post) : Apart base pre := by
  rw [← apart_erased, h, apart_erased]
  exact hpost

/-! ### The track -/

theorem flushSegs_append [GroComplete Stamp] {d : Dat} {xs ys : List Segment} :
    flushSegs d (xs ++ ys) = ((flushSegs (flushSegs d xs).1 ys).1, (flushSegs d xs).2 ++ (flushSegs (flushSegs d xs).1 ys).2) := by
  induction xs generalizing d with
  | nil => rfl
  | cons x xs ih =>
    rw [List.cons_append, flushSegs, ih, flushSegs]
    rfl

/-- The last segment that goes up sets `seq_next`. -/
theorem flushSegs_concat [GroComplete Stamp] {d : Dat} {z : Segment} :
    (flushSegs d (rel ++ [z])).1 = d.setSeqNext z.body.seqEnd := by
  induction rel generalizing d with
  | nil => rfl
  | cons x rel ih =>
    rw [List.cons_append, flushSegs, ih]
    rfl

@[simp] theorem Track.flush_nil [GroComplete Stamp] : tr.flush [] = tr := by
  simp [Track.flush, flushSegs]

theorem Track.flush_append [GroComplete Stamp] : (tr.flush rel).flush rel' = tr.flush (rel ++ rel') := by
  simp only [Track.flush, flushSegs_append, List.append_assoc]

/-! ### The place of a packet -/

/-- The queue `segs` with the packet in its place is `all`; `exit` is how the loop was left.  A packet that is merged
behind a segment may reach into the next one, and then the loop is left with `return head`. -/
inductive Placed (base : U32) (k : SkbId) (b : Skb) : Exit → (segs all : List Segment) → Fate → Prop
  | refused {exit : Exit} {segs : List Segment} : Placed base k b exit segs segs .normal
  | insert {pre post : List Segment} (hpre : ∀ x ∈ pre, x.body.last base ≤ b.first base)
      (hpost : ∀ y ∈ post, b.last base ≤ y.body.first base) :
    Placed base k b .final (pre ++ post) (pre ++ ⟨k, none, b⟩ :: post) .held
  | front {pre post : List Segment} {p2 : Segment} {b' s' : Skb} (hpre : ∀ x ∈ pre, x.body.last base ≤ b.first base)
      (hseq : b.seqEnd = p2.body.seq) (hmerge : skbGroMerge b p2.body = .merged b' s') :
    Placed base k b .final (pre ++ p2 :: post) (pre ++ ⟨k, none, { b' with ext := b'.ext.of s'.ext }⟩ :: post) .held
  | behind {exit : Exit} {pre post : List Segment} {p2 : Segment} {b2 s2 : Skb} (hseq : p2.body.seqEnd = b.seq)
      (hmerge : skbGroMerge p2.body b = .merged b2 s2) (hpost : exit ≠ .head → ∀ y ∈ post, b.last base ≤ y.body.first base) :
    Placed base k b exit (pre ++ p2 :: post) (pre ++ { p2 with body := addFlags b2 b.tcp.flagWord } :: post) .merged
  | bridge {pre post : List Segment} {p2 p3 : Segment} {b2 s2 b3 s3 : Skb} (hseq : p2.body.seqEnd = b.seq)
      (hmerge : skbGroMerge p2.body b = .merged b2 s2) (hseq' : b.seqEnd = p3.body.seq)
      (hmerge' : skbGroMerge (addFlags b2 b.tcp.flagWord) p3.body = .merged b3 s3) :
    Placed base k b .final (pre ++ p2 :: p3 :: post)
      (pre ++ { p2 with body := { b3 with ext := b3.ext.min s3.ext } } :: post) .merged

/-- The segments `rel` have gone up, and the last of them reaches the packet and is behind the others. -/
def Reaches (base : U32) (b : Skb) (rel : List Segment) : Prop :=
  rel = [] ∨ ∃ z, rel.getLast? = some z ∧ b.first base ≤ z.body.last base ∧ ∀ x ∈ rel, x.body.last base ≤ z.body.last base

/-- What the walk of the packet along the queue `segs` comes to: `rel` is what went up. -/
structure Settled [GroComplete Stamp] (base : U32) (k : SkbId) (b : Skb) (tr : Track) (segs rel : List Segment)
    (w : Walked) : Prop where
  placed : Placed base k b w.exit (erased segs) (erased (rel ++ w.segs)) w.fate
  track : w.track = tr.flush rel
  reach : Reaches base b rel
  refused : w.fate = .normal → w.exit ≠ .head → rel ≠ []

theorem reaches_concat (hpassed : ∀ x ∈ rel, x.body.last base ≤ b.first base) (h : b.first base ≤ p2.body.last base) :
    Reaches base b (rel ++ [p2]) := by
  refine Or.inr ⟨p2, List.getLast?_concat, h, fun x hx => ?_⟩
  rcases List.mem_append.1 hx with hx | hx
  · exact Nat.le_trans (hpassed x hx) h
  · rw [List.mem_singleton.1 hx]

/-! ### The walk -/

/-- Between two turns: `rel` went up, `pre` was passed, and both end before the packet begins. -/
structure Walking [GroComplete Stamp] (base : U32) (b : Skb) (tr : Track) (segs post pre rel : List Segment)
    (tr' : Track) : Prop where
  segs : erased segs = erased (rel ++ pre ++ post)
  passed : ∀ x ∈ rel ++ pre, x.body.last base ≤ b.first base
  track : tr' = tr.flush rel
  reach : Reaches base b rel

section

variable {tr' : Track} {seq2 : U32}

/-- What is behind `p2` begins where `p2` ends or later. -/
theorem apart_rest (hwin : p2.body.InWindow base) (hapart : Apart base (p2 :: rest)) {m : ℕ}
    (h : m ≤ p2.body.first base) : ∀ y ∈ p2 :: rest, m ≤ y.body.first base := by
  have hle := hwin.first_le
  refine List.forall_mem_cons.2 ⟨h, fun y hy => ?_⟩
  have hy' := (apart_cons.1 hapart).1 y hy
  omega

/-- The segment `p2` is merged with the packet to `b2`. -/
theorem bridged_settled [GroComplete Stamp] {q2 : Segment} {b2 s2 : Skb}
    (hw : Bridged n b.seqEnd tr' pre { q2 with body := addFlags b2 b.tcp.flagWord } rest inSeq seq2 w)
    (hwalk : Walking base b tr segs (q2 :: rest) pre rel tr') (hbwin : b.InWindow base)
    (hwin : Bodies (Body.InWindow base) rest) (hapart : Apart base rest) (hseq : q2.body.seqEnd = b.seq)
    (hmerge : skbGroMerge q2.body b = .merged b2 s2) (hend : b2.seqEnd = b.seqEnd) :
    ∃ rel, Settled base k b tr segs rel w := by
  obtain ⟨hsegs, hpassed, rfl, hreach⟩ := hwalk
  have hreach2 : b.first base ≤ (addFlags b2 b.tcp.flagWord).last base := by
    show b.first base ≤ offset base b2.seqEnd
    rw [hend]
    exact hbwin.first_le
  have hplaced : ∀ exit, (exit ≠ .head → ∀ y ∈ erased rest, b.last base ≤ y.body.first base) →
      Placed base k b exit (erased segs)
        (erased (rel ++ pre) ++ { q2.erase with body := addFlags b2 b.tcp.flagWord } :: erased rest) .merged := by
    intro exit hpost
    rw [hsegs, erased_append, erased_cons]
    exact Placed.behind hseq hmerge hpost
  have hpost : ∀ p3 ps, rest = p3 :: ps → b.last base ≤ p3.body.first base →
      ∀ y ∈ erased rest, b.last base ≤ y.body.first base := by
    rintro p3 ps rfl hle
    have hp3 := (bodies_cons.1 hwin).1
    exact @apart_rest base p3.erase (erased ps) hp3 (apart_erased.2 hapart) _ hle
  have hle : ∀ p3 : Segment, b.seqEnd = p3.body.seq → b.last base ≤ p3.body.first base := by
    intro p3 he
    rw [Body.last, he]
    exact Nat.le_refl _
  cases hw with
  | last hrest =>
    subst hrest
    refine ⟨rel, ?_, rfl, hreach, fun h => by cases h⟩
    simpa [Seg.erase] using hplaced .final fun _ y hy => absurd hy List.not_mem_nil
  | @release p3 ps hrest hseq3 hmerge3 hin =>
    refine ⟨rel ++ (pre ++ [{ q2 with body := addFlags b2 b.tcp.flagWord }]), ?_, Track.flush_append, ?_,
      fun h => by cases h⟩
    · simpa [Seg.erase] using hplaced .null fun _ => hpost p3 ps hrest (hle p3 hseq3)
    · rw [← List.append_assoc]
      exact reaches_concat hpassed hreach2
  | @stay p3 ps hrest hseq3 hmerge3 hin =>
    refine ⟨rel, ?_, rfl, hreach, fun h => by cases h⟩
    simpa [Seg.erase] using hplaced .null fun _ => hpost p3 ps hrest (hle p3 hseq3)
  | refuseLast hrest hseq3 hmerge3 hne =>
    refine ⟨rel, ?_, rfl, hreach, fun h => by cases h⟩
    simpa [Seg.erase] using hplaced .head fun h => absurd rfl h
  | @refuse p3 ps err hrest hps hseq3 hmerge3 hne =>
    have hp3le : p3.body.first base ≤ p3.body.last base := by
      rw [hrest] at hwin
      exact (bodies_cons.1 hwin).1.first_le
    have hp3 : b.first base ≤ p3.body.last base := by
      have hble := hbwin.first_le
      have hlast := hle p3 hseq3
      omega
    refine ⟨rel ++ (pre ++ [{ q2 with body := addFlags b2 b.tcp.flagWord }, p3]), ?_, Track.flush_append, ?_,
      fun h => by cases h⟩
    · have hall := hplaced .null fun _ => hpost p3 ps hrest (hle p3 hseq3)
      rw [hrest] at hall
      simpa [Seg.erase] using hall
    · refine Or.inr ⟨p3, by simp, hp3, fun x hx => ?_⟩
      rw [← List.append_assoc, List.mem_append, List.mem_cons, List.mem_singleton] at hx
      rcases hx with hx | rfl | rfl
      · exact Nat.le_trans (hpassed x hx) hp3
      · show offset base b2.seqEnd ≤ p3.body.last base
        rw [hend]
        exact Nat.le_trans (hle p3 hseq3) hp3le
      · exact Nat.le_refl _
  | @bridge p3 ps b3 s3 hrest hseq3 hmerge3 =>
    refine ⟨rel, ?_, rfl, hreach, fun h => by cases h⟩
    rw [hsegs, hrest]
    have hbridge := @Placed.bridge base k b (erased (rel ++ pre)) (erased ps) q2.erase p3.erase b2 s2 b3 s3 hseq hmerge hseq3
      hmerge3
    simpa [Seg.erase] using hbridge
  | overlap hrest hseq3 hafter =>
    refine ⟨rel, ?_, rfl, hreach, fun h => by cases h⟩
    simpa [Seg.erase] using hplaced .head fun h => absurd rfl h
  | @gap p3 ps hrest hseq3 hafter =>
    have hp3 : b.last base ≤ p3.body.first base := by
      rw [hrest] at hwin
      have hp3win := (bodies_cons.1 hwin).1
      exact (before_eq_false_iff hp3win.first_le_window hbwin.last_le).1 hafter
    refine ⟨rel, ?_, rfl, hreach, fun h => by cases h⟩
    simpa [Seg.erase] using hplaced .final fun _ => hpost p3 ps hrest hp3

/-- A refused packet touches a segment that ends behind where the packet begins. -/
theorem Refused.reach {q2 : Segment} (h : Refused b q2 inSeq) (hbwin : b.InWindow base)
    (hwin : q2.body.InWindow base) : b.first base ≤ q2.body.last base := by
  have hb := hbwin.first_le
  have hq2 := hwin.first_le
  rcases h with ⟨hseq, -⟩ | ⟨-, hseq, -⟩
  · have hlast : b.last base = q2.body.first base := by rw [Body.last, hseq]; rfl
    omega
  · rw [Body.first, hseq]
    exact Nat.le_refl _

theorem Beyond.last_le {q2 : Segment} (h : Beyond b q2 inSeq) (hbwin : b.InWindow base) (hwin : q2.body.InWindow base) :
    q2.body.last base ≤ b.first base := by
  rcases h with ⟨hseq, -⟩ | ⟨-, hafter⟩
  · rw [Body.first, hseq]
    exact Nat.le_refl _
  · exact Nat.le_of_lt ((after_iff hbwin.first_le_window hwin.last_le).1 hafter)

theorem turn_settled [GroComplete Stamp] {q2 : Segment} (hw : Turn n k b q2 rest pre inSeq tr' (.inl w))
    (hwalk : Walking base b tr segs (q2 :: rest) pre rel tr') (hbwin : b.InWindow base)
    (hwin : Bodies (Body.InWindow base) segs) (hapart : Apart base segs) : ∃ rel, Settled base k b tr segs rel w := by
  have hwalk' := hwalk
  obtain ⟨hsegs, hpassed, rfl, hreach⟩ := hwalk'
  have hwinall := bodies_of_erased_eq hsegs.symm hwin
  have hapartall := apart_of_erased_eq hsegs.symm hapart
  obtain ⟨-, hq2win, hrestwin⟩ : Bodies (Body.InWindow base) (rel ++ pre) ∧ q2.body.InWindow base ∧
      Bodies (Body.InWindow base) rest := by rwa [bodies_append, bodies_cons] at hwinall
  obtain ⟨-, hq2rest, hcross⟩ := apart_append.1 hapartall
  have hrest : Apart base rest := (apart_cons.1 hq2rest).2
  have hpre : ∀ x ∈ erased (rel ++ pre), x.body.last base ≤ b.first base := by
    intro x hx
    obtain ⟨y, hy, rfl⟩ := List.mem_map.1 hx
    exact hpassed y hy
  have hpreq2 : q2.body.last base ≤ b.first base → ∀ x ∈ erased (rel ++ pre ++ [q2]), x.body.last base ≤ b.first base := by
    intro hle x hx
    obtain ⟨y, hy, rfl⟩ := List.mem_map.1 hx
    rcases List.mem_append.1 hy with hy | hy
    · exact hpassed y hy
    · rw [List.mem_singleton.1 hy]
      exact hle
  have hinsert := @Placed.insert base k b
  cases hw with
  | insert hseq =>
    have hle : b.last base ≤ q2.body.first base := by
      rcases hseq with hbefore | ⟨hseq, -⟩
      · exact Nat.le_of_lt ((before_iff hbwin.last_le hq2win.first_le_window).1 hbefore)
      · rw [Body.last, hseq]
        exact Nat.le_refl _
    have hpost := @apart_rest base q2.erase (erased rest) hq2win (apart_erased.2 hq2rest) _ hle
    refine ⟨rel, ?_, rfl, hreach, fun h => by cases h⟩
    rw [hsegs]
    simpa [Seg.erase] using hinsert hpre hpost
  | @mergeFront b' s' hseq hmerge =>
    refine ⟨rel, ?_, rfl, hreach, fun h => by cases h⟩
    rw [hsegs]
    have hfront := @Placed.front base k b _ (erased rest) q2.erase b' s' hpre hseq hmerge
    simpa [Seg.erase] using hfront
  | refuseLast hnil hwhy =>
    subst hnil
    refine ⟨rel, ?_, rfl, hreach, fun _ h => absurd rfl h⟩
    rw [hsegs]
    simpa using Placed.refused
  | refuse hne hwhy =>
    refine ⟨rel ++ (pre ++ [q2]), ?_, Track.flush_append, ?_, fun _ _ h => by simp at h⟩
    · rw [hsegs]
      simpa using Placed.refused
    · rw [← List.append_assoc]
      exact reaches_concat hpassed (hwhy.reach hbwin hq2win)
  | append hnil hnot hseq =>
    subst hnil
    refine ⟨rel, ?_, rfl, hreach, fun h => by cases h⟩
    rw [hsegs]
    have hall := @hinsert _ [] (hpreq2 (hseq.last_le hbwin hq2win)) fun y hy => absurd hy List.not_mem_nil
    simpa [Seg.erase] using hall
  | appendRelease hnil hnot hseq hin hmerge =>
    subst hnil
    have hle : b.first base = q2.body.last base := by rw [Body.first, hseq]; rfl
    refine ⟨rel ++ (pre ++ [q2]), ?_, Track.flush_append, ?_, fun h => by cases h⟩
    · rw [hsegs]
      have hall := @hinsert _ [] (hpreq2 (Nat.le_of_eq hle.symm)) fun y hy => absurd hy List.not_mem_nil
      simpa [Seg.erase] using hall
    · rw [← List.append_assoc]
      exact reaches_concat hpassed (Nat.le_of_eq hle)
  | merge hnot hseq hmerge hw =>
    exact bridged_settled hw hwalk hbwin hrestwin hrest hseq.symm hmerge (skbGroMerge_seqEnd hseq.symm hmerge).2
  | overlap hnot hseq hafter =>
    refine ⟨rel, ?_, rfl, hreach, fun _ h => absurd rfl h⟩
    rw [hsegs]
    simpa using Placed.refused

/-- **The walk finds the place of the packet.** -/
theorem walkSegs_settled [GroComplete Stamp] (hne : segs ≠ []) (hbwin : b.InWindow base)
    (hwin : Bodies (Body.InWindow base) segs)
    (hapart : Apart base segs) (h : walkSegs n k b segs [] inSeq tr = .ok w) : ∃ rel, Settled base k b tr segs rel w := by
  have hstart : Walking base b tr segs segs [] [] tr :=
    ⟨rfl, fun x hx => absurd hx List.not_mem_nil, Track.flush_nil.symm, Or.inl rfl⟩
  refine walkSegs_induct (I := fun post pre _ tr' => ∃ rel, Walking base b tr segs post pre rel tr')
    (P := fun w => ∃ rel, Settled base k b tr segs rel w) ?_ ?_ hne ⟨[], hstart⟩ h
  · rintro p2 rest pre inSeq tr' w ⟨rel, hwalk⟩ hturn
    refine turn_settled hturn ⟨?_, hwalk.passed, hwalk.track, hwalk.reach⟩ hbwin hwin hapart
    rw [hwalk.segs]
    simp
  · rintro p2 rest pre inSeq tr' pre' tr'' ⟨rel, hwalk⟩ hturn
    obtain ⟨hsegs, hpassed, rfl, hreach⟩ := hwalk
    have hp2win : p2.body.InWindow base := bodies_of_erased_eq hsegs.symm hwin p2 (by simp)
    have hpassed' : p2.body.last base ≤ b.first base →
        ∀ x ∈ rel ++ (pre ++ [behind n pre p2]), x.body.last base ≤ b.first base := by
      intro hle x hx
      rw [← List.append_assoc] at hx
      rcases List.mem_append.1 hx with hx | hx
      · exact hpassed x hx
      · rw [List.mem_singleton.1 hx, behind_body]
        exact hle
    cases hturn with
    | pass hrest hnot hseq =>
      have hle := hseq.last_le hbwin (by rwa [behind_body])
      rw [behind_body] at hle
      refine ⟨rel, ?_, hpassed' hle, rfl, hreach⟩
      rw [hsegs]
      simp
    | passRelease hrest hnot hseq hin hmerge =>
      rw [behind_body] at hseq
      have hle : b.first base = p2.body.last base := by rw [Body.first, hseq]; rfl
      refine ⟨rel ++ (pre ++ [behind n pre p2]), ?_, ?_, Track.flush_append, ?_⟩
      · rw [hsegs]
        simp
      · rw [List.append_nil]
        exact hpassed' (Nat.le_of_eq hle.symm)
      · rw [← List.append_assoc]
        refine reaches_concat hpassed ?_
        rw [behind_body]
        exact Nat.le_of_eq hle

end

end PacketReordering.Linux318
