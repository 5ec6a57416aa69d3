import PacketReordering.Gro.Walk
import PacketReordering.Linux41.Lists

/-!
# `linux-4.1`: the walk along a queue

* `Settled` — where the memory has a packet after `tcp_gro_receive`;
* `flushBehind_spec` — a flush in the middle of the walk;
* `mergeInFront_spec`, `mergedBehind_spec`, `walk_spec` — the walk over the memory is the walk over the list.
-/

namespace PacketReordering.Linux41

open Lib Gro

variable {s t : Mem} {l : Lists} {A B : List (Flow GsoEnd OfoExt)} {q : OfoId} {tr : Track} {pre rest : List Segment}
  {x : Segment} {k : SkbId} {b : Skb} {n : Option SkbId} {inSeq : U32}

/-- The lists with what the walk has changed beside the queue. -/
abbrev tracked (l : Lists) (tr : Track) : Lists := { l with clock := tr.clock, up := tr.up }

/-- The memory `t` holds what the walk over the list has come to. -/
def EndsWith (l : Lists) (A B : List (Flow GsoEnd OfoExt)) (q : OfoId) (k : SkbId) (b : Skb) (t : Mem) (w : Walked) : Prop :=
  Ends (tracked l w.track) A B q k b t w.track.dat w.segs w.fate

/-! ### A flush in the middle of the walk -/

theorem flushBehind_spec {last : SkbId} (h : Focus s (tracked l tr) A B q tr.dat (pre ++ x :: rest))
    (hlast : (segIds pre).getLast? = some last) :
    ∃ t, flushBehind s q (headRef A) (heads B).head? x.id last = .ok t ∧
      Focus t (tracked l (tr.release pre)) A B q (tr.release pre).dat (setHeadNext (heads B).head? (x :: rest)) ∧
      Kept s t (segIds pre) ∧
      ∀ {k b}, Arriving s (A ++ ⟨q, tr.dat, pre ++ x :: rest⟩ :: B) q k b →
        Arriving t (A ++ ⟨q, (tr.release pre).dat, setHeadNext (heads B).head? (x :: rest)⟩ :: B) q k b := by
  have hne : pre ≠ [] := by
    rintro rfl
    simp at hlast
  obtain ⟨t, ht, hfocus, hrest⟩ := h.flushUpTo { tr.dat with ext := tr.dat.ext.setFlushed (tr.clock.ktime 0) } tr.clock.tickKtime
    hlast
  refine ⟨t, ?_, ?_⟩
  · rw [← ht]
    have hclock : s.clock = tr.clock := h.links.clock
    have hdat : s.ofo q = tr.dat := h.holds.rep.dat
    rw [flushBehind, setHead_eq s _ (fun i hi => h.heads_live hi) (h.seg_live (by simp))]
    simp only [skbGroFlush, Napi.tickKtime, Napi.setOfo, hclock, hdat]
  · rw [Track.release, if_neg hne]
    exact ⟨hfocus, hrest⟩

/-! ### Merging -/

theorem skbGroMerge_merged {p skb p' skb' : Skb} (h : skbGroMerge p skb = .merged p' skb') :
    headersDiffer p skb = false ∧ gsoSizesDiffer p skb = false ∧ skb'.free ≠ .no ∧ skb'.len = skb.len ∧
      ∃ frags, p' = { p.append skb frags with
        tcp := { p.tcp with flagWord := p.tcp.flagWord ||| (skb.tcp.flagWord &&& tcpFlagPsh) }
        ext := p.ext || skb.ext || decide (skb.gsoSize < p.gsoSize) } := by
  unfold skbGroMerge at h
  split at h
  · cases h
  · rename_i hheaders
    split at h
    · cases h
    · rename_i hsizes
      split at h
      · rename_i p1 skb1 hdata
        obtain ⟨⟨frags, rfl⟩, hfree, hlen⟩ := mergeData_merged hdata
        cases h
        exact ⟨by simpa using hheaders, by simpa using hsizes, hfree, hlen, frags, rfl⟩
      · rename_i hno
        exact absurd h (hno p' skb')

theorem skbGroMerge_len {p skb p' skb' : Skb} (h : skbGroMerge p skb = .merged p' skb') : p'.len = p.len + skb.len := by
  obtain ⟨-, -, -, -, frags, rfl⟩ := skbGroMerge_merged h
  rfl

theorem skbGroMerge_free {p skb p' skb' : Skb} (h : skbGroMerge p skb = .merged p' skb') : p'.free = p.free := by
  obtain ⟨-, -, -, -, frags, rfl⟩ := skbGroMerge_merged h
  rfl

/-! ### Flushes -/

/-- `skb_gro_flush` up to the last of `pre`, unless there is none, and the packet goes up as it is. -/
theorem releaseDrop_spec (h : Focus s (tracked l tr) A B q tr.dat (pre ++ x :: rest))
    (hx : pre = [] → x.next = (heads B).head?) (hk : Arriving s (A ++ ⟨q, tr.dat, pre ++ x :: rest⟩ :: B) q k b) :
    Agree (EndsWith l A B q k b)
      (match (segIds pre).getLast? with
        | some p3 => (flushBehind s q (headRef A) (heads B).head? x.id p3).map (·.setFlush k)
        | none => .ok (s.setFlush k))
      (.ok ⟨tr.release pre, setHeadNext (heads B).head? (x :: rest), .normal⟩) := by
  cases hlast : (segIds pre).getLast? with
  | none =>
    obtain rfl : pre = [] := by simpa [segIds] using hlast
    have hsame : setHeadNext (heads B).head? (x :: rest) = x :: rest := by
      simp only [setHeadNext, ← hx rfl]
    rw [hsame]
    exact ends_drop h hk
  | some last =>
    obtain ⟨t, ht, hfocus, -, harr⟩ := flushBehind_spec h hlast
    simp only [ht]
    exact ends_drop hfocus (harr hk)

/-- The segments up to `x` are released when there is one behind it. -/
theorem flushThrough_spec (h : Focus s (tracked l tr) A B q tr.dat (pre ++ x :: rest)) {y : Segment}
    {ys : List Segment} (hrest : rest = y :: ys) :
    s.cbNext x.id = some y.id ∧ ∃ t, flushBehind s q (headRef A) (heads B).head? y.id x.id = .ok t ∧
      Focus t (tracked l (tr.release (pre ++ [x]))) A B q (tr.release (pre ++ [x])).dat
        (setHeadNext (heads B).head? rest) ∧
      Kept s t (segIds (pre ++ [x])) ∧
      ∀ {k b}, Arriving s (A ++ ⟨q, tr.dat, pre ++ x :: rest⟩ :: B) q k b →
        Arriving t (A ++ ⟨q, (tr.release (pre ++ [x])).dat, setHeadNext (heads B).head? rest⟩ :: B) q k b := by
  subst hrest
  refine ⟨h.dll.2, ?_⟩
  have h' : Focus s (tracked l tr) A B q tr.dat ((pre ++ [x]) ++ y :: ys) := by simpa using h
  have hlast : (segIds (pre ++ [x])).getLast? = some x.id := by simp
  obtain ⟨t, ht, hfocus, hkept, harr⟩ := flushBehind_spec h' hlast
  refine ⟨t, ht, hfocus, hkept, fun hk => harr ?_⟩
  simpa using hk

theorem flushDrop_spec (h : Focus s (tracked l tr) A B q tr.dat (pre ++ x :: rest))
    (hk : Arriving s (A ++ ⟨q, tr.dat, pre ++ x :: rest⟩ :: B) q k b) :
    Agree (EndsWith l A B q k b)
      (match s.cbNext x.id with
        | some p3 => (flushBehind s q (headRef A) (heads B).head? p3 x.id).map (·.setFlush k)
        | none => .ok (s.setFlush k))
      (if rest = [] then .ok ⟨tr, pre ++ [x], .normal⟩
      else .ok ⟨tr.release (pre ++ [x]), setHeadNext (heads B).head? rest, .normal⟩) := by
  cases hrest : rest with
  | nil =>
    subst hrest
    have hnext : s.cbNext x.id = none := h.dll.2
    simp only [hnext, if_true]
    exact ends_drop h hk
  | cons y ys =>
    rw [hrest] at h hk
    obtain ⟨hnext, t, ht, hfocus, -, harr⟩ := flushThrough_spec h rfl
    simp only [hnext, ht, if_neg (List.cons_ne_nil y ys)]
    exact ends_drop hfocus (harr hk)

theorem flushMerged_spec (h : Focus s (tracked l tr) A B q tr.dat (pre ++ x :: rest))
    (hk : Absorbed s (A ++ ⟨q, tr.dat, pre ++ x :: rest⟩ :: B) k) :
    Agree (EndsWith l A B q k b)
      (match s.cbNext x.id with
        | none => .ok s
        | some p3 => flushBehind s q (headRef A) (heads B).head? p3 x.id)
      (if rest = [] then .ok ⟨tr, pre ++ [x], .merged⟩
      else .ok ⟨tr.release (pre ++ [x]), setHeadNext (heads B).head? rest, .merged⟩) := by
  cases hrest : rest with
  | nil =>
    subst hrest
    have hnext : s.cbNext x.id = none := h.dll.2
    simp only [hnext, if_true]
    exact ⟨h, hk⟩
  | cons y ys =>
    rw [hrest] at h hk
    obtain ⟨hnext, t, ht, hfocus, hkept, -⟩ := flushThrough_spec h rfl
    simp only [hnext, ht, if_neg (List.cons_ne_nil y ys)]
    have hk' : Absorbed s (A ++ ⟨q, tr.dat, (pre ++ [x]) ++ y :: ys⟩ :: B) k := by simpa using hk
    exact ⟨hfocus, hk'.release hkept (hfocus.links.nskb.trans h.links.nskb.symm)⟩

/-! ### The branches of the walk -/

/-- `skb_gro_merge(skb, p2)` has failed, with `c` for the test in front of flush point 31. -/
theorem mergeFailed_spec (c : Bool) (h : Focus s (tracked l tr) A B q tr.dat (pre ++ x :: rest))
    (hx : pre = [] → x.next = (heads B).head?) (hk : Arriving s (A ++ ⟨q, tr.dat, pre ++ x :: rest⟩ :: B) q k b)
    (hfree : b.free = .no) :
    Agree (EndsWith l A B q k b)
      (if inSeq ≠ b.seq then .ok (s.linkBefore q k b.len (headRef A) (heads B).head? x.id)
      else if c = true then
        match s.cbNext x.id with
        | some p3 => (flushBehind s q (headRef A) (heads B).head? p3 x.id).map (·.setFlush k)
        | none => .ok (s.setFlush k)
      else
        match s.cbPrev x.id with
        | some p3 => (flushBehind s q (headRef A) (heads B).head? x.id p3).map (·.setFlush k)
        | none => .ok (s.setFlush k))
      (if inSeq ≠ b.seq then
        .ok ⟨tr, pre ++ behind (heads B).head? pre ⟨k, none, b⟩ :: x :: rest, .held⟩
      else if c = true then
        if rest = [] then .ok ⟨tr, pre ++ [x], .normal⟩
        else .ok ⟨tr.release (pre ++ [x]), setHeadNext (heads B).head? rest, .normal⟩
      else .ok ⟨tr.release pre, setHeadNext (heads B).head? (x :: rest), .normal⟩) := by
  by_cases hseq : inSeq ≠ b.seq
  · rw [if_pos hseq, if_pos hseq]
    exact ends_holdBefore h hk hfree
  · rw [if_neg hseq, if_neg hseq]
    cases c with
    | true => exact flushDrop_spec h hk
    | false =>
      simp only [h.dll.1]
      exact releaseDrop_spec h hx hk

theorem mergeInFront_spec (h : Focus s (tracked l tr) A B q tr.dat (pre ++ x :: rest))
    (hx : pre = [] → x.next = (heads B).head?) (hk : Arriving s (A ++ ⟨q, tr.dat, pre ++ x :: rest⟩ :: B) q k b)
    (hfree : b.free = .no) :
    Agree (EndsWith l A B q k b) (mergeInFront s q k b.seq b.len (headRef A) (heads B).head? x.id inSeq)
      (mergeInFrontSegs (heads B).head? b tr pre (behind (heads B).head? pre ⟨k, none, b⟩) x rest inSeq) := by
  have hxlive := h.seg_live (x := x) (by simp)
  have hbody := h.holds.rep.body x (by simp)
  have hxk : x.id ≠ k := hk.ids_ne x.id (by simp)
  unfold mergeInFront mergeInFrontSegs
  rw [skbGroMerge_eq hk.live hxlive, hk.body, hbody]
  cases hmerge : skbGroMerge b x.body with
  | overrun => rfl
  | failed err =>
    cases err with
    | inval => exact ends_drop h hk
    | tooBig =>
      simp only [hbody]
      exact mergeFailed_spec _ h hx hk hfree
    | fail =>
      simp only [hbody]
      exact mergeFailed_spec _ h hx hk hfree
  | merged b' x' =>
    obtain ⟨-, -, -, hxlen, -⟩ := skbGroMerge_merged hmerge
    -- the memory after `skb_gro_merge(skb, p2)`
    let u : Mem := { s with
      body := Function.update (Function.update s.body k b') x.id x'
      sameFlow := Function.update s.sameFlow x.id true }
    have hfocus : Focus u (tracked l tr) A B q tr.dat (pre ++ { x with body := x' } :: rest) := by
      refine h.withBody u.body u.sameFlow s.qlen hk.lt hk.mem ?_ ?_ (fun _ _ => rfl) ?_
      · simp [u]
      · intro i hix hik
        simp [u, hix, hik]
      · have hqlen := h.holds.rep.qlen
        simpa [totalLen, hxlen] using hqlen
    have hloose : Loose u (A ++ ⟨q, tr.dat, pre ++ { x with body := x' } :: rest⟩ :: B) k b' := by
      refine ⟨hk.lt, hk.live, ?_, ?_, hk.next⟩
      · simpa [Flow.ids] using hk.mem
      · simp [u, Ne.symm hxk]
    have hlen : b'.len = b.len + x'.len := by rw [skbGroMerge_len hmerge, hxlen]
    have hreplaced := hfocus.replaceBy hloose hlen
    rw [behind_new]
    refine ⟨hreplaced, settled_held hreplaced (List.mem_append_right _ (List.mem_cons_self ..))
      (replaceBy_sameFlow ..) ?_⟩
    exact (skbGroMerge_free hmerge).trans hfree

/-- The packet has gone into the segment `x`. -/
theorem mergedBehind_spec {seq2 : U32}
    (h : Focus { s with qlen := Function.update s.qlen q (s.qlen q + b.len) } (tracked l tr) A B q tr.dat
      (pre ++ x :: rest))
    (hk : Absorbed { s with qlen := Function.update s.qlen q (s.qlen q + b.len) }
      (A ++ ⟨q, tr.dat, pre ++ x :: rest⟩ :: B) k) :
    Agree (EndsWith l A B q k b) (mergedBehind s q b.seqEnd b.len (headRef A) (heads B).head? x.id inSeq seq2)
      (mergedBehindSegs (heads B).head? b tr pre x rest inSeq seq2) := by
  unfold mergedBehind mergedBehindSegs
  revert h hk
  generalize ({ s with qlen := Function.update s.qlen q (s.qlen q + b.len) } : Mem) = u
  intro h hk
  have hbody := h.holds.rep.body x (by simp)
  simp only [hbody]
  by_cases hpsh : (decide (inSeq = seq2) && x.body.tcp.psh) = true
  · rw [if_pos hpsh, if_pos hpsh]
    exact flushMerged_spec h hk
  · rw [if_neg hpsh, if_neg hpsh]
    cases rest with
    | nil =>
      have hnext : u.cbNext x.id = none := h.dll.2
      simp only [hnext]
      exact ⟨h, hk⟩
    | cons y ys =>
      have hnext : u.cbNext x.id = some y.id := h.dll.2
      have hylive := h.seg_live (x := y) (by simp)
      have hybody := h.holds.rep.body y (by simp)
      simp only [hnext, touch_eq hylive, hybody]
      by_cases hseq : b.seqEnd = y.body.seq
      · rw [if_pos hseq, if_pos hseq, skbGroMerge_eq (h.seg_live (by simp)) hylive, hbody, hybody]
        cases hmerge : skbGroMerge x.body y.body with
        | overrun => rfl
        | failed err =>
          have hflush : Agree (EndsWith l A B q k b)
              (if inSeq = seq2 then flushBehind u q (headRef A) (heads B).head? y.id x.id else .ok u)
              (if inSeq = seq2 then
                .ok ⟨tr.release (pre ++ [x]), setHeadNext (heads B).head? (y :: ys), .merged⟩
              else .ok ⟨tr, pre ++ x :: y :: ys, .merged⟩) := by
            by_cases hin : inSeq = seq2
            · rw [if_pos hin, if_pos hin]
              have := flushMerged_spec (b := b) h hk
              rwa [hnext, if_neg (List.cons_ne_nil y ys)] at this
            · rw [if_neg hin, if_neg hin]
              exact ⟨h, hk⟩
          cases err with
          | inval => exact ⟨h, hk⟩
          | tooBig => exact hflush
          | fail => exact hflush
        | merged b3 y' =>
          have hlen : b3.len = x.body.len + y.body.len := skbGroMerge_len hmerge
          have hxy : x.id ≠ y.id := by
            have hnd : (segIds pre ++ x.id :: y.id :: segIds ys).Nodup := by simpa [Flow.ids] using h.links.ids_nodup
            have hx := (List.nodup_cons.1 (List.nodup_append.1 hnd).2.1).1
            exact fun he => hx (by simp [he])
          have hfocus := h.absorb (b := b3) (Function.update (Function.update u.body x.id b3) y.id y')
            (Function.update u.sameFlow y.id true) (by simp [hxy]) (fun i hix hiy => by simp [hix, hiy]) hlen
          have hbody3 := hfocus.holds.rep.body { x with body := b3 } (by simp)
          simp only at hbody3
          simp only [hbody3]
          by_cases hpsh3 : (decide (inSeq = seq2) && b3.tcp.psh) = true
          · rw [if_pos hpsh3, if_pos hpsh3]
            exact flushMerged_spec hfocus (hk.absorb h rfl)
          · rw [if_neg hpsh3, if_neg hpsh3]
            exact ⟨hfocus, hk.absorb h rfl⟩
      · rw [if_neg hseq, if_neg hseq]
        exact ⟨h, hk⟩

/-! ### The walk -/

/-- What the memory after a turn of the loop has to do with the turn on the list. -/
def Turned (l : Lists) (A B : List (Flow GsoEnd OfoExt)) (q : OfoId) (k : SkbId) (b : Skb) (rest : List Segment)
    (r : Mem × Option SkbId) : Walked ⊕ (List Segment × Track) → Prop
  | .inl w => r.2 = none ∧ EndsWith l A B q k b r.1 w
  | .inr (pre, tr) => ∃ y ys, rest = y :: ys ∧ r.2 = some y.id ∧
      Focus r.1 (tracked l tr) A B q tr.dat (pre ++ behind (heads B).head? pre y :: ys) ∧
      Arriving r.1 (A ++ ⟨q, tr.dat, pre ++ behind (heads B).head? pre y :: ys⟩ :: B) q k b

theorem Turned.leave {r : Except Fault Mem} {w : Except Fault Walked} (h : Agree (EndsWith l A B q k b) r w) :
    Agree (Turned l A B q k b rest) (r.map fun s => (s, none)) (w.map .inl) := by
  cases r with
  | error e =>
    cases w with
    | error e' => exact h
    | ok w => exact h.elim
  | ok t =>
    cases w with
    | error e => exact h.elim
    | ok w => exact ⟨rfl, h⟩

/-- The loop goes on behind `x`. -/
theorem Turned.next {y : Segment} {ys : List Segment}
    (h : Focus s (tracked l tr) A B q tr.dat (pre ++ x :: y :: ys))
    (hk : Arriving s (A ++ ⟨q, tr.dat, pre ++ x :: y :: ys⟩ :: B) q k b) :
    Turned l A B q k b (y :: ys) (s, some y.id) (.inr (pre ++ [x], tr)) := by
  have hy : behind (heads B).head? (pre ++ [x]) y = y := if_neg (by simp)
  refine ⟨y, ys, rfl, rfl, ?_⟩
  rw [hy, List.append_assoc]
  exact ⟨h, hk⟩

/-- The packet `k` goes into the segment `x`. -/
theorem ends_merge {x' k' : Skb} {seq2 : U32} (h : Focus s (tracked l tr) A B q tr.dat (pre ++ x :: rest))
    (hk : Arriving s (A ++ ⟨q, tr.dat, pre ++ x :: rest⟩ :: B) q k b) (hmerge : skbGroMerge x.body b = .merged x' k') :
    Agree (EndsWith l A B q k b)
      (mergedBehind { s with
        body := Function.update (Function.update s.body x.id x') k k'
        sameFlow := Function.update s.sameFlow k true } q b.seqEnd b.len (headRef A) (heads B).head? x.id inSeq seq2)
      (mergedBehindSegs (heads B).head? b tr pre { x with body := x' } rest inSeq seq2) := by
  have hxk : x.id ≠ k := hk.ids_ne x.id (by simp)
  obtain ⟨-, -, hk', -⟩ := skbGroMerge_merged hmerge
  refine mergedBehind_spec (x := { x with body := x' }) ?_ ⟨?_, ?_, ?_, hk.lt, hk.live⟩
  · refine h.withBody _ _ _ hk.lt hk.mem ?_ ?_ ?_ ?_
    · simp [hxk]
    · intro i hix hik
      simp [hix, hik]
    · intro r hr
      simp [hr]
    · have hqlen := h.holds.rep.qlen
      simp only [totalLen_append, totalLen, Function.update_self] at hqlen ⊢
      rw [hqlen, skbGroMerge_len hmerge]
      ac_rfl
  · simpa [Flow.ids] using hk.mem
  · simp
  · simpa using hk'

/-- `skb_gro_merge(p2, skb)` has failed. -/
theorem turn_mergeFailed (h : Focus s (tracked l tr) A B q tr.dat (pre ++ x :: rest))
    (hk : Arriving s (A ++ ⟨q, tr.dat, pre ++ x :: rest⟩ :: B) q k b) (hfree : b.free = .no) :
    Agree (Turned l A B q k b rest)
      (match s.cbNext x.id with
        | some p3 =>
          if inSeq = x.body.seq then
            (flushBehind s q (headRef A) (heads B).head? p3 x.id).map fun s => (s, some p3)
          else .ok (s, some p3)
        | none =>
          if (decide (inSeq = x.body.seq) && b.tcp.psh) = true then .ok (s.setFlush k, none)
          else if inSeq = x.body.seq then
            (flushBehind (s.linkLast q k b.len x.id) q (headRef A) (heads B).head? k x.id).map fun s => (s, none)
          else .ok (s.linkLast q k b.len x.id, none))
      (if rest = [] then
        if (decide (inSeq = x.body.seq) && b.tcp.psh) = true then .ok (.inl ⟨tr, pre ++ [x], .normal⟩)
        else if inSeq = x.body.seq then
          .ok (.inl ⟨tr.release (pre ++ [x]), [⟨k, (heads B).head?, b⟩], .held⟩)
        else .ok (.inl ⟨tr, pre ++ [x, ⟨k, none, b⟩], .held⟩)
      else if inSeq = x.body.seq then .ok (.inr ([], tr.release (pre ++ [x])))
      else .ok (.inr (pre ++ [x], tr))) := by
  cases rest with
  | nil =>
    have hnext : s.cbNext x.id = none := h.dll.2
    simp only [hnext, if_true]
    split
    · exact ⟨rfl, ends_drop h hk⟩
    · have hlast := ends_holdLast h hk hfree
      split
      · have hfocus : Focus (s.linkLast q k b.len x.id) (tracked l tr) A B q tr.dat
            ((pre ++ [x]) ++ ⟨k, none, b⟩ :: []) := by simpa using hlast.1
        have hx : (segIds (pre ++ [x])).getLast? = some x.id := by simp
        obtain ⟨t, ht, hfocus', hkept, -⟩ := flushBehind_spec hfocus hx
        rw [ht]
        refine ⟨rfl, hfocus', settled_held hfocus' (List.mem_singleton.2 rfl) ?_ hfree⟩
        rw [hkept.sameFlow]
        exact linkLast_sameFlow ..
      · exact ⟨rfl, hlast⟩
  | cons y ys =>
    rw [if_neg (List.cons_ne_nil y ys)]
    by_cases hin : inSeq = x.body.seq
    · obtain ⟨hnext, t, ht, hfocus, -, harr⟩ := flushThrough_spec h rfl
      simp only [hnext, if_pos hin, ht]
      exact ⟨y, ys, rfl, rfl, hfocus, harr hk⟩
    · have hnext : s.cbNext x.id = some y.id := h.dll.2
      simp only [hnext, if_neg hin]
      exact Turned.next h hk

theorem walkTurn_spec (inSeq : U32) (h : Focus s (tracked l tr) A B q tr.dat (pre ++ x :: rest))
    (hx : pre = [] → x.next = (heads B).head?) (hk : Arriving s (A ++ ⟨q, tr.dat, pre ++ x :: rest⟩ :: B) q k b)
    (hfree : b.free = .no) :
    Agree (Turned l A B q k b rest)
      (walkTurn s q k b.seq b.len b.tcp.flagWord (headRef A) (heads B).head? x.id inSeq)
      (turnSegs (heads B).head? k b x rest pre inSeq tr) := by
  have hxlive := h.seg_live (x := x) (by simp)
  have hbody := h.holds.rep.body x (by simp)
  obtain ⟨hprev, hnext⟩ := h.dll
  unfold walkTurn turnSegs
  simp only [hbody, ← Body.seqEnd.eq_def, ← TcpHdr.psh.eq_def]
  by_cases hbefore : before b.seqEnd x.body.seq = true
  · rw [if_pos hbefore, if_pos hbefore]
    by_cases hpsh : (b.tcp.psh && b.seq == inSeq) = true
    · rw [if_pos hpsh, if_pos hpsh, hprev]
      exact Turned.leave (releaseDrop_spec h hx hk)
    · rw [if_neg hpsh, if_neg hpsh]
      exact ⟨rfl, ends_holdBefore h hk hfree⟩
  · rw [if_neg hbefore, if_neg hbefore]
    by_cases hfront : b.seqEnd = x.body.seq
    · rw [if_pos hfront, if_pos hfront]
      exact Turned.leave (mergeInFront_spec h hx hk hfree)
    · rw [if_neg hfront, if_neg hfront]
      by_cases hbehind : b.seq = x.body.seqEnd
      · rw [if_pos hbehind, if_pos hbehind, skbGroMerge_eq hxlive hk.live, hk.body, hbody]
        cases hmerge : skbGroMerge x.body b with
        | overrun => rfl
        | failed err =>
          cases err with
          | inval => exact ⟨rfl, ends_drop h hk⟩
          | tooBig => exact turn_mergeFailed h hk hfree
          | fail => exact turn_mergeFailed h hk hfree
        | merged x' k' => exact Turned.leave (ends_merge h hk hmerge)
      · rw [if_neg hbehind, if_neg hbehind]
        by_cases hafter : after b.seq x.body.seqEnd = true
        · rw [if_pos hafter, if_pos hafter]
          cases rest with
          | nil =>
            have hnext : s.cbNext x.id = none := hnext
            simp only [hnext, if_true]
            exact ⟨rfl, ends_holdLast h hk hfree⟩
          | cons y ys =>
            have hnext : s.cbNext x.id = some y.id := hnext
            simp only [hnext, if_neg (List.cons_ne_nil y ys)]
            exact Turned.next h hk
        · rw [if_neg hafter, if_neg hafter]
          exact ⟨rfl, ends_drop h hk⟩

/-- A turn of the loop, when the turns after it are right. -/
theorem walk_cons {fuel : ℕ} (h : Focus s (tracked l tr) A B q tr.dat (pre ++ behind (heads B).head? pre x :: rest))
    (hk : Arriving s (A ++ ⟨q, tr.dat, pre ++ behind (heads B).head? pre x :: rest⟩ :: B) q k b)
    (hfree : b.free = .no)
    (hnext : ∀ {t : Mem} {tr : Track} {pre : List Segment} {y : Segment} {ys : List Segment} (inSeq : U32),
      rest = y :: ys → Focus t (tracked l tr) A B q tr.dat (pre ++ behind (heads B).head? pre y :: ys) →
      Arriving t (A ++ ⟨q, tr.dat, pre ++ behind (heads B).head? pre y :: ys⟩ :: B) q k b →
      Agree (EndsWith l A B q k b)
        (match fuel with
          | 0 => .error .diverges
          | fuel + 1 => walk q k b.seq b.len b.tcp.flagWord (headRef A) (heads B).head? fuel y.id inSeq t)
        (walkSegs (heads B).head? k b rest pre inSeq tr)) :
    Agree (EndsWith l A B q k b)
      (walk q k b.seq b.len b.tcp.flagWord (headRef A) (heads B).head? fuel x.id inSeq s)
      (walkSegs (heads B).head? k b (x :: rest) pre inSeq tr) := by
  have hx : pre = [] → (behind (heads B).head? pre x).next = (heads B).head? := fun hp => by rw [behind, if_pos hp]
  have hlive := h.seg_live (x := behind (heads B).head? pre x) (by simp)
  have hbody := h.holds.rep.body (behind (heads B).head? pre x) (by simp)
  have hturn := walkTurn_spec inSeq h hx hk hfree
  simp only [behind_id, behind_body] at hlive hbody hturn
  rw [walk.eq_def, walkSegs]
  simp only [touch_eq hlive, hbody, behind_body]
  cases hm : walkTurn s q k b.seq b.len b.tcp.flagWord (headRef A) (heads B).head? x.id inSeq with
  | error e =>
    cases hl : turnSegs (heads B).head? k b (behind (heads B).head? pre x) rest pre inSeq tr with
    | error e' =>
      rw [hm, hl] at hturn
      exact hturn
    | ok z =>
      rw [hm, hl] at hturn
      exact hturn.elim
  | ok r =>
    obtain ⟨t, o⟩ := r
    cases hl : turnSegs (heads B).head? k b (behind (heads B).head? pre x) rest pre inSeq tr with
    | error e =>
      rw [hm, hl] at hturn
      exact hturn.elim
    | ok z =>
      rw [hm, hl] at hturn
      cases z with
      | inl w =>
        obtain ⟨rfl, hends⟩ := hturn
        exact hends
      | inr p =>
        obtain ⟨y, ys, hrest, rfl, hfocus, harr⟩ := hturn
        exact hnext _ hrest hfocus harr

/-- **The walk over the memory is the walk over the list.** -/
theorem walk_spec {fuel : ℕ} (h : Focus s (tracked l tr) A B q tr.dat (pre ++ behind (heads B).head? pre x :: rest))
    (hk : Arriving s (A ++ ⟨q, tr.dat, pre ++ behind (heads B).head? pre x :: rest⟩ :: B) q k b)
    (hfree : b.free = .no) (hfuel : rest.length ≤ fuel) :
    Agree (EndsWith l A B q k b)
      (walk q k b.seq b.len b.tcp.flagWord (headRef A) (heads B).head? fuel x.id inSeq s)
      (walkSegs (heads B).head? k b (x :: rest) pre inSeq tr) := by
  induction rest generalizing s tr pre x fuel inSeq with
  | nil => exact walk_cons h hk hfree fun _ hrest => absurd hrest (by simp)
  | cons z zs ih =>
    refine walk_cons h hk hfree ?_
    rintro t tr' pre' y ys inSeq' hrest hfocus harr
    obtain ⟨rfl, rfl⟩ := List.cons.inj hrest
    obtain ⟨fuel, rfl⟩ := Nat.exists_eq_add_of_le' (Nat.le_trans (by simp : 1 ≤ (z :: zs).length) hfuel)
    exact ih hfocus harr (by simpa using hfuel)

end PacketReordering.Linux41
