import PacketReordering.Gro.Walk
import PacketReordering.Linux318.Lists

/-!
# `linux-3.18.5`: the walk along a queue

* `flushBehind_spec` — a flush in the middle of the walk;
* `mergeInFront_spec`, `mergedBehind_spec`, `walk_spec` — the walk over the memory is the walk over the list.
-/

namespace PacketReordering.Linux318

open Lib Gro

variable {s t : Mem} {l : Lists} {A B : List (Flow Stamp OfoExt)} {q : OfoId} {tr : Track} {pre rest : List Segment}
  {x : Segment} {k : SkbId} {b : Skb} {inSeq : U32}

/-- The lists with what the walk has changed beside the queue. -/
abbrev tracked (l : Lists) (tr : Track) : Lists := { l with up := tr.up }

/-- The memory `r.1` holds what the walk over the list has come to, and both loops were left the same way. -/
def EndsWith (l : Lists) (A B : List (Flow Stamp OfoExt)) (q : OfoId) (k : SkbId) (b : Skb) (r : Mem × Exit)
    (w : Walked) : Prop :=
  Ends (tracked l w.track) A B q k b r.1 w.track.dat w.segs w.fate ∧ r.2 = w.exit

/-! ### A flush in the middle of the walk -/

theorem flushBehind_spec [GroComplete Stamp] {last : SkbId} (h : Focus s (tracked l tr) A B q tr.dat (pre ++ x :: rest))
    (hlast : (segIds pre).getLast? = some last) :
    ∃ t, flushBehind s q (headRef A) (heads B).head? x.id last = .ok t ∧
      Focus t (tracked l (tr.flush pre)) A B q (tr.flush pre).dat (setHeadNext (heads B).head? (x :: rest)) ∧
      Kept s t (segIds pre) ∧
      ∀ {k b}, Arriving s (A ++ ⟨q, tr.dat, pre ++ x :: rest⟩ :: B) q k b →
        Arriving t (A ++ ⟨q, (tr.flush pre).dat, setHeadNext (heads B).head? (x :: rest)⟩ :: B) q k b := by
  obtain ⟨t, ht, hfocus, hrest⟩ := h.flushUpTo tr.dat l.clock hlast
  refine ⟨t, ?_, hfocus, hrest⟩
  have hclock : s.clock = l.clock := h.links.clock
  have hdat : s.ofo q = tr.dat := h.holds.rep.dat
  rw [← ht, flushBehind, setHead_eq s _ (fun i hi => h.heads_live hi) (h.seg_live (by simp)), skbGroFlush, ← hclock,
    ← hdat, Function.update_eq_self]

/-- The segments up to `x` are released when there is one behind it. -/
theorem flushThrough_spec [GroComplete Stamp] {y : Segment} {ys : List Segment}
    (h : Focus s (tracked l tr) A B q tr.dat (pre ++ x :: y :: ys)) :
    s.cbNext x.id = some y.id ∧ ∃ t, flushBehind s q (headRef A) (heads B).head? y.id x.id = .ok t ∧
      Focus t (tracked l (tr.flush (pre ++ [x]))) A B q (tr.flush (pre ++ [x])).dat
        (setHeadNext (heads B).head? (y :: ys)) ∧
      Kept s t (segIds (pre ++ [x])) ∧
      ∀ {k b}, Arriving s (A ++ ⟨q, tr.dat, pre ++ x :: y :: ys⟩ :: B) q k b →
        Arriving t (A ++ ⟨q, (tr.flush (pre ++ [x])).dat, setHeadNext (heads B).head? (y :: ys)⟩ :: B) q k b := by
  refine ⟨h.dll.2, ?_⟩
  have h' : Focus s (tracked l tr) A B q tr.dat ((pre ++ [x]) ++ y :: ys) := by simpa using h
  have hlast : (segIds (pre ++ [x])).getLast? = some x.id := by simp
  obtain ⟨t, ht, hfocus, hkept, harr⟩ := flushBehind_spec h' hlast
  refine ⟨t, ht, hfocus, hkept, fun hk => harr ?_⟩
  simpa using hk

/-- Flush points 3 and 4. -/
theorem dropBehind_spec [GroComplete Stamp] (h : Focus s (tracked l tr) A B q tr.dat (pre ++ x :: rest))
    (hk : Arriving s (A ++ ⟨q, tr.dat, pre ++ x :: rest⟩ :: B) q k b) :
    Agree (EndsWith l A B q k b)
      (match s.cbNext x.id with
        | some p3 => (flushBehind s q (headRef A) (heads B).head? p3 x.id).map fun s => (s.setFlush k, .null)
        | none => .ok (s.setFlush k, .head))
      (.ok (dropBehind (heads B).head? tr pre x rest)) := by
  unfold dropBehind
  cases rest with
  | nil =>
    have hnext : s.cbNext x.id = none := h.dll.2
    simp only [hnext, if_true]
    exact ⟨ends_drop h hk, rfl⟩
  | cons y ys =>
    obtain ⟨hnext, t, ht, hfocus, -, harr⟩ := flushThrough_spec h
    simp only [hnext, ht, if_neg (List.cons_ne_nil y ys)]
    exact ⟨ends_drop hfocus (harr hk), rfl⟩

/-- Flush points 50 and 5: the segments up to `x` are released, and the packet is in one of them. -/
theorem flushAbsorbed_spec [GroComplete Stamp] {y : Segment} {ys : List Segment} (exit : Exit)
    (h : Focus s (tracked l tr) A B q tr.dat (pre ++ x :: y :: ys))
    (hk : Absorbed s (A ++ ⟨q, tr.dat, pre ++ x :: y :: ys⟩ :: B) k) :
    Agree (EndsWith l A B q k b)
      ((flushBehind s q (headRef A) (heads B).head? y.id x.id).map fun s => (s, exit))
      (.ok ⟨tr.flush (pre ++ [x]), setHeadNext (heads B).head? (y :: ys), .merged, exit⟩) := by
  obtain ⟨-, t, ht, hfocus, hkept, -⟩ := flushThrough_spec h
  rw [ht]
  have hk' : Absorbed s (A ++ ⟨q, tr.dat, (pre ++ [x]) ++ y :: ys⟩ :: B) k := by simpa using hk
  exact ⟨⟨hfocus, hk'.release hkept (hfocus.links.nskb.trans h.links.nskb.symm)⟩, rfl⟩

/-! ### Merging -/

theorem skbGroMerge_merged {p skb p' skb' : Skb} (h : skbGroMerge p skb = .merged p' skb') :
    skb'.free ≠ .no ∧ skb'.len = skb.len ∧ ∃ p₀ skb₀ : Skb, mergeData maxSkbFrags p skb = .merged p₀ skb₀ ∧
      ∃ frags, p' = { p.append skb frags with ext := { p.ext with arrivals := p.ext.arrivals ++ skb.ext.arrivals } } := by
  unfold skbGroMerge at h
  split at h
  · rename_i p1 skb1 hdata
    obtain ⟨⟨frags, rfl⟩, hfree, hlen⟩ := mergeData_merged hdata
    cases h
    exact ⟨hfree, hlen, _, _, hdata, frags, rfl⟩
  · rename_i hno
    exact absurd h (hno p' skb')

theorem skbGroMerge_absorbed {p skb p' skb' : Skb} (h : skbGroMerge p skb = .merged p' skb') : skb'.ext = skb.ext := by
  unfold skbGroMerge at h
  split at h
  · rename_i hdata
    cases h
    exact mergeData_absorbed hdata
  · rename_i hno
    exact absurd h (hno p' skb')

theorem skbGroMerge_len {p skb p' skb' : Skb} (h : skbGroMerge p skb = .merged p' skb') : p'.len = p.len + skb.len := by
  obtain ⟨-, -, -, -, -, frags, rfl⟩ := skbGroMerge_merged h
  rfl

theorem skbGroMerge_free {p skb p' skb' : Skb} (h : skbGroMerge p skb = .merged p' skb') : p'.free = p.free := by
  obtain ⟨-, -, -, -, -, frags, rfl⟩ := skbGroMerge_merged h
  rfl

theorem mergeInFront_spec [GroComplete Stamp] (h : Focus s (tracked l tr) A B q tr.dat (pre ++ x :: rest))
    (hk : Arriving s (A ++ ⟨q, tr.dat, pre ++ x :: rest⟩ :: B) q k b) (hfree : b.free = .no) :
    Agree (EndsWith l A B q k b) (mergeInFront s q k b.seq b.len (headRef A) (heads B).head? x.id inSeq)
      (mergeInFrontSegs (heads B).head? b tr pre (behind (heads B).head? pre ⟨k, none, b⟩) x rest inSeq) := by
  have hxlive := h.seg_live (x := x) (by simp)
  have hbody := h.holds.rep.body x (by simp)
  have hxk : x.id ≠ k := hk.ids_ne x.id (by simp)
  unfold mergeInFront mergeInFrontSegs
  rw [skbGroMerge_eq hk.live hxlive, hk.body, hbody]
  cases hmerge : skbGroMerge b x.body with
  | overrun => rfl
  | failed err =>
    by_cases hbig : (decide (err = .tooBig) && decide (inSeq ≠ b.seq)) = true
    · simp only [if_pos hbig]
      exact ⟨ends_holdBefore h hk hfree, rfl⟩
    · simp only [if_neg hbig]
      exact dropBehind_spec h hk
  | merged b' x' =>
    obtain ⟨-, hxlen, -⟩ := skbGroMerge_merged hmerge
    -- the memory when `skb` has its time stamp
    let c : Skb := { b' with ext := b'.ext.of x'.ext }
    let u : Mem := { s with
      body := Function.update (Function.update (Function.update s.body k b') x.id x') k c
      sameFlow := Function.update s.sameFlow x.id true }
    have hu : Napi.setBody { s with
        body := Function.update (Function.update s.body k b') x.id x'
        sameFlow := Function.update s.sameFlow x.id true } k c = u := by
      rw [Napi.setBody, touch_eq (by exact hk.live)]
    have hfocus : Focus u (tracked l tr) A B q tr.dat (pre ++ { x with body := x' } :: rest) := by
      refine h.withBody u.body u.sameFlow s.qlen hk.lt hk.mem ?_ ?_ (fun _ _ => rfl) ?_
      · simp [u, hxk]
      · intro i hix hik
        simp [u, hix, hik]
      · have hqlen := h.holds.rep.qlen
        simpa [totalLen, hxlen] using hqlen
    have hloose : Loose u (A ++ ⟨q, tr.dat, pre ++ { x with body := x' } :: rest⟩ :: B) k c := by
      refine ⟨hk.lt, hk.live, ?_, ?_, hk.next⟩
      · simpa [Flow.ids] using hk.mem
      · simp [u]
    have hlen : c.len = b.len + x'.len := by
      show b'.len = b.len + x'.len
      rw [skbGroMerge_len hmerge, hxlen]
    have hreplaced := hfocus.replaceBy hloose hlen
    have hc : ({ b' with ext := b'.ext.of x'.ext } : Skb) = c := rfl
    simp only [Function.update_of_ne (Ne.symm hxk), Function.update_self, hc, hu]
    rw [behind_new]
    refine ⟨⟨hreplaced, settled_held hreplaced (List.mem_append_right _ (List.mem_cons_self ..))
      (replaceBy_sameFlow ..) ?_⟩, rfl⟩
    exact (skbGroMerge_free hmerge).trans hfree

/-- The packet is all in the segment `x`. -/
theorem bridge_spec [GroComplete Stamp] {seqNext seq2 : U32} (h : Focus s (tracked l tr) A B q tr.dat (pre ++ x :: rest))
    (hk : Absorbed s (A ++ ⟨q, tr.dat, pre ++ x :: rest⟩ :: B) k) :
    Agree (EndsWith l A B q k b) (bridge s q seqNext (headRef A) (heads B).head? x.id inSeq seq2)
      (bridgeSegs (heads B).head? seqNext tr pre x rest inSeq seq2) := by
  unfold bridge bridgeSegs
  cases rest with
  | nil =>
    have hnext : s.cbNext x.id = none := h.dll.2
    simp only [hnext]
    exact ⟨⟨h, hk⟩, rfl⟩
  | cons y ys =>
    have hnext : s.cbNext x.id = some y.id := h.dll.2
    have hxlive := h.seg_live (x := x) (by simp)
    have hylive := h.seg_live (x := y) (by simp)
    have hbody := h.holds.rep.body x (by simp)
    have hybody := h.holds.rep.body y (by simp)
    simp only [hnext, touch_eq hylive, hybody]
    by_cases hseq : seqNext = y.body.seq
    · rw [if_pos hseq, if_pos hseq, skbGroMerge_eq hxlive hylive, hbody, hybody]
      cases hmerge : skbGroMerge x.body y.body with
      | overrun => rfl
      | failed err =>
        have hlast : Agree (EndsWith l A B q k b)
            (match s.cbNext y.id with
              | some p4 => (flushBehind s q (headRef A) (heads B).head? p4 y.id).map fun s => (s, .null)
              | none => .ok (s, .head))
            (if ys = [] then .ok ⟨tr, pre ++ [x, y], .merged, .head⟩
            else .ok ⟨tr.flush (pre ++ [x, y]), setHeadNext (heads B).head? ys, .merged, .null⟩) := by
          have hy : Focus s (tracked l tr) A B q tr.dat ((pre ++ [x]) ++ y :: ys) := by simpa using h
          cases ys with
          | nil =>
            have hnexty : s.cbNext y.id = none := hy.dll.2
            simp only [hnexty, if_true]
            exact ⟨⟨h, hk⟩, rfl⟩
          | cons z zs =>
            have hnexty : s.cbNext y.id = some z.id := hy.dll.2
            have hky : Absorbed s (A ++ ⟨q, tr.dat, (pre ++ [x]) ++ y :: z :: zs⟩ :: B) k := by simpa using hk
            simp only [hnexty, if_neg (List.cons_ne_nil z zs)]
            have hflush := flushAbsorbed_spec (b := b) .null hy hky
            rwa [List.append_assoc] at hflush
        cases err with
        | inval => exact hlast
        | fail => exact hlast
        | tooBig =>
          by_cases hin : inSeq = seq2
          · simp only [if_pos hin]
            exact flushAbsorbed_spec .null h hk
          · simp only [if_neg hin]
            exact ⟨⟨h, hk⟩, rfl⟩
      | merged b' y' =>
        have hxy : x.id ≠ y.id := by
          have hnd : (segIds pre ++ x.id :: y.id :: segIds ys).Nodup := by simpa [Flow.ids] using h.links.ids_nodup
          have hx := (List.nodup_cons.1 (List.nodup_append.1 hnd).2.1).1
          exact fun he => hx (by simp [he])
        let c : Skb := { b' with ext := b'.ext.min y'.ext }
        have hlen : b'.len = x.body.len + y.body.len := skbGroMerge_len hmerge
        have hbodies : Function.update (Function.update (Function.update s.body x.id b') y.id y') x.id c =
            Function.update (Function.update s.body x.id c) y.id y' := by
          rw [Function.update_comm hxy.symm, Function.update_idem]
        have hu : Napi.setBody { s with
            body := Function.update (Function.update s.body x.id b') y.id y'
            sameFlow := Function.update s.sameFlow y.id true } x.id c = { s with
            body := Function.update (Function.update s.body x.id c) y.id y'
            sameFlow := Function.update s.sameFlow y.id true } := by
          rw [Napi.setBody, touch_eq (by exact hxlive), hbodies]
        have hfocus := h.absorb (b := c) (Function.update (Function.update s.body x.id c) y.id y')
          (Function.update s.sameFlow y.id true) (by simp [hxy]) (fun i hix hiy => by simp [hix, hiy]) hlen
        have hc : ({ b' with ext := b'.ext.min y'.ext } : Skb) = c := rfl
        simp only [Function.update_of_ne hxy, Function.update_self, hc, hu]
        exact ⟨⟨hfocus, hk.absorb h rfl⟩, rfl⟩
    · rw [if_neg hseq, if_neg hseq]
      by_cases hafter : after seqNext y.body.seq = true
      · rw [if_pos hafter, if_pos hafter]
        exact ⟨⟨h, hk⟩, rfl⟩
      · rw [if_neg hafter, if_neg hafter]
        exact ⟨⟨h, hk⟩, rfl⟩

/-- The packet `k` goes into the segment `x`. -/
theorem ends_merge [GroComplete Stamp] {x' k' : Skb} {seq2 : U32}
    (h : Focus s (tracked l tr) A B q tr.dat (pre ++ x :: rest))
    (hk : Arriving s (A ++ ⟨q, tr.dat, pre ++ x :: rest⟩ :: B) q k b) (hmerge : skbGroMerge x.body b = .merged x' k') :
    Agree (EndsWith l A B q k b)
      (mergedBehind { s with
        body := Function.update (Function.update s.body x.id x') k k'
        sameFlow := Function.update s.sameFlow k true } q b.seqEnd b.len b.tcp.flagWord (headRef A) (heads B).head? x.id
        inSeq seq2)
      (mergedBehindSegs (heads B).head? b tr pre { x with body := x' } rest inSeq seq2) := by
  have hxk : x.id ≠ k := hk.ids_ne x.id (by simp)
  have hxlive := h.seg_live (x := x) (by simp)
  obtain ⟨hk', -⟩ := skbGroMerge_merged hmerge
  -- `x` has the flags of the packet
  let c := addFlags x' b.tcp.flagWord
  have hbodies : Function.update (Function.update (Function.update s.body x.id x') k k') x.id c =
      Function.update (Function.update s.body x.id c) k k' := by
    rw [Function.update_comm hxk.symm, Function.update_idem]
  have hc : addFlags x' b.tcp.flagWord = c := rfl
  rw [mergedBehind, mergedBehindSegs, Napi.setBody, touch_eq (by exact hxlive)]
  simp only [Function.update_of_ne hxk, Function.update_self, hc, hbodies]
  refine bridge_spec (x := { x with body := c }) ?_ ⟨?_, ?_, ?_, hk.lt, hk.live⟩
  · refine h.withBody _ _ _ hk.lt hk.mem ?_ ?_ ?_ ?_
    · simp [hxk]
    · intro i hix hik
      simp [hix, hik]
    · intro r hr
      simp [hr]
    · have hqlen := h.holds.rep.qlen
      have hlen : x'.len = x.body.len + b.len := skbGroMerge_len hmerge
      simp only [totalLen_append, totalLen, Function.update_self] at hqlen ⊢
      rw [hqlen, show c.len = x.body.len + b.len from hlen]
      ac_rfl
  · simpa [Flow.ids] using hk.mem
  · simp
  · simpa using hk'

/-! ### The walk -/

/-- What the memory after a turn of the loop has to do with the turn on the list. -/
def Turned (l : Lists) (A B : List (Flow Stamp OfoExt)) (q : OfoId) (k : SkbId) (b : Skb) (rest : List Segment)
    (r : Mem × (Exit ⊕ SkbId)) : Walked ⊕ (List Segment × Track) → Prop
  | .inl w => ∃ exit, r.2 = .inl exit ∧ EndsWith l A B q k b (r.1, exit) w
  | .inr (pre, tr) => ∃ y ys, rest = y :: ys ∧ r.2 = .inr y.id ∧
      Focus r.1 (tracked l tr) A B q tr.dat (pre ++ behind (heads B).head? pre y :: ys) ∧
      Arriving r.1 (A ++ ⟨q, tr.dat, pre ++ behind (heads B).head? pre y :: ys⟩ :: B) q k b

theorem Turned.leave {r : Except Fault (Mem × Exit)} {w : Except Fault Walked}
    (h : Agree (EndsWith l A B q k b) r w) :
    Agree (Turned l A B q k b rest) (r.map fun r => (r.1, .inl r.2)) (w.map .inl) := by
  cases r with
  | error e =>
    cases w with
    | error e' => exact h
    | ok w => exact h.elim
  | ok t =>
    cases w with
    | error e => exact h.elim
    | ok w => exact ⟨t.2, rfl, h⟩

/-- The loop goes on behind `x`. -/
theorem Turned.next {y : Segment} {ys : List Segment}
    (h : Focus s (tracked l tr) A B q tr.dat (pre ++ x :: y :: ys))
    (hk : Arriving s (A ++ ⟨q, tr.dat, pre ++ x :: y :: ys⟩ :: B) q k b) :
    Turned l A B q k b (y :: ys) (s, .inr y.id) (.inr (pre ++ [x], tr)) := by
  have hy : behind (heads B).head? (pre ++ [x]) y = y := if_neg (by simp)
  refine ⟨y, ys, rfl, rfl, ?_⟩
  rw [hy, List.append_assoc]
  exact ⟨h, hk⟩

/-- `skb_gro_merge(p2, skb)` has failed with `-E2BIG`. -/
theorem turn_tooBig [GroComplete Stamp] (h : Focus s (tracked l tr) A B q tr.dat (pre ++ x :: rest))
    (hk : Arriving s (A ++ ⟨q, tr.dat, pre ++ x :: rest⟩ :: B) q k b) (hfree : b.free = .no) :
    Agree (Turned l A B q k b rest)
      (match s.cbNext x.id with
        | some p3 =>
          if inSeq = x.body.seq then
            (flushBehind s q (headRef A) (heads B).head? p3 x.id).map fun s => (s, .inr p3)
          else .ok (s, .inr p3)
        | none =>
          if inSeq = x.body.seq then
            ((flushBehind (s.linkLast q k b.len x.id) q (headRef A) (heads B).head? k x.id).map fun s =>
              (s, Exit.final)).map fun r => (r.1, .inl r.2)
          else .ok (s.linkLast q k b.len x.id, .inl .final))
      (if rest = [] then
        if inSeq = x.body.seq then
          .ok (.inl ⟨tr.flush (pre ++ [x]), [⟨k, (heads B).head?, b⟩], .held, .final⟩)
        else .ok (.inl ⟨tr, pre ++ [x, ⟨k, none, b⟩], .held, .final⟩)
      else if inSeq = x.body.seq then .ok (.inr ([], tr.flush (pre ++ [x])))
      else .ok (.inr (pre ++ [x], tr))) := by
  cases rest with
  | nil =>
    have hnext : s.cbNext x.id = none := h.dll.2
    simp only [hnext, if_true]
    have hlast := ends_holdLast h hk hfree
    by_cases hin : inSeq = x.body.seq
    · rw [if_pos hin, if_pos hin]
      have hfocus : Focus (s.linkLast q k b.len x.id) (tracked l tr) A B q tr.dat
          ((pre ++ [x]) ++ ⟨k, none, b⟩ :: []) := by simpa using hlast.1
      have hx : (segIds (pre ++ [x])).getLast? = some x.id := by simp
      obtain ⟨t, ht, hfocus', hkept, -⟩ := flushBehind_spec hfocus hx
      rw [ht]
      refine ⟨.final, rfl, ⟨hfocus', settled_held hfocus' (List.mem_singleton.2 rfl) ?_ hfree⟩, rfl⟩
      rw [hkept.sameFlow]
      exact linkLast_sameFlow ..
    · rw [if_neg hin, if_neg hin]
      exact ⟨.final, rfl, hlast, rfl⟩
  | cons y ys =>
    rw [if_neg (List.cons_ne_nil y ys)]
    by_cases hin : inSeq = x.body.seq
    · obtain ⟨hnext, t, ht, hfocus, -, harr⟩ := flushThrough_spec h
      simp only [hnext, if_pos hin, ht]
      exact ⟨y, ys, rfl, rfl, hfocus, harr hk⟩
    · have hnext : s.cbNext x.id = some y.id := h.dll.2
      simp only [hnext, if_neg hin]
      exact Turned.next h hk

/-- `skb_gro_merge(p2, skb)` has failed for another reason. -/
theorem turn_mergeFailed [GroComplete Stamp] (h : Focus s (tracked l tr) A B q tr.dat (pre ++ x :: rest))
    (hk : Arriving s (A ++ ⟨q, tr.dat, pre ++ x :: rest⟩ :: B) q k b) :
    Agree (Turned l A B q k b rest)
      (match s.cbNext x.id with
        | some p3 =>
          ((flushBehind s q (headRef A) (heads B).head? p3 x.id).map fun s => (s.setFlush k, Exit.null)).map
            fun r => (r.1, .inl r.2)
        | none => .ok (s.setFlush k, .inl .head))
      (.ok (.inl (dropBehind (heads B).head? tr pre x rest))) := by
  have hdrop : Agree (Turned l A B q k b rest) _ _ := Turned.leave (dropBehind_spec h hk)
  cases hnext : s.cbNext x.id <;> simpa only [hnext, Except.map] using hdrop

theorem walkTurn_spec [GroComplete Stamp] (inSeq : U32) (h : Focus s (tracked l tr) A B q tr.dat (pre ++ x :: rest))
    (hk : Arriving s (A ++ ⟨q, tr.dat, pre ++ x :: rest⟩ :: B) q k b) (hfree : b.free = .no) :
    Agree (Turned l A B q k b rest)
      (walkTurn s q k b.seq b.len b.tcp.flagWord (headRef A) (heads B).head? x.id inSeq)
      (turnSegs (heads B).head? k b x rest pre inSeq tr) := by
  have hxlive := h.seg_live (x := x) (by simp)
  have hbody := h.holds.rep.body x (by simp)
  have hnext := h.dll.2
  unfold walkTurn turnSegs
  simp only [hbody, ← Body.seqEnd.eq_def]
  by_cases hbefore : before b.seqEnd x.body.seq = true
  · rw [if_pos hbefore, if_pos hbefore]
    exact ⟨.final, rfl, ends_holdBefore h hk hfree, rfl⟩
  · rw [if_neg hbefore, if_neg hbefore]
    by_cases hfront : b.seqEnd = x.body.seq
    · rw [if_pos hfront, if_pos hfront]
      exact Turned.leave (mergeInFront_spec h hk hfree)
    · rw [if_neg hfront, if_neg hfront]
      by_cases hbehind : b.seq = x.body.seqEnd
      · rw [if_pos hbehind, if_pos hbehind, skbGroMerge_eq hxlive hk.live, hk.body, hbody]
        cases hmerge : skbGroMerge x.body b with
        | overrun => rfl
        | failed err =>
          cases err with
          | inval => exact turn_mergeFailed h hk
          | fail => exact turn_mergeFailed h hk
          | tooBig => exact turn_tooBig h hk hfree
        | merged x' k' => exact Turned.leave (ends_merge h hk hmerge)
      · rw [if_neg hbehind, if_neg hbehind]
        by_cases hafter : after b.seq x.body.seqEnd = true
        · rw [if_pos hafter, if_pos hafter]
          cases rest with
          | nil =>
            have hnext : s.cbNext x.id = none := hnext
            simp only [hnext, if_true]
            exact ⟨.final, rfl, ends_holdLast h hk hfree, rfl⟩
          | cons y ys =>
            have hnext : s.cbNext x.id = some y.id := hnext
            simp only [hnext, if_neg (List.cons_ne_nil y ys)]
            exact Turned.next h hk
        · rw [if_neg hafter, if_neg hafter]
          exact ⟨.head, rfl, ends_drop h hk, rfl⟩

/-- A turn of the loop, when the turns after it are right. -/
theorem walk_cons [GroComplete Stamp] {fuel : ℕ}
    (h : Focus s (tracked l tr) A B q tr.dat (pre ++ behind (heads B).head? pre x :: rest))
    (hk : Arriving s (A ++ ⟨q, tr.dat, pre ++ behind (heads B).head? pre x :: rest⟩ :: B) q k b)
    (hfree : b.free = .no)
    (hnext : ∀ {t : Mem} {tr : Track} {pre : List Segment} {y : Segment} {ys : List Segment} (inSeq : U32),
      rest = y :: ys → Focus t (tracked l tr) A B q tr.dat (pre ++ behind (heads B).head? pre y :: ys) →
      Arriving t (A ++ ⟨q, tr.dat, pre ++ behind (heads B).head? pre y :: ys⟩ :: B) q k b →
      Agree (EndsWith l A B q k b)
        (match fuel with
          | 0 => .error .diverges
          | fuel + 1 => walk q k b.seq b.len b.tcp.flagWord (headRef A) (heads B).head? fuel y.id inSeq t)
        (walkSegs (heads B).head? k b rest pre inSeq tr)) :
    Agree (EndsWith l A B q k b)
      (walk q k b.seq b.len b.tcp.flagWord (headRef A) (heads B).head? fuel x.id inSeq s)
      (walkSegs (heads B).head? k b (x :: rest) pre inSeq tr) := by
  have hlive := h.seg_live (x := behind (heads B).head? pre x) (by simp)
  have hbody := h.holds.rep.body (behind (heads B).head? pre x) (by simp)
  have hturn := walkTurn_spec inSeq h hk hfree
  simp only [behind_id, behind_body] at hlive hbody hturn
  rw [walk.eq_def, walkSegs]
  simp only [touch_eq hlive, hbody, behind_body]
  cases hm : walkTurn s q k b.seq b.len b.tcp.flagWord (headRef A) (heads B).head? x.id inSeq with
  | error e =>
    cases hl : turnSegs (heads B).head? k b (behind (heads B).head? pre x) rest pre inSeq tr with
    | error e' =>
      rw [hm, hl] at hturn
      exact hturn
    | ok z =>
      rw [hm, hl] at hturn
      exact hturn.elim
  | ok r =>
    obtain ⟨t, o⟩ := r
    cases hl : turnSegs (heads B).head? k b (behind (heads B).head? pre x) rest pre inSeq tr with
    | error e =>
      rw [hm, hl] at hturn
      exact hturn.elim
    | ok z =>
      rw [hm, hl] at hturn
      cases z with
      | inl w =>
        obtain ⟨exit, rfl, hends⟩ := hturn
        exact hends
      | inr p =>
        obtain ⟨y, ys, hrest, rfl, hfocus, harr⟩ := hturn
        exact hnext _ hrest hfocus harr

/-- **The walk over the memory is the walk over the list.** -/
theorem walk_spec [GroComplete Stamp] {fuel : ℕ}
    (h : Focus s (tracked l tr) A B q tr.dat (pre ++ behind (heads B).head? pre x :: rest))
    (hk : Arriving s (A ++ ⟨q, tr.dat, pre ++ behind (heads B).head? pre x :: rest⟩ :: B) q k b)
    (hfree : b.free = .no) (hfuel : rest.length ≤ fuel) :
    Agree (EndsWith l A B q k b)
      (walk q k b.seq b.len b.tcp.flagWord (headRef A) (heads B).head? fuel x.id inSeq s)
      (walkSegs (heads B).head? k b (x :: rest) pre inSeq tr) := by
  induction rest generalizing s tr pre x fuel inSeq with
  | nil => exact walk_cons h hk hfree fun _ hrest => absurd hrest (by simp)
  | cons z zs ih =>
    refine walk_cons h hk hfree ?_
    rintro t tr' pre' y ys inSeq' hrest hfocus harr
    obtain ⟨rfl, rfl⟩ := List.cons.inj hrest
    obtain ⟨fuel, rfl⟩ := Nat.exists_eq_add_of_le' (Nat.le_trans (by simp : 1 ≤ (z :: zs).length) hfuel)
    exact ih hfocus harr (by simpa using hfuel)

end PacketReordering.Linux318
