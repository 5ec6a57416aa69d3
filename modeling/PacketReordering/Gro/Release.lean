import PacketReordering.Gro.Refinement

/-!
# Giving segments away

* `Released` — some buffers went up or were freed, and no link of `gro_list` was touched;
* `flushUpTo_spec`, `completeWhile_spec` — the two loops that give segments to the stack, on the lists;
* `Focus.flushUpTo` — the loop of `skb_gro_flush` after `*head` is set to the first segment that stays.
-/

namespace PacketReordering.Gro

open Lib

variable {γ δ : Type} {s t : Napi γ δ} {l : Queues γ δ} {q : OfoId}

/-- The buffers `ids` were given away and `ups` went to the stack; the fields that a release does not write are as they
were. -/
structure Released (s t : Napi γ δ) (ids : List SkbId) (ups : List (Up γ)) : Prop where
  next : t.next = s.next
  groList : t.groList = s.groList
  clock : t.clock = s.clock
  stray : t.stray = s.stray
  sameFlow : t.sameFlow = s.sameFlow
  flush : t.flush = s.flush
  prev : t.prev = s.prev
  body : t.body = s.body
  queue : t.outOfOrderQueue = s.outOfOrderQueue
  up : t.up = s.up ++ ups
  gone : ∀ i, i ∈ t.gone ↔ i ∈ ids ∨ i ∈ s.gone

theorem Released.trans {u : Napi γ δ} {ids ids' : List SkbId} {ups ups' : List (Up γ)} (h : Released s t ids ups)
    (h' : Released t u ids' ups') : Released s u (ids ++ ids') (ups ++ ups') where
  next := h'.next.trans h.next
  groList := h'.groList.trans h.groList
  clock := h'.clock.trans h.clock
  stray := h'.stray.trans h.stray
  sameFlow := h'.sameFlow.trans h.sameFlow
  flush := h'.flush.trans h.flush
  prev := h'.prev.trans h.prev
  body := h'.body.trans h.body
  queue := h'.queue.trans h.queue
  up := by rw [h'.up, h.up, List.append_assoc]
  gone i := by
    rw [h'.gone, h.gone, List.mem_append]
    tauto

section Loops

variable {d : OfoDat δ} {p : Option SkbId} {x : Seg γ} {xs : List (Seg γ)}

theorem QueueRep.cbNext_eq (h : QueueRep s q p d (x :: xs)) : s.cbNext x.id = (segIds xs).head? := by
  have hdll := h.dll
  rw [segIds_cons, dll_cons] at hdll
  simpa only [Option.or_none] using hdll.2.1

/-- The queue without its first segment, once that is accounted for. -/
theorem QueueRep.tail (h : QueueRep s q p d (x :: xs)) {p' : Option SkbId} {d' : OfoDat δ}
    (hdll : Dll t.cbNext t.cbPrev p' (segIds xs) none) (hbody : t.body = s.body)
    (hqueue : t.outOfOrderQueue = s.outOfOrderQueue) (hqlen : t.qlen q = s.qlen q - x.body.len)
    (hskbNum : t.skbNum q = s.skbNum q - 1) (hdat : t.ofo q = d') : QueueRep t q p' d' xs where
  dll := hdll
  body y hy := by rw [hbody]; exact h.body y (List.mem_cons_of_mem _ hy)
  queue y hy := by rw [hqueue]; exact h.queue y (List.mem_cons_of_mem _ hy)
  qlen := by
    rw [hqlen, h.qlen, totalLen, BitVec.add_comm]
    exact BitVec.add_sub_cancel _ _
  skbNum := by
    rw [hskbNum, h.skbNum, List.length_cons, BitVec.ofNat_add]
    exact BitVec.add_sub_cancel _ _
  dat := hdat

theorem flushUpTo_some [GroComplete γ] (s : Napi γ δ) (last i : SkbId) (fuel : ℕ) :
    s.flushUpTo q last fuel (some i) =
      if i = last then .ok ((s.flushOne q i).flushEnd q (s.cbNext i))
      else
        match fuel with
        | 0 => .error .diverges
        | fuel + 1 => (s.flushOne q i).flushUpTo q last fuel (s.cbNext i) := by
  cases fuel <;> rfl

/-- The loop of `skb_gro_flush`, up to the last of `rel`. -/
theorem flushUpTo_spec [GroComplete γ] {rel rest : List (Seg γ)} {last : SkbId} {fuel : ℕ}
    (hrep : QueueRep s q p d (rel ++ rest))
    (hnd : (segIds (rel ++ rest)).Nodup) (hlive : ∀ i ∈ segIds (rel ++ rest), i ∉ s.gone)
    (hnext : ∀ x ∈ rel, s.next x.id = x.next) (hlast : (segIds rel).getLast? = some last) (hfuel : rel.length ≤ fuel) :
    ∃ t, s.flushUpTo q last fuel (segIds rel).head? = .ok t ∧ QueueRep t q none (flushSegs d rel).1 rest ∧
      t.ofoNext q = (segIds rest).head? ∧ t.ofoPrev q = (if rest = [] then none else s.ofoPrev q) ∧
      Frame s t (segIds (rel ++ rest)) q ∧ Released s t (segIds rel) (flushSegs d rel).2 := by
  induction rel generalizing s p d fuel with
  | nil => simp at hlast
  | cons x rel ih =>
    rw [List.cons_append] at hrep hnd hlive
    obtain ⟨hx, hnd'⟩ := List.nodup_cons.1 (by simpa using hnd : (x.id :: segIds (rel ++ rest)).Nodup)
    have hxlive := hlive x.id (by simp)
    have hcb := hrep.cbNext_eq
    have hbody := hrep.body x (by simp)
    have hdat := hrep.dat
    -- the memory after `napi_gro_complete(p)`
    let u : Napi γ δ := { s with
      qlen := Function.update s.qlen q (s.qlen q - x.body.len)
      skbNum := Function.update s.skbNum q (s.skbNum q - 1)
      ofoNext := Function.update s.ofoNext q (segIds (rel ++ rest)).head?
      ofo := Function.update s.ofo q (d.setSeqNext x.body.seqEnd)
      up := s.up ++ [x.up (.skbGroFlush d.seqNext)]
      gone := x.id :: s.gone }
    have hu : s.flushOne q x.id = u := by
      simp only [Napi.flushOne, touch_eq hxlive, hcb, hbody, hdat]
      rw [napiGroComplete_eq _ (by exact hxlive)]
      simp only [hbody, hnext x (List.mem_cons_self ..)]
      rfl
    have hframe : Frame s u (segIds (x :: (rel ++ rest))) q := by
      constructor <;> simp +contextual [u]
    have hrel : Released s u [x.id] [x.up (.skbGroFlush d.seqNext)] := by
      constructor <;> simp [u]
    have htail := hrep.dll
    rw [segIds_cons, dll_cons] at htail
    rw [segIds_cons, List.head?_cons, flushUpTo_some, hu, hcb]
    by_cases hxl : x.id = last
    · -- `p` is the last one to go
      obtain rfl : rel = [] := by
        cases rel with
        | nil => rfl
        | cons y rel =>
          rw [segIds_cons, segIds_cons, List.getLast?_cons_cons] at hlast
          refine absurd ?_ hx
          rw [hxl, segIds_append]
          exact List.mem_append_left _ (List.mem_of_getLast? hlast)
      rw [if_pos hxl]
      cases rest with
      | nil =>
        refine ⟨_, rfl, hrep.tail (by simp) rfl rfl ?_ ?_ ?_, ?_, ?_, hframe.trans ?_, ?_⟩
        · simp [u, Napi.flushEnd, Napi.touchLink]
        · simp [u, Napi.flushEnd, Napi.touchLink]
        · simp [u, Napi.flushEnd, Napi.touchLink, flushSegs]
        · simp [u, Napi.flushEnd, Napi.touchLink]
        · simp [u, Napi.flushEnd, Napi.touchLink]
        · constructor <;> simp +contextual [u, Napi.flushEnd, Napi.touchLink]
        · exact ⟨rfl, rfl, rfl, rfl, rfl, rfl, rfl, rfl, rfl, hrel.up, hrel.gone⟩
      | cons n rest =>
        have hnlive : n.id ∉ u.gone := by
          have hnx : n.id ≠ x.id := fun he => hx (by simp [he])
          simp [u, hnx, hlive n.id (by simp)]
        simp only [List.nil_append, segIds_cons, List.head?_cons, Napi.flushEnd, Napi.touchLink, touch_eq hnlive]
        refine ⟨_, rfl, hrep.tail ?_ rfl rfl ?_ ?_ ?_, ?_, ?_, hframe.trans ?_, ?_⟩
        · have hnd' : (n.id :: segIds rest).Nodup := by simpa using hnd'
          refine htail.2.2.entry hnd' fun i hi => ⟨rfl, ?_⟩
          by_cases hin : i = n.id
          · simp [hin]
          · simp [u, hin, Ne.symm hin]
        · simp [u]
        · simp [u]
        · simp [u, flushSegs]
        · simp [u]
        · simp [u]
        · constructor <;> simp +contextual [u]
        · exact ⟨rfl, rfl, rfl, rfl, rfl, rfl, rfl, rfl, rfl, hrel.up, hrel.gone⟩
    · rw [if_neg hxl]
      have hne : rel ≠ [] := by
        rintro rfl
        exact hxl (by simpa using hlast)
      obtain ⟨y, rel', rfl⟩ := List.exists_cons_of_ne_nil hne
      obtain ⟨fuel, rfl⟩ := Nat.exists_eq_add_of_le' hfuel
      have hlast' : (segIds (y :: rel')).getLast? = some last := by
        simpa [List.getLast?_cons_cons] using hlast
      have hrep' : QueueRep u q (some x.id) (d.setSeqNext x.body.seqEnd) ((y :: rel') ++ rest) :=
        hrep.tail htail.2.2 rfl rfl (by simp [u]) (by simp [u]) (by simp [u])
      have hlive' : ∀ i ∈ segIds ((y :: rel') ++ rest), i ∉ u.gone := by
        intro i hi
        have hix : i ≠ x.id := fun he => hx (he ▸ hi)
        simp [u, hix, hlive i (List.mem_cons_of_mem _ hi)]
      obtain ⟨t, ht, hq, hfirst, hprev, hframe', hrel'⟩ := ih hrep' hnd' hlive'
        (fun z hz => hnext z (List.mem_cons_of_mem _ hz)) hlast'
        (by simp : (y :: rel').length ≤ fuel + (y :: rel').length)
      have hsub : ∀ i ∈ segIds ((y :: rel') ++ rest), i ∈ x.id :: segIds ((y :: rel') ++ rest) := fun i hi =>
        List.mem_cons_of_mem _ hi
      exact ⟨t, ht, hq, hfirst, hprev, hframe.trans (hframe'.mono hsub), hrel.trans hrel'⟩

theorem completeWhile_some [GroComplete γ] (s : Napi γ δ) (cond : OfoDat δ → SkbId → Body γ → Bool) (i : SkbId) (fuel : ℕ)
    (flushed : Bool) :
    s.completeWhile cond q fuel (some i) flushed =
      if cond ((s.touch i).ofo q) i ((s.touch i).body i) then
        match fuel with
        | 0 => .error .diverges
        | fuel + 1 => ((s.touch i).completeOne q i).completeWhile cond q fuel ((s.touch i).cbNext i) true
      else .ok (some i, flushed, s.touch i) := by
  cases fuel <;> rfl

/-- The loops of `dev_gro_complete`. -/
theorem completeWhile_spec [GroComplete γ] (cond : OfoDat δ → SkbId → Body γ → Bool) {segs : List (Seg γ)} {fuel : ℕ}
    (flushed : Bool) (hrep : QueueRep s q none d segs) (hnd : (segIds segs).Nodup) (hlive : ∀ i ∈ segIds segs, i ∉ s.gone)
    (hnext : ∀ x ∈ segs, s.next x.id = x.next) (hfuel : segs.length ≤ fuel) :
    ∃ t, s.completeWhile cond q fuel (segIds segs).head? flushed =
        .ok ((segIds (completeSegs cond d segs).2.2).head?, flushed || !(completeSegs cond d segs).2.1.isEmpty, t) ∧
      QueueRep t q none (completeSegs cond d segs).1 (completeSegs cond d segs).2.2 ∧ t.ofoNext = s.ofoNext ∧
      t.ofoPrev = s.ofoPrev ∧ Frame s t (segIds segs) q ∧
      Released s t ((completeSegs cond d segs).2.1.map Up.id) (completeSegs cond d segs).2.1 := by
  induction segs generalizing s d fuel flushed with
  | nil =>
    refine ⟨s, ?_, hrep, rfl, rfl, Frame.refl, ?_⟩
    · rw [Napi.completeWhile.eq_def]
      simp [completeSegs]
    · constructor <;> simp [completeSegs]
  | cons x segs ih =>
    obtain ⟨hx, hnd'⟩ := List.nodup_cons.1 (by simpa using hnd : (x.id :: segIds segs).Nodup)
    have hxlive := hlive x.id (by simp)
    have hcb := hrep.cbNext_eq
    have hbody := hrep.body x (by simp)
    have hdat := hrep.dat
    rw [segIds_cons, List.head?_cons, completeWhile_some, touch_eq hxlive, hdat, hbody, completeSegs]
    by_cases hcond : cond d x.id x.body = true
    · rw [if_pos hcond, if_pos hcond, hcb]
      obtain ⟨fuel, rfl⟩ := Nat.exists_eq_add_of_le' (Nat.le_trans (by simp : 1 ≤ (x :: segs).length) hfuel)
      -- the memory after `napi_gro_complete(p)`
      let u : Napi γ δ := { s with
        cbPrev := setLink s.cbPrev (segIds segs).head? none
        qlen := Function.update s.qlen q (s.qlen q - x.body.len)
        skbNum := Function.update s.skbNum q (s.skbNum q - 1)
        ofo := Function.update s.ofo q (d.setSeqNext (maxSeq d.seqNext x.body.seqEnd))
        up := s.up ++ [x.up .devGroComplete]
        gone := x.id :: s.gone }
      have hnextlive : ∀ i ∈ (segIds segs).head?, i ∉ s.gone := fun i hi =>
        hlive i (List.mem_cons_of_mem _ (List.mem_of_head? hi))
      have hu : s.completeOne q x.id = u := by
        simp only [Napi.completeOne, touch_eq hxlive, hcb, touchLink_eq hnextlive]
        cases hseg : (segIds segs).head? <;>
        · rw [napiGroComplete_eq _ (by exact hxlive)]
          simp only [hbody, hdat, hnext x (List.mem_cons_self ..)]
          simp [u, setLink, hseg, Seg.up]
      have hframe : Frame s u (segIds (x :: segs)) q := by
        have hfirst : ∀ i ∉ segIds segs, (segIds segs).head? ≠ some i := fun i hi he => hi (List.mem_of_head? he)
        constructor <;> simp +contextual [u, setLink_apply, hfirst]
      have hrel : Released s u [x.id] [x.up .devGroComplete] := by
        constructor <;> simp [u]
      have htail := hrep.dll
      rw [segIds_cons, dll_cons] at htail
      have hrep' : QueueRep u q none (d.setSeqNext (maxSeq d.seqNext x.body.seqEnd)) segs := by
        refine hrep.tail (htail.2.2.entry hnd' fun i _ => ⟨rfl, ?_⟩) rfl rfl (by simp [u]) (by simp [u]) (by simp [u])
        simp [u, setLink_apply]
      have hlive' : ∀ i ∈ segIds segs, i ∉ u.gone := by
        intro i hi
        have hix : i ≠ x.id := fun he => hx (he ▸ hi)
        simp [u, hix, hlive i (List.mem_cons_of_mem _ hi)]
      obtain ⟨t, ht, hq, hfirst, hlast, hframe', hrel'⟩ := @ih _ _ fuel true hrep' hnd' hlive'
        (fun z hz => hnext z (List.mem_cons_of_mem _ hz)) (by simpa using hfuel)
      refine ⟨t, ?_, hq, hfirst, hlast, hframe.trans (hframe'.mono fun i hi => List.mem_cons_of_mem _ hi),
        hrel.trans hrel'⟩
      rw [hu]
      refine ht.trans ?_
      simp
    · rw [if_neg hcond, if_neg hcond]
      refine ⟨s, by simp, hrep, rfl, rfl, Frame.refl, ?_⟩
      constructor <;> simp

end Loops

/-! ### A flush in the middle of `tcp_gro_receive` -/

/-- What a flush leaves as it was for a buffer in no queue. -/
theorem Arriving.congr {fs fs' : List (Flow γ δ)} {k : SkbId} {b : Body γ} (h : Arriving s fs q k b)
    (hnskb : t.nskb = s.nskb) (hgone : k ∈ t.gone ↔ k ∈ s.gone) (hmem : k ∉ allIds fs') (hbody : t.body k = s.body k)
    (hnext : t.next k = s.next k) (hsame : t.sameFlow k = s.sameFlow k)
    (hqueue : t.outOfOrderQueue k = s.outOfOrderQueue k) : Arriving t fs' q k b where
  lt := hnskb ▸ h.lt
  live hk := h.live (hgone.1 hk)
  mem := hmem
  body := hbody.trans h.body
  next := hnext.trans h.next
  sameFlow := hsame.trans h.sameFlow
  queue := hqueue.trans h.queue

/-- What a flush of the buffers `ids` leaves as it was. -/
structure Kept (s t : Napi γ δ) (ids : List SkbId) : Prop where
  body : t.body = s.body
  sameFlow : t.sameFlow = s.sameFlow
  flush : t.flush = s.flush
  gone : ∀ i ∉ ids, i ∈ t.gone ↔ i ∈ s.gone

/-- The lists do not depend on these fields. -/
theorem Links.setControl (flush sameFlow : SkbId → Bool) (prev : SkbId → Option SkbId) (groList : Option SkbId)
    (groCount : U32) {start : Option SkbId} (h : Links s l start) :
    Links { s with flush := flush, sameFlow := sameFlow, prev := prev, groList := groList, groCount := groCount } l
      start :=
  ⟨h.chain, fun f hf => let g := h.flows f hf
    ⟨g.ne, ⟨g.rep.dll, g.rep.body, g.rep.queue, g.rep.qlen, g.rep.skbNum, g.rep.dat⟩, g.next, g.prev, g.stale⟩,
    ⟨h.free.first, h.free.last, h.free.dll, h.free.dat⟩, h.nodup, h.live, h.gone, h.queues, h.nskb, h.clock, h.up, h.stray⟩

theorem Rep.setClock (h : Rep s l) (clock : Clock) : Rep { s with clock := clock } { l with clock := clock } :=
  ⟨⟨h.links.chain, fun f hf => let g := h.links.flows f hf
    ⟨g.ne, ⟨g.rep.dll, g.rep.body, g.rep.queue, g.rep.qlen, g.rep.skbNum, g.rep.dat⟩, g.next, g.prev, g.stale⟩,
    ⟨h.links.free.first, h.links.free.last, h.links.free.dll, h.links.free.dat⟩, h.links.nodup, h.links.live,
    h.links.gone, h.links.queues, h.links.nskb, rfl, h.links.up, h.links.stray⟩, h.count, h.bound⟩

theorem Links.setFlush {start : Option SkbId} {k : SkbId} (h : Links s l start) (hk : k ∉ s.gone) :
    Links (s.setFlush k) l start := by
  rw [Napi.setFlush, touch_eq hk]
  exact h.setControl ..

theorem Focus.setFlush {A B : List (Flow γ δ)} {d : OfoDat δ} {segs : List (Seg γ)} {k : SkbId}
    (h : Focus s l A B q d segs) (hk : k ∉ s.gone) : Focus (s.setFlush k) l A B q d segs := by
  have hlinks := h.links.setFlush hk
  have hnext := h.next
  have hcount := h.count
  rw [Napi.setFlush, touch_eq hk] at hlinks ⊢
  exact ⟨hlinks, hnext, hcount⟩

theorem Arriving.setFlush {fs : List (Flow γ δ)} {k : SkbId} {b : Body γ} (h : Arriving s fs q k b) :
    Arriving (s.setFlush k) fs q k b ∧ (s.setFlush k).flush k = true := by
  rw [Napi.setFlush, touch_eq h.live]
  exact ⟨⟨⟨h.lt, h.live, h.mem, h.body, h.next⟩, h.sameFlow, h.queue⟩, Function.update_self ..⟩

/-- The data of the queue are written. -/
theorem Focus.setDat (h : Focus s l A B q d segs) (d' : OfoDat δ) : Focus (s.setOfo q d') l A B q d' segs := by
  have hf := h.holds
  have hrep := hf.rep
  have hlinks := h.links
  refine h.rebuild (?_ : Frame s _ (segIds segs) q) ?_ (fun i hi => hi) hlinks.ids_nodup (fun i hi => hlinks.ids_live hi)
    ⟨hrep.dll, hrep.body, hrep.queue, hrep.qlen, hrep.skbNum, Function.update_self ..⟩ hf.ne hf.next hf.prev h.next h.chain
    (fun _ _ _ => rfl) hlinks.clock hlinks.up rfl
  · constructor <;> simp +contextual [Napi.setOfo]
  · exact h.segs_out

theorem Arriving.setDat (h : Arriving s (A ++ ⟨q, d, segs⟩ :: B) q k b) (d' : OfoDat δ) :
    Arriving (s.setOfo q d') (A ++ ⟨q, d', segs⟩ :: B) q k b := by
  refine ⟨⟨h.lt, h.live, ?_, h.body, h.next⟩, h.sameFlow, h.queue⟩
  have hmem := h.mem
  simpa [Flow.ids] using hmem

/-- `*head = x; x->next = p_next;` and the loop of `skb_gro_flush` over the segments in front of `x`. -/
theorem Focus.flushUpTo [GroComplete γ] {A B : List (Flow γ δ)} {d : OfoDat δ} {rel rest : List (Seg γ)} {x : Seg γ}
    {last : SkbId}
    (h : Focus s l A B q d (rel ++ x :: rest)) (d' : OfoDat δ) (c : Clock) (hlast : (segIds rel).getLast? = some last) :
    ∃ t, ({ s.setHead (headRef A) (heads B).head? x.id with
          clock := c, ofo := Function.update s.ofo q d' } : Napi γ δ).flushUpTo q last s.nskb (s.ofoNext q) = .ok t ∧
      Focus t { l with clock := c, up := l.up ++ (flushSegs d' rel).2 } A B q (flushSegs d' rel).1
        ({ x with next := (heads B).head? } :: rest) ∧
      Kept s t (segIds rel) ∧
      ∀ {k b}, Arriving s (A ++ ⟨q, d, rel ++ x :: rest⟩ :: B) q k b →
        Arriving t (A ++ ⟨q, (flushSegs d' rel).1, { x with next := (heads B).head? } :: rest⟩ :: B) q k b := by
  have hnd : (segIds rel ++ x.id :: segIds rest).Nodup := by simpa [Flow.ids] using h.links.ids_nodup
  obtain ⟨hndrel, hndx, hdis⟩ := List.nodup_append.1 hnd
  have hrep := h.holds.rep
  have hxA : x.id ∉ heads A := h.notMem_heads (by simp)
  have hseg : ∀ y ∈ rel ++ rest, y.id ∉ heads A ∧ y.id ≠ x.id := by
    intro y hy
    refine ⟨h.notMem_heads ?_, ?_⟩
    · rcases List.mem_append.1 hy with hy | hy <;> simp [mem_segIds hy]
    · rcases List.mem_append.1 hy with hy | hy
      · exact hdis _ (mem_segIds hy) _ (by simp)
      · exact fun he => (List.nodup_cons.1 hndx).1 (he ▸ mem_segIds hy)
  rw [setHead_eq s _ (fun i hi => h.heads_live hi) (h.seg_live (by simp))]
  -- the memory in front of the loop
  let u : Napi γ δ := { s with
    next := linkEntry s.next (heads A) x.id (heads B).head?
    groList := if heads A = [] then some x.id else s.groList
    clock := c
    ofo := Function.update s.ofo q d' }
  have hrepu : QueueRep u q none d' (rel ++ x :: rest) :=
    ⟨hrep.dll, hrep.body, hrep.queue, hrep.qlen, hrep.skbNum, by simp [u]⟩
  have hnext : ∀ y ∈ rel, u.next y.id = y.next := by
    intro y hy
    obtain ⟨hyA, hyx⟩ := hseg y (List.mem_append_left _ hy)
    exact (linkEntry_of_notMem hyA hyx).trans (h.next y (List.mem_append_left _ hy))
  have hfuel : rel.length ≤ s.nskb := by
    have := h.length_le
    simp only [List.length_append] at this
    omega
  have hfirst : s.ofoNext q = (segIds rel).head? := by
    have := h.holds.next
    cases rel with
    | nil => simp at hlast
    | cons y rel => simpa [Flow.ids] using this
  obtain ⟨t, ht, hq, hn, hp, hframe, hrel⟩ := flushUpTo_spec hrepu (by simpa using hnd)
    (fun i hi => (h.links.ids_live hi).2) hnext hlast hfuel
  have hframeu : Frame s u (segIds (rel ++ x :: rest)) q := by
    constructor <;> simp +contextual [u]
  have hgone : ∀ i, i ∈ t.gone ↔ i ∈ segIds rel ∨ i ∈ s.gone := hrel.gone
  have hnextt : t.next = linkEntry s.next (heads A) x.id (heads B).head? := hrel.next
  have hids : segIds ({ x with next := (heads B).head? } :: rest) = x.id :: segIds rest := rfl
  have hout := h.segs_out
  rw [hfirst]
  refine ⟨t, ht, ?_, ⟨hrel.body, hrel.sameFlow, hrel.flush, fun i hi => by simp [hgone, hi]⟩, ?_⟩
  · refine h.rebuild (hframeu.trans hframe) hout ?_ hndx ?_ ⟨hq.dll, ?_, ?_, hq.qlen, hq.skbNum, hq.dat⟩ (by simp) hn ?_
      ?_ ?_ ?_ hrel.clock ?_ hrel.stray
    · intro i hi
      rw [segIds_append]
      exact List.mem_append_right _ hi
    · intro i hi
      obtain ⟨hlt, hlive⟩ := h.links.ids_live (f := ⟨q, d, rel ++ x :: rest⟩) (i := i) (by
        rw [Flow.ids, segIds_append]; exact List.mem_append_right _ hi)
      refine ⟨hlt, fun hg => ?_⟩
      rcases (hgone i).1 hg with hr | hg
      · exact hdis i hr i hi rfl
      · exact hlive hg
    · intro y hy
      rcases List.mem_cons.1 hy with rfl | hy
      · exact hq.body x (by simp)
      · exact hq.body y (List.mem_cons_of_mem _ hy)
    · intro y hy
      rcases List.mem_cons.1 hy with rfl | hy
      · exact hq.queue x (by simp)
      · exact hq.queue y (List.mem_cons_of_mem _ hy)
    · have hlast' := h.holds.prev
      rw [hp, if_neg (by simp)]
      change s.ofoPrev q = _
      rw [hlast']
      simp [Flow.ids, List.getLast?_append, List.getLast?_cons]
    · intro y hy
      rw [hnextt]
      rcases List.mem_cons.1 hy with rfl | hy
      · exact linkEntry_self
      · obtain ⟨hyA, hyx⟩ := hseg y (List.mem_append_right _ hy)
        exact (linkEntry_of_notMem hyA hyx).trans (h.next y (by simp [hy]))
    · have hchain := h.chain
      have hheads := h.heads_nodup
      obtain ⟨y, ys, rfl⟩ : ∃ y ys, rel = y :: ys := by
        cases rel with
        | nil => simp at hlast
        | cons y ys => exact ⟨y, ys, rfl⟩
      rw [hnextt, hrel.groList]
      simp only [List.cons_append, segIds_cons, List.head?_cons, Option.toList_some] at hchain hheads ⊢
      refine chain_linkEntry hchain hheads hxA fun hm => ?_
      exact (hout x.id (by simp)).2 (by simp [mem_allIds_of_mem_heads hm])
    · intro i hiA hi
      rw [hnextt]
      exact linkEntry_of_notMem hiA fun he => hi (by simp [he])
    · rw [hrel.up, h.links.up]
  · intro k b hk
    have hkids := hk.ids_ne
    have hkmem := hk.mem
    simp only [allIds_append, allIds_cons, List.mem_append, not_or, Flow.ids, segIds_append, segIds_cons, List.mem_cons]
      at hkmem
    refine hk.congr (hframe.nskb.trans hframeu.nskb) ?_ ?_ (by rw [hrel.body]) ?_ (by rw [hrel.sameFlow])
      (by rw [hrel.queue])
    · rw [hgone]
      tauto
    · simp only [allIds_append, allIds_cons, List.mem_append, Flow.ids, segIds_cons, List.mem_cons]
      tauto
    · rw [hnextt]
      exact linkEntry_of_notMem (fun hm => hkmem.1 (mem_allIds_of_mem_heads hm)) fun he => hkmem.2.1.2.1 he

end PacketReordering.Gro
