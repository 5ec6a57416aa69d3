import PacketReordering.Linux41.Held

/-!
# `linux-4.1`: the free queue objects by recency

`napi_get_tcp_ofo_queue` takes the first free queue object that has the hash it looks for, or that no flow has used.  That
is the right one because the list is in the order of last use, with the unassigned objects at its end.

* `FreeOrder` — the order of the list;
* `stepLists_ordered` — every call keeps it, when the clock does not go back;
* `napiGetTcpOfoQueue_recent` — what `napi_get_tcp_ofo_queue` finds.
-/

namespace PacketReordering.Linux41

open Lib Gro

/-- When the queue object was last in use. -/
def usedAt (x : FreeQueue OfoExt) : ℕ := x.dat.ext.timestamp.toNat

/-- The queue objects last used come first, and the unassigned ones last. -/
structure FreeOrder (free : List (FreeQueue OfoExt)) : Prop where
  recent : free.Pairwise fun x y => usedAt y ≤ usedAt x
  unassigned : free.Pairwise fun x y => x.dat.hash = 0 → y.dat.hash = 0

section

variable {free rest xs ys : List (FreeQueue OfoExt)} {x y : FreeQueue OfoExt} {timestamp : U64}

theorem FreeOrder.cons (h : FreeOrder free) (hhash : x.dat.hash ≠ 0) (hused : ∀ y ∈ free, usedAt y ≤ usedAt x) :
    FreeOrder (x :: free) :=
  ⟨List.pairwise_cons.2 ⟨hused, h.recent⟩, List.pairwise_cons.2 ⟨fun _ _ hx => absurd hx hhash, h.unassigned⟩⟩

theorem FreeOrder.sublist (h : FreeOrder free) (hsub : rest.Sublist free) : FreeOrder rest :=
  ⟨h.recent.sublist hsub, h.unassigned.sublist hsub⟩

theorem cleanQueue_old (h : 100000000 < timestamp - x.dat.ext.timestamp) :
    usedAt (cleanQueue timestamp x) = 0 ∧ (cleanQueue timestamp x).dat.hash = 0 := by
  rw [cleanQueue, if_pos h]
  exact ⟨rfl, rfl⟩

theorem cleanQueue_young (h : ¬ 100000000 < timestamp - x.dat.ext.timestamp) : cleanQueue timestamp x = x := if_neg h

theorem usedAt_clean_le : usedAt (cleanQueue timestamp x) ≤ usedAt x := by
  by_cases hold : 100000000 < timestamp - x.dat.ext.timestamp
  · rw [(cleanQueue_old hold).1]
    exact Nat.zero_le _
  · rw [cleanQueue_young hold]

/-- What was used before a queue object that is cleared is cleared too. -/
theorem old_of_older (hx : 100000000 < timestamp - x.dat.ext.timestamp) (hyx : usedAt y ≤ usedAt x)
    (hxt : usedAt x ≤ timestamp.toNat) : 100000000 < timestamp - y.dat.ext.timestamp := by
  unfold usedAt at hyx hxt
  bv_omega

theorem FreeOrder.clean (h : FreeOrder free) (hused : ∀ x ∈ free, usedAt x ≤ timestamp.toNat) :
    FreeOrder (free.map (cleanQueue timestamp)) := by
  constructor
  · rw [List.pairwise_map]
    refine h.recent.imp_of_mem fun {x y} hx _ hyx => ?_
    by_cases hold : 100000000 < timestamp - x.dat.ext.timestamp
    · rw [(cleanQueue_old (old_of_older hold hyx (hused x hx))).1]
      exact Nat.zero_le _
    · rw [cleanQueue_young hold]
      exact Nat.le_trans usedAt_clean_le hyx
  · rw [List.pairwise_map]
    refine (h.recent.and h.unassigned).imp_of_mem fun {x y} hx _ hxy hzero => ?_
    obtain ⟨hyx, hunassigned⟩ := hxy
    by_cases hold : 100000000 < timestamp - x.dat.ext.timestamp
    · exact (cleanQueue_old (old_of_older hold hyx (hused x hx))).2
    · rw [cleanQueue_young hold] at hzero
      by_cases hold' : 100000000 < timestamp - y.dat.ext.timestamp
      · exact (cleanQueue_old hold').2
      · rw [cleanQueue_young hold']
        exact hunassigned hzero

end

/-! ### The hash of a queue and the clock -/

/-- The readings of `c'` are those of `c` from some point on. -/
def Later (c c' : Clock) : Prop := ∃ i, ∀ n, c'.ktime n = c.ktime (n + i)

section

variable {n : Option SkbId} {k : SkbId} {b : Skb} {tr : Track} {p2 : Segment} {rest pre : List Segment} {inSeq seq2 : U32}
  {w : Walked} {c c' c'' : Clock} {d : Dat} {hash : U32}

theorem Later.refl (c : Clock) : Later c c := ⟨0, fun _ => rfl⟩

theorem Later.tick (h : Later c c') : Later c c'.tickKtime := by
  obtain ⟨i, hi⟩ := h
  refine ⟨i + 1, fun n => ?_⟩
  rw [Nat.add_comm i, ← Nat.add_assoc]
  exact hi (n + 1)

theorem Later.trans (h : Later c c') (h' : Later c' c'') : Later c c'' := by
  obtain ⟨i, hi⟩ := h
  obtain ⟨j, hj⟩ := h'
  refine ⟨j + i, fun n => ?_⟩
  rw [hj, hi, Nat.add_assoc]

theorem completeFlow_hash (flushOld : Bool) (groOfoTimeout groInseqTimeout timestamp : U64) (d : Dat)
    (segs : List Segment) :
    (completeFlow flushOld groOfoTimeout groInseqTimeout timestamp d segs).1.hash = d.hash := by
  cases segs with
  | nil => rfl
  | cons x segs =>
    have hstamp : ∀ r : Dat × List (Up GsoEnd) × List Segment, (stamp timestamp r).1.hash = r.1.hash := by
      intro r
      unfold stamp
      split <;> rfl
    simp only [completeFlow, ← stamp.eq_def, hstamp]
    split
    · exact completeSegs_hash ..
    · split
      · exact completeSegs_hash ..
      · rfl

theorem stamp_timestamp {timestamp : U64} {r : Dat × List (Up GsoEnd) × List Segment} (h : (stamp timestamp r).2.1 ≠ []) :
    (stamp timestamp r).1.ext.timestamp = timestamp := by
  unfold stamp at h ⊢
  split
  · rename_i hempty
    rw [if_pos hempty] at h
    exact absurd (List.isEmpty_iff.1 hempty) h
  · rfl

/-- A queue object that is emptied is stamped. -/
theorem completeFlow_timestamp {flushOld : Bool} {groOfoTimeout groInseqTimeout timestamp : U64} {segs : List Segment}
    (hne : segs ≠ []) (h : (completeFlow flushOld groOfoTimeout groInseqTimeout timestamp d segs).2.2 = []) :
    (completeFlow flushOld groOfoTimeout groInseqTimeout timestamp d segs).1.ext.timestamp = timestamp := by
  obtain ⟨rel, hsegs, hids⟩ := completeFlow_append flushOld groOfoTimeout groInseqTimeout timestamp d segs
  rw [h, List.append_nil] at hsegs
  have hup : (completeFlow flushOld groOfoTimeout groInseqTimeout timestamp d segs).2.1 ≠ [] := by
    intro hnil
    rw [hnil, ← hsegs] at hids
    exact hne (List.map_eq_nil_iff.1 hids.symm)
  obtain ⟨x, segs, rfl⟩ := List.exists_cons_of_ne_nil hne
  simp only [completeFlow, ← stamp.eq_def] at hup ⊢
  exact stamp_timestamp hup

theorem release_hash (tr : Track) (rel : List Segment) :
    (tr.release rel).dat.hash = tr.dat.hash ∧ Later tr.clock (tr.release rel).clock := by
  unfold Track.release
  split
  · exact ⟨rfl, Later.refl _⟩
  · exact ⟨flushSegs_hash _ _, (Later.refl _).tick⟩

/-- The walk changes neither the hash of the queue nor the clock readings to come. -/
theorem walkSegs_hash {segs : List Segment} (h : walkSegs n k b segs [] inSeq tr = .ok w) :
    w.track.dat.hash = tr.dat.hash ∧ Later tr.clock w.track.clock := by
  refine walkSegs_track (R := fun tr' => tr'.dat.hash = tr.dat.hash ∧ Later tr.clock tr'.clock) ?_ ⟨rfl, Later.refl _⟩ h
  rintro tr' rel ⟨hhash, hlater⟩
  obtain ⟨hhash', hlater'⟩ := release_hash tr' rel
  exact ⟨hhash'.trans hhash, hlater.trans hlater'⟩

theorem normalDat_hash (d : Dat) (clock : Clock) (b : Skb) :
    (normalDat d clock b).1.hash = d.hash ∧ Later clock (normalDat d clock b).2 := by
  unfold normalDat
  simp only
  split
  · exact ⟨rfl, (Later.refl _).tick⟩
  · exact ⟨rfl, Later.refl _⟩

end

/-! ### The calls -/

/-- The lists in the middle of a call with the readings `ktime`. -/
structure Ordered (ktime : ℕ → U64) (l : Lists) : Prop where
  order : FreeOrder l.free
  clock : ∃ i, ∀ n, l.clock.ktime n = ktime (n + i)
  used : ∀ x ∈ l.free, ∀ n, usedAt x ≤ (l.clock.ktime n).toNat
  flows : ∀ f ∈ l.flows, f.dat.hash ≠ 0

/-- The packet is not TCP, or its TCP header is there and its ports are not both zero. -/
def Packet.hasPorts (pkt : Packet) : Bool :=
  match pkt.parse with
  | .other _ => true
  | .badHeader _ => false
  | .tcp b _ _ => b.tcp.ports != 0

section

variable {ktime : ℕ → U64} {l l' : Lists} {pkt : Packet} {b : Skb} {k : SkbId} {x : FreeQueue OfoExt}
  {free rest : List (FreeQueue OfoExt)} {clock : Clock} {d : Dat}

/-- The readings do not decrease. -/
def Nondecreasing (ktime : ℕ → U64) : Prop := ∀ m n, m ≤ n → (ktime m).toNat ≤ (ktime n).toNat

theorem Ordered.later (h : Ordered ktime l) {c : Clock} (hc : Later l.clock c) : ∃ i, ∀ n, c.ktime n = ktime (n + i) := by
  obtain ⟨i, hi⟩ := h.clock
  obtain ⟨j, hj⟩ := hc
  refine ⟨j + i, fun n => ?_⟩
  rw [hj, hi, Nat.add_assoc]

theorem Ordered.used_later (h : Ordered ktime l) {c : Clock} (hc : Later l.clock c) :
    ∀ x ∈ l.free, ∀ n, usedAt x ≤ (c.ktime n).toNat := by
  obtain ⟨i, hi⟩ := hc
  intro x hx n
  rw [hi]
  exact h.used x hx _

/-- The free list stays as it is, and the clock goes on. -/
theorem Ordered.keep (h : Ordered ktime l) (hfree : l'.free = l.free) (hclock : Later l.clock l'.clock)
    (hflows : ∀ f ∈ l'.flows, f.dat.hash ≠ 0) : Ordered ktime l' :=
  ⟨hfree ▸ h.order, h.later hclock, hfree ▸ h.used_later hclock, hflows⟩

/-- A queue object that is in use now becomes the first of the free ones. -/
theorem Ordered.push (h : Ordered ktime l) (hmono : Nondecreasing ktime) (hfree : l'.free = x :: rest)
    (hsub : rest.Sublist l.free) (hhash : x.dat.hash ≠ 0) {c : Clock} (hc : Later l.clock c)
    (hused : x.dat.ext.timestamp = c.ktime 0) (hclock : Later c.tickKtime l'.clock)
    (hflows : ∀ f ∈ l'.flows, f.dat.hash ≠ 0) : Ordered ktime l' := by
  have hlater : Later l.clock l'.clock := hc.tick.trans hclock
  have hnow : usedAt x = (c.ktime 0).toNat := congrArg BitVec.toNat hused
  refine ⟨?_, h.later hlater, ?_, hflows⟩
  · rw [hfree]
    refine (h.order.sublist hsub).cons hhash fun y hy => ?_
    rw [hnow]
    exact h.used_later hc y (hsub.subset hy) 0
  · rw [hfree]
    refine List.forall_mem_cons.2 ⟨fun n => ?_, fun y hy n => h.used_later hlater y (hsub.subset hy) n⟩
    obtain ⟨i, hi⟩ := h.later hc
    obtain ⟨j, hj⟩ := hclock
    have hreading : l'.clock.ktime n = ktime (n + j + 1 + i) := (hj n).trans (hi (n + j + 1))
    rw [hnow, hi, hreading]
    exact hmono _ _ (by omega)

theorem normalDat_stamped (hd : d.ext.timestamp = clock.ktime 0) :
    ∃ c, Later clock c ∧ (normalDat d clock.tickKtime b).1.ext.timestamp = c.ktime 0 ∧
      Later c.tickKtime (normalDat d clock.tickKtime b).2 := by
  unfold normalDat
  simp only
  split
  · exact ⟨clock.tickKtime, (Later.refl _).tick, rfl, Later.refl _⟩
  · exact ⟨clock, Later.refl _, hd, Later.refl _⟩

/-- A packet is late only for a queue object that has a hash. -/
theorem takenDat_hash {timestamp : U64} (h : before b.seq (takenDat d b timestamp).seqNext = true) :
    (takenDat d b timestamp).hash ≠ 0 := by
  intro hzero
  by_cases hd : d.hash = 0#32
  · simp [takenDat, hd, before_self] at h
  · simp [takenDat, hd] at hzero

theorem Arrival.ordered (hmono : Nondecreasing ktime) (hports : pkt.hasPorts = true) (hne : ∀ f ∈ l.flows, f.segs ≠ [])
    (h : Ordered ktime l) (harrival : Arrival l pkt l') : Ordered ktime l' := by
  have hhash : ∀ {b : Skb} {flush linear : Bool}, pkt.parse = .tcp b flush linear → b.tcpHash ≠ 0 := by
    intro b flush linear hparse
    rw [(parse_tcp hparse).tcpHash]
    simpa [Packet.hasPorts, hparse] using hports
  cases harrival with
  | other hparse => exact h.keep rfl (Later.refl _) h.flows
  | @unheld b x rest hwhy hqueue =>
    have hb : b.tcpHash ≠ 0 := by
      cases hwhy with
      | badHeader hparse =>
        simp [Packet.hasPorts, hparse] at hports
      | tcp hparse hsplit hwhy => exact hhash hparse
    obtain ⟨c, hc, hused, hclock⟩ := @normalDat_stamped b l.clock (flushDat x.dat b (l.clock.ktime 0)) rfl
    refine h.push hmono rfl (findFree_sublist hqueue) ?_ hc hused hclock h.flows
    rw [(normalDat_hash _ _ _).1]
    exact hb
  | @late b x rest hold hlate =>
    obtain ⟨c, hc, hused, hclock⟩ := @normalDat_stamped b l.clock (takenDat x.dat b (l.clock.ktime 0)) rfl
    refine h.push hmono rfl (findFree_sublist hold.queue) ?_ hc hused hclock h.flows
    rw [(normalDat_hash _ _ _).1]
    exact takenDat_hash hlate
  | @fresh b x rest hold hlate hfull =>
    obtain ⟨flush, linear, hparse, -⟩ := hold.parse
    have hclock : Later l.clock l.clock.tickKtime := (Later.refl _).tick
    refine ⟨h.order.sublist (findFree_sublist hold.queue), h.later hclock, ?_, ?_⟩
    · exact fun y hy => h.used_later hclock y ((findFree_sublist hold.queue).subset hy)
    · exact List.forall_mem_cons.2 ⟨hhash hparse, h.flows⟩
  | @evict b x rest P g hold hlate hflows hfull =>
    obtain ⟨flush, linear, hparse, -⟩ := hold.parse
    have hg : g ∈ l.flows := hflows ▸ List.mem_append_right _ (List.mem_singleton_self g)
    have hsegs : setHeadNext none g.segs ≠ [] := by
      obtain ⟨y, ys, hy⟩ := List.exists_cons_of_ne_nil (hne g hg)
      rw [hy]
      exact List.cons_ne_nil _ _
    refine h.push hmono rfl (findFree_sublist hold.queue) ?_ (Later.refl _).tick
      (completeFlow_timestamp hsegs (completeFlow_all ..)) (Later.refl _) ?_
    · rw [completeFlow_hash]
      exact h.flows g hg
    · refine List.forall_mem_cons.2 ⟨hhash hparse, fun f hf => h.flows f ?_⟩
      exact hflows ▸ List.mem_append_left _ hf
  | @drop b flush linear A B f hfound hwhy =>
    have hflows := (splitFlow_some hfound.split).1
    obtain ⟨hhash', hclock⟩ := normalDat_hash (dropDat f b flush linear) l.clock (walker b)
    refine h.keep rfl hclock ?_
    exact forall_mem_replace hflows h.flows (by rw [hhash', dropDat_hash]; exact h.flows f (hflows ▸ by simp))
  | @walked b flush linear A B f w hfound hwhy hwalk =>
    have hflows := (splitFlow_some hfound.split).1
    have hf : f.dat.hash ≠ 0 := h.flows f (hflows ▸ by simp)
    obtain ⟨hwhash, hwclock⟩ := walkSegs_hash hwalk
    have hw : w.track.dat.hash ≠ 0 := by
      rw [hwhash, walkDat]
      split <;> exact hf
    unfold walkedLists
    cases w.fate with
    | held => exact h.keep rfl hwclock (forall_mem_replace hflows h.flows hw)
    | merged => exact h.keep rfl hwclock (forall_mem_replace hflows h.flows hw)
    | normal =>
      obtain ⟨hhash', hclock⟩ := normalDat_hash w.track.dat w.track.clock (walker b)
      refine h.keep rfl (hwclock.trans hclock) (forall_mem_replace hflows h.flows ?_)
      rw [hhash']
      exact hw

theorem flushFlow_ordered (hmono : Nondecreasing ktime) (flushOld : Bool) (groOfoTimeout groInseqTimeout : U64)
    {f : Flow GsoEnd OfoExt} (hf : f.dat.hash ≠ 0) (hne : f.segs ≠ []) (h : Ordered ktime l) :
    Ordered ktime (flushFlow flushOld groOfoTimeout groInseqTimeout f l) := by
  have hhash := completeFlow_hash flushOld groOfoTimeout groInseqTimeout (l.clock.ktime 0) f.dat
    (setHeadNext (heads l.flows).head? f.segs)
  have hsegs : setHeadNext (heads l.flows).head? f.segs ≠ [] := by
    obtain ⟨y, ys, hy⟩ := List.exists_cons_of_ne_nil hne
    rw [hy]
    exact List.cons_ne_nil _ _
  unfold flushFlow
  simp only
  split
  · rename_i hempty
    refine h.push hmono rfl (List.Sublist.refl _) ?_ (Later.refl _)
      (completeFlow_timestamp hsegs (List.isEmpty_iff.1 hempty)) (Later.refl _) h.flows
    rw [hhash]
    exact hf
  · refine h.keep rfl (Later.refl _).tick (List.forall_mem_cons.2 ⟨?_, h.flows⟩)
    rw [hhash]
    exact hf

theorem flushLists_ordered (hmono : Nondecreasing ktime) (flushOld : Bool) (groOfoTimeout groInseqTimeout : U64)
    (hne : ∀ f ∈ l.flows, f.segs ≠ []) (h : Ordered ktime l) :
    Ordered ktime (flushLists l flushOld groOfoTimeout groInseqTimeout) := by
  have hfold : ∀ (fs : List (Flow GsoEnd OfoExt)) (l : Lists), (∀ f ∈ fs, f.dat.hash ≠ 0 ∧ f.segs ≠ []) →
      Ordered ktime l → Ordered ktime (fs.foldr (flushFlow flushOld groOfoTimeout groInseqTimeout) l) := by
    intro fs l hfs hl
    induction fs with
    | nil => exact hl
    | cons f fs ih =>
      obtain ⟨⟨hf, hsegs⟩, hfs⟩ := List.forall_mem_cons.1 hfs
      exact flushFlow_ordered hmono _ _ _ hf hsegs (ih hfs)
  refine hfold _ _ (fun f hf => ⟨h.flows f hf, hne f hf⟩) ?_
  exact h.keep rfl (Later.refl _) fun f hf => absurd hf List.not_mem_nil

theorem cleanLists_ordered (h : Ordered ktime l) : Ordered ktime (cleanLists l) := by
  have hlater : Later l.clock l.clock.tickKtime := (Later.refl _).tick
  refine ⟨h.order.clean fun x hx => h.used x hx 0, h.later hlater, ?_, h.flows⟩
  intro x hx n
  obtain ⟨y, hy, rfl⟩ := List.mem_map.1 hx
  exact Nat.le_trans usedAt_clean_le (h.used_later hlater y hy n)

theorem stepLists_ordered {c : Call} (hmono : Nondecreasing c.ktime) (hports : c.Meets fun pkt => pkt.hasPorts = true)
    (hne : ∀ f ∈ l.flows, f.segs ≠ []) (horder : FreeOrder l.free)
    (hused : ∀ x ∈ l.free, ∀ n, usedAt x ≤ (c.ktime n).toNat) (hflows : ∀ f ∈ l.flows, f.dat.hash ≠ 0)
    (hstep : stepLists l c = .ok l') : Ordered c.ktime l' := by
  have h : Ordered c.ktime { l with clock := { l.clock with ktime := c.ktime } } :=
    ⟨horder, ⟨0, fun _ => rfl⟩, hused, hflows⟩
  cases c with
  | receive pkt ktime =>
    exact Arrival.ordered (l := { l with clock := { l.clock with ktime := ktime } }) hmono hports hne h (receiveLists_ok hstep)
  | flush flushOld groOfoTimeout groInseqTimeout ktime =>
    cases hstep
    exact flushLists_ordered hmono _ _ _ hne h
  | clean ktime =>
    cases hstep
    exact cleanLists_ordered h

/-! ### Runs -/

/-- The packets have ports and the clock does not go back, within a call or from one call to the next. -/
structure Timely (cs : List Call) : Prop where
  ports : ∀ c ∈ cs, c.Meets fun pkt => pkt.hasPorts = true
  within : ∀ c ∈ cs, Nondecreasing c.ktime
  between : cs.Pairwise fun c c' => ∀ m n, (c.ktime m).toNat ≤ (c'.ktime n).toNat

/-- The lists between two calls of a timely run. -/
structure Aged (l : Lists) (past : List Call) : Prop where
  order : FreeOrder l.free
  used : ∀ x ∈ l.free, ∀ t, (∀ c ∈ past, ∀ n, (c.ktime n).toNat ≤ t) → usedAt x ≤ t
  flows : ∀ f ∈ l.flows, f.dat.hash ≠ 0

theorem Aged.init (mem : Mem) : Aged (initLists mem) [] := by
  have hzero : ∀ x ∈ (initLists mem).free, usedAt x = 0 ∧ x.dat.hash = 0 := by
    intro x hx
    obtain ⟨q, -, rfl⟩ := List.mem_map.1 hx
    exact ⟨rfl, rfl⟩
  refine ⟨⟨?_, ?_⟩, ?_, fun f hf => absurd hf List.not_mem_nil⟩
  · refine List.pairwise_of_forall_mem_list fun x hx y hy => ?_
    rw [(hzero y hy).1]
    exact Nat.zero_le _
  · exact List.pairwise_of_forall_mem_list fun x hx y hy _ => (hzero y hy).2
  · intro x hx t _
    rw [(hzero x hx).1]
    exact Nat.zero_le _

theorem Aged.step {c : Call} {past : List Call} (h : Aged l past) (htimely : Timely (past ++ [c]))
    (hne : ∀ f ∈ l.flows, f.segs ≠ []) (hstep : stepLists l c = .ok l') : Aged l' (past ++ [c]) := by
  have hc : c ∈ past ++ [c] := List.mem_append_right _ (List.mem_singleton_self c)
  have hpast := (List.pairwise_append.1 htimely.between).2.2
  have hordered := stepLists_ordered (htimely.within c hc) (htimely.ports c hc) hne h.order
    (fun x hx n => h.used x hx _ fun c' hc' m => hpast c' hc' c (List.mem_singleton_self c) m n) h.flows hstep
  refine ⟨hordered.order, fun x hx t ht => ?_, hordered.flows⟩
  obtain ⟨i, hi⟩ := hordered.clock
  have hle := hordered.used x hx 0
  rw [hi] at hle
  exact Nat.le_trans hle (ht c hc _)

theorem Timely.prefix {cs : List Call} {c : Call} (h : Timely (cs ++ [c])) : Timely cs :=
  ⟨fun c' hc' => h.ports c' (List.mem_append_left _ hc'), fun c' hc' => h.within c' (List.mem_append_left _ hc'),
    (List.pairwise_append.1 h.between).1⟩

theorem run_aged {mem s : Mem} {cs : List Call} (htimely : Timely cs) (hrun : run mem cs = .ok s) :
    ∃ l, Rep s l ∧ Aged l cs := by
  refine runFrom_invariant (I := fun s past => Timely past → ∃ l, Rep s l ∧ Aged l past) ?_
    (fun _ => ⟨_, netifNapiAdd_rep mem, Aged.init mem⟩) hrun htimely
  intro s c s' past h hstep htimely
  obtain ⟨l, hrep, haged⟩ := h htimely.prefix
  have hagree := step_spec s l c hrep
  rw [hstep] at hagree
  obtain ⟨l', hl', hrep'⟩ := hagree.exists_ok
  exact ⟨l', hrep', haged.step htimely (fun f hf => (hrep.links.flows f hf).ne) hl'⟩

/-! ### What `napi_get_tcp_ofo_queue` finds -/

/-- The queue object for a packet with the hash `hash`, and its data. -/
inductive Chosen (free : List (FreeQueue OfoExt)) (hash : U32) : OfoId → Dat → Prop
  /-- the one last used of those with the hash -/
  | own {x : FreeQueue OfoExt} (hx : x ∈ free) (hhash : x.dat.hash = hash)
      (hlast : ∀ y ∈ free, y.dat.hash = hash → usedAt y ≤ usedAt x) : Chosen free hash x.q x.dat
  /-- an unassigned one -/
  | unassigned {x : FreeQueue OfoExt} (hx : x ∈ free) (hzero : x.dat.hash = 0) (hno : ∀ y ∈ free, y.dat.hash ≠ hash) :
    Chosen free hash x.q x.dat
  /-- the one that has not been used for the longest time -/
  | evicted {x : FreeQueue OfoExt} (hx : x ∈ free) (hno : ∀ y ∈ free, y.dat.hash ≠ hash ∧ y.dat.hash ≠ 0)
      (hfirst : ∀ y ∈ free, usedAt x ≤ usedAt y) : Chosen free hash x.q (resetOfo x.dat)

theorem fitsHash_eq_false {hash h : U32} : fitsHash hash h = false ↔ h ≠ hash ∧ h ≠ 0 := by
  simp [fitsHash]

theorem FreeOrder.chosen {hash : U32} (h : FreeOrder free) (hfind : findFree (fitsHash hash) resetOfo free = some (x, rest)) :
    Chosen free hash x.q x.dat := by
  obtain ⟨xs, y, ys, rfl, -, hxs, hy⟩ := findFree_some hfind
  have hmem : y ∈ xs ++ y :: ys := by simp
  obtain ⟨-, hrecent, hxy⟩ := List.pairwise_append.1 h.recent
  obtain ⟨-, hunassigned, -⟩ := List.pairwise_append.1 h.unassigned
  rcases hy with ⟨hfits, rfl⟩ | ⟨hfits, rfl, rfl⟩
  · by_cases hhash : x.dat.hash = hash
    · refine Chosen.own hmem hhash fun z hz hzhash => ?_
      rcases List.mem_append.1 hz with hz | hz
      · exact absurd hzhash (fitsHash_eq_false.1 (hxs z hz)).1
      · rcases List.mem_cons.1 hz with rfl | hz
        · exact Nat.le_refl _
        · exact List.rel_of_pairwise_cons hrecent hz
    · have hzero : x.dat.hash = 0 := by simpa [fitsHash, hhash] using hfits
      refine Chosen.unassigned hmem hzero fun z hz => ?_
      rcases List.mem_append.1 hz with hz | hz
      · exact (fitsHash_eq_false.1 (hxs z hz)).1
      · rcases List.mem_cons.1 hz with rfl | hz
        · exact hhash
        · rw [List.rel_of_pairwise_cons hunassigned hz hzero, ← hzero]
          exact hhash
  · show Chosen _ _ y.q (resetOfo y.dat)
    refine Chosen.evicted hmem (fun z hz => ?_) fun z hz => ?_
    · rcases List.mem_append.1 hz with hz | hz
      · exact fitsHash_eq_false.1 (hxs z hz)
      · rw [List.mem_singleton.1 hz]
        exact fitsHash_eq_false.1 hfits
    · rcases List.mem_append.1 hz with hz | hz
      · exact hxy z hz y (List.mem_singleton_self y)
      · rw [List.mem_singleton.1 hz]

end

/-- `dev_gro_receive` does not write the free queue objects before it looks for one: when the callbacks, called in the memory
`v`, return and it does so in the memory `u`, they are as they were before the call. -/
theorem receive_seeks {mem s : Mem} {cs : List Call} (hrun : run mem cs = .ok s) (pkt : Packet) (ktime : ℕ → U64) :
    (∃ t, step s (.receive pkt ktime) = .ok (receiveNormal t s.nskb)) ∨
      ∃ v, step s (.receive pkt ktime) = (inetGroReceive v s.nskb).bind (fun t => receiveEnd t s.nskb) ∧
        ∀ u, inetGroReceive v s.nskb = .ok u → Seeks u s.nskb → SameFree s u := by
  have hagree := run_spec mem cs
  rw [hrun] at hagree
  obtain ⟨l, -, hrep⟩ := hagree.exists_ok
  cases devGroReceive_comesTo (hrep.setClock { s.clock with ktime := ktime }) pkt with
  | normal hy hend => exact Or.inl ⟨_, hy⟩
  | @returns v x hx hy hend =>
    subst hx
    refine Or.inr ⟨v, hy, fun u hu hseeks => ?_⟩
    have hclock : SameFree s { s with clock := { s.clock with ktime := ktime } } := ⟨rfl, rfl, rfl, rfl, rfl⟩
    exact hclock.trans (hend.2 u hu hseeks)

/-- **`napi_get_tcp_ofo_queue` finds the flow's own state.**  The free list is in the order of last use, with the
unassigned queue objects at its end, and so it is in every memory `u` in which `dev_gro_receive` looks there. -/
theorem napiGetTcpOfoQueue_recent {mem s : Mem} {cs : List Call} (htimely : Timely cs) (hrun : run mem cs = .ok s) :
    FreeOrder s.view.free ∧ ∀ (u : Mem) (skb : SkbId), SameFree s u →
      ∃ q t, napiGetTcpOfoQueue u skb = .ok (q, t) ∧ Chosen s.view.free (u.body skb).tcpHash q (t.ofo q) := by
  obtain ⟨l, hrep, haged⟩ := run_aged htimely hrun
  have hfree : s.view.free = l.free := by rw [hrep.view_eq]; rfl
  rw [hfree]
  refine ⟨haged.order, fun u skb hu => ?_⟩
  have hlist := hrep.links.free
  have hu' : FreeRep u l.free := by
    refine ⟨hu.first.trans hlist.first, hu.last.trans hlist.last, ?_, fun x hx => ?_⟩
    · rw [hu.next, hu.prev]
      exact hlist.dll
    · rw [hu.dat]
      exact hlist.dat x hx
  obtain ⟨x, rest, t, hfind, hfound, hcall⟩ :=
    hu'.findQueue (fitsHash (u.body skb).tcpHash) resetOfo hrep.free_ne_nil hrep.free_length_le
  obtain ⟨qlen, skbNum, -, ht⟩ := hfound.mem
  refine ⟨x.q, t, hcall, ?_⟩
  have hdat : t.ofo x.q = x.dat := by
    rw [ht]
    exact Function.update_self ..
  rw [hdat]
  exact haged.order.chosen hfind

/-- Two flows, each held until a flush. -/
def twoFlows : List Call :=
  [.receive (.plain 0 1 7 100 10 0) fun _ => 5, .flush false 0 0 fun _ => 6, .receive (.plain 1 1 8 100 10 0) fun _ => 7,
    .flush false 0 0 fun _ => 8]

theorem twoFlows_timely : Timely twoFlows := by
  constructor
  · intro c hc
    simp only [twoFlows, List.mem_cons, List.not_mem_nil, or_false] at hc
    rcases hc with rfl | rfl | rfl | rfl
    · show (Packet.plain 0 1 7 100 10 0).hasPorts = true
      decide +kernel
    · trivial
    · show (Packet.plain 1 1 8 100 10 0).hasPorts = true
      decide +kernel
    · trivial
  · intro c hc m n _
    simp only [twoFlows, List.mem_cons, List.not_mem_nil, or_false] at hc
    rcases hc with rfl | rfl | rfl | rfl <;> exact Nat.le_refl _
  · simp [twoFlows, Call.ktime]

/-- The first of the two packets went up, but its flow still has a queue object, which is found by its ports. -/
theorem napiGetTcpOfoQueue_recent_two :
    ∃ s q t, run default twoFlows = .ok s ∧
      (s.view.free.map fun x => (x.dat.hash, usedAt x)).take 3 = [(8, 8), (7, 6), (0, 0)] ∧ FreeOrder s.view.free ∧
      napiGetTcpOfoQueue s 0 = .ok (q, t) ∧ (t.ofo q).hash = 7 := by
  have hend : (run default twoFlows).map (fun s =>
      ((s.view.free.map fun x => (x.dat.hash, usedAt x)).take 3, (s.body 0).tcpHash)) =
      .ok ([(8, 8), (7, 6), (0, 0)], 7) := by decide +kernel
  obtain ⟨s, hrun, hs⟩ := map_ok hend
  obtain ⟨hfree, hhash⟩ := Prod.ext_iff.1 hs
  obtain ⟨horder, hfind⟩ := napiGetTcpOfoQueue_recent twoFlows_timely hrun
  obtain ⟨q, t, hcall, hchosen⟩ := hfind s 0 ⟨rfl, rfl, rfl, rfl, rfl⟩
  refine ⟨s, q, t, hrun, hfree, horder, hcall, ?_⟩
  -- one of the free queue objects has the hash
  have hmem : ((7 : U32), 6) ∈ s.view.free.map fun x => (x.dat.hash, usedAt x) := by
    refine List.mem_of_mem_take (i := 3) ?_
    rw [show (s.view.free.map fun x => (x.dat.hash, usedAt x)).take 3 = _ from hfree]
    simp
  obtain ⟨y, hy, hyhash⟩ := List.mem_map.1 hmem
  have hyhash : y.dat.hash = (s.body 0).tcpHash := (congrArg Prod.fst hyhash).trans hhash.symm
  generalize t.ofo q = d at hchosen ⊢
  cases hchosen with
  | own hx hown hlast => exact hown.trans hhash
  | unassigned hx hzero hno => exact absurd hyhash (hno y hy)
  | evicted hx hno hfirst => exact absurd hyhash (hno y hy).1

end PacketReordering.Linux41
