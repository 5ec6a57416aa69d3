import PacketReordering.Linux318.Complete
import PacketReordering.Linux318.Ordering

/-!
# `linux-3.18.5`: nothing is held for too long

The time stamp of a segment is the earliest of its packets', and what follows the segment in the queue begins after
`seq_next` if the segment does.  So `napi_gro_flush` leaves no packet that is overdue and no segment that is in sequence.

* `Stamped`, `Ahead` — the invariants of a held flow;
* `run_timely` — they hold in every run;
* `run_recent` — what a flush leaves.
-/

namespace PacketReordering.Linux318

open Lib Gro

/-- The clocks of the calls do not run backwards. -/
def Nondecreasing (cs : List Call) : Prop :=
  (∀ c ∈ cs, ∀ m n, m ≤ n → c.clock.ktime m ≤ c.clock.ktime n) ∧
    cs.Pairwise fun c c' => ∀ m n, c.clock.ktime m ≤ c'.clock.ktime n

/-- The time stamp of the buffer is that of a packet in `past`, and every packet in it came then or later. -/
structure Stamped (past : List Call) (b : Skb) : Prop where
  stamp : ∃ pkt clock, .receive pkt clock ∈ past ∧ b.ext.timestamp = clock.ktime 0
  parts : ∀ c ∈ b.parts, ∃ pkt clock, .receive pkt clock ∈ past ∧ pkt.body.uid = c.uid ∧ b.ext.timestamp ≤ clock.ktime 0

/-- The number `n` lies in the window, or no segment begins before it. -/
def Ahead (base : U32) (n : U32) (segs : List Segment) : Prop :=
  offset base n ≤ 2 ^ 30 ∨ Bodies (fun b => before b.seq n = false) segs

/-- What holds of a held flow: its segments are in order, their time stamps are true, and `seq_next` is behind none. -/
structure Timely (base : FlowKey → U32) (past : List Call) (key : FlowKey) (f : Flow Stamp OfoExt) : Prop where
  solid : Bodies (Solid base key) f.segs
  apart : Apart (base key) f.segs
  stamped : Bodies (Stamped past) f.segs
  ahead : Ahead (base key) f.dat.seqNext f.segs

section

variable {env : Env} {base : FlowKey → U32} {key : FlowKey} {pkt : Packet} {l l' : Lists} {k : SkbId} {past : List Call}
  {i b c p b' p' : Skb} {f : Flow Stamp OfoExt} {x : Segment} {A B : List (Flow Stamp OfoExt)} {w : Walked} {whole : Bool}
  {clock : Clock} {segs rel all : List Segment} {n m : U32} {d : Dat} {exit : Exit} {fate : Fate}

/-! ### Time stamps -/

theorem Nondecreasing.init {cs : List Call} (h : Nondecreasing (past ++ cs)) : Nondecreasing past :=
  ⟨fun c hc => h.1 c (List.mem_append_left _ hc), (List.pairwise_append.1 h.2).1⟩

theorem Stamped.mono (h : Stamped past b) {more : List Call} : Stamped (past ++ more) b := by
  obtain ⟨⟨pkt, clock, hmem, hstamp⟩, hparts⟩ := h
  refine ⟨⟨pkt, clock, List.mem_append_left _ hmem, hstamp⟩, fun c hc => ?_⟩
  obtain ⟨pkt, clock, hmem, hpart⟩ := hparts c hc
  exact ⟨pkt, clock, List.mem_append_left _ hmem, hpart⟩

/-- The buffer of a packet that arrives at the end of `past`. -/
structure Arrived (past : List Call) (b : Skb) : Prop where
  call : ∃ pkt clock, .receive pkt clock ∈ past ∧ b.ext.timestamp = clock.ktime 0 ∧ ∀ c ∈ b.parts, c.uid = pkt.body.uid
  last : ∀ pkt clock, .receive pkt clock ∈ past → clock.ktime 0 ≤ b.ext.timestamp

theorem Arrived.stamped (h : Arrived past b) : Stamped past b := by
  obtain ⟨pkt, clock, hmem, hstamp, hparts⟩ := h.call
  exact ⟨⟨pkt, clock, hmem, hstamp⟩, fun c hc => ⟨pkt, clock, hmem, (hparts c hc).symm, BitVec.le_of_eq hstamp⟩⟩

/-- The packets of `p` and `b` are in a buffer with an earlier time stamp. -/
theorem Stamped.join {t : U64} (hp : Stamped past p) (hb : Stamped past b) (hparts : b'.parts = p.parts ++ b.parts)
    (ht : b'.ext.timestamp = t) (htp : t ≤ p.ext.timestamp) (htb : t ≤ b.ext.timestamp)
    (hstamp : t = p.ext.timestamp ∨ t = b.ext.timestamp) : Stamped past b' := by
  refine ⟨?_, fun c hc => ?_⟩
  · rw [ht]
    rcases hstamp with rfl | rfl
    · exact hp.stamp
    · exact hb.stamp
  · rw [hparts] at hc
    rw [ht]
    rcases List.mem_append.1 hc with hc | hc
    · obtain ⟨pkt, clock, hmem, huid, hle⟩ := hp.parts c hc
      exact ⟨pkt, clock, hmem, huid, BitVec.le_trans htp hle⟩
    · obtain ⟨pkt, clock, hmem, huid, hle⟩ := hb.parts c hc
      exact ⟨pkt, clock, hmem, huid, BitVec.le_trans htb hle⟩

theorem Arrived.le (hb : Arrived past b) (hp : Stamped past p) : p.ext.timestamp ≤ b.ext.timestamp := by
  obtain ⟨pkt, clock, hmem, hstamp⟩ := hp.stamp
  rw [hstamp]
  exact hb.last pkt clock hmem

theorem stamped_rule (past : List Call) : WalkRule (Arrived past) (Stamped past) where
  stay _ h := h.stamped
  pull b h := by
    obtain ⟨hstamp, hparts⟩ := h
    refine ⟨?_, ?_⟩
    · rwa [pull_ext]
    · rwa [pull_ext, pull_parts]
  front b p b' p' hb hp _ hmerge := by
    have hext := skbGroMerge_absorbed hmerge
    obtain ⟨-, -, -, -, -, frags, rfl⟩ := skbGroMerge_merged hmerge
    refine Stamped.join hb.stamped hp rfl rfl ?_ ?_ (Or.inr ?_)
    · show p'.ext.timestamp ≤ b.ext.timestamp
      rw [hext]
      exact hb.le hp
    · show p'.ext.timestamp ≤ p.ext.timestamp
      rw [hext]
      exact BitVec.le_refl _
    · show p'.ext.timestamp = p.ext.timestamp
      rw [hext]
  behind p b p' b' hp hb _ hmerge := by
    obtain ⟨-, -, -, -, -, frags, rfl⟩ := skbGroMerge_merged hmerge
    exact Stamped.join (p := p) (b := b) (t := p.ext.timestamp) hp hb.stamped rfl rfl (BitVec.le_refl _) (hb.le hp) (Or.inl rfl)
  bridge p p3 p' s' hp hp3 _ hmerge := by
    have hext := skbGroMerge_absorbed hmerge
    obtain ⟨-, -, -, -, -, frags, rfl⟩ := skbGroMerge_merged hmerge
    refine Stamped.join hp hp3 rfl rfl ?_ ?_ ?_
    all_goals
      simp only [Stamp.min, hext]
      split
    · exact BitVec.le_of_lt ‹_›
    · exact BitVec.le_refl _
    · exact BitVec.le_refl _
    · exact BitVec.not_lt.1 ‹_›
    · exact Or.inr rfl
    · exact Or.inl rfl

/-! ### `seq_next` -/

theorem before_of_before_eq_false (h : before m n = false) (hne : m ≠ n) : before n m = true := by
  unfold before at h ⊢
  rw [decide_eq_false_iff_not] at h
  rw [decide_eq_true_iff]
  unfold SerialLT at h ⊢
  rw [BitVec.toInt_neg_iff] at h ⊢
  bv_omega

theorem Ahead.sublist {base : U32} {xs ys : List Segment} (h : Ahead base n ys) (hsub : ∀ x ∈ xs, x ∈ ys) :
    Ahead base n xs :=
  h.imp_right fun hall x hx => hall x (hsub x hx)

theorem Ahead.maxSeq {base : U32} (h : Ahead base n segs) (hm : offset base m ≤ 2 ^ 30) :
    Ahead base (maxSeq n m) segs := by
  unfold Gro.maxSeq
  split
  · exact Or.inl hm
  · exact h

@[simp] theorem ahead_setHeadNext {base : U32} {o : Option SkbId} : Ahead base n (setHeadNext o segs) ↔ Ahead base n segs := by
  rw [Ahead, bodies_setHeadNext, Ahead]

/-- The segments behind one that begins after `n` begin after `n`. -/
theorem Ahead.after {base : U32} (h : Ahead base n (x :: segs)) (hwin : Bodies (Body.InWindow base) (x :: segs))
    (hapart : Apart base (x :: segs)) (hx : before n x.body.seq = true) : ∀ y ∈ x :: segs, before n y.body.seq = true := by
  obtain ⟨hxwin, hsegswin⟩ := bodies_cons.1 hwin
  refine List.forall_mem_cons.2 ⟨hx, fun y hy => ?_⟩
  have hle := (apart_cons.1 hapart).1 y hy
  have hxle := hxwin.first_le
  have hywin := (hsegswin y hy).first_le_window
  rcases h with hn | hall
  · rw [before_iff hn hxwin.first_le_window] at hx
    rw [before_iff hn hywin]
    show offset base n < y.body.first base
    have hx' : offset base n < x.body.first base := hx
    omega
  · refine before_of_before_eq_false (hall y (List.mem_cons_of_mem _ hy)) fun he => ?_
    rw [← he, before_iff hywin hxwin.first_le_window] at hx
    have hx' : y.body.first base < x.body.first base := hx
    omega

theorem completeSegs_ahead [GroComplete Stamp] {base : U32} {cond : Dat → SkbId → Skb → Bool}
    (hwin : Bodies (Body.InWindow base) segs)
    (h : Ahead base d.seqNext segs) :
    Ahead base (completeSegs cond d segs).1.seqNext (completeSegs cond d segs).2.2 := by
  induction segs generalizing d with
  | nil => exact h
  | cons x segs ih =>
    obtain ⟨hx, hsegs⟩ := bodies_cons.1 hwin
    rw [completeSegs]
    split
    · exact ih hsegs ((h.sublist fun y hy => List.mem_cons_of_mem _ hy).maxSeq hx.last_le)
    · exact h

/-- The second loop of `dev_gro_complete` stops at a segment that is not in sequence. -/
theorem completeSegs_stop [GroComplete Stamp] {cond : Dat → SkbId → Skb → Bool} {ys : List Segment}
    (h : (completeSegs cond d segs).2.2 = x :: ys) : cond (completeSegs cond d segs).1 x.id x.body = false := by
  induction segs generalizing d with
  | nil => cases h
  | cons y segs ih =>
    rw [completeSegs] at h ⊢
    split
    · rename_i hgo
      rw [if_pos hgo] at h
      exact ih h
    · rename_i hstop
      rw [if_neg hstop] at h
      cases h
      simpa using hstop

/-! ### Arrivals -/

/-- Every segment begins where an old one or the packet does. -/
theorem Placed.seq {base : U32} (h : Placed base k b exit segs all fate) :
    ∀ x ∈ all, x.body.seq = b.seq ∨ ∃ y ∈ segs, x.body.seq = y.body.seq := by
  have hold : ∀ x ∈ segs, x.body.seq = b.seq ∨ ∃ y ∈ segs, x.body.seq = y.body.seq := fun x hx => Or.inr ⟨x, hx, rfl⟩
  cases h with
  | refused => exact hold
  | insert hpre hpost =>
    obtain ⟨hpre, hpost⟩ := List.forall_mem_append.1 hold
    exact List.forall_mem_append.2 ⟨hpre, List.forall_mem_cons.2 ⟨Or.inl rfl, hpost⟩⟩
  | front hpre hseq hmerge =>
    obtain ⟨hpre, hrest⟩ := List.forall_mem_append.1 hold
    have hfirst := (skbGroMerge_seqEnd hseq hmerge).1
    exact List.forall_mem_append.2 ⟨hpre, List.forall_mem_cons.2 ⟨Or.inl hfirst, (List.forall_mem_cons.1 hrest).2⟩⟩
  | @behind _ pre post p2 b2 s2 hseq hmerge hpost =>
    obtain ⟨hpre, hrest⟩ := List.forall_mem_append.1 hold
    have hfirst := (skbGroMerge_seqEnd hseq hmerge).1
    exact List.forall_mem_append.2 ⟨hpre, List.forall_mem_cons.2
      ⟨Or.inr ⟨p2, List.mem_append_right _ (List.mem_cons_self ..), hfirst⟩, (List.forall_mem_cons.1 hrest).2⟩⟩
  | @bridge pre post p2 p3 b2 s2 b3 s3 hseq hmerge hseq' hmerge' =>
    obtain ⟨hpre, hrest⟩ := List.forall_mem_append.1 hold
    obtain ⟨hfirst, hlast⟩ := skbGroMerge_seqEnd hseq hmerge
    have hseq3 : (addFlags b2 b.tcp.flagWord).seqEnd = p3.body.seq := hlast.trans hseq'
    have hfirst' := (skbGroMerge_seqEnd hseq3 hmerge').1
    exact List.forall_mem_append.2 ⟨hpre, List.forall_mem_cons.2
      ⟨Or.inr ⟨p2, List.mem_append_right _ (List.mem_cons_self ..), hfirst'.trans hfirst⟩,
        (List.forall_mem_cons.1 (List.forall_mem_cons.1 hrest).2).2⟩⟩

/-- The walk keeps `seq_next` behind the segments it leaves. -/
theorem Settled.ahead [GroComplete Stamp] {tr : Track} (h : Settled (base key) k b tr segs rel w) (hb : Solid base key b)
    (hsegs : Bodies (Solid base key) segs) (hahead : Ahead (base key) tr.dat.seqNext segs)
    (hlate : before b.seq tr.dat.seqNext = false) : Ahead (base key) w.track.dat.seqNext w.segs := by
  have hall := h.placed.bodies (solid_rule base key) hb (bodies_erased.2 hsegs)
  rw [bodies_erased] at hall
  rw [h.track]
  rcases List.eq_nil_or_concat' rel with rfl | ⟨rel, z, rfl⟩
  · rw [Track.flush_nil]
    refine hahead.imp_right fun hseqs x hx => ?_
    rcases h.placed.seq x.erase (List.mem_map_of_mem hx) with hseq | ⟨y, hy, hseq⟩
    · rw [erase_body] at hseq
      rwa [hseq]
    · obtain ⟨y', hy', rfl⟩ := List.mem_map.1 hy
      rw [erase_body, erase_body] at hseq
      rw [hseq]
      exact hseqs y' hy'
  · refine Or.inl ?_
    rw [Track.flush, flushSegs_concat]
    exact (hall z (by simp)).window.last_le

theorem Walked.flow_ahead {base : U32} {q : OfoId} (h : Ahead base w.track.dat.seqNext w.segs)
    (hb : offset base b.seqEnd ≤ 2 ^ 30) : Ahead base (w.flow k b q).dat.seqNext (w.flow k b q).segs := by
  unfold Walked.flow
  cases w.fate with
  | merged => exact h
  | normal => exact h.maxSeq hb
  | held =>
    refine h.imp_right fun hseqs x hx => ?_
    obtain ⟨y, hy, rfl⟩ := List.mem_map.1 hx
    unfold pullSeg
    split
    · rw [pull_seq]
      exact hseqs y hy
    · exact hseqs y hy

/-- A packet of the flow keeps it timely. -/
theorem Way.timely [GroComplete Stamp] {q : OfoId} (hfound : Found env l pkt i b A f B x)
    (hway : Way env l i b f B x c w whole clock)
    (hwhole : whole = false) (hwin : pkt.windowed env base = true)
    (harrived : Arrived past (stampWalk l.clock (sized b x.body))) (h : Timely base past key f) :
    Timely base past key (w.flow k c q) := by
  obtain ⟨hsolid, hapart, hstamped, hahead⟩ := h
  obtain ⟨hwsolid, hwapart⟩ := hway.inOrder hfound hwin hsolid hapart
  have hwstamped := (hway.bodies (stamped_rule past) hfound.ne (fun _ => harrived) hstamped).segs
  refine ⟨Walked.flow_bodies (fun _ h => h.pull) hwsolid, Walked.flow_apart (hwapart hwhole),
    Walked.flow_bodies (stamped_rule past).pull hwstamped, ?_⟩
  cases hway with
  | flush hwhy => cases hwhole
  | late hhold hlate =>
    have hb := hfound.solid hwin hsolid hhold
    exact Walked.flow_ahead (ahead_setHeadNext.2 hahead) hb.window.last_le
  | walked hhold hlate hwalk =>
    have hb := hfound.solid hwin hsolid hhold
    obtain ⟨rel, hsettled⟩ := walkSegs_settled hfound.ne hb.window (hsolid.imp fun _ h => h.window) hapart hwalk
    exact Walked.flow_ahead (hsettled.ahead hb hsolid hahead hlate) hb.window.last_le

/-! ### Runs -/

theorem Timely.mono (h : Timely base past key f) {more : List Call} : Timely base (past ++ more) key f :=
  ⟨h.solid, h.apart, h.stamped.imp fun _ hb => hb.mono, h.ahead⟩

/-- The packet of the last call. -/
theorem arrived_last {flush : Bool} (hmono : Nondecreasing (past ++ [.receive pkt clock]))
    (hparse : pkt.parse env = .tcp i b flush) (hparts : b'.parts = b.parts) (ht : b'.ext.timestamp = clock.ktime 0) :
    Arrived (past ++ [.receive pkt clock]) b' := by
  have hhead := parse_tcp hparse
  refine ⟨⟨pkt, clock, by simp, ht, fun c hc => ?_⟩, fun pkt' clock' hmem => ?_⟩
  · rw [hparts, hhead.parts, List.mem_singleton] at hc
    rw [hc]
    exact hhead.uid
  · rw [ht]
    rcases List.mem_append.1 hmem with hmem | hmem
    · exact (List.pairwise_append.1 hmono.2).2.2 _ hmem _ (List.mem_singleton_self _) 0 0
    · obtain ⟨-, rfl⟩ : pkt' = pkt ∧ clock' = clock := by simpa using hmem
      exact BitVec.le_refl _

theorem newFlow_timely {y : FreeQueue OfoExt} {rest : List (FreeQueue OfoExt)} {since : ℕ}
    (hmono : Nondecreasing (past ++ [.receive pkt clock])) (hold : Holdable env l pkt b y rest)
    (hwin : pkt.windowed env base = true) (hlate : before b.seq (assign y.dat b.seq since).seqNext = false) :
    Timely base (past ++ [.receive pkt clock]) b.flowKey (newFlow y k b clock since) := by
  have hsolid : Bodies (Solid base b.flowKey) (newFlow y k b clock since).segs := newFlow_solid hold hwin
  obtain ⟨i, flush, hparse, -⟩ := hold.parse
  have harrived : Arrived (past ++ [.receive pkt clock])
      ({ stampNew clock b with gsoSize := BitVec.ofNat 16 b.groLen } : Skb).pull :=
    arrived_last hmono hparse pull_parts (congrArg Stamp.timestamp pull_ext)
  refine ⟨hsolid, List.pairwise_singleton _ _, bodies_cons.2 ⟨harrived.stamped, bodies_nil⟩, Or.inr ?_⟩
  refine bodies_cons.2 ⟨?_, bodies_nil⟩
  rw [pull_seq]
  exact hlate

theorem completeFlow_ahead [GroComplete Stamp] {base : U32} {timeout timestamp : U64}
    (hwin : Bodies (Body.InWindow base) segs)
    (h : Ahead base d.seqNext segs) :
    Ahead base (completeFlow timeout timestamp d segs).1.seqNext (completeFlow timeout timestamp d segs).2.2 := by
  have hloop : ∀ (cond : Dat → SkbId → Skb → Bool) (d : Dat) (xs : List Segment), Bodies (Body.InWindow base) xs →
      Bodies (Body.InWindow base) (completeSegs cond d xs).2.2 := fun cond d xs hxs => (completeSegs_upFrom hxs).2
  unfold completeFlow
  exact completeSegs_ahead (hloop _ _ _ hwin) (completeSegs_ahead hwin h)

theorem completeFlow_timely [GroComplete Stamp] {o : Option SkbId} {timeout timestamp : U64}
    {r : Dat × List (Up Stamp) × List Segment}
    (hr : completeFlow timeout timestamp f.dat (setHeadNext o f.segs) = r) (h : Timely base past key f) :
    Timely base past key ⟨f.q, r.1, r.2.2⟩ := by
  obtain ⟨hsolid, hapart, hstamped, hahead⟩ := h
  have hsolid' : Bodies (Solid base key) (setHeadNext o f.segs) := bodies_setHeadNext.2 hsolid
  have hahead' : Ahead (base key) (completeFlow timeout timestamp f.dat (setHeadNext o f.segs)).1.seqNext
      (completeFlow timeout timestamp f.dat (setHeadNext o f.segs)).2.2 :=
    completeFlow_ahead (hsolid'.imp fun _ h => h.window) (ahead_setHeadNext.2 hahead)
  rw [hr] at hahead'
  obtain ⟨rel, hrel⟩ := completeFlow_suffix timeout timestamp f.dat (setHeadNext o f.segs)
  rw [hr] at hrel
  have hapart' : Apart (base key) (setHeadNext o f.segs) := apart_setHeadNext.2 hapart
  have hstamped' : Bodies (Stamped past) (setHeadNext o f.segs) := bodies_setHeadNext.2 hstamped
  rw [← hrel] at hsolid' hapart' hstamped'
  exact ⟨(bodies_append.1 hsolid').2, (apart_append.1 hapart').2.1, (bodies_append.1 hstamped').2, hahead'⟩

theorem stepLists_timely {c : Call} (hmono : Nondecreasing (past ++ [c]))
    (h : ∀ f ∈ l.flows, ∃ key, Timely base past key f) (hne : ∀ f ∈ l.flows, f.segs ≠ [])
    (hc : c.Meets fun pkt _ => pkt.windowed env base = true) (hstep : stepLists env l c = .ok l') :
    ∀ f ∈ l'.flows, ∃ key, Timely base (past ++ [c]) key f := by
  let _ := env.groComplete
  have h' : ∀ f ∈ l.flows, ∃ key, Timely base (past ++ [c]) key f := by
    intro f hf
    obtain ⟨key, hkey⟩ := h f hf
    exact ⟨key, hkey.mono⟩
  cases c with
  | receive pkt clock =>
    have harrival := @receiveLists_ok env { l with clock := clock } _ _ _ hne hstep
    have hR : FlowRule env { l with clock := clock } pkt fun f => ∃ key, Timely base (past ++ [.receive pkt clock]) key f := by
      refine ⟨fun b y rest hold hlate => ⟨b.flowKey, newFlow_timely hmono hold hc hlate⟩, ?_⟩
      rintro i b c A f B x w clock' hfound hway ⟨key, hkey⟩
      obtain ⟨flush, hparse⟩ := hfound.parse
      have harrived : Arrived (past ++ [.receive pkt clock]) (stampWalk clock (sized b x.body)) :=
        arrived_last hmono hparse rfl rfl
      exact ⟨key, hway.timely hfound rfl hc harrived hkey⟩
    exact harrival.forall_flows (l := { l with clock := clock }) hR h'
  | flush flushOld clock =>
    cases hstep
    refine flushLists_forall_flows _ (fun f o timestamp r hr _ hf => ?_) h'
    obtain ⟨key, hkey⟩ := hf
    exact ⟨key, completeFlow_timely hr hkey⟩
  | clean clock =>
    cases hstep
    exact h'

/-- **The held flows are timely after every run.** -/
theorem run_timely {mem s : Mem} {cs : List Call} (hmono : Nondecreasing cs)
    (hwin : ∀ c ∈ cs, c.Meets fun pkt _ => pkt.windowed env base = true) (hrun : run env mem cs = .ok s) :
    ∃ l, Rep s l ∧ ∀ f ∈ l.flows, ∃ key, Timely base cs key f := by
  obtain ⟨l, hrep, hl⟩ := run_invariant (I := fun past l => Nondecreasing past →
      (∀ c ∈ past, c.Meets fun pkt _ => pkt.windowed env base = true) → ∀ f ∈ l.flows, ∃ key, Timely base past key f)
    (fun _ _ f hf => absurd hf List.not_mem_nil) (fun past c s l s' l' hrep _ hl hstep hmono hwin =>
      stepLists_timely hmono (hl hmono.init fun c' hc' => hwin c' (List.mem_append_left _ hc'))
        (fun f hf => (hrep.links.flows f hf).ne) (hwin c (List.mem_append_right _ (List.mem_singleton_self c))) hstep) hrun
  exact ⟨l, hrep, hl hmono hwin⟩

/-! ### What a flush leaves -/

/-- The flow `f` holds nothing that came 100000 ns before the reading `checked` of the clock, and nothing in sequence. -/
structure Recent (past : List Call) (clock : Clock) (f : Flow Stamp OfoExt) : Prop where
  checked : ∃ n, f.dat.ext.checked = clock.ktime n
  recent : ∀ x ∈ f.segs, ∀ c ∈ x.body.parts, ∃ pkt t, .receive pkt t ∈ past ∧ pkt.body.uid = c.uid ∧
    f.dat.ext.checked - t.ktime 0 < 100000
  after : ∀ x ∈ f.segs, before f.dat.seqNext x.body.seq = true

theorem completeFlow_checked [GroComplete Stamp] {timeout timestamp : U64} :
    (completeFlow timeout timestamp d segs).1.ext.checked = timestamp := by
  unfold completeFlow
  simp only [completeSegs_ext]

/-- What `dev_gro_complete` leaves is young, and out of sequence. -/
theorem completeFlow_rest [GroComplete Stamp] {base : U32} {timeout timestamp : U64} (hnd : (segIds segs).Nodup)
    (htimeout : timeout ≠ 0)
    (hwin : Bodies (Body.InWindow base) segs) (hapart : Apart base segs) (h : Ahead base d.seqNext segs) :
    ∀ x ∈ (completeFlow timeout timestamp d segs).2.2,
      timestamp - x.body.ext.timestamp < timeout ∧ before (completeFlow timeout timestamp d segs).1.seqNext x.body.seq = true := by
  have hahead : Ahead base (completeFlow timeout timestamp d segs).1.seqNext (completeFlow timeout timestamp d segs).2.2 :=
    completeFlow_ahead hwin h
  obtain ⟨rel, hrel⟩ := completeFlow_suffix timeout timestamp d segs
  have hyoung : (completeFlow timeout timestamp d segs).2.2 <:+ young timeout timestamp segs := by
    rw [completeFlow_eq timeout timestamp d hnd]
    obtain ⟨rel, hrel, -⟩ := completeSegs_append (fun (d : Dat) _ (b : Skb) => !before d.seqNext b.seq)
      (completeAll { d with ext := { d.ext with checked := timestamp } } (overdue timeout timestamp segs)).1
      (young timeout timestamp segs)
    exact ⟨rel, hrel.symm⟩
  have hstop : ∀ x ys, (completeFlow timeout timestamp d segs).2.2 = x :: ys →
      before (completeFlow timeout timestamp d segs).1.seqNext x.body.seq = true := by
    intro x ys hxs
    have hcond := @completeSegs_stop _ _ _ _ (fun (d : Dat) _ (b : Skb) => !before d.seqNext b.seq) _ hxs
    rw [Bool.not_eq_false'] at hcond
    exact hcond
  revert hahead hyoung hstop
  generalize completeFlow timeout timestamp d segs = r at hrel ⊢
  intro hahead hyoung hstop x hx
  refine ⟨?_, ?_⟩
  · have hmem := hyoung.subset hx
    rw [young, if_pos htimeout] at hmem
    have hxyoung : isYoung timestamp timeout x = true := List.mem_rtakeWhile_imp hmem
    exact of_decide_eq_true hxyoung
  · rw [← hrel] at hwin hapart
    obtain ⟨y, ys, hys⟩ := List.exists_cons_of_ne_nil (List.ne_nil_of_mem hx)
    rw [hys] at hahead hwin hapart hx
    exact hahead.after (bodies_append.1 hwin).2 (apart_append.1 hapart).2.1 (hstop y ys hys) x hx

/-- A time stamp that is young makes all packets of the buffer young. -/
theorem sub_lt_of_le {t u v m : U64} (htu : t ≤ u) (huv : u ≤ v) (h : v - t < m) : v - u < m := by
  bv_omega

theorem completeFlow_recent [GroComplete Stamp] {o : Option SkbId} {timestamp : U64}
    {r : Dat × List (Up Stamp) × List Segment} {j : ℕ}
    (hr : completeFlow 100000 timestamp f.dat (setHeadNext o f.segs) = r) (hnd : f.ids.Nodup)
    (hclock : timestamp = clock.ktime j) (hlast : ∀ pkt t, .receive pkt t ∈ past → t.ktime 0 ≤ timestamp)
    (h : Timely base past key f) : Recent past clock ⟨f.q, r.1, r.2.2⟩ := by
  have hrest := @completeFlow_rest (setHeadNext o f.segs) f.dat _ (base key) 100000 timestamp
    (by rwa [segIds_setHeadNext]) (by decide) ((bodies_setHeadNext.2 h.solid).imp fun _ hb => hb.window)
    (apart_setHeadNext.2 h.apart) (ahead_setHeadNext.2 h.ahead)
  have htimely := completeFlow_timely hr h
  have hchecked : r.1.ext.checked = timestamp := by rw [← hr, completeFlow_checked]
  rw [hr] at hrest
  refine ⟨⟨j, hchecked.trans hclock⟩, fun x hx c hc => ?_, fun x hx => (hrest x hx).2⟩
  obtain ⟨pkt, t, hmem, huid, hle⟩ := (htimely.stamped x hx).parts c hc
  refine ⟨pkt, t, hmem, huid, ?_⟩
  rw [hchecked]
  exact sub_lt_of_le hle (hlast pkt t hmem) (hrest x hx).1

/-- The flows that `napi_gro_flush(napi, false)` leaves. -/
theorem flushFlows_false [GroComplete Stamp] {R : Flow Stamp OfoExt → Prop} {clock : Clock}
    (hcomplete : ∀ f o j r, completeFlow 100000 (clock.ktime j) f.dat (setHeadNext o f.segs) = r → r.2.2 ≠ [] →
      f ∈ l.flows → R ⟨f.q, r.1, r.2.2⟩) (hclock : l.clock = clock) : ∀ f ∈ (flushLists l false).flows, R f := by
  have hfold : ∀ (fs : List (Flow Stamp OfoExt)) (m : Lists), (∀ f ∈ fs, f ∈ l.flows) →
      (∃ j, ∀ n, m.clock.ktime n = clock.ktime (n + j)) → (∀ f ∈ m.flows, R f) →
      ∀ f ∈ (flushFlows false fs m).flows, R f := by
    intro fs
    induction fs with
    | nil => exact fun m _ _ hm => hm
    | cons f fs ih =>
      rintro m hfs ⟨j, hj⟩ hm
      obtain ⟨hf, hfs⟩ := List.forall_mem_cons.1 hfs
      rw [flushFlows, if_neg (by decide)]
      refine ih _ hfs ⟨j + 1, fun n => ?_⟩ ?_
      · unfold flushFlow
        simp only
        split
        · exact (hj (n + 1)).trans (congrArg clock.ktime (by omega))
        · exact (hj (n + 1)).trans (congrArg clock.ktime (by omega))
      · have hflow := hcomplete f (heads m.flows).head? (0 + j) _ rfl
        rw [← hj 0] at hflow
        unfold flushFlow
        simp only
        split
        · exact hm
        · rename_i hstay
          exact List.forall_mem_cons.2 ⟨hflow (fun he => hstay (List.isEmpty_iff.2 he)) hf, hm⟩
  refine hfold _ _ (fun f hf => List.mem_reverse.1 hf) ⟨0, fun n => ?_⟩ fun f hf => absurd hf List.not_mem_nil
  rw [← hclock, Nat.add_zero]

end

/-- **After `napi_gro_flush(napi, false)` nothing overdue and nothing in sequence is held**, whatever the run before it. -/
theorem run_recent {env : Env} {base : FlowKey → U32} {mem s : Mem} {cs : List Call} {clock : Clock}
    (hmono : Nondecreasing (cs ++ [.flush false clock]))
    (hwin : ∀ c ∈ cs, c.Meets fun pkt _ => pkt.windowed env base = true)
    (hrun : run env mem (cs ++ [.flush false clock]) = .ok s) : ∀ f ∈ s.view.flows, Recent cs clock f := by
  let _ := env.groComplete
  rw [run, runFrom_append] at hrun
  obtain ⟨s₀, hrun₀, hflush⟩ : ∃ s₀, runFrom (step env) (netifNapiAdd mem) cs = .ok s₀ ∧
      runFrom (step env) s₀ [.flush false clock] = .ok s := by
    cases hrun₀ : runFrom (step env) (netifNapiAdd mem) cs with
    | error e =>
      rw [hrun₀] at hrun
      cases hrun
    | ok s₀ =>
      rw [hrun₀] at hrun
      exact ⟨s₀, rfl, hrun⟩
  obtain ⟨l, hrep, hl⟩ := run_timely hmono.init hwin hrun₀
  obtain ⟨t, ht, hrep'⟩ := napiGroFlush_spec (hrep.setClock clock) false
  have hst : s = t := by
    have hstep : step env s₀ (.flush false clock) = .ok t := ht
    rw [runFrom_cons_ok hstep] at hflush
    cases hflush
    rfl
  have hlast : ∀ j pkt t, .receive pkt t ∈ cs → t.ktime 0 ≤ clock.ktime j := fun j pkt t hmem =>
    (List.pairwise_append.1 hmono.2).2.2 _ hmem _ (List.mem_singleton_self _) 0 j
  have hcomplete : ∀ f o j r, completeFlow 100000 (clock.ktime j) f.dat (setHeadNext o f.segs) = r → r.2.2 ≠ [] →
      f ∈ l.flows → Recent cs clock ⟨f.q, r.1, r.2.2⟩ := by
    intro f o j r hr _ hf
    obtain ⟨key, hkey⟩ := hl f hf
    have hnd : f.ids.Nodup := (List.nodup_flatMap.1 hrep.links.nodup).1 f hf
    exact completeFlow_recent hr hnd rfl (hlast j) hkey
  have hrecent := @flushFlows_false { l with clock := clock } _ (Recent cs clock) clock hcomplete rfl
  intro f hf
  rw [hst, hrep'.view_eq] at hf
  obtain ⟨g, hg, rfl⟩ := List.mem_map.1 hf
  obtain ⟨hchecked, hparts, hafter⟩ := hrecent g hg
  refine ⟨hchecked, fun x hx => ?_, fun x hx => ?_⟩
  · obtain ⟨y, hy, rfl⟩ := List.mem_map.1 hx
    exact hparts y hy
  · obtain ⟨y, hy, rfl⟩ := List.mem_map.1 hx
    exact hafter y hy

/-- Three segments with holes between them, the last of which is overtaken by another. -/
def slowFill : List Call :=
  [.receive (.plain 0 1 7 1000 100 0) ⟨fun _ => 0, fun _ => 1⟩, .receive (.plain 1 1 7 1300 100 0) ⟨fun _ => 10, fun _ => 1⟩,
    .receive (.plain 2 1 7 1150 100 0) ⟨fun _ => 50000, fun _ => 1⟩]

/-- 5 ns too late for the first segment. -/
theorem run_recent_slowFill :
    ∃ s, run .inet default (slowFill ++ [.flush false ⟨fun _ => 100005, fun _ => 1⟩]) = .ok s ∧
      s.view.flows.map (fun f => f.segs.map fun x => (x.body.seq, x.body.len)) = [[(1150, 100), (1300, 100)]] ∧
      ∀ f ∈ s.view.flows, Recent slowFill ⟨fun _ => 100005, fun _ => 1⟩ f := by
  have hend : (run .inet default (slowFill ++ [.flush false ⟨fun _ => 100005, fun _ => 1⟩])).map
      (fun s => s.view.flows.map fun f => f.segs.map fun x => (x.body.seq, x.body.len)) =
      .ok [[(1150, 100), (1300, 100)]] := by decide +kernel
  have hmono : Nondecreasing (slowFill ++ [.flush false ⟨fun _ => 100005, fun _ => 1⟩]) := by
    refine ⟨fun c hc m n _ => ?_, ?_⟩
    · simp only [slowFill, List.cons_append, List.nil_append, List.mem_cons, List.not_mem_nil, or_false] at hc
      rcases hc with rfl | rfl | rfl | rfl <;> exact BitVec.le_refl _
    · simp [slowFill, Call.clock]
  cases hrun : run .inet default (slowFill ++ [.flush false ⟨fun _ => 100005, fun _ => 1⟩]) with
  | error e =>
    rw [hrun] at hend
    cases hend
  | ok s =>
    rw [hrun] at hend
    exact ⟨s, rfl, by simpa [Except.map] using hend, @run_recent _ (fun _ => 0) _ _ _ _ hmono (by decide +kernel) hrun⟩

end PacketReordering.Linux318
