import PacketReordering.Gro.Stream
import PacketReordering.Linux318.Complete
import PacketReordering.Linux318.Holding
import PacketReordering.Linux318.SeqNext

/-!
# `linux-3.18.5`: where the data of a packet goes

* `OfFlow` — the buffers of one flow, with packets that begin where the buffer does or behind;
* `PutIn` — new packets stand in front of some that begin behind them;
* `Placed.putIn`, `Way.landed` — so does a packet that the walk holds, or that goes up as it is;
* `Led`, `Way.led` — `seq_next` is behind no segment of the queue.
-/

namespace PacketReordering.Linux318

open Lib Gro

/-- A buffer of a flow with the ports `κ`; if these are the ones of the flow `key`, it is of that flow, and the packets
with data begin in it where the buffer does, or behind. -/
structure OfFlow (base : U32) (key : FlowKey) (κ : U32) (b : Skb) : Prop where
  ported : b.Ported κ
  solid : κ = key.ports → Solid (fun _ => base) key b
  spans : κ = key.ports → ∀ c ∈ b.data κ, b.first base ≤ partFirst base c
  starts : κ = key.ports → ∃ c ∈ b.data κ, c.seq = b.seq

/-- The packets `us` stand in `ps'` among those of `ps`, and the ones behind them begin at `m` or later. -/
def PutIn (base : U32) (m : ℕ) (us ps ps' : List Part) : Prop :=
  ∃ X Y, ps = X ++ Y ∧ ps' = X ++ us ++ Y ∧ ∀ y ∈ Y, m ≤ partFirst base y

/-- The segments are in order, and `seq_next` is behind none of them. -/
structure Led (base : U32) (d : Dat) (segs : List Segment) : Prop where
  apart : Apart base segs
  next : Bodies (fun b => offset base d.seqNext ≤ b.first base) segs

section

variable {env : Env} {base : U32} {key : FlowKey} {h κ : U32} {pkt : Packet} {l l' : Lists} {n : Option SkbId} {k : SkbId}
  {i b c p b' p' : Skb} {f : Flow Stamp OfoExt} {A B : List (Flow Stamp OfoExt)} {w : Walked} {whole : Bool}
  {clock : Clock} {p1 : Segment} {segs rel all : List Segment} {exit : Exit} {fate : Fate} {d : Dat} {tr : Track}
  {us vs ps ps' : List Part} {m : ℕ}

/-! ### Buffers -/

theorem skbGroMerge_data (hmerge : skbGroMerge p b = .merged p' b') : p'.data h = p.data h ++ b.data h := by
  obtain ⟨-, -, -, -, -, frags, rfl⟩ := skbGroMerge_merged hmerge
  exact List.filter_append ..

theorem OfFlow.congr (hb : OfFlow base key κ b) (htcp : b'.tcp.ports = b.tcp.ports) (hparts : b'.parts = b.parts)
    (hseq : b'.seq = b.seq) (hsolid : κ = key.ports → Solid (fun _ => base) key b') : OfFlow base key κ b' := by
  have hdata : b'.data κ = b.data κ := by rw [Body.data, hparts, Body.data]
  refine ⟨⟨htcp.trans hb.ported.1, hparts ▸ hb.ported.2⟩, hsolid, fun hκ => ?_, fun hκ => ?_⟩
  · rw [hdata, Body.first, hseq]
    exact hb.spans hκ
  · rw [hdata, hseq]
    exact hb.starts hκ

theorem OfFlow.merge (hp : OfFlow base key κ p) (hb : OfFlow base key κ b) (hseq : p.seqEnd = b.seq)
    (hmerge : skbGroMerge p b = .merged p' b') : OfFlow base key κ p' := by
  have hdata := skbGroMerge_data (h := κ) hmerge
  have hsolid : κ = key.ports → Solid (fun _ => base) key p' := fun hκ => (hp.solid hκ).merge (hb.solid hκ) hseq hmerge
  have hports : p'.Ported κ := by
    obtain ⟨-, -, -, -, -, frags, rfl⟩ := skbGroMerge_merged hmerge
    exact ⟨hp.ported.1, List.forall_mem_append.2 ⟨hp.ported.2, hb.ported.2⟩⟩
  obtain ⟨hfirst, -⟩ := skbGroMerge_seqEnd hseq hmerge
  refine ⟨hports, hsolid, fun hκ => ?_, fun hκ => ?_⟩
  · have hle : p.first base ≤ b.first base := by
      have hlast : p.last base = b.first base := by rw [Body.last, hseq]; rfl
      rw [← hlast]
      exact (hp.solid hκ).window.first_le
    rw [hdata, Body.first, hfirst]
    exact List.forall_mem_append.2 ⟨hp.spans hκ, fun c hc => Nat.le_trans hle (hb.spans hκ c hc)⟩
  · obtain ⟨c, hc, hcseq⟩ := hp.starts hκ
    rw [hdata, hfirst]
    exact ⟨c, List.mem_append_left _ hc, hcseq⟩

/-- What the buffers of one flow have in common. -/
theorem ofFlow_rule (base : U32) (key : FlowKey) (κ : U32) : WalkRule (OfFlow base key κ) (OfFlow base key κ) where
  stay _ hb := hb
  pull b hb := hb.congr (congrArg TcpHdr.ports pull_tcp) pull_parts pull_seq fun hκ => (hb.solid hκ).pull
  front b p b' p' hb hp hseq hmerge := by
    have hm := hb.merge hp hseq hmerge
    exact hm.congr rfl rfl rfl fun hκ => ⟨(hm.solid hκ).flow, (hm.solid hκ).window, (hm.solid hκ).len⟩
  behind p b p' b' hp hb hseq hmerge := by
    have hm := hp.merge hb hseq hmerge
    exact hm.congr rfl rfl rfl fun hκ => ⟨(hm.solid hκ).flow, (hm.solid hκ).window, (hm.solid hκ).len⟩
  bridge p p3 p' s' hp hp3 hseq hmerge := by
    have hm := hp.merge hp3 hseq hmerge
    exact hm.congr rfl rfl rfl fun hκ => ⟨(hm.solid hκ).flow, (hm.solid hκ).window, (hm.solid hκ).len⟩

theorem ported_of_ofFlow (hsegs : Bodies (OfFlow base key κ) segs) : Bodies (Body.Ported κ) segs :=
  hsegs.imp fun _ hb => hb.ported

theorem solid_of_ofFlow (hsegs : Bodies (OfFlow base key key.ports) segs) : Bodies (Solid (fun _ => base) key) segs :=
  hsegs.imp fun _ hb => hb.solid rfl

@[simp] theorem segsData_erased : segsData h (erased segs) = segsData h segs := by
  induction segs with
  | nil => rfl
  | cons x segs ih => rw [erased_cons, segsData_cons, segsData_cons, ih, erase_body]

/-- The packets in segments that begin at `m` or later begin there too. -/
theorem segsData_from (hsegs : Bodies (OfFlow base key key.ports) segs) (hle : ∀ x ∈ segs, m ≤ x.body.first base) :
    ∀ y ∈ segsData key.ports segs, m ≤ partFirst base y := by
  intro y hy
  obtain ⟨x, hx, hyx⟩ := List.mem_flatMap.1 hy
  exact Nat.le_trans (hle x hx) ((hsegs x hx).spans rfl y hyx)

/-! ### New packets among the old ones -/

theorem PutIn.last : PutIn base m us ps (ps ++ us) :=
  ⟨ps, [], (List.append_nil _).symm, (List.append_nil _).symm, fun _ hy => absurd hy List.not_mem_nil⟩

theorem PutIn.none : PutIn base m [] ps ps :=
  ⟨ps, [], (List.append_nil _).symm, by simp, fun _ hy => absurd hy List.not_mem_nil⟩

theorem PutIn.behind (hput : PutIn base m us ps ps') : PutIn base m us (vs ++ ps) (vs ++ ps') := by
  obtain ⟨X, Y, rfl, rfl, hY⟩ := hput
  exact ⟨vs ++ X, Y, (List.append_assoc ..).symm, by simp only [List.append_assoc], hY⟩

theorem Placed.normal_eq (h : Placed base k b exit segs all .normal) : all = segs := by
  cases h
  rfl

/-- The place of a packet among the data of its flow. -/
theorem Placed.putIn (hplaced : Placed base k b exit segs all fate) (hb : OfFlow base key key.ports b)
    (hsegs : Bodies (OfFlow base key key.ports) segs) (hapart : Apart base segs) (hfate : fate ≠ .normal) :
    PutIn base (b.first base) (b.data key.ports) (segsData key.ports segs) (segsData key.ports all) := by
  have hble := (hb.solid rfl).window.first_le
  cases hplaced with
  | refused => exact absurd rfl hfate
  | @insert pre post hpre hpost =>
    obtain ⟨-, hpostof⟩ := bodies_append.1 hsegs
    refine ⟨segsData key.ports pre, segsData key.ports post, segsData_append, by simp, segsData_from hpostof fun x hx => ?_⟩
    exact Nat.le_trans hble (hpost x hx)
  | @front pre post p2 b' s' hpre hseq hmerge =>
    obtain ⟨-, hrestof⟩ := bodies_append.1 hsegs
    obtain ⟨-, hrest, -⟩ := apart_append.1 hapart
    have hdata := skbGroMerge_data (h := key.ports) hmerge
    refine ⟨segsData key.ports pre, segsData key.ports (p2 :: post), segsData_append, ?_, segsData_from hrestof ?_⟩
    · have hbody : ({ b' with ext := b'.ext.of s'.ext } : Skb).data key.ports = b'.data key.ports := rfl
      simp [hbody, hdata]
    · have hp2 := ((bodies_cons.1 hrestof).1.solid rfl).window
      refine apart_rest hp2 hrest ?_
      have hfirst : p2.body.first base = b.last base := by rw [Body.last, hseq]; rfl
      rw [hfirst]
      exact hble
  | @behind exit pre post p2 b2 s2 hseq hmerge hpost =>
    obtain ⟨-, hrestof⟩ := bodies_append.1 hsegs
    obtain ⟨-, hrest, -⟩ := apart_append.1 hapart
    have hdata := skbGroMerge_data (h := key.ports) hmerge
    refine ⟨segsData key.ports pre ++ p2.body.data key.ports, segsData key.ports post, by simp, ?_,
      segsData_from (bodies_cons.1 hrestof).2 fun x hx => ?_⟩
    · have hbody : (addFlags b2 b.tcp.flagWord).data key.ports = b2.data key.ports := rfl
      simp [hbody, hdata]
    · have hlast : p2.body.last base = b.first base := by rw [Body.last, hseq]; rfl
      rw [← hlast]
      exact (apart_cons.1 hrest).1 x hx
  | @bridge pre post p2 p3 b2 s2 b3 s3 hseq hmerge hseq' hmerge' =>
    obtain ⟨-, hrestof⟩ := bodies_append.1 hsegs
    obtain ⟨-, hrest, -⟩ := apart_append.1 hapart
    have hdata := skbGroMerge_data (h := key.ports) hmerge
    have hdata' := skbGroMerge_data (h := key.ports) hmerge'
    have hbody : (addFlags b2 b.tcp.flagWord).data key.ports = b2.data key.ports := rfl
    have hbody' : ({ b3 with ext := b3.ext.min s3.ext } : Skb).data key.ports = b3.data key.ports := rfl
    refine ⟨segsData key.ports pre ++ p2.body.data key.ports, segsData key.ports (p3 :: post), by simp, ?_,
      segsData_from (bodies_cons.1 hrestof).2 fun x hx => ?_⟩
    · simp [hbody', hdata', hbody, hdata]
    · have hlast : p2.body.last base = b.first base := by rw [Body.last, hseq]; rfl
      rw [← hlast]
      exact (apart_cons.1 hrest).1 x hx

/-! ### The walk -/

/-- What has become of the packet `c` and the queue of its flow `f` when `dev_gro_receive` is about to end: `rel` went
up in the walk. -/
structure Landed [GroComplete Stamp] (base : U32) (key : FlowKey) (c : Skb) (f : Flow Stamp OfoExt)
    (up : List (Up Stamp)) (w : Walked)
    (whole : Bool) (rel : List Segment) : Prop where
  track : w.track = Track.flush ⟨f.dat, up⟩ rel
  bodies : Bodies (OfFlow base key key.ports) (rel ++ w.segs)
  window : offset base w.track.dat.seqNext ≤ 2 ^ 30
  normal : w.fate = .normal → segsData key.ports (rel ++ w.segs) = segsData key.ports f.segs
  placed : w.fate ≠ .normal → PutIn base (c.first base) (c.data key.ports) (segsData key.ports f.segs)
    (segsData key.ports (rel ++ w.segs))
  led : whole = false → Led base w.track.dat w.segs
  front : whole = false → w.fate = .normal → ∀ x ∈ w.segs, c.first base ≤ x.body.first base

theorem Led.window (hled : Led base d segs) (hne : segs ≠ []) (hsegs : Bodies (Body.InWindow base) segs) :
    offset base d.seqNext ≤ 2 ^ 30 := by
  obtain ⟨x, hx⟩ := List.exists_mem_of_ne_nil _ hne
  exact Nat.le_trans (hled.next x hx) (hsegs x hx).first_le_window

theorem led_setHeadNext : Led base d (setHeadNext n segs) ↔ Led base d segs :=
  ⟨fun h => ⟨apart_setHeadNext.1 h.apart, bodies_setHeadNext.1 h.next⟩,
    fun h => ⟨apart_setHeadNext.2 h.apart, bodies_setHeadNext.2 h.next⟩⟩

/-- Nobody looks at the queue of the flow. -/
theorem landed_stayed [GroComplete Stamp] (hf : Bodies (OfFlow base key key.ports) f.segs)
    (hled : Led base f.dat f.segs) (hne : f.segs ≠ [])
    (hfront : whole = false → ∀ x ∈ f.segs, c.first base ≤ x.body.first base) :
    Landed base key c f l.up (stayed n f l.up) whole [] := by
  refine ⟨Track.flush_nil.symm, bodies_setHeadNext.2 hf, ?_, fun _ => segsData_setHeadNext, fun h => absurd rfl h,
    fun _ => led_setHeadNext.2 hled, fun hwhole _ => ?_⟩
  · exact hled.window hne ((solid_of_ofFlow hf).imp fun _ h => h.window)
  · have hall : Bodies (fun b => c.first base ≤ b.first base) f.segs := hfront hwhole
    exact bodies_setHeadNext.2 hall

/-- **The packet has its place among the data of its flow.** -/
theorem Way.landed [GroComplete Stamp] (hway : Way env l i b f B p1 c w whole clock) (hfound : Found env l pkt i b A f B p1)
    (hc : notHeld env i b p1.body = false → OfFlow base key key.ports c) (hf : Bodies (OfFlow base key key.ports) f.segs)
    (hled : Led base f.dat f.segs) : ∃ rel, Landed base key c f l.up w whole rel := by
  have hsolid := solid_of_ofFlow hf
  have hwin := hled.window hfound.ne (hsolid.imp fun _ h => h.window)
  cases hway with
  | flush hwhy => exact ⟨[], landed_stayed hf hled hfound.ne fun h => nomatch h⟩
  | late hhold hlate =>
    refine ⟨[], landed_stayed hf hled hfound.ne fun _ x hx => ?_⟩
    have hcwin := ((hc hhold).solid rfl).window.first_le_window
    exact Nat.le_trans (Nat.le_of_lt ((before_iff hcwin hwin).1 hlate)) (hled.next x hx)
  | walked hhold hlate hwalk =>
    have hcof := hc hhold
    have hcwin := (hcof.solid rfl).window
    obtain ⟨rel, hplaced, htrack, hreach, hrefused⟩ :=
      walkSegs_settled hfound.ne hcwin (hsolid.imp fun _ h => h.window) hled.apart hwalk
    have hall := hplaced.bodies (ofFlow_rule base key key.ports) hcof (bodies_erased.2 hf)
    rw [bodies_erased] at hall
    have hapart : w.exit ≠ .head → Apart base (rel ++ w.segs) := fun hexit =>
      apart_erased.1 (hplaced.apart (apart_erased.2 hled.apart) fun _ => hexit)
    have hnext : offset base f.dat.seqNext ≤ offset base b.seq :=
      (before_eq_false_iff hcwin.first_le_window hwin).1 hlate
    refine ⟨rel, htrack, hall, ?_, fun hfate => ?_, fun hfate => ?_, fun hwhole => ?_, fun hwhole hfate => ?_⟩
    · rw [htrack]
      rcases List.eq_nil_or_concat' rel with rfl | ⟨rel, z, rfl⟩
      · rw [Track.flush_nil]
        exact hwin
      · rw [Track.flush, flushSegs_concat]
        exact ((hall z (by simp)).solid rfl).window.last_le
    · rw [hfate] at hplaced
      rw [← segsData_erased, hplaced.normal_eq, segsData_erased]
    · have hput := hplaced.putIn hcof (bodies_erased.2 hf) (apart_erased.2 hled.apart) hfate
      rwa [segsData_erased, segsData_erased] at hput
    · have hexit := Walked.exit_ne_head hwhole
      refine ⟨(apart_append.1 (hapart hexit)).2.1, fun x hx => ?_⟩
      rw [htrack]
      rcases List.eq_nil_or_concat' rel with rfl | ⟨rel, z, rfl⟩
      · -- the segments begin where the old ones or the packet did
        rw [Track.flush_nil]
        rcases hplaced.seq x.erase (List.mem_map_of_mem (List.mem_append_right _ hx)) with hseq | ⟨y, hy, hseq⟩
        · rw [erase_body] at hseq
          rw [Body.first, hseq]
          exact hnext
        · obtain ⟨y', hy', rfl⟩ := List.mem_map.1 hy
          rw [erase_body, erase_body] at hseq
          rw [Body.first, hseq]
          exact hled.next y' hy'
      · rw [Track.flush, flushSegs_concat]
        exact (apart_append.1 (hapart hexit)).2.2 z (by simp) x hx
    · have hexit := Walked.exit_ne_head hwhole
      rcases hreach with hnil | ⟨z, hz, hle, -⟩
      · exact absurd hnil (hrefused hfate hexit)
      · intro x hx
        exact Nat.le_trans hle ((apart_append.1 (hapart hexit)).2.2 z (List.mem_of_getLast? hz) x hx)

/-! ### What goes up in the walk -/

/-- Segments with `Q` went up in the step from `tr` to `tr'`. -/
def SentUp [GroComplete Stamp] (Q : Skb → Prop) (tr tr' : Track) : Prop := ∃ rel, tr' = tr.flush rel ∧ Bodies Q rel

theorem SentUp.refl [GroComplete Stamp] {Q : Skb → Prop} : SentUp Q tr tr := ⟨[], Track.flush_nil.symm, bodies_nil⟩

theorem SentUp.flush [GroComplete Stamp] {Q : Skb → Prop} {tr' : Track} (h : SentUp Q tr tr') (hrel : Bodies Q rel) :
    SentUp Q tr (tr'.flush rel) := by
  obtain ⟨rel', rfl, hrel'⟩ := h
  exact ⟨rel' ++ rel, Track.flush_append, bodies_append.2 ⟨hrel', hrel⟩⟩

theorem Bridged.sentUp [GroComplete Stamp] {Q : Skb → Prop} {tr' : Track} {p2 : Segment} {rest pre : List Segment}
    {e inSeq seq2 : U32}
    (hw : Bridged n e tr' pre p2 rest inSeq seq2 w) (h : SentUp Q tr tr') (hpre : Bodies Q pre) (hp2 : Q p2.body)
    (hrest : Bodies Q rest) : SentUp Q tr w.track := by
  have hfront : Bodies Q (pre ++ [p2]) := bodies_append.2 ⟨hpre, bodies_cons.2 ⟨hp2, bodies_nil⟩⟩
  cases hw with
  | last hnil => exact h
  | release hps hseq hmerge hin => exact h.flush hfront
  | stay hps hseq hmerge hin => exact h
  | refuseLast hps hseq hmerge hne => exact h
  | refuse hps hnil hseq hmerge hne =>
    rw [hps] at hrest
    exact h.flush (bodies_append.2 ⟨hpre, bodies_cons.2 ⟨hp2, bodies_cons.2 ⟨(bodies_cons.1 hrest).1, bodies_nil⟩⟩⟩)
  | bridge hps hseq hmerge => exact h
  | overlap hps hseq hafter => exact h
  | gap hps hseq hafter => exact h

theorem Turn.sentUp [GroComplete Stamp] {J Q : Skb → Prop} {tr' : Track} {p2 : Segment} {rest pre : List Segment}
    {inSeq : U32}
    (hQ : WalkRule J Q) (hb : J b) (hw : Turn n k b p2 rest pre inSeq tr' (.inl w)) (h : SentUp Q tr tr')
    (hpre : Bodies Q pre) (hp2 : Q p2.body) (hrest : Bodies Q rest) : SentUp Q tr w.track := by
  have hfront : Bodies Q (pre ++ [p2]) := bodies_append.2 ⟨hpre, bodies_cons.2 ⟨hp2, bodies_nil⟩⟩
  cases hw with
  | insert hseq => exact h
  | mergeFront hseq hmerge => exact h
  | refuseLast hnil hwhy => exact h
  | refuse hne hwhy => exact h.flush hfront
  | append hnil hnot hseq => exact h
  | appendRelease hnil hnot hseq hin hmerge => exact h.flush hfront
  | merge hnot hseq hmerge hw => exact hw.sentUp h hpre (hQ.behind _ _ _ _ hp2 hb hseq.symm hmerge) hrest
  | overlap hnot hseq hafter => exact h

/-- The segments that go up in the walk have the property of the flow. -/
theorem walkSegs_sentUp [GroComplete Stamp] {J Q : Skb → Prop} {inSeq : U32} (hQ : WalkRule J Q) (hb : J b) (hne : segs ≠ [])
    (hsegs : Bodies Q segs) (hwalk : walkSegs n k b segs [] inSeq tr = .ok w) : SentUp Q tr w.track := by
  refine walkSegs_induct (I := fun post pre _ tr' => Bodies Q (pre ++ post) ∧ SentUp Q tr tr')
    (P := fun w => SentUp Q tr w.track) ?_ ?_ hne ⟨show Bodies Q ([] ++ segs) from hsegs, SentUp.refl⟩ hwalk
  · rintro p2 rest pre inSeq tr' w ⟨hall, h⟩ hturn
    obtain ⟨hpre, hp2rest⟩ := bodies_append.1 hall
    obtain ⟨hp2, hrest⟩ := bodies_cons.1 hp2rest
    exact hturn.sentUp hQ hb h hpre (by rwa [behind_body]) hrest
  · rintro p2 rest pre inSeq tr' pre' tr'' ⟨hall, h⟩ hturn
    obtain ⟨hpre, hp2rest⟩ := bodies_append.1 hall
    obtain ⟨hp2, hrest⟩ := bodies_cons.1 hp2rest
    have hfront : Bodies Q (pre ++ [behind n pre p2]) :=
      bodies_append.2 ⟨hpre, bodies_cons.2 ⟨by rwa [behind_body], bodies_nil⟩⟩
    cases hturn with
    | pass hne hnot hseq => exact ⟨bodies_append.2 ⟨hfront, hrest⟩, h⟩
    | passRelease hne hnot hseq hin hmerge => exact ⟨hrest, h.flush hfront⟩

/-! ### The end of a call -/

theorem offset_maxSeq_le {x y : U32} (hx : offset base x ≤ m) (hy : offset base y ≤ m) : offset base (maxSeq x y) ≤ m := by
  unfold maxSeq
  split
  · exact hy
  · exact hx

theorem completeFlow_data [GroComplete Stamp] {timeout timestamp : U64} :
    upsData h (completeFlow timeout timestamp d segs).2.1 ++ segsData h (completeFlow timeout timestamp d segs).2.2 =
      segsData h segs := by
  unfold completeFlow
  simp only
  rw [upsData_append, List.append_assoc, completeSegs_data, completeSegs_data]

theorem completeSegs_window [GroComplete Stamp] (cond : Dat → SkbId → Skb → Bool) (hwin : Bodies (Body.InWindow base) segs)
    (hd : offset base d.seqNext ≤ 2 ^ 30) :
    Bodies (Body.InWindow base) (completeSegs cond d segs).2.2 ∧
      offset base (completeSegs cond d segs).1.seqNext ≤ 2 ^ 30 := by
  induction segs generalizing d with
  | nil => exact ⟨hwin, hd⟩
  | cons x segs ih =>
    obtain ⟨hx, hrest⟩ := bodies_cons.1 hwin
    rw [completeSegs]
    split
    · exact ih hrest (offset_maxSeq_le hd hx.last_le)
    · exact ⟨hwin, hd⟩

theorem completeSegs_led [GroComplete Stamp] (cond : Dat → SkbId → Skb → Bool) (hled : Led base d segs) :
    Led base (completeSegs cond d segs).1 (completeSegs cond d segs).2.2 := by
  induction segs generalizing d with
  | nil => exact hled
  | cons x segs ih =>
    obtain ⟨hafter, hapart⟩ := apart_cons.1 hled.apart
    obtain ⟨-, hnext⟩ := bodies_cons.1 hled.next
    rw [completeSegs]
    split
    · refine @ih (d.setSeqNext (maxSeq d.seqNext x.body.seqEnd)) ⟨hapart, fun y hy => ?_⟩
      exact offset_maxSeq_le (hnext y hy) (hafter y hy)
    · exact hled

theorem completeFlow_window [GroComplete Stamp] (timeout timestamp : U64) (hwin : Bodies (Body.InWindow base) segs)
    (hd : offset base d.seqNext ≤ 2 ^ 30) : offset base (completeFlow timeout timestamp d segs).1.seqNext ≤ 2 ^ 30 := by
  unfold completeFlow
  obtain ⟨hwin', hd'⟩ := completeSegs_window (d := { d with ext := { d.ext with checked := timestamp } })
    (fun _ p _ => decide (some p ≠ skbLast timestamp timeout segs)) hwin hd
  exact (completeSegs_window (fun d _ b => !before d.seqNext b.seq) hwin' hd').2

/-- `dev_gro_complete` keeps `seq_next` behind the segments it leaves. -/
theorem completeFlow_led [GroComplete Stamp] (timeout timestamp : U64) (hled : Led base d segs) :
    Led base (completeFlow timeout timestamp d segs).1 (completeFlow timeout timestamp d segs).2.2 := by
  unfold completeFlow
  have hstart : Led base { d with ext := { d.ext with checked := timestamp } } segs := ⟨hled.apart, hled.next⟩
  exact completeSegs_led _ (completeSegs_led _ hstart)

theorem Walked.ups_data [GroComplete Stamp] : upsData h (w.ups l k c whole) =
    (if whole then segsData h w.segs else []) ++ if w.fate = .normal then c.data h else [] := by
  have hnormal : upsData h (if w.fate = .normal then [Parsed.up k c] else []) = if w.fate = .normal then c.data h else [] := by
    split
    · rw [upsData_singleton, Parsed.up, pull_data]
    · rfl
  unfold Walked.ups
  rw [upsData_append, hnormal]
  split
  · have hdata := @completeFlow_data h (setHeadNext none w.segs) w.track.dat _ 0 (l.clock.ktime 0)
    rw [completeFlow_all, segsData_nil, List.append_nil, segsData_setHeadNext] at hdata
    rw [hdata]
  · rfl

theorem Walked.flow_data {q : OfoId} : segsData h (w.flow k c q).segs = segsData h w.segs := by
  unfold Walked.flow
  cases w.fate with
  | held => exact segsData_pullSeg
  | merged => rfl
  | normal => rfl

/-- The data of the flow after the call: what went up, and what is held. -/
theorem Landed.putIn [GroComplete Stamp] {q : OfoId} (hw : Landed base key c f l.up w whole rel) :
    PutIn base (c.first base) (c.data key.ports) (upsData key.ports l.up ++ segsData key.ports f.segs)
      (upsData key.ports (w.track.up ++ w.ups l k c whole) ++
        if whole then [] else segsData key.ports (w.flow k c q).segs) := by
  have htrack : upsData key.ports w.track.up = upsData key.ports l.up ++ segsData key.ports rel := by
    rw [hw.track, Track.flush, upsData_append, flushSegs_data]
  rw [upsData_append, htrack, Walked.ups_data, Walked.flow_data]
  by_cases hfate : w.fate = .normal
  · have hsegs := hw.normal hfate
    rw [segsData_append] at hsegs
    rw [if_pos hfate, ← hsegs]
    cases whole with
    | true =>
      simp only [if_true, List.append_nil, ← List.append_assoc]
      exact PutIn.last
    | false =>
      -- the packet goes up past the held segments
      refine ⟨upsData key.ports l.up ++ segsData key.ports rel, segsData key.ports w.segs, by simp, by simp, ?_⟩
      exact segsData_from (bodies_append.1 hw.bodies).2 (hw.front rfl hfate)
  · have hput : PutIn base (c.first base) (c.data key.ports) (upsData key.ports l.up ++ segsData key.ports f.segs)
        (upsData key.ports l.up ++ segsData key.ports (rel ++ w.segs)) := (hw.placed hfate).behind
    rw [segsData_append] at hput
    rw [if_neg hfate]
    cases whole <;> simpa using hput

/-- `ps` has no packet that overlaps the packet `c`. -/
def Clear (base : U32) (c : Skb) (ps : List Part) : Prop :=
  ∀ y ∈ ps, partLast base y ≤ c.first base ∨ c.last base ≤ partFirst base y

/-- No packet of `ps` is empty. -/
def Proper (base : U32) (ps : List Part) : Prop := ∀ y ∈ ps, partFirst base y < partLast base y

theorem Landed.flow_led [GroComplete Stamp] {q : OfoId} (hw : Landed base key c f l.up w false rel)
    (hproper : Proper base (segsData key.ports f.segs))
    (hclear : w.fate = .normal → Clear base c (segsData key.ports f.segs)) :
    Led base (w.flow k c q).dat (w.flow k c q).segs := by
  have hled := hw.led rfl
  unfold Walked.flow
  cases hfate : w.fate with
  | merged => exact hled
  | held =>
    refine ⟨hled.apart.map fun x _ => ?_, hled.next.pull fun b hb => ?_⟩
    · unfold pullSeg
      split
      · exact ⟨pull_seq, pull_len⟩
      · exact ⟨rfl, rfl⟩
    · rw [Body.first, pull_seq]
      exact hb
  | normal =>
    refine ⟨hled.apart, fun x hx => offset_maxSeq_le (hled.next x hx) ?_⟩
    -- the first packet of the segment does not overlap `c`, and begins behind it
    have hxof := hw.bodies x (List.mem_append_right _ hx)
    obtain ⟨y, hy, hseq⟩ := hxof.starts rfl
    have hmem : y ∈ segsData key.ports f.segs := by
      rw [← hw.normal hfate]
      exact List.mem_flatMap.2 ⟨x, List.mem_append_right _ hx, hy⟩
    have hyfirst : partFirst base y = x.body.first base := congrArg (offset base) hseq
    have hlt := hproper y hmem
    have hfront := hw.front rfl hfate x hx
    show c.last base ≤ x.body.first base
    rcases hclear hfate y hmem with hle | hle <;> omega

end

end PacketReordering.Linux318
