import PacketReordering.Linux318.Tracking

/-!
# `linux-3.18.5`: `seq_next` is exact

* `Current.completed`, `Way.passed` — what `dev_gro_complete` and the walk do to a queue object;
* `endLists_records` — the queue objects at the end of `dev_gro_receive`;
* `Arrival.tracked`, `flushLists_tracked`, `cleanLists_tracked` — every call keeps the invariant;
* `run_seqNext` — so `seq_next` is exact in every run, and does not go back.
-/

namespace PacketReordering.Linux318

open Lib Gro

/-- What goes up through the queue object of the flow with the ports `h` in the walk of a packet. -/
structure Passed (base : FlowKey → U32) (key : U32 → FlowKey) (h : U32) (up : List (Up Stamp)) (d : Dat) (w : Walked)
    (us : List (Up Stamp)) : Prop where
  up : w.track.up = up ++ us
  only : ∀ u ∈ us, ∀ n, n ≠ h → through n u = false
  hash : w.track.dat.hash = h
  ext : w.track.dat.ext = d.ext
  current : Current (base (key h)) w.track.up w.track.dat
  segs : Bodies (Carries base key h) w.segs

/-- What `dev_gro_complete` makes of the flow `f`: `v` is the data of its queue object, what goes up and what stays. -/
structure Completed (base : FlowKey → U32) (key : U32 → FlowKey) (up : List (Up Stamp)) (f : Flow Stamp OfoExt)
    (v : Dat × List (Up Stamp) × List Segment) : Prop where
  hash : v.1.hash = f.dat.hash
  origin : v.1.ext.origin = f.dat.ext.origin
  since : v.1.ext.since = f.dat.ext.since
  current : Current (base (key f.dat.hash)) (up ++ v.2.1) v.1
  only : ∀ u ∈ v.2.1, ∀ n, n ≠ f.dat.hash → through n u = false
  bodies : Bodies (Carries base key f.dat.hash) v.2.2
  apart : Apart (base (key f.dat.hash)) v.2.2

/-- The queue object of a flow that goes up as a whole. -/
def Walked.dropped [GroComplete Stamp] (w : Walked) (l : Lists) (b : Skb) (q : OfoId) : FreeQueue OfoExt :=
  let d := agedDat (completeFlow 0 (l.clock.ktime 0) w.track.dat (setHeadNext none w.segs)).1 (l.clock.jiffies 0)
  ⟨q, if w.fate = .normal then normalDat d b else d⟩

/-- What goes up after the walk. -/
def Walked.ups [GroComplete Stamp] (w : Walked) (l : Lists) (k : SkbId) (b : Skb) (whole : Bool) : List (Up Stamp) :=
  (if whole then (completeFlow 0 (l.clock.ktime 0) w.track.dat (setHeadNext none w.segs)).2.1 else []) ++
    if w.fate = .normal then [Parsed.up k b] else []

section

variable {env : Env} {base : FlowKey → U32} {key : U32 → FlowKey} {pkt : Packet} {l l' : Lists} {k : SkbId} {q : OfoId}
  {i b c p : Skb} {f r y : Flow Stamp OfoExt} {x : FreeQueue OfoExt} {rest : List (FreeQueue OfoExt)}
  {e : Flow Stamp OfoExt} {A B P rs rs' : List (Flow Stamp OfoExt)} {w : Walked} {whole : Bool} {clock : Clock} {segs rel : List Segment} {p1 : Segment}
  {n : Option SkbId} {timeout timestamp age : U64} {h : U32} {d : Dat} {u : Up Stamp} {v : Dat × List (Up Stamp) × List Segment} {up us : List (Up Stamp)}

/-! ### `dev_gro_complete` -/

theorem completeFlow_hash [GroComplete Stamp] : (completeFlow timeout timestamp d segs).1.hash = d.hash := by
  unfold completeFlow
  simp only [completeSegs_hash]

theorem completeFlow_ext [GroComplete Stamp] :
    (completeFlow timeout timestamp d segs).1.ext = { d.ext with checked := timestamp } := by
  unfold completeFlow
  simp only [completeSegs_ext]

theorem Current.completed [GroComplete Stamp] (hd : Current (base (key h)) up d) (timeout timestamp : U64)
    (hhash : d.hash = h)
    (hsegs : Bodies (Carries base key h) segs) :
    Current (base (key h)) (up ++ (completeFlow timeout timestamp d segs).2.1) (completeFlow timeout timestamp d segs).1 := by
  have hstart : Current (base (key h)) up { d with ext := { d.ext with checked := timestamp } } := hd.congr rfl rfl rfl rfl
  have hfirst := @Current.complete base key segs h _ up _ (fun _ p _ => decide (some p ≠ skbLast timestamp timeout segs))
    hstart hhash hsegs
  have hrest := (@completeSegs_upFrom Stamp OfoExt (Carries base key h) segs { d with ext := { d.ext with checked := timestamp } }
    _ (fun _ p _ => decide (some p ≠ skbLast timestamp timeout segs)) hsegs).2
  have hsecond := @Current.complete base key _ h _ _ _ (fun d _ b => !before d.seqNext b.seq) hfirst
    ((completeSegs_hash ..).trans hhash) hrest
  rw [List.append_assoc] at hsecond
  exact hsecond

theorem Carries.not_through [GroComplete Stamp] (hu : UpFrom (Carries base key h) u) {n : U32} (hn : n ≠ h) :
    through n u = false := by
  obtain ⟨b, hb, hbody, -⟩ := hu
  exact hb.ported.not_through (by rw [hbody, complete_parts]) hn

theorem completeFlow_only [GroComplete Stamp] (hsegs : Bodies (Carries base key h) segs) :
    ∀ u ∈ (completeFlow timeout timestamp d segs).2.1, ∀ n, n ≠ h → through n u = false := by
  intro u hu n hn
  exact Carries.not_through ((completeFlow_bodies timeout timestamp d hsegs).1 u hu) hn

/-! ### Single queue objects -/

theorem Current.aged (hd : Current h up d) (age : U64) : Current h up (agedDat d age) := hd.congr rfl rfl rfl rfl

theorem exact_free (hd : Current (base (key d.hash)) up d) (hne : d.hash ≠ 0) (hage : d.ext.age ≠ 0) :
    Exact base key up ⟨q, d, []⟩ :=
  ⟨bodies_nil, apart_nil, fun hnil => absurd rfl hnil, fun _ => ⟨fun h0 => absurd h0 hage, fun h0 => absurd h0 hne⟩,
    fun _ => hd⟩

theorem exact_held (hd : Current (base (key d.hash)) up d) (hne : d.hash ≠ 0) (hnil : segs ≠ [])
    (hsegs : Bodies (Carries base key d.hash) segs) (hapart : Apart (base (key d.hash)) segs) :
    Exact base key up ⟨q, d, segs⟩ :=
  ⟨hsegs, hapart, fun _ => hne, fun he => absurd he hnil, fun _ => hd⟩

/-- The packet `b`, which ends at or behind `seq_next`, or before it, goes up through the queue object. -/
theorem Current.normal (hd : Current (base (key h)) up d) (hhash : d.hash = h) (hb : Ported h b)
    (hwin : b.InWindow (base (key h))) (hparts : u.body.parts = b.parts) (hend : u.body.seqEnd = b.seqEnd) :
    Current (base (key h)) (up ++ [u]) (normalDat d b) := by
  have hup : through d.hash u = true := by
    rw [hhash]
    exact hb.through hparts
  have hone := hd.one hup (by rw [hend]; exact hwin.last_le)
  rwa [hend] at hone

theorem Given.goUp (hg : Given base key l b x rest y P) (ht : Tracked base key l.up (records l)) (hage : age ≠ 0)
    (hb : Ported b.tcp.ports b) (hports : b.tcp.ports ≠ 0) (hwin : b.InWindow (base (key b.tcp.ports)))
    (hparts : u.body.parts = b.parts) (hend : u.body.seqEnd = b.seqEnd)
    (hd : d = { assign x.dat b.seq l.up.length with hash := b.tcp.ports })
    (hrs' : rs'.Perm (record ⟨x.q, normalDat (agedDat d age) b⟩ :: (l.flows ++ rest.map record))) :
    Tracked base key (l.up ++ [u]) rs' ∧ Follows Kept (records l) rs' := by
  subst hd
  have hcurrent := (hg.current.aged age).normal rfl hb hwin hparts hend
  have hr' : Exact base key (l.up ++ [u]) (record ⟨x.q, normalDat
      (agedDat { assign x.dat b.seq l.up.length with hash := b.tcp.ports } age) b⟩) := exact_free hcurrent hports hage
  have hperm := hrs'.trans (hg.rest.cons _)
  refine ⟨ht.replace _ hg.perm hperm hr' (Or.inr (Or.inr hg.distinct)) fun v hv n hn => ?_,
    follows_replace (fun r => Or.inl (Same.refl r)) hg.perm hperm (hg.kept _ rfl rfl rfl rfl)⟩
  rw [List.mem_singleton.1 hv]
  exact hb.not_through hparts hn

/-! ### The walk -/

theorem Found.hash (hfound : Found env l pkt i b A f B p1) (hf : Bodies (Carries base key h) f.segs) :
    b.tcp.ports = h ∧ b.flowKey = key h := by
  have hp := hf p1 hfound.mem_segs
  have hkey := sameFlowAs_flowKey hfound.head (splitFlow_some hfound.split).2.1
  exact ⟨(congrArg FlowKey.ports hkey).trans hp.ported.ports, hkey.trans hp.solid.flow⟩

theorem Way.packet [GroComplete Stamp] (hway : Way env l i b f B p1 c w whole clock) :
    c.parts = b.parts ∧ c.seq = b.seq ∧ c.len = b.len ∧ c.tcp = b.tcp := by
  cases hway with
  | flush hwhy => exact ⟨rfl, rfl, rfl, rfl⟩
  | late hhold hlate => exact ⟨rfl, rfl, rfl, rfl⟩
  | walked hhold hlate hwalk => exact ⟨rfl, rfl, rfl, rfl⟩

theorem Way.passed [GroComplete Stamp] (hfound : Found env l pkt i b A f B p1) (hway : Way env l i b f B p1 c w whole clock)
    (hpkt : pkt.regular env base key = true) (hf : Exact base key l.up f) :
    ∃ us, Passed base key f.dat.hash l.up f.dat w us := by
  have hcurrent := hf.current (hf.held hfound.ne)
  have hnone : Passed base key f.dat.hash l.up f.dat (stayed (heads B).head? f l.up) [] :=
    ⟨(List.append_nil _).symm, fun u hu => absurd hu List.not_mem_nil, rfl, rfl, hcurrent, bodies_setHeadNext.2 hf.bodies⟩
  cases hway with
  | flush hwhy => exact ⟨[], hnone⟩
  | late hhold hlate => exact ⟨[], hnone⟩
  | walked hhold hlate hwalk =>
    have hsolid : Bodies (Solid base (key f.dat.hash)) f.segs := hf.bodies.imp fun _ hb => hb.solid
    have hb := hfound.solid (Packet.regular_windowed hpkt) hsolid hhold
    obtain ⟨flush, hparse⟩ := hfound.parse
    have hported := parse_ported hparse
    rw [(hfound.hash hf.bodies).1] at hported
    have hcarries : Carries base key f.dat.hash (stampWalk l.clock (sized b p1.body)) :=
      ⟨hb, hported.ports, hported.parts, hported.tcp⟩
    obtain ⟨rel, hplaced, htrack, hreach, -⟩ :=
      walkSegs_settled hfound.ne hb.window (hsolid.imp fun _ h => h.window) hf.apart hwalk
    have hall := hplaced.bodies (carries_rule base key f.dat.hash) hcarries (bodies_erased.2 hf.bodies)
    rw [bodies_erased, bodies_append] at hall
    obtain ⟨hrel, hsegs⟩ := hall
    have hle := (before_eq_false_iff hb.window.first_le_window hcurrent.tops.window).1 hlate
    have hflush := hcurrent.flush rfl hrel hreach hle
    refine ⟨(flushSegs f.dat rel).2, ?_, fun u hu n hn => ?_, ?_, ?_, ?_, hsegs⟩
    · rw [htrack]
      rfl
    · exact Carries.not_through (flushSegs_upFrom hrel u hu) hn
    · rw [htrack]
      exact flushSegs_hash ..
    · rw [htrack]
      exact flushSegs_ext ..
    · rw [htrack]
      exact hflush

/-! ### The end of `dev_gro_receive` -/

theorem endLists_up [GroComplete Stamp] : (endLists l k b A B q w whole).up = w.track.up ++ w.ups l k b whole := by
  unfold endLists Walked.ups dropFlow
  cases whole <;> cases w.fate <;> simp

theorem endLists_records [GroComplete Stamp] : (records (endLists l k b A B q w whole)).Perm
    ((if whole then record (w.dropped l b q) else w.flow k b q) :: (A ++ B ++ l.free.map record)) := by
  have hmiddle : ∀ r : Flow Stamp OfoExt, (A ++ B ++ r :: l.free.map record).Perm (r :: (A ++ B ++ l.free.map record)) :=
    fun r => List.perm_middle
  unfold records endLists Walked.dropped Walked.flow dropFlow
  cases whole with
  | false => cases w.fate <;> simp [List.perm_middle]
  | true => cases w.fate <;> exact hmiddle _

/-- What the end of `dev_gro_receive` makes of the queue object. -/
theorem Passed.ends [GroComplete Stamp] (hw : Passed base key h up d w us) (hb : Ported h b)
    (hwin : b.InWindow (base (key h)))
    (he : e = if whole then record (w.dropped l b q) else w.flow k b q) :
    Current (base (key h)) (w.track.up ++ w.ups l k b whole) e.dat ∧ e.dat.hash = h ∧ e.q = q ∧
      e.dat.ext.origin = d.ext.origin ∧ e.dat.ext.since = d.ext.since := by
  obtain ⟨-, -, hhash, hext, hcurrent, hsegs⟩ := hw
  have hpull : (Parsed.up k b).body.seqEnd = b.seqEnd := by
    show b.pull.seqEnd = b.seqEnd
    rw [Body.seqEnd, pull_seq, pull_len]
    rfl
  subst he
  unfold Walked.ups
  cases whole with
  | false =>
    unfold Walked.flow
    cases w.fate with
    | held => simpa [hhash, hext] using hcurrent
    | merged => simpa [hhash, hext] using hcurrent
    | normal =>
      have hnormal := hcurrent.normal hhash hb hwin pull_parts hpull
      simpa [hhash, hext, normalDat, OfoDat.setSeqNext] using hnormal
  | true =>
    have hsegs' : Bodies (Carries base key h) (setHeadNext none w.segs) := bodies_setHeadNext.2 hsegs
    have haged := (hcurrent.completed 0 (l.clock.ktime 0) hhash hsegs').aged (l.clock.jiffies 0)
    have hhash' : (completeFlow 0 (l.clock.ktime 0) w.track.dat (setHeadNext none w.segs)).1.hash = h :=
      completeFlow_hash.trans hhash
    unfold Walked.dropped record
    by_cases hfate : w.fate = .normal
    · have hnormal := haged.normal hhash' hb hwin (u := Parsed.up k b) pull_parts hpull
      simpa [hfate, normalDat, OfoDat.setSeqNext, agedDat, completeFlow_hash, completeFlow_ext, hhash, hext] using hnormal
    · simpa [hfate, agedDat, completeFlow_hash, completeFlow_ext, hhash, hext] using haged

/-! ### Calls -/

/-- The memory has the queue objects `rs'` where it had `rs`, and more has gone up. -/
structure Moves (base : FlowKey → U32) (key : U32 → FlowKey) (K : Flow Stamp OfoExt → Flow Stamp OfoExt → Prop)
    (up up' : List (Up Stamp)) (rs rs' : List (Flow Stamp OfoExt)) : Prop where
  tracked : Tracked base key up' rs'
  follows : Follows K rs rs'
  grows : up <+: up'

theorem Tracked.stay (ht : Tracked base key up rs) (hrs : rs.Perm rs') : Moves base key Same up up rs rs' :=
  ⟨ht.perm hrs, fun r hr => ⟨r, hrs.mem_iff.2 hr, Same.refl r⟩, List.prefix_refl up⟩

theorem Moves.kept (h : Moves base key Same up us rs rs') : Moves base key Kept up us rs rs' := by
  refine ⟨h.tracked, fun r' hr' => ?_, h.grows⟩
  obtain ⟨r, hr, hsame⟩ := h.follows r' hr'
  exact ⟨r, hr, Or.inl hsame⟩

theorem Moves.trans {K K' : Flow Stamp OfoExt → Flow Stamp OfoExt → Prop} {up' up'' : List (Up Stamp)}
    {rs'' : List (Flow Stamp OfoExt)} (hK : ∀ r r' r'', K r r' → K' r' r'' → K r r'')
    (h : Moves base key K up up' rs rs') (h' : Moves base key K' up' up'' rs' rs'') : Moves base key K up up'' rs rs'' := by
  refine ⟨h'.tracked, fun r'' hr'' => ?_, h.grows.trans h'.grows⟩
  obtain ⟨r', hr', hnext⟩ := h'.follows r'' hr''
  obtain ⟨r, hr, hfirst⟩ := h.follows r' hr'
  exact ⟨r, hr, hK r r' r'' hfirst hnext⟩

theorem Kept.same {r₁ r₂ r₃ : Flow Stamp OfoExt} (h₁ : Kept r₁ r₂) (h₂ : Same r₂ r₃) : Kept r₁ r₃ := by
  rcases h₁ with h₁ | ⟨hq, hhash⟩
  · exact Or.inl (h₁.trans h₂)
  · rw [← h₂.hash] at hhash
    exact Or.inr ⟨h₂.q.trans hq, hhash⟩

/-- One queue object moves on. -/
theorem Tracked.moves {K : Flow Stamp OfoExt → Flow Stamp OfoExt → Prop} (hK : ∀ r, K r r)
    (ht : Tracked base key up rs) (us : List (Up Stamp)) (hrs : rs.Perm (r :: P)) (hrs' : rs'.Perm (e :: P)) (he : Exact base key (up ++ us) e)
    (hhash : e.dat.hash = 0 ∨ e.dat.hash = r.dat.hash ∨ ∀ g ∈ P, g.dat.hash ≠ e.dat.hash)
    (hus : ∀ u ∈ us, ∀ n, n ≠ e.dat.hash → through n u = false) (hre : K r e) : Moves base key K up (up ++ us) rs rs' :=
  ⟨ht.replace us hrs hrs' he hhash hus, follows_replace hK hrs hrs' hre, List.prefix_append up us⟩

theorem Exact.completed [GroComplete Stamp] (hf : Exact base key up f) (hne : f.segs ≠ [])
    (hv : completeFlow timeout timestamp f.dat (setHeadNext n f.segs) = v) : Completed base key up f v := by
  have hsegs : Bodies (Carries base key f.dat.hash) (setHeadNext n f.segs) := bodies_setHeadNext.2 hf.bodies
  have hapart : Apart (base (key f.dat.hash)) (setHeadNext n f.segs) := apart_setHeadNext.2 hf.apart
  obtain ⟨rel, hrel⟩ := completeFlow_suffix timeout timestamp f.dat (setHeadNext n f.segs)
  rw [← hrel] at hapart
  subst hv
  refine ⟨completeFlow_hash, ?_, ?_, (hf.current (hf.held hne)).completed _ _ rfl hsegs, completeFlow_only hsegs,
    (completeFlow_bodies timeout timestamp f.dat hsegs).2, (apart_append.1 hapart).2.1⟩
  · rw [completeFlow_ext]
  · rw [completeFlow_ext]

/-- A flow that goes up as a whole. -/
theorem Tracked.dropped [GroComplete Stamp] (ht : Tracked base key up rs) (hrs : rs.Perm (f :: P))
    (hne : f.segs ≠ []) (hage : age ≠ 0)
    (hv : completeFlow timeout timestamp f.dat (setHeadNext n f.segs) = v)
    (hrs' : rs'.Perm (record ⟨f.q, agedDat v.1 age⟩ :: P)) : Moves base key Same up (up ++ v.2.1) rs rs' := by
  have hf := ht.exact f (hrs.mem_iff.2 (List.mem_cons_self ..))
  obtain ⟨hhash, horigin, hsince, hcurrent, honly, -, -⟩ := hf.completed hne hv
  have hne0 := hf.held hne
  rw [← hhash] at hcurrent honly hne0
  have hexact : Exact base key (up ++ v.2.1) (record ⟨f.q, agedDat v.1 age⟩) := exact_free (hcurrent.aged age) hne0 hage
  exact ht.moves Same.refl _ hrs hrs' hexact (Or.inr (Or.inl hhash)) honly ⟨rfl, hhash, horigin, hsince⟩

/-- A flow of which the first segments go up. -/
theorem Tracked.shortened [GroComplete Stamp] (ht : Tracked base key up rs) (hrs : rs.Perm (f :: P)) (hne : f.segs ≠ [])
    (hv : completeFlow timeout timestamp f.dat (setHeadNext n f.segs) = v) (hrest : v.2.2 ≠ [])
    (hrs' : rs'.Perm (⟨f.q, v.1, v.2.2⟩ :: P)) : Moves base key Same up (up ++ v.2.1) rs rs' := by
  have hf := ht.exact f (hrs.mem_iff.2 (List.mem_cons_self ..))
  obtain ⟨hhash, horigin, hsince, hcurrent, honly, hbodies, hapart⟩ := hf.completed hne hv
  have hne0 := hf.held hne
  rw [← hhash] at hcurrent honly hne0 hbodies hapart
  have hexact : Exact base key (up ++ v.2.1) ⟨f.q, v.1, v.2.2⟩ := exact_held hcurrent hne0 hrest hbodies hapart
  exact ht.moves Same.refl _ hrs hrs' hexact (Or.inr (Or.inl hhash)) honly ⟨rfl, hhash, horigin, hsince⟩

/-- A packet becomes a flow of its own. -/
theorem Given.hold (hg : Given base key l b x rest y P) (ht : Tracked base key l.up (records l))
    (hold : Holdable env l pkt b x rest) (hpkt : pkt.regular env base key = true) (k : SkbId) (clock : Clock)
    (hrs' : rs'.Perm (newFlow x k b clock l.up.length :: (l.flows ++ rest.map record))) :
    Moves base key Kept l.up l.up (records l) rs' := by
  obtain ⟨i, flush, hparse, hwhy⟩ := hold.parse
  obtain ⟨hwin, hkey, hports⟩ := Packet.regular_tcp hpkt hparse
  have hhash : b.tcpHash = b.tcp.ports := (parse_tcp hparse).tcpHash
  have hported := parse_ported hparse
  have hsolid : Bodies (Solid base b.flowKey) (newFlow x k b clock l.up.length).segs :=
    newFlow_solid hold (Packet.regular_windowed hpkt)
  rw [hkey] at hsolid
  have hbodies : Bodies (Carries base key b.tcp.ports) (newFlow x k b clock l.up.length).segs := by
    refine bodies_cons.2 ⟨⟨(bodies_cons.1 hsolid).1, ?_, ?_, ?_⟩, bodies_nil⟩
    · rw [pull_tcp]
      rfl
    · rw [pull_parts]
      exact hported.parts
    · rw [pull_parts]
      exact hported.tcp
  have hexact : Exact base key l.up (newFlow x k b clock l.up.length) := by
    have hcurrent := hg.current
    rw [← hhash] at hcurrent hports hbodies
    exact exact_held hcurrent hports (List.cons_ne_nil _ _) hbodies (List.pairwise_singleton _ _)
  have hmoves := ht.moves (fun r => Or.inl (Same.refl r)) [] hg.perm (hrs'.trans (hg.rest.cons _))
    (by rwa [List.append_nil]) (Or.inr (Or.inr fun g hgP => ?_)) (fun u hu => absurd hu List.not_mem_nil)
    (hg.kept _ rfl hhash rfl rfl)
  · rwa [List.append_nil] at hmoves
  · show g.dat.hash ≠ b.tcpHash
    rw [hhash]
    exact hg.distinct g hgP

/-- A packet of a held flow. -/
theorem Found.moves [GroComplete Stamp] (hfound : Found env l pkt i b A f B p1) (hway : Way env l i b f B p1 c w whole clock)
    (hl' : l' = endLists { l with nskb := l.nskb + 1, clock := clock } l.nskb c A B f.q w whole)
    (hpkt : pkt.regular env base key = true) (hjiffies : ∀ n, l.clock.jiffies n ≠ 0) (hne : ∀ f ∈ l'.flows, f.segs ≠ [])
    (ht : Tracked base key l.up (records l)) : Moves base key Same l.up l'.up (records l) (records l') := by
  have hrs : (records l).Perm (f :: (A ++ B ++ l.free.map record)) := by
    rw [records, hfound.flows_eq, List.append_assoc, List.append_assoc]
    exact List.perm_middle
  have hf := ht.exact f (hrs.mem_iff.2 (List.mem_cons_self ..))
  obtain ⟨flush, hparse⟩ := hfound.parse
  obtain ⟨hports, hkey⟩ := hfound.hash hf.bodies
  obtain ⟨hbwin, -, -⟩ := Packet.regular_tcp hpkt hparse
  obtain ⟨hcparts, hcseq, hclen, hctcp⟩ := hway.packet
  have hb := parse_ported hparse
  rw [hports] at hbwin hb
  have hc : Ported f.dat.hash c := ⟨by rw [hctcp, hports], by rw [hcparts]; exact hb.parts, by rw [hcparts]; exact hb.tcp⟩
  have hcwin : c.InWindow (base (key f.dat.hash)) := by
    rw [Body.InWindow, hcseq, hclen]
    exact hbwin
  have hage : clock.jiffies 0 ≠ 0 := by
    cases hway with
    | flush hwhy => exact hjiffies 0
    | late hhold hlate => exact hjiffies 0
    | walked hhold hlate hwalk => exact hjiffies 1
  obtain ⟨us, hpassed⟩ := hway.passed hfound hpkt hf
  obtain ⟨-, hwapart⟩ := hway.inOrder hfound (Packet.regular_windowed hpkt) (hf.bodies.imp fun _ hb => hb.solid) hf.apart
  obtain ⟨e, he⟩ : ∃ e, e = if whole then record (w.dropped { l with nskb := l.nskb + 1, clock := clock } c f.q)
      else w.flow l.nskb c f.q := ⟨_, rfl⟩
  obtain ⟨hcurrent, hhash, hq, horigin, hsince⟩ :=
    hpassed.ends (l := { l with nskb := l.nskb + 1, clock := clock }) (q := f.q) hc hcwin he
  have hrecords := @endLists_records { l with nskb := l.nskb + 1, clock := clock } l.nskb f.q c A B w whole _
  rw [← he, ← hl'] at hrecords
  have hup : l'.up = l.up ++ (us ++ w.ups { l with nskb := l.nskb + 1, clock := clock } l.nskb c whole) := by
    rw [hl', endLists_up, hpassed.up, List.append_assoc]
  rw [hpassed.up, List.append_assoc] at hcurrent
  have hexact : Exact base key (l.up ++ (us ++ w.ups { l with nskb := l.nskb + 1, clock := clock } l.nskb c whole)) e := by
    have hne0 := hf.held hfound.ne
    rw [← hhash] at hcurrent hne0
    cases whole with
    | true =>
      subst he
      refine exact_free hcurrent hne0 ?_
      unfold Walked.dropped
      simp only
      split
      · exact hage
      · exact hage
    | false =>
      subst he
      have hbodies := Walked.flow_bodies (k := l.nskb) (b := c) (q := f.q) (carries_rule base key f.dat.hash).pull hpassed.segs
      have hapart : Apart (base (key f.dat.hash)) (w.flow l.nskb c f.q).segs := Walked.flow_apart (hwapart rfl)
      rw [← hhash] at hbodies hapart
      have hsegs : (w.flow l.nskb c f.q).segs ≠ [] := by
        refine hne _ ?_
        rw [hl', endLists_flows]
        simp
      exact exact_held hcurrent hne0 hsegs hbodies hapart
  rw [hup]
  refine ht.moves Same.refl _ hrs hrecords hexact (Or.inr (Or.inl hhash)) ?_ ⟨hq, hhash, horigin, hsince⟩
  intro u hu n hn
  rw [hhash] at hn
  rcases List.mem_append.1 hu with hu | hu
  · exact hpassed.only u hu n hn
  · rcases List.mem_append.1 hu with hu | hu
    · split at hu
      · exact completeFlow_only (bodies_setHeadNext.2 hpassed.segs) u hu n hn
      · exact absurd hu List.not_mem_nil
    · split at hu
      · rw [List.mem_singleton.1 hu]
        exact hc.not_through pull_parts hn
      · exact absurd hu List.not_mem_nil

/-- **`dev_gro_receive` keeps `seq_next` exact.** -/
theorem Arrival.moves [GroComplete Stamp] (harrival : Arrival env l pkt l') (hpkt : pkt.regular env base key = true)
    (hjiffies : ∀ n, l.clock.jiffies n ≠ 0) (hne : ∀ f ∈ l.flows, f.segs ≠ []) (hne' : ∀ f ∈ l'.flows, f.segs ≠ [])
    (ht : Tracked base key l.up (records l)) : Moves base key Kept l.up l'.up (records l) (records l') := by
  have hgiven : ∀ {i b : Skb} {flush : Bool} {x : FreeQueue OfoExt} {rest : List (FreeQueue OfoExt)},
      pkt.parse env = .tcp i b flush → splitFlow (sameFlowAs env b) l.flows = none →
      findFree (fun hash => hash == b.tcpHash) resetOfo l.free = some (x, rest) → ∃ y P, Given base key l b x rest y P := by
    intro i b flush x rest hparse hsplit hqueue
    obtain ⟨hwin, hkey, hports⟩ := Packet.regular_tcp hpkt hparse
    exact ht.given (ht.no_flow hne hkey hsplit) hports (parse_tcp hparse).tcpHash hwin hqueue
  have hpull : ∀ {k : SkbId} {b : Skb}, (Parsed.up k b).body.seqEnd = b.seqEnd := by
    intro k b
    show b.pull.seqEnd = b.seqEnd
    rw [Body.seqEnd, pull_seq, pull_len]
    rfl
  cases harrival with
  | other hparse =>
    refine Moves.kept ⟨ht.others fun u hu n => ?_, (ht.stay (List.Perm.refl _)).follows, List.prefix_append _ _⟩
    rw [List.mem_singleton.1 hu]
    exact parse_other_not_through hparse
  | @unheld b x rest hwhy hqueue =>
    cases hwhy with
    | badHeader hparse =>
      unfold Packet.regular at hpkt
      rw [hparse] at hpkt
      cases hpkt
    | tcp hparse hsplit hwhy =>
      obtain ⟨y, P, hg⟩ := hgiven hparse hsplit hqueue
      obtain ⟨hwin, hkey, hports⟩ := Packet.regular_tcp hpkt hparse
      have hhash := (parse_tcp hparse).tcpHash
      obtain ⟨htracked, hfollows⟩ := hg.goUp (u := Parsed.up l.nskb b) ht (hjiffies 0) (parse_ported hparse) hports hwin
        pull_parts hpull rfl (List.Perm.refl _)
      rw [← hhash] at htracked hfollows
      exact ⟨htracked.perm List.perm_middle.symm, fun r hr => hfollows r (List.perm_middle.mem_iff.1 hr), List.prefix_append _ _⟩
  | @late b x rest hold hlate =>
    obtain ⟨i, flush, hparse, -⟩ := hold.parse
    obtain ⟨y, P, hg⟩ := hgiven hparse hold.split hold.queue
    obtain ⟨hwin, hkey, hports⟩ := Packet.regular_tcp hpkt hparse
    have hdat : assign x.dat b.seq l.up.length = { assign x.dat b.seq l.up.length with hash := b.tcp.ports } := by
      rw [← hg.hash hlate]
    obtain ⟨htracked, hfollows⟩ := hg.goUp (u := Parsed.up l.nskb (stampNew l.clock b)) ht (hjiffies 1)
      (parse_ported hparse) hports hwin pull_parts hpull hdat (List.Perm.refl _)
    exact ⟨htracked.perm List.perm_middle.symm, fun r hr => hfollows r (List.perm_middle.mem_iff.1 hr), List.prefix_append _ _⟩
  | @fresh b x rest hold hlate hfull =>
    obtain ⟨i, flush, hparse, -⟩ := hold.parse
    obtain ⟨y, P, hg⟩ := hgiven hparse hold.split hold.queue
    exact hg.hold ht hold hpkt _ _ (List.Perm.refl _)
  | @evict b x rest P g hold hlate hflows hfull =>
    obtain ⟨i, flush, hparse, -⟩ := hold.parse
    obtain ⟨y, P', hg⟩ := hgiven hparse hold.split hold.queue
    have hgmem : g.segs ≠ [] := hne g (hflows ▸ List.mem_append_right _ (List.mem_singleton_self g))
    -- the packet becomes a flow first, and the oldest one goes up then
    have hheld := hg.hold ht hold hpkt l.nskb l.clock (List.Perm.refl _)
    obtain ⟨n, hn⟩ : ∃ n, n = newFlow x l.nskb b l.clock l.up.length := ⟨_, rfl⟩
    rw [← hn, hflows] at hheld
    have hmid : (n :: (P ++ [g] ++ rest.map record)).Perm (g :: (n :: (P ++ rest.map record))) := by
      rw [List.append_assoc, ← List.cons_append]
      exact List.perm_middle
    rw [← hn]
    refine hheld.trans (fun _ _ _ => Kept.same) (hheld.tracked.dropped hmid hgmem (hjiffies 1) rfl ?_)
    rw [← List.cons_append]
    exact List.perm_middle
  | @found i b c A B f p w whole clock hfound hway => exact (hfound.moves hway rfl hpkt hjiffies hne' ht).kept

/-! ### Flush -/

end

end PacketReordering.Linux318
