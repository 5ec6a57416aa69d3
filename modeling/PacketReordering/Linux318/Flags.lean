import PacketReordering.Linux318.Held
import PacketReordering.Linux318.Ownership

/-!
# `linux-3.18.5`: FIN and PSH of a segment

A packet that goes behind a held segment leaves its FIN and PSH in the header of that segment.  A segment that is taken by
the one in front of it, be that the packet or a held one, does not.

* `FlagsKept` — the header of a buffer has the FIN and PSH of all packets in it;
* `losesFlags` — the walk lets a buffer take a segment with one of the flags that it does not have itself;
* `run_flagsKept` — nothing is lost in runs where that does not happen;
* `not_flagsKept_bridgeToFin` — it does happen.
-/

namespace PacketReordering.Linux318

open Lib Gro

/-- The flags that say where the stream, or a piece of it, ends. -/
def endFlags : List U32 := [tcpFlagFin, tcpFlagPsh]

/-- The header of the buffer has FIN when a packet in it has, and PSH likewise. -/
def FlagsKept (b : Skb) : Prop :=
  ∀ flag ∈ endFlags, ∀ c ∈ b.parts, hasFlag c.flagWord flag = true → hasFlag b.tcp.flagWord flag = true

/-! ### The condition -/

/-- The header of `skb` has one of the flags, and the one of `p` has not. -/
def lacksFlags (p skb : Skb) : Bool :=
  endFlags.any fun flag => hasFlag skb.tcp.flagWord flag && !hasFlag p.tcp.flagWord flag

/-- The buffer `p` takes the payload of `skb`, and lacks flags of it. -/
def takesFlags (p skb : Skb) : Bool := (skbGroMerge p skb).isMerged && lacksFlags p skb

/-- The walk of the packet `b` puts it in front of a segment with flags that it lacks, or behind a segment that then takes
such a one. -/
def losesFlags (b : Skb) : List Segment → Bool
  | [] => false
  | p2 :: rest =>
    if before b.seqEnd p2.body.seq then false
    else if b.seqEnd = p2.body.seq then takesFlags b p2.body
    else if b.seq = p2.body.seqEnd then
      match skbGroMerge p2.body b with
      | .overrun => false
      | .failed err => decide (err = .tooBig) && losesFlags b rest
      | .merged b2 _ =>
        rest.head?.any fun p3 =>
          decide (b.seqEnd = p3.body.seq) && takesFlags (addFlags b2 b.tcp.flagWord) p3.body
    else after b.seq p2.body.seqEnd && losesFlags b rest

/-- The packet is of a held flow, joins it, and its walk loses flags. -/
def arrivalLosesFlags (env : Env) (l : Lists) (pkt : Packet) : Bool :=
  match pkt.parse env with
  | .tcp i b _ =>
    match splitFlow (sameFlowAs env b) l.flows with
    | none => false
    | some (_, f, _) =>
      match f.segs with
      | [] => false
      | p :: segs =>
        !notHeld env i b p.body && !before b.seq f.dat.seqNext &&
          losesFlags (stampWalk l.clock (sized b p.body)) (p :: segs)
  | _ => false

/-- The call loses no flags. -/
def keepsFlags (env : Env) (s : Mem) (c : Call) : Bool :=
  match c with
  | .receive pkt clock => !arrivalLosesFlags env { s.view with clock := clock } pkt
  | _ => true

section

variable {env : Env} {pkt : Packet} {l l' : Lists} {n : Option SkbId} {k : SkbId} {i b p skb p' skb' : Skb} {inSeq : U32}
  {tr : Track} {w : Walked} {segs rest pre : List Segment} {f : Flow Stamp OfoExt} {A B : List (Flow Stamp OfoExt)}
  {p2 : Segment} {flag : U32}

/-! ### Flags -/

theorem hasFlag_or (a c mask : U32) : hasFlag (a ||| c) mask = (hasFlag a mask || hasFlag c mask) := by
  unfold hasFlag
  rw [BitVec.and_comm, BitVec.and_or_distrib_left, BitVec.and_comm mask a, BitVec.and_comm mask c, Bool.eq_iff_iff]
  simp only [bne_iff_ne, ne_eq, Bool.or_eq_true, ← not_and_or]
  exact not_congr BitVec.or_eq_zero_iff

theorem hasFlag_addFlags (h : flag ∈ endFlags) (b : Skb) (flags : U32) :
    hasFlag (addFlags b flags).tcp.flagWord flag = (hasFlag b.tcp.flagWord flag || hasFlag flags flag) := by
  have hmask : (tcpFlagFin ||| tcpFlagPsh) &&& flag = flag := by
    simp only [endFlags, List.mem_cons, List.not_mem_nil, or_false] at h
    rcases h with rfl | rfl <;> decide
  have hflags : hasFlag (flags &&& (tcpFlagFin ||| tcpFlagPsh)) flag = hasFlag flags flag := by
    unfold hasFlag
    rw [BitVec.and_assoc, hmask]
  rw [← hflags]
  exact hasFlag_or _ _ _

/-- What the header of `p` has instead of `skb`. -/
def HasFlagsOf (p skb : Skb) : Prop :=
  ∀ flag ∈ endFlags, hasFlag skb.tcp.flagWord flag = true → hasFlag p.tcp.flagWord flag = true

theorem lacksFlags_eq_false : lacksFlags p skb = false ↔ HasFlagsOf p skb := by
  unfold lacksFlags HasFlagsOf
  rw [List.any_eq_false]
  refine forall₂_congr fun flag _ => ?_
  cases hasFlag skb.tcp.flagWord flag <;> simp

/-- **A buffer that has the flags of what it takes keeps all flags.** -/
theorem FlagsKept.append {b : Skb} (hp : FlagsKept p) (hskb : FlagsKept skb) (hparts : b.parts = p.parts ++ skb.parts)
    (hfrom : HasFlagsOf b p) (htakes : HasFlagsOf b skb) : FlagsKept b := by
  intro flag hflag c hc hset
  rw [hparts] at hc
  rcases List.mem_append.1 hc with hc | hc
  · exact hfrom flag hflag (hp flag hflag c hc hset)
  · exact htakes flag hflag (hskb flag hflag c hc hset)

theorem skbGroMerge_flags (h : skbGroMerge p skb = .merged p' skb') : p'.parts = p.parts ++ skb.parts ∧ p'.tcp = p.tcp := by
  obtain ⟨-, -, -, -, -, frags, rfl⟩ := skbGroMerge_merged h
  exact ⟨rfl, rfl⟩

/-- The walk of a packet keeps flags when it is merged only with segments whose flags it has, and a held segment takes
only segments whose flags it has. -/
theorem flagsKept_turn (hb : FlagsKept b) : TurnRule (HasFlagsOf b) HasFlagsOf b FlagsKept where
  stay := hb
  front p b' p' hF hp _ hmerge := by
    obtain ⟨hparts, htcp⟩ := skbGroMerge_flags hmerge
    refine FlagsKept.append hb hp hparts ?_ ?_
    · intro flag _ hset
      show hasFlag b'.tcp.flagWord flag = true
      rwa [htcp]
    · intro flag hflag hset
      show hasFlag b'.tcp.flagWord flag = true
      rw [htcp]
      exact hF flag hflag hset
  behind p p' b' hp _ hmerge := by
    obtain ⟨hparts, htcp⟩ := skbGroMerge_flags hmerge
    refine FlagsKept.append hp hb hparts ?_ ?_
    · intro flag hflag hset
      rw [hasFlag_addFlags hflag, htcp, hset, Bool.true_or]
    · intro flag hflag hset
      rw [hasFlag_addFlags hflag, hset, Bool.or_true]
  bridge p p3 p' s' hG hp hp3 _ hmerge := by
    obtain ⟨hparts, htcp⟩ := skbGroMerge_flags hmerge
    refine FlagsKept.append hp hp3 hparts ?_ ?_
    · intro flag _ hset
      show hasFlag p'.tcp.flagWord flag = true
      rwa [htcp]
    · intro flag hflag hset
      show hasFlag p'.tcp.flagWord flag = true
      rw [htcp]
      exact hG flag hflag hset

/-! ### The walk -/

theorem takesFlags_eq_false (h : takesFlags p skb = false) (hmerge : skbGroMerge p skb = .merged p' skb') :
    HasFlagsOf p skb := by
  rw [takesFlags, hmerge] at h
  exact lacksFlags_eq_false.1 h

theorem permits_of_losesFlags (h : losesFlags b (p2 :: rest) = false) : Permits (HasFlagsOf b) HasFlagsOf b p2 rest where
  front b' p' hseq hmerge := by
    have hbefore : before b.seqEnd p2.body.seq = false := by rw [hseq, before_self]
    rw [losesFlags, if_neg (by simp [hbefore]), if_pos hseq] at h
    exact takesFlags_eq_false h hmerge
  bridge b2 s2 p3 ps b3 s3 hbefore hne hend hmerge hrest hseq hmerge3 := by
    rw [losesFlags, if_neg (by simp [hbefore]), if_neg hne, if_pos hend, hmerge, hrest] at h
    simp only [List.head?_cons, Option.any_some, hseq, decide_true, Bool.true_and] at h
    exact takesFlags_eq_false h hmerge3

theorem next_losesFlags [GroComplete Stamp] {pre' : List Segment} {tr' : Track}
    (h : Turn n k b p2 rest pre inSeq tr (.inr (pre', tr')))
    (hkeeps : losesFlags b (p2 :: rest) = false) : losesFlags b rest = false := by
  have hbehind : ∀ (hnot : before b.seqEnd p2.body.seq = false ∧ b.seqEnd ≠ p2.body.seq) (hend : b.seq = p2.body.seqEnd)
      (hmerge : skbGroMerge p2.body b = .failed .tooBig), losesFlags b rest = false := by
    intro hnot hend hmerge
    rw [losesFlags, if_neg (by simp [hnot.1]), if_neg hnot.2, if_pos hend, hmerge] at hkeeps
    simpa using hkeeps
  cases h with
  | pass hrest hnot hseq =>
    rcases hseq with ⟨hend, -, hmerge⟩ | ⟨hend, hafter⟩
    · exact hbehind hnot hend hmerge
    · rw [losesFlags, if_neg (by simp [hnot.1]), if_neg hnot.2, if_neg hend, hafter] at hkeeps
      simpa using hkeeps
  | passRelease hrest hnot hend hin hmerge => exact hbehind hnot hend hmerge

theorem walkSegs_flagsKept [GroComplete Stamp] (hb : FlagsKept b) (hne : segs ≠ []) (hsegs : Bodies FlagsKept segs)
    (hkeeps : losesFlags b segs = false) (h : walkSegs n k b segs [] inSeq tr = .ok w) :
    WalkBodies FlagsKept tr.up w := by
  have hbody : ∀ (pre : List Segment) (p2 : Segment) (rest : List Segment),
      losesFlags b (behind n pre p2 :: rest) = losesFlags b (p2 :: rest) := by
    intro pre p2 rest
    unfold behind
    split <;> rfl
  refine walkSegs_induct
    (I := fun post pre _ tr' => losesFlags b post = false ∧ Bodies FlagsKept (pre ++ post) ∧ UpsIn FlagsKept tr.up tr')
    (P := fun w => WalkBodies FlagsKept tr.up w) ?_ ?_ hne
    ⟨hkeeps, show Bodies FlagsKept ([] ++ segs) from hsegs, fun u hu => Or.inl hu⟩ h
  · rintro p2 rest pre inSeq tr' w ⟨hkeeps, hall, hup⟩ hturn
    obtain ⟨hpre, hp2rest⟩ := bodies_append.1 hall
    obtain ⟨hp2, hrest⟩ := bodies_cons.1 hp2rest
    rw [← hbody pre] at hkeeps
    exact turn_bodies (flagsKept_turn hb) hturn (permits_of_losesFlags hkeeps) hup hpre (by rwa [behind_body]) hrest
  · rintro p2 rest pre inSeq tr' pre' tr'' ⟨hkeeps, hall, hup⟩ hturn
    rw [← hbody pre] at hkeeps
    exact ⟨next_losesFlags hturn hkeeps, next_bodies hturn hup hall⟩

/-! ### Calls -/

theorem flagsKept_single (hparts : b.parts = [{ b.part with isTcp := true }]) : FlagsKept b := by
  intro flag _ c hc hset
  rw [hparts, List.mem_singleton] at hc
  rw [hc] at hset
  exact hset

theorem FlagsKept.congr (h : FlagsKept p) (hparts : b.parts = p.parts) (htcp : b.tcp = p.tcp) : FlagsKept b := by
  unfold FlagsKept
  rwa [hparts, htcp]

theorem FlagsKept.pull (h : FlagsKept b) : FlagsKept b.pull := by
  unfold Body.pull
  split
  · exact h.congr rfl rfl
  · exact h

theorem Found.arrivalLosesFlags_eq (hfound : Found env l pkt i b A f B p2) :
    arrivalLosesFlags env l pkt =
      (!notHeld env i b p2.body && !before b.seq f.dat.seqNext &&
        losesFlags (stampWalk l.clock (sized b p2.body)) f.segs) := by
  obtain ⟨flush, hparse⟩ := hfound.parse
  obtain ⟨segs, hsegs⟩ := List.head?_eq_some_iff.1 hfound.head
  unfold arrivalLosesFlags
  rw [hparse]
  simp only [hfound.split, hsegs]

theorem flagsKept_body [GroComplete Stamp] (hkeeps : arrivalLosesFlags env l pkt = false) :
    BodyRule env l pkt FlagsKept where
  pull b hb := hb.pull
  fresh b x rest hold := by
    obtain ⟨i, flush, hparse, -⟩ := hold.parse
    have hsingle := flagsKept_single (parse_tcp hparse).parts
    refine bodies_cons.2 ⟨FlagsKept.pull ?_, bodies_nil⟩
    exact hsingle.congr rfl rfl
  found i b c A f B p w whole clock hfound hway hf := by
    cases hway with
    | flush hwhy => exact ⟨bodies_setHeadNext.2 hf, fun u hu => Or.inl hu⟩
    | late hhold hlate => exact ⟨bodies_setHeadNext.2 hf, fun u hu => Or.inl hu⟩
    | walked hhold hlate hwalk =>
      obtain ⟨flush, hparse⟩ := hfound.parse
      have hsingle := flagsKept_single (parse_tcp hparse).parts
      rw [hfound.arrivalLosesFlags_eq, hhold, hlate] at hkeeps
      have hwalker : FlagsKept (stampWalk l.clock (sized b p.body)) := hsingle.congr rfl rfl
      exact walkSegs_flagsKept hwalker hfound.ne hf (by simpa using hkeeps) hwalk

theorem stepLists_flagsKept {c : Call} (hne : ∀ f ∈ l.flows, f.segs ≠ [])
    (hkeeps : ∀ pkt clock, c = .receive pkt clock → arrivalLosesFlags env { l with clock := clock } pkt = false)
    (h : @AllBodies env.groComplete FlagsKept l) (hstep : stepLists env l c = .ok l') :
    @AllBodies env.groComplete FlagsKept l' := by
  let _ := env.groComplete
  cases c with
  | receive pkt clock =>
    have harrival := @receiveLists_ok env { l with clock := clock } _ _ _ hne hstep
    exact harrival.allBodies (flagsKept_body (hkeeps pkt clock rfl)) ⟨h.flows, h.up⟩
  | flush flushOld clock =>
    cases hstep
    exact flushLists_allBodies flushOld ⟨h.flows, h.up⟩
  | clean clock =>
    cases hstep
    exact ⟨h.flows, h.up⟩

/-! ### The condition does not look at `skb->next` -/

theorem losesFlags_erase : losesFlags b (segs.map Seg.erase) = losesFlags b segs := by
  induction segs with
  | nil => rfl
  | cons x segs ih =>
    rw [List.map_cons, losesFlags, losesFlags]
    simp only [erase_body, ih, List.head?_map, Option.any_map]
    rfl

theorem arrivalLosesFlags_erase : arrivalLosesFlags env l.erase pkt = arrivalLosesFlags env l pkt := by
  unfold arrivalLosesFlags
  cases pkt.parse env with
  | other b => rfl
  | badHeader b => rfl
  | tcp i b flush =>
    simp only [Queues.erase, splitFlow_erase fun _ => sameFlowAs_erase]
    cases splitFlow (sameFlowAs env b) l.flows with
    | none => rfl
    | some r =>
      obtain ⟨A, f, B⟩ := r
      obtain ⟨q, d, segs⟩ := f
      cases segs with
      | nil => rfl
      | cons p segs =>
        have herase := @losesFlags_erase (stampWalk l.clock (sized b p.body)) (p :: segs)
        rw [List.map_cons] at herase
        simp only [Option.map_some, Flow.erase, List.map_cons, erase_body, herase]

theorem FlagsKept.complete (h : FlagsKept b) : FlagsKept b.complete := by
  unfold Body.complete
  split
  · exact h.congr rfl rfl
  · exact h

end

/-- **Every segment goes up with the FIN and the PSH of all packets in it** in the runs in which no buffer takes the payload
of a segment behind it that has one of the flags when it has not. -/
theorem run_flagsKept {env : Env} {mem s : Mem} {cs : List Call}
    (hsteps : Steps (step env) (fun s c => keepsFlags env s c = true) (netifNapiAdd mem) cs)
    (hrun : run env mem cs = .ok s) : ∀ u ∈ s.up, u.via ≠ .normal → FlagsKept u.body := by
  let _ := env.groComplete
  have hinv : ∃ l, Rep s l ∧ AllBodies FlagsKept l := by
    refine Steps.always (I := fun s => ∃ l, Rep s l ∧ AllBodies FlagsKept l) ?_ ?_ hsteps hrun
    · rintro s c s' ⟨l, hrep, hl⟩ hkeeps hstep
      have hagree := step_spec env s l c hrep
      rw [hstep] at hagree
      obtain ⟨l', hl', hrep'⟩ := hagree.exists_ok
      refine ⟨l', hrep', stepLists_flagsKept (fun f hf => (hrep.links.flows f hf).ne) ?_ hl hl'⟩
      rintro pkt clock rfl
      rw [keepsFlags, hrep.view_eq, Bool.not_eq_true'] at hkeeps
      exact (@arrivalLosesFlags_erase env pkt { l with clock := clock }).symm.trans hkeeps
    · exact ⟨_, netifNapiAdd_rep mem, fun f hf => absurd hf List.not_mem_nil, fun u hu => absurd hu List.not_mem_nil⟩
  obtain ⟨l, hrep, hl⟩ := hinv
  intro u hu hvia
  rw [hrep.links.up] at hu
  obtain ⟨b, hb, hbody⟩ := (hl.up u hu).of_via hvia
  rw [hbody]
  exact hb.complete

/-- A packet, one behind a hole with FIN, and one that fills the hole with `flags`. -/
def finThenHole (flags : U32) : List Call :=
  [.receive (.plain 0 1 7 1000 100 0) ⟨fun _ => 0, fun _ => 1⟩,
    .receive (.plain 1 1 7 1200 100 tcpFlagFin) ⟨fun _ => 10, fun _ => 1⟩,
    .receive (.plain 2 1 7 1100 100 flags) ⟨fun _ => 20, fun _ => 1⟩, .flush false ⟨fun _ => 1000000, fun _ => 2⟩]

/-- A packet that has FIN itself. -/
theorem run_flagsKept_fin :
    ∃ s, run .inet default (finThenHole tcpFlagFin) = .ok s ∧
      s.up.map (fun u => (u.body.parts.length, hasFlag u.body.tcp.flagWord tcpFlagFin)) = [(3, true)] ∧
      ∀ u ∈ s.up, u.via ≠ .normal → FlagsKept u.body := by
  have hsteps : Steps (step .inet) (fun s c => keepsFlags .inet s c = true) (netifNapiAdd default)
      (finThenHole tcpFlagFin) := by decide +kernel
  have hend : (run .inet default (finThenHole tcpFlagFin)).map
      (fun s => s.up.map fun u => (u.body.parts.length, hasFlag u.body.tcp.flagWord tcpFlagFin)) = .ok [(3, true)] := by
    decide +kernel
  obtain ⟨s, hrun, hups⟩ := map_ok hend
  exact ⟨s, hrun, hups, run_flagsKept hsteps hrun⟩

/-- The packet is put behind the first segment, which then takes the one with FIN; the FIN is lost. -/
theorem not_flagsKept_bridgeToFin :
    ¬ ∀ (env : Env) (mem : Mem) (cs : List Call) (s : Mem), run env mem cs = .ok s →
      ∀ u ∈ s.up, u.via ≠ .normal → FlagsKept u.body := by
  intro h
  have hend : (run .inet default (finThenHole 0)).map (fun s => s.up.map fun u =>
      (decide (u.via = .normal), u.body.parts.map fun c => hasFlag c.flagWord tcpFlagFin,
        hasFlag u.body.tcp.flagWord tcpFlagFin)) = .ok [(false, [false, false, true], false)] := by decide +kernel
  obtain ⟨s, hrun, hups⟩ := map_ok hend
  obtain ⟨u, us, hu, hvalues, -⟩ := List.map_eq_cons_iff.1 hups
  simp only [Prod.mk.injEq, decide_eq_false_iff_not] at hvalues
  obtain ⟨hvia, hparts, hhead⟩ := hvalues
  obtain ⟨c, hc, hset⟩ := List.mem_map.1 (hparts ▸ by simp : true ∈ u.body.parts.map fun c => hasFlag c.flagWord tcpFlagFin)
  have hkept := h .inet default _ s hrun u (by simp [hu]) hvia tcpFlagFin (by simp [endFlags]) c hc hset
  rw [hhead] at hkept
  cases hkept

end PacketReordering.Linux318
