import PacketReordering.Linux41.Geometry

/-!
# `linux-4.1`: single packets marked as segments

`tcp_gro_receive` writes `gso_size` before it knows what becomes of the packet, and `napi_gro_complete` clears it again
when the buffer holds one packet.  A packet that `tcp_gro_receive` turns away does not come through `napi_gro_complete`.

* `napiGroCompleteType` — what the completion callbacks make of `gso_type`;
* `GsoMarked` — only buffers of several packets have `gso_size`, and they have `gso_type` with it;
* `turnedAway` — the walk along a queue ends without a place for the packet;
* `run_gsoMarked` — the exact condition;
* `not_gsoMarked_secondFin` — the code does not meet it.
-/

namespace PacketReordering.Linux41

open Lib Gro

/-! ### `gso_type` -/

/-- `SKB_GSO_TCPV4` -/
def skbGsoTcpv4 : U16 := 1

/-- `SKB_GSO_TCP_ECN` -/
def skbGsoTcpEcn : U16 := 8

/-- `tcp_gro_complete` on `gso_type`. -/
def tcpGroComplete (gsoType : U16) (b : Skb) : U16 :=
  if hasFlag b.tcp.flagWord tcpFlagCwr then gsoType ||| skbGsoTcpEcn else gsoType

/-- `tcp4_gro_complete` on `gso_type`. -/
def tcp4GroComplete (gsoType : U16) (b : Skb) : U16 := tcpGroComplete (gsoType ||| skbGsoTcpv4) b

/-- The `gso_type` with which a buffer goes up that was received with `gsoType`: `napi_gro_complete` calls the completion
callbacks unless `count` is 1. -/
def napiGroCompleteType (gsoType : U16) (u : Up GsoEnd) : U16 :=
  if u.via = .normal ∨ u.body.count = 1 then gsoType else tcp4GroComplete gsoType u.body

/-- A buffer of one packet has no `gso_size`, and a buffer with one has its `gso_type` from the completion callbacks. -/
structure GsoMarked (u : Up GsoEnd) : Prop where
  single : u.body.parts.length = 1 → u.body.gsoSize = 0
  several : u.body.gsoSize ≠ 0 → 2 ≤ u.body.parts.length ∧ ∀ gsoType, napiGroCompleteType gsoType u &&& skbGsoTcpv4 ≠ 0

/-! ### The condition -/

/-- Why `skb_gro_merge(p, skb)` fails. -/
def refusal (p skb : Skb) : Option MergeError :=
  match skbGroMerge p skb with
  | .failed err => some err
  | _ => none

/-- The walk along these segments of a queue ends without a place for the packet `b`. -/
def turnedAway (b : Skb) : List Segment → U32 → Bool
  | [], _ => true
  | p2 :: rest, inSeq =>
    let inSeqNext := if inSeq = p2.body.seq then p2.body.seqEnd else inSeq
    if before b.seqEnd p2.body.seq then b.tcp.psh && b.seq == inSeq
    else if b.seqEnd = p2.body.seq then
      match refusal b p2.body with
      | none => false
      | some err => decide (err = .inval) || decide (inSeq = b.seq)
    else if b.seq = p2.body.seqEnd then
      match refusal p2.body b with
      | none => false
      | some err =>
        decide (err = .inval) ||
          if rest.isEmpty then decide (inSeq = p2.body.seq) && b.tcp.psh else turnedAway b rest inSeqNext
    else if after b.seq p2.body.seqEnd then !rest.isEmpty && turnedAway b rest inSeqNext
    else true

/-- The packet is of a held flow, `tcp_gro_receive` turns it away, and its length is not 0 in the 16 bits of `gso_size`. -/
def leavesSize (l : Lists) (pkt : Packet) : Bool :=
  match pkt.parse with
  | .tcp b flush linear =>
    match splitFlow (sameFlowAs b) l.flows with
    | none => false
    | some (_, f, _) =>
      b.len.setWidth 16 != (0 : U16) &&
        (notHeld f b flush linear || isLate f.dat b || turnedAway (walker b) f.segs (walkDat f.dat b).seqNext)
  | _ => false

/-- The packet of the call does not go up with the `gso_size` that `tcp_gro_receive` wrote. -/
def clearsSize (s : Mem) (c : Call) : Bool :=
  match c with
  | .receive pkt _ => !leavesSize s.view pkt
  | _ => true

section

variable {l l' : Lists} {pkt : Packet} {n : Option SkbId} {k : SkbId} {b : Skb} {inSeq : U32} {tr : Track} {w : Walked}
  {segs rest pre : List Segment} {p2 : Segment} {f : Flow GsoEnd OfoExt} {A B : List (Flow GsoEnd OfoExt)}
  {flush linear : Bool} {u : Up GsoEnd} {us vs : List (Up GsoEnd)}

/-! ### The walk -/

theorem refusal_failed {q b : Skb} {err : MergeError} (h : skbGroMerge q b = .failed err) : refusal q b = some err := by
  rw [refusal, h]

theorem refusal_merged {q b q' b' : Skb} (h : skbGroMerge q b = .merged q' b') : refusal q b = none := by
  rw [refusal, h]

theorem turnedAway_before (h : before b.seqEnd p2.body.seq = true) :
    turnedAway b (p2 :: rest) inSeq = (b.tcp.psh && b.seq == inSeq) := by
  rw [turnedAway, if_pos h]

theorem turnedAway_front (h : b.seqEnd = p2.body.seq) :
    turnedAway b (p2 :: rest) inSeq =
      match refusal b p2.body with
      | none => false
      | some err => decide (err = .inval) || decide (inSeq = b.seq) := by
  have hbefore : before b.seqEnd p2.body.seq = false := by rw [h, before_self]
  rw [turnedAway, if_neg (by simp [hbefore]), if_pos h]

theorem turnedAway_behind (hnot : before b.seqEnd p2.body.seq = false ∧ b.seqEnd ≠ p2.body.seq)
    (h : b.seq = p2.body.seqEnd) :
    turnedAway b (p2 :: rest) inSeq =
      match refusal p2.body b with
      | none => false
      | some err =>
        decide (err = .inval) ||
          if rest.isEmpty then decide (inSeq = p2.body.seq) && b.tcp.psh
          else turnedAway b rest (if inSeq = p2.body.seq then p2.body.seqEnd else inSeq) := by
  rw [turnedAway, if_neg (by simp [hnot.1]), if_neg hnot.2, if_pos h]

theorem turnedAway_after (hnot : before b.seqEnd p2.body.seq = false ∧ b.seqEnd ≠ p2.body.seq)
    (h : b.seq ≠ p2.body.seqEnd) :
    turnedAway b (p2 :: rest) inSeq =
      if after b.seq p2.body.seqEnd then
        !rest.isEmpty && turnedAway b rest (if inSeq = p2.body.seq then p2.body.seqEnd else inSeq)
      else true := by
  rw [turnedAway, if_neg (by simp [hnot.1]), if_neg hnot.2, if_neg h]

theorem Behind.fate_eq {seq2 : U32} (hw : Behind n b tr pre p2 rest inSeq seq2 w) : w.fate = .merged := by
  cases hw <;> rfl

theorem leave_turnedAway (h : Turn n k b p2 rest pre inSeq tr (.inl w)) :
    turnedAway b (p2 :: rest) inSeq = decide (w.fate = .normal) := by
  cases h with
  | drop hseq hwhy =>
    rcases hwhy with ⟨hend, err, hmerge, hwhy⟩ | ⟨hne, hstart, err, hmerge, hwhy⟩ | ⟨hne, hstart, hafter⟩
    · rw [turnedAway_front hend, refusal_failed hmerge]
      rcases hwhy with rfl | ⟨-, hin⟩
      · simp
      · simp [hin]
    · rw [turnedAway_behind ⟨hseq, hne⟩ hstart, refusal_failed hmerge]
      rcases hwhy with rfl | ⟨hrest, hin, hpsh⟩
      · simp
      · simp [hrest, hin, hpsh]
    · rw [turnedAway_after ⟨hseq, hne⟩ hstart, hafter]
      simp
  | dropRelease hin hwhy =>
    rcases hwhy with ⟨hbefore, hpsh⟩ | ⟨-, hend, err, hmerge, -⟩
    · rw [turnedAway_before hbefore]
      simp [hpsh, hin]
    · rw [turnedAway_front hend, refusal_failed hmerge]
      simp [hin]
  | dropReleaseTo hnot hend hin hmerge hrest hne hwhy =>
    rw [turnedAway_front hend, refusal_failed hmerge]
    simp [hin]
  | insert hseq =>
    rcases hseq with ⟨hbefore, hpsh⟩ | ⟨-, hend, hin, err, hmerge, hne⟩
    · rw [turnedAway_before hbefore, hpsh]
      simp
    · rw [turnedAway_front hend, refusal_failed hmerge]
      simp [hin, hne]
  | mergeFront hnot hend hmerge =>
    rw [turnedAway_front hend, refusal_merged hmerge]
    simp
  | append hrest hnot hseq =>
    rcases hseq with ⟨hstart, hin, err, hmerge, hne⟩ | ⟨hstart, hafter⟩
    · rw [turnedAway_behind hnot hstart, refusal_failed hmerge]
      simp [hrest, hin, hne]
    · rw [turnedAway_after hnot hstart, hafter]
      simp [hrest]
  | appendRelease hrest hnot hstart hin hmerge hne hpsh =>
    rw [turnedAway_behind hnot hstart, refusal_failed hmerge]
    simp [hrest, hpsh, hne]
  | merge hnot hstart hmerge hw =>
    rw [turnedAway_behind hnot hstart, refusal_merged hmerge, hw.fate_eq]
    simp

theorem next_turnedAway {pre' : List Segment} {tr' : Track} (h : Turn n k b p2 rest pre inSeq tr (.inr (pre', tr'))) :
    turnedAway b (p2 :: rest) inSeq = turnedAway b rest (if inSeq = p2.body.seq then p2.body.seqEnd else inSeq) := by
  cases h with
  | pass hrest hnot hseq =>
    rcases hseq with ⟨hstart, hin, err, hmerge, hne⟩ | ⟨hstart, hafter⟩
    · rw [turnedAway_behind hnot hstart, refusal_failed hmerge]
      simp [hrest, hne]
    · rw [turnedAway_after hnot hstart, hafter]
      simp [hrest]
  | passRelease hrest hnot hstart hin hmerge hne =>
    rw [turnedAway_behind hnot hstart, refusal_failed hmerge]
    simp [hrest, hne]

/-- **The walk finds no place for the packet exactly if `turnedAway` says so.** -/
theorem walkSegs_turnedAway (h : walkSegs n k b segs [] inSeq tr = .ok w) :
    turnedAway b segs inSeq = decide (w.fate = .normal) := by
  have hbody : ∀ (pre : List Segment) (p2 : Segment) (rest : List Segment) (inSeq : U32),
      turnedAway b (behind n pre p2 :: rest) inSeq = turnedAway b (p2 :: rest) inSeq := by
    intro pre p2 rest inSeq
    unfold behind
    split <;> rfl
  refine walkSegs_induct (I := fun post _ inSeq' _ => turnedAway b post inSeq' = turnedAway b segs inSeq)
    (P := fun w => turnedAway b segs inSeq = decide (w.fate = .normal)) ?_ ?_ ?_ rfl h
  · intro pre inSeq' tr' hI
    rw [← hI]
    rfl
  · intro p2 rest pre inSeq' tr' w hI hturn
    rw [← hI, ← hbody pre]
    exact leave_turnedAway hturn
  · intro p2 rest pre inSeq' tr' pre' tr'' hI hturn
    have hnext := next_turnedAway hturn
    rw [behind_body, hbody] at hnext
    rw [← hI, hnext]

/-! ### The packets that went up as they are -/

/-- The packets that went up as they are have no `gso_size`. -/
def NormalsClear (us : List (Up GsoEnd)) : Prop := ∀ u ∈ us, u.via = .normal → u.body.gsoSize = 0

theorem normalsClear_append (h : ∀ u ∈ vs, u.via ≠ .normal) : NormalsClear (us ++ vs) ↔ NormalsClear us := by
  unfold NormalsClear
  rw [List.forall_mem_append]
  exact and_iff_left fun u hu hvia => absurd hvia (h u hu)

theorem normalsClear_normal : NormalsClear (us ++ [Parsed.up k b]) ↔ NormalsClear us ∧ b.gsoSize = 0 := by
  have hsize : b.pull.gsoSize = b.gsoSize := by
    unfold Body.pull
    split <;> rfl
  unfold NormalsClear
  rw [List.forall_mem_append, List.forall_mem_singleton]
  simp [Parsed.up, hsize]

theorem normalsClear_release : NormalsClear (tr.release segs).up ↔ NormalsClear tr.up := by
  unfold Track.release
  split
  · rfl
  · exact normalsClear_append flushSegs_via

theorem completeFlow_via (flushOld : Bool) (groOfoTimeout groInseqTimeout timestamp : U64) (d : Dat) (segs : List Segment) :
    ∀ u ∈ (completeFlow flushOld groOfoTimeout groInseqTimeout timestamp d segs).2.1, u.via ≠ .normal := by
  cases segs with
  | nil => exact fun u hu => absurd hu List.not_mem_nil
  | cons p segs =>
    have hstamp : ∀ r, (stamp timestamp r).2 = r.2 := by
      intro r
      unfold stamp
      split <;> rfl
    simp only [completeFlow, ← stamp.eq_def, hstamp]
    split
    · exact completeSegs_via
    · split
      · exact completeSegs_via
      · exact fun u hu => absurd hu List.not_mem_nil

theorem walkSegs_normals (h : walkSegs n k b segs [] inSeq tr = .ok w) :
    NormalsClear w.track.up ↔ NormalsClear tr.up :=
  walkSegs_track (R := fun tr' => NormalsClear tr'.up ↔ NormalsClear tr.up)
    (fun _ _ htr => normalsClear_release.trans htr) Iff.rfl h

/-! ### Calls -/

theorem groHeader_gsoSize {c : Skb} {hlen : ℕ} (h : b.groHeader hlen = some c) : c.gsoSize = b.gsoSize := by
  obtain ⟨headlen, frags, frag0Len, rfl⟩ := Body.groHeader_some h
  rfl

theorem inetHeader_gsoSize : (inetHeader b).1.gsoSize = b.gsoSize := by
  unfold inetHeader
  cases hc : b.groHeader (b.dataOffset + 20) with
  | none => rfl
  | some c =>
    have hsize := groHeader_gsoSize hc
    simp only
    split
    · exact hsize
    · exact hsize

theorem tcpHeader_gsoSize : b.tcpHeader.1.gsoSize = b.gsoSize := by
  cases hc : b.groHeader (b.dataOffset + 20) with
  | none => simp only [Body.tcpHeader, hc]
  | some c =>
    have hsize := groHeader_gsoSize hc
    by_cases hlen : c.tcp.thlen < 20
    · simp only [Body.tcpHeader, hc, if_pos hlen, hsize]
    · cases hd : c.groHeader (b.dataOffset + c.tcp.thlen) with
      | none => simp only [Body.tcpHeader, hc, if_neg hlen, hd, hsize]
      | some d => simp only [Body.tcpHeader, hc, if_neg hlen, hd, groHeader_gsoSize hd, hsize]

/-- The header checks do not touch `gso_size`. -/
theorem parse_gsoSize : pkt.parse.body.gsoSize = pkt.body.gsoSize := by
  unfold Packet.parse
  split
  · rfl
  · simp only
    have hinet := @inetHeader_gsoSize { pkt.body with parts := [pkt.body.part], free := .no, isTcp := false, ext := false }
    split
    · rename_i c hc
      rwa [hc] at hinet
    · rename_i c fl hc
      rw [hc] at hinet
      split
      · exact hinet
      · have htcp := @tcpHeader_gsoSize { c with isTcp := true }
        split
        · rename_i d hd
          rw [hd] at htcp
          exact htcp.trans hinet
        · rename_i d hd
          rw [hd] at htcp
          exact htcp.trans hinet

theorem leavesSize_new (hparse : pkt.parse = .tcp b flush linear) (hsplit : splitFlow (sameFlowAs b) l.flows = none) :
    leavesSize l pkt = false := by
  unfold leavesSize
  rw [hparse]
  simp only [hsplit]

theorem Found.leavesSize_eq (hfound : Found l pkt b flush linear A f B) :
    leavesSize l pkt = (b.len.setWidth 16 != (0 : U16) &&
      (notHeld f b flush linear || isLate f.dat b || turnedAway (walker b) f.segs (walkDat f.dat b).seqNext)) := by
  unfold leavesSize
  rw [hfound.parse]
  simp only [hfound.split]

theorem Unheld.leaves (h : Unheld l pkt b) : b.gsoSize = pkt.body.gsoSize ∧ leavesSize l pkt = false := by
  have hsize := @parse_gsoSize pkt
  cases h with
  | badHeader hparse =>
    rw [hparse] at hsize
    refine ⟨hsize, ?_⟩
    unfold leavesSize
    rw [hparse]
  | tcp hparse hsplit hwhy =>
    rw [hparse] at hsize
    exact ⟨hsize, leavesSize_new hparse hsplit⟩

/-- What the arrival of a packet adds to the packets that went up as they are. -/
theorem Arrival.normals (hzero : pkt.body.gsoSize = 0) (harrival : Arrival l pkt l') :
    NormalsClear l'.up ↔ NormalsClear l.up ∧ leavesSize l pkt = false := by
  have hsize := @parse_gsoSize pkt
  cases harrival with
  | other hparse =>
    rw [hparse] at hsize
    have hleaves : leavesSize l pkt = false := by
      unfold leavesSize
      rw [hparse]
    rw [normalsClear_normal]
    exact and_congr_right fun _ => ⟨fun _ => hleaves, fun _ => hsize.trans hzero⟩
  | unheld hwhy hqueue =>
    obtain ⟨hb, hleaves⟩ := hwhy.leaves
    rw [normalsClear_normal]
    exact and_congr_right fun _ => ⟨fun _ => hleaves, fun _ => hb.trans hzero⟩
  | late hold hlate =>
    obtain ⟨flush, linear, hparse, -⟩ := hold.parse
    rw [hparse] at hsize
    rw [normalsClear_normal]
    exact and_congr_right fun _ => ⟨fun _ => leavesSize_new hparse hold.split, fun _ => hsize.trans hzero⟩
  | fresh hold hlate hfull =>
    obtain ⟨flush, linear, hparse, -⟩ := hold.parse
    exact ⟨fun h => ⟨h, leavesSize_new hparse hold.split⟩, fun h => h.1⟩
  | evict hold hlate hflows hfull =>
    obtain ⟨flush, linear, hparse, -⟩ := hold.parse
    rw [normalsClear_append (completeFlow_via _ _ _ _ _ _)]
    exact ⟨fun h => ⟨h, leavesSize_new hparse hold.split⟩, fun h => h.1⟩
  | drop hfound hwhy =>
    show NormalsClear (l.up ++ [Parsed.up l.nskb (walker _)]) ↔ _
    rw [normalsClear_normal, hfound.leavesSize_eq, hwhy]
    simp [walker]
  | @walked b flush linear A B f w hfound hwhy hwalk =>
    have haway := walkSegs_turnedAway hwalk
    rw [hfound.leavesSize_eq, hwhy, Bool.false_or, haway, ← walkSegs_normals hwalk]
    unfold walkedLists
    cases hfate : w.fate with
    | held => simp
    | merged => simp
    | normal =>
      show NormalsClear (w.track.up ++ [Parsed.up l.nskb (walker b)]) ↔ _
      rw [normalsClear_normal]
      simp [walker]

theorem flushLists_normals {flushOld : Bool} {groOfoTimeout groInseqTimeout : U64} :
    NormalsClear (flushLists l flushOld groOfoTimeout groInseqTimeout).up ↔ NormalsClear l.up := by
  have hfold : ∀ (fs : List (Flow GsoEnd OfoExt)) (l : Lists),
      NormalsClear (fs.foldr (flushFlow flushOld groOfoTimeout groInseqTimeout) l).up ↔ NormalsClear l.up := by
    intro fs l
    induction fs with
    | nil => rfl
    | cons f fs ih =>
      rw [List.foldr_cons, ← ih]
      unfold flushFlow
      simp only
      split <;> exact normalsClear_append (completeFlow_via _ _ _ _ _ _)
  exact hfold _ _

theorem stepLists_normals {c : Call} (hzero : c.Meets fun pkt => pkt.body.gsoSize = 0) (hstep : stepLists l c = .ok l') :
    NormalsClear l'.up ↔ NormalsClear l.up ∧ ∀ pkt ktime, c = .receive pkt ktime → leavesSize l pkt = false := by
  cases c with
  | receive pkt ktime =>
    have harrival := @receiveLists_ok { l with clock := { l.clock with ktime := ktime } } _ _ hstep
    rw [harrival.normals hzero]
    simp only [Call.receive.injEq, and_imp]
    exact and_congr_right fun _ => ⟨fun h _ _ hpkt _ => hpkt ▸ h, fun h => h pkt ktime rfl rfl⟩
  | flush flushOld groOfoTimeout groInseqTimeout ktime =>
    cases hstep
    rw [flushLists_normals]
    simp
  | clean ktime =>
    cases hstep
    simp [cleanLists]

/-! ### Segments -/

/-- `count` is the number of the packets, in 16 bits. -/
def Counted (b : Skb) : Prop := b.parts ≠ [] ∧ b.count = BitVec.ofNat 16 b.parts.length

theorem counted_rule : HeldRule (fun _ => True) fun (_ : Unit) b => Counted b where
  pull _ b h := by
    have hsame : b.pull.parts = b.parts ∧ b.pull.count = b.count := by
      unfold Body.pull
      split <;> exact ⟨rfl, rfl⟩
    obtain ⟨hparts, hcount⟩ := hsame
    rwa [Counted, hparts, hcount]
  merge _ p skb p' skb' hp hskb _ hmerge := by
    obtain ⟨-, hparts, -, -, hcount, -⟩ := skbGroMerge_control hmerge
    rw [Counted, hparts, hcount, hp.2, hskb.2, List.length_append, BitVec.ofNat_add]
    exact ⟨fun hnil => hp.1 (List.append_eq_nil_iff.1 hnil).1, rfl⟩
  fresh pkt b flush linear _ hparse _ := by
    have hb := parse_tcp hparse
    refine ⟨(), ?_, ?_⟩
    · simp [hb.parts]
    · simp [hb.parts, hb.count]
  join _ pkt b flush linear f p segs _ hparse _ _ _ _ := by
    have hb := parse_tcp hparse
    constructor
    · simp [walker, hb.parts]
    · simp [walker, hb.parts, hb.count]

theorem tcp4GroComplete_tcpv4 (gsoType : U16) (b : Skb) : tcp4GroComplete gsoType b &&& skbGsoTcpv4 ≠ 0 := by
  have hbit : (tcp4GroComplete gsoType b &&& skbGsoTcpv4).getLsbD 0 = true := by
    unfold tcp4GroComplete tcpGroComplete
    split <;> simp [skbGsoTcpv4, skbGsoTcpEcn]
  intro hzero
  rw [hzero] at hbit
  exact absurd hbit (by decide)

/-- What `napi_gro_complete` sends up is marked as it is. -/
theorem Counted.gsoMarked (h : Counted b) (hbody : u.body = b.complete) (hvia : u.via ≠ .normal) : GsoMarked u := by
  obtain ⟨hne, hcount⟩ := h
  have hparts : u.body.parts = b.parts := by rw [hbody, complete_parts]
  by_cases hone : b.count = 1
  · have hsize : u.body.gsoSize = 0 := by rw [hbody, Body.complete, if_pos hone]
    exact ⟨fun _ => hsize, fun hnot => absurd hsize hnot⟩
  · have hsame : u.body = b := by rw [hbody, Body.complete, if_neg hone]
    have hlength : u.body.parts.length ≠ 1 := by
      intro hlength
      rw [hparts] at hlength
      exact hone (by rw [hcount, hlength]; rfl)
    have hpos : 0 < u.body.parts.length := List.length_pos_iff.2 (hparts ▸ hne)
    refine ⟨fun hlength' => absurd hlength' hlength, fun _ => ⟨by omega, fun gsoType => ?_⟩⟩
    have hcalled : ¬ (u.via = .normal ∨ u.body.count = 1) := by
      rw [hsame]
      exact not_or.2 ⟨hvia, hone⟩
    rw [napiGroCompleteType, if_neg hcalled]
    exact tcp4GroComplete_tcpv4 _ _

theorem GsoMarked.normal_iff (hvia : u.via = .normal) : GsoMarked u ↔ u.body.gsoSize = 0 := by
  constructor
  · intro h
    by_contra hsize
    have hzero := (h.several hsize).2 0
    rw [napiGroCompleteType, if_pos (Or.inl hvia)] at hzero
    exact hzero (by decide)
  · exact fun hsize => ⟨fun _ => hsize, fun hnot => absurd hsize hnot⟩

theorem AllHeld.gsoMarked (h : AllHeld (fun (_ : Unit) b => Counted b) l) :
    (∀ u ∈ l.up, GsoMarked u) ↔ NormalsClear l.up := by
  constructor
  · exact fun hall u hu hvia => (GsoMarked.normal_iff hvia).1 (hall u hu)
  · intro hclear u hu
    by_cases hvia : u.via = .normal
    · exact (GsoMarked.normal_iff hvia).2 (hclear u hu hvia)
    · obtain ⟨-, b, hb, hbody⟩ := h.up.of_mem hu hvia
      exact hb.gsoMarked hbody hvia

/-! ### The condition does not look at `skb->next` -/

theorem turnedAway_erase : turnedAway b (segs.map Seg.erase) inSeq = turnedAway b segs inSeq := by
  induction segs generalizing inSeq with
  | nil => rfl
  | cons x segs ih =>
    rw [List.map_cons, turnedAway, turnedAway]
    simp only [erase_body, ih, List.isEmpty_map]
    rfl

theorem leavesSize_erase : leavesSize l.erase pkt = leavesSize l pkt := by
  unfold leavesSize
  cases pkt.parse with
  | other b => rfl
  | badHeader b => rfl
  | tcp b flush linear =>
    simp only [Queues.erase, splitFlow_erase fun _ => sameFlowAs_erase]
    cases splitFlow (sameFlowAs b) l.flows with
    | none => rfl
    | some r =>
      simp only [Option.map_some, notHeld_erase]
      rw [Flow.erase, turnedAway_erase]

end

/-- **Only buffers of several packets go up with `gso_size`, and they have their `gso_type`, exactly if
`tcp_gro_receive` turns no packet of a held flow away** whose length is not 0 in the 16 bits of `gso_size`. -/
theorem run_gsoMarked {mem s : Mem} {cs : List Call} (hzero : ∀ c ∈ cs, c.Meets fun pkt => pkt.body.gsoSize = 0)
    (hrun : run mem cs = .ok s) :
    (∀ u ∈ s.up, GsoMarked u) ↔ Steps step (fun s c => clearsSize s c = true) (netifNapiAdd mem) cs := by
  refine Steps.iff_of_step (R := fun s => ∃ l, Rep s l ∧ AllHeld (fun (_ : Unit) b => Counted b) l)
    (I := fun s => ∀ u ∈ s.up, GsoMarked u) ?_ ?_ ?_ hrun
  · rintro s c s' hc ⟨l, hrep, hl⟩ hstep
    have hagree := step_spec s l c hrep
    rw [hstep] at hagree
    obtain ⟨l', hl', hrep'⟩ := hagree.exists_ok
    have hmeets : c.Meets fun _ => True := by cases c <;> trivial
    have hheld := stepLists_held counted_rule hmeets hl (fun f hf => (hrep.links.flows f hf).ne) hl'
    refine ⟨⟨l', hrep', hheld⟩, ?_⟩
    show (∀ u ∈ s'.up, GsoMarked u) ↔ (∀ u ∈ s.up, GsoMarked u) ∧ clearsSize s c = true
    rw [hrep.links.up, hrep'.links.up, hheld.gsoMarked, hl.gsoMarked, stepLists_normals (hzero c hc) hl']
    refine and_congr_right fun _ => ?_
    cases c with
    | receive pkt ktime =>
      rw [clearsSize, hrep.view_eq, leavesSize_erase, Bool.not_eq_true']
      simp
    | flush flushOld groOfoTimeout groInseqTimeout ktime => simp [clearsSize]
    | clean ktime => simp [clearsSize]
  · exact ⟨_, netifNapiAdd_rep mem, fun f hf => absurd hf List.not_mem_nil, fun u hu => absurd hu List.not_mem_nil⟩
  · exact fun u hu => absurd hu List.not_mem_nil

/-- Two packets in sequence, the second one with `flags`, and a flush. -/
def secondWith (flags : U32) : List Call :=
  [.receive (.plain 0 1 7 100 10 0) fun _ => 0, .receive (.plain 1 1 7 110 10 flags) fun _ => 0,
    .flush false 0 0 fun _ => 0]

theorem secondWith_zero (flags : U32) : ∀ c ∈ secondWith flags, c.Meets fun pkt => pkt.body.gsoSize = 0 := by
  intro c hc
  simp only [secondWith, List.mem_cons, List.not_mem_nil, or_false] at hc
  rcases hc with rfl | rfl | rfl
  · rfl
  · rfl
  · trivial

theorem run_gsoMarked_second :
    ∃ s, run default (secondWith 0) = .ok s ∧ s.up.map (fun u => (u.body.parts.length, u.body.gsoSize)) = [(2, 10)] ∧
      ∀ u ∈ s.up, GsoMarked u := by
  have hsteps : Steps step (fun s c => clearsSize s c = true) (netifNapiAdd default) (secondWith 0) := by
    decide +kernel
  have hend : (run default (secondWith 0)).map (fun s => s.up.map fun u => (u.body.parts.length, u.body.gsoSize)) =
      .ok [(2, 10)] := by decide +kernel
  cases hrun : run default (secondWith 0) with
  | error e =>
    rw [hrun] at hend
    cases hend
  | ok s =>
    rw [hrun] at hend
    have hups : s.up.map (fun u => (u.body.parts.length, u.body.gsoSize)) = [(2, 10)] := by
      simpa [Except.map] using hend
    exact ⟨s, rfl, hups, (run_gsoMarked (secondWith_zero 0) hrun).2 hsteps⟩

/-- The packet with FIN goes up alone, with the `gso_size` 10. -/
theorem not_gsoMarked_secondFin :
    ¬ ∀ (mem : Mem) (cs : List Call) (s : Mem), (∀ c ∈ cs, c.Meets fun pkt => pkt.body.gsoSize = 0) →
      run mem cs = .ok s → ∀ u ∈ s.up, GsoMarked u := by
  intro h
  have hend : (run default (secondWith tcpFlagFin)).map (fun s => s.up.map fun u =>
      (u.body.parts.length, u.body.gsoSize)) = .ok [(1, 10), (1, 0)] := by decide +kernel
  cases hrun : run default (secondWith tcpFlagFin) with
  | error e =>
    rw [hrun] at hend
    cases hend
  | ok s =>
    rw [hrun] at hend
    have hups : s.up.map (fun u => (u.body.parts.length, u.body.gsoSize)) = [(1, 10), (1, 0)] := by
      simpa [Except.map] using hend
    obtain ⟨u, us, hu, hvalue, -⟩ := List.map_eq_cons_iff.1 hups
    simp only [Prod.mk.injEq] at hvalue
    have hmarked := h default _ s (secondWith_zero tcpFlagFin) hrun u (by simp [hu])
    have hsize := hmarked.single hvalue.1
    rw [hvalue.2] at hsize
    exact absurd hsize (by decide)

end PacketReordering.Linux41
