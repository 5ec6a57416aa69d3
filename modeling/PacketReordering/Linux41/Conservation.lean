import PacketReordering.Gro.Conservation
import PacketReordering.Linux41.Step
import PacketReordering.Linux41.Turns

/-!
# `linux-4.1`: no packet is lost

* `walkSegs_parts`, `stepLists_parts` — where the packets are after the walk and after a call;
* `stepLists_error` — the only fault is the one of the copy loop;
* `run_between` — the state between two calls of any run.
-/

namespace PacketReordering.Linux41

open Lib Gro

variable {l l' : Lists} {n : Option SkbId} {k : SkbId} {b : Skb} {A B : List (Flow GsoEnd OfoExt)}
  {f : Flow GsoEnd OfoExt} {tr : Track} {pre post : List Segment}

/-! ### The walk -/

theorem skbGroMerge_parts {p skb p' skb' : Skb} (h : skbGroMerge p skb = .merged p' skb') :
    p'.parts = p.parts ++ skb.parts := by
  obtain ⟨-, -, -, -, frags, rfl⟩ := skbGroMerge_merged h
  rfl

@[simp] theorem behind_parts {x : Segment} : (behind n pre x).body.parts = x.body.parts := by rw [behind_body]

theorem release_parts (tr : Track) (rel : List Segment) :
    upsParts (tr.release rel).up = upsParts tr.up + segsParts rel := by
  unfold Track.release
  split
  · rename_i hrel
    rw [hrel, segsParts_nil, add_zero]
  · rw [Track.flush, upsParts_append, flushSegs_parts]

/-- The packets after the walk: the one that arrived is among them, or it still has to go up. -/
def Walked.parts (w : Walked) (b : Skb) : Multiset Part :=
  upsParts w.track.up + segsParts w.segs + if w.fate = .normal then (b.parts : Multiset Part) else 0

theorem behind_conserves {p2 : Segment} {rest : List Segment} {inSeq seq2 : U32} {w : Walked}
    (h : Behind n b tr pre p2 rest inSeq seq2 w) :
    w.parts b = upsParts tr.up + segsParts pre + segsParts (p2 :: rest) := by
  unfold Walked.parts
  cases h with
  | stay => simp [add_assoc]
  | release hin hrest hwhy => simp [release_parts, add_assoc]
  | bridge hrest hseq hmerge =>
    rw [hrest]
    simp only [segsParts_append, segsParts_cons, skbGroMerge_parts hmerge, ← Multiset.coe_add]
    simp only [reduceCtorEq, if_false, add_zero]
    abel
  | bridgeRelease hrest hseq hmerge hin hpsh hps =>
    rw [hrest]
    simp only [release_parts, segsParts_append, segsParts_cons, segsParts_setHeadNext, skbGroMerge_parts hmerge,
      ← Multiset.coe_add]
    simp only [segsParts_nil, reduceCtorEq, if_false, add_zero]
    abel

theorem turn_parts {p2 : Segment} {rest : List Segment} {inSeq : U32} {w : Walked}
    (h : Turn n k b p2 rest pre inSeq tr (.inl w)) :
    w.parts b = upsParts tr.up + segsParts pre + segsParts (p2 :: rest) + b.parts := by
  unfold Walked.parts
  cases h with
  | drop hseq hwhy => simp [add_assoc]
  | dropRelease hin hwhy => simp [release_parts, add_assoc]
  | dropReleaseTo hnot hseq hin hmerge hrest => simp [release_parts, add_assoc]
  | insert hseq =>
    simp only [segsParts_append, segsParts_cons, behind_parts]
    simp only [reduceCtorEq, if_false, add_zero]
    abel
  | mergeFront hnot hseq hmerge =>
    simp only [segsParts_append, segsParts_cons, skbGroMerge_parts hmerge, ← Multiset.coe_add]
    simp only [reduceCtorEq, if_false, add_zero]
    abel
  | append hrest hnot hseq =>
    rw [hrest]
    simp [add_assoc]
  | appendRelease hrest hnot hseq hin hmerge =>
    rw [hrest]
    simp [release_parts, add_assoc]
  | merge hnot hseq hmerge hw =>
    have hconserved := behind_conserves hw
    unfold Walked.parts at hconserved
    rw [hconserved]
    simp only [segsParts_cons, skbGroMerge_parts hmerge, ← Multiset.coe_add]
    abel

theorem walkSegs_parts {inSeq : U32} {w : Walked} (h : walkSegs n k b post pre inSeq tr = .ok w) :
    w.parts b = upsParts tr.up + segsParts pre + segsParts post + b.parts := by
  refine walkSegs_induct
    (I := fun post' pre' _ tr' =>
      upsParts tr'.up + segsParts pre' + segsParts post' = upsParts tr.up + segsParts pre + segsParts post)
    (P := fun w => w.parts b = upsParts tr.up + segsParts pre + segsParts post + b.parts) ?_ ?_ ?_ rfl h
  · intro pre' inSeq' tr' hI
    rw [Walked.parts, ← hI]
    simp
  · intro p2 rest pre' inSeq' tr' w' hI hturn
    rw [turn_parts hturn, ← hI]
    simp
  · intro p2 rest pre' inSeq' tr' pre'' tr'' hI hturn
    rw [← hI]
    cases hturn with
    | pass hrest hnot hseq =>
      simp only [segsParts_append, segsParts_cons, segsParts_nil, behind_parts]
      abel
    | passRelease hrest hnot hseq hin hmerge =>
      simp only [release_parts, segsParts_append, segsParts_cons, segsParts_nil, behind_parts]
      abel

/-! ### `dev_gro_receive` -/

/-- The packet that a call hands in, as receive offload sees it. -/
def Packet.parts (pkt : Packet) : Multiset Part := pkt.parse.body.parts

theorem completeFlow_parts (flushOld : Bool) (groOfoTimeout groInseqTimeout timestamp : U64) (d : Dat)
    (segs : List Segment) :
    upsParts (completeFlow flushOld groOfoTimeout groInseqTimeout timestamp d segs).2.1 +
      segsParts (completeFlow flushOld groOfoTimeout groInseqTimeout timestamp d segs).2.2 = segsParts segs := by
  cases segs with
  | nil => rfl
  | cons p segs =>
    have hstamp : ∀ r, (stamp timestamp r).2 = r.2 := by
      intro r
      unfold stamp
      split <;> rfl
    simp only [completeFlow, ← stamp.eq_def, hstamp]
    split
    · exact completeSegs_parts ..
    · split
      · exact completeSegs_parts ..
      · simp

theorem receiveFlushLists_parts (h : receiveFlushLists l k b = .ok l') : l'.parts = l.parts + b.parts := by
  unfold receiveFlushLists at h
  split at h
  · cases h
  · cases h
    simp only [Queues.parts, upsParts_append, upsParts_cons, upsParts_nil, Parsed.up, pull_parts]
    abel

theorem receiveHeldLists_parts (h : receiveHeldLists l f = .ok l') : l'.parts = l.parts + segsParts f.segs := by
  unfold receiveHeldLists at h
  split at h
  · split at h
    · cases h
    · rename_i g hlast
      cases h
      obtain ⟨fs, hfs⟩ := List.getLast?_eq_some_iff.1 hlast
      have hmove := completeFlow_parts false 0 0 (l.clock.ktime 0) g.dat (setHeadNext none g.segs)
      rw [completeFlow_all, segsParts_nil, add_zero, segsParts_setHeadNext] at hmove
      simp only [Queues.parts, hfs, List.dropLast_concat, upsParts_append, flowsParts_cons, flowsParts_append,
        flowsParts_nil, hmove]
      abel
  · cases h
    simp only [Queues.parts, flowsParts_cons]
    abel

theorem receiveNewLists_parts (h : receiveNewLists l k b = .ok l') : l'.parts = l.parts + b.parts := by
  unfold receiveNewLists at h
  simp only at h
  split at h
  · cases h
  · split at h
    · cases h
      simp only [Queues.parts, upsParts_append, upsParts_cons, upsParts_nil, Parsed.up, pull_parts]
      abel
    · have hheld := receiveHeldLists_parts h
      rw [hheld]
      simp [Queues.parts]

theorem map_pullSeg_parts (segs : List Segment) : segsParts (segs.map (pullSeg k)) = segsParts segs := by
  induction segs with
  | nil => rfl
  | cons x segs ih =>
    rw [List.map_cons, segsParts_cons, segsParts_cons, ih]
    congr 1
    unfold pullSeg
    split <;> simp

theorem receiveFoundLists_parts {flush linear : Bool} (hflows : l.flows = A ++ f :: B)
    (h : receiveFoundLists l k b flush linear A f B = .ok l') : l'.parts = l.parts + b.parts := by
  unfold receiveFoundLists at h
  simp only at h
  split at h
  · cases h
    simp only [Queues.parts, hflows, upsParts_append, upsParts_cons, upsParts_nil, flowsParts_append, flowsParts_cons,
      segsParts_setHeadNext, Parsed.up, pull_parts]
    abel
  · split at h
    · cases h
    · rename_i w hw
      have hwalk := walkSegs_parts hw
      simp only [Walked.parts, segsParts_nil, add_zero] at hwalk
      cases hfate : w.fate with
      | held =>
        rw [hfate] at h hwalk
        cases h
        simp only [reduceCtorEq, if_false, add_zero] at hwalk
        simp only [Queues.parts, hflows, flowsParts_append, flowsParts_cons, map_pullSeg_parts]
        calc upsParts w.track.up + (flowsParts A + (segsParts w.segs + flowsParts B))
            = (upsParts w.track.up + segsParts w.segs) + (flowsParts A + flowsParts B) := by abel
          _ = upsParts l.up + (flowsParts A + (segsParts f.segs + flowsParts B)) + b.parts := by rw [hwalk]; abel
      | merged =>
        rw [hfate] at h hwalk
        cases h
        simp only [reduceCtorEq, if_false, add_zero] at hwalk
        simp only [Queues.parts, hflows, flowsParts_append, flowsParts_cons]
        calc upsParts w.track.up + (flowsParts A + (segsParts w.segs + flowsParts B))
            = (upsParts w.track.up + segsParts w.segs) + (flowsParts A + flowsParts B) := by abel
          _ = upsParts l.up + (flowsParts A + (segsParts f.segs + flowsParts B)) + b.parts := by rw [hwalk]; abel
      | normal =>
        rw [hfate] at h hwalk
        cases h
        simp only [if_true] at hwalk
        simp only [Queues.parts, hflows, upsParts_append, upsParts_cons, upsParts_nil, flowsParts_append,
          flowsParts_cons, Parsed.up, pull_parts]
        calc upsParts w.track.up + (b.parts + 0) + (flowsParts A + (segsParts w.segs + flowsParts B))
            = (upsParts w.track.up + segsParts w.segs + b.parts) + (flowsParts A + flowsParts B) := by abel
          _ = upsParts l.up + (flowsParts A + (segsParts f.segs + flowsParts B)) + b.parts := by rw [hwalk]; abel

theorem receiveLists_parts {pkt : Packet} (h : receiveLists l pkt = .ok l') : l'.parts = l.parts + pkt.parts := by
  unfold receiveLists at h
  unfold Packet.parts
  cases hparse : pkt.parse with
  | other b =>
    rw [hparse] at h
    cases h
    simp only [Queues.parts, upsParts_append, upsParts_cons, upsParts_nil, Parsed.up, pull_parts, Parsed.body]
    abel
  | badHeader b =>
    rw [hparse] at h
    exact receiveFlushLists_parts (l := { l with nskb := l.nskb + 1 }) h
  | tcp b flush linear =>
    rw [hparse] at h
    simp only [receiveTcpLists] at h
    split at h
    · rename_i A f B hsplit
      exact receiveFoundLists_parts (l := { l with nskb := l.nskb + 1 }) (splitFlow_some hsplit).1 h
    · split at h
      · exact receiveFlushLists_parts (l := { l with nskb := l.nskb + 1 }) h
      · exact receiveNewLists_parts (l := { l with nskb := l.nskb + 1 }) h

/-- The header checks change neither the name of a packet nor its headers. -/
structure Kept (b c : Skb) : Prop where
  uid : c.uid = b.uid
  link : c.link = b.link
  ip : c.ip = b.ip
  tcp : c.tcp = b.tcp
  named : b.parts.map Part.uid = [b.uid] → c.parts.map Part.uid = [c.uid]

theorem Kept.refl (b : Skb) : Kept b b := ⟨rfl, rfl, rfl, rfl, fun h => h⟩

theorem Kept.trans {b c d : Skb} (h : Kept b c) (h' : Kept c d) : Kept b d :=
  ⟨h'.uid.trans h.uid, h'.link.trans h.link, h'.ip.trans h.ip, h'.tcp.trans h.tcp, fun hb => h'.named (h.named hb)⟩

theorem inetHeader_kept {b c : Skb} {r : Option Bool}
    (h : inetHeader { b with free := .no, isTcp := false, ext := false } = (c, r)) : Kept b c := by
  have hsame := inetHeader_sameHeaders { b with free := .no, isTcp := false, ext := false }
  rw [h] at hsame
  exact ⟨hsame.uid, hsame.link, hsame.ip, hsame.tcp, hsame.named⟩

theorem tcpHeader_kept {b c : Skb} {ok : Bool} (h : ({ b with isTcp := true } : Skb).tcpHeader = (c, ok)) :
    Kept b c := by
  have hsame := Body.tcpHeader_sameHeaders { b with isTcp := true }
  rw [h] at hsame
  exact ⟨hsame.uid, hsame.link, hsame.ip, hsame.tcp, hsame.named⟩

theorem parse_kept (pkt : Packet) : Kept { pkt.body with parts := [pkt.body.part] } pkt.parse.body := by
  unfold Packet.parse
  split
  · exact Kept.refl _
  · simp only
    split
    · rename_i c hinet
      exact inetHeader_kept (b := { pkt.body with parts := [pkt.body.part] }) hinet
    · rename_i c flush hinet
      have hc := inetHeader_kept (b := { pkt.body with parts := [pkt.body.part] }) hinet
      split
      · exact hc
      · split
        · rename_i d htcp
          exact hc.trans (tcpHeader_kept htcp)
        · rename_i d htcp
          exact hc.trans (tcpHeader_kept htcp)

/-- Every packet counts once. -/
theorem Packet.parts_uid (pkt : Packet) : pkt.parts.map Part.uid = {pkt.body.uid} := by
  have hkept := parse_kept pkt
  rw [Packet.parts, Multiset.map_coe, hkept.named rfl, hkept.uid]
  rfl

/-! ### The other calls -/

theorem flushFlow_parts (flushOld : Bool) (groOfoTimeout groInseqTimeout : U64) (f : Flow GsoEnd OfoExt) (l : Lists) :
    (flushFlow flushOld groOfoTimeout groInseqTimeout f l).parts = l.parts + segsParts f.segs := by
  have hmove := completeFlow_parts flushOld groOfoTimeout groInseqTimeout (l.clock.ktime 0) f.dat
    (setHeadNext (heads l.flows).head? f.segs)
  rw [segsParts_setHeadNext] at hmove
  unfold flushFlow
  simp only
  split
  · rename_i hnil
    rw [List.isEmpty_iff.1 hnil, segsParts_nil, add_zero] at hmove
    simp only [Queues.parts, upsParts_append, hmove]
    abel
  · simp only [Queues.parts, upsParts_append, flowsParts_cons, ← hmove]
    abel

theorem flushLists_parts (l : Lists) (flushOld : Bool) (groOfoTimeout groInseqTimeout : U64) :
    (flushLists l flushOld groOfoTimeout groInseqTimeout).parts = l.parts := by
  have hfold : ∀ (fs : List (Flow GsoEnd OfoExt)) (l : Lists),
      (fs.foldr (flushFlow flushOld groOfoTimeout groInseqTimeout) l).parts = l.parts + flowsParts fs := by
    intro fs l
    induction fs with
    | nil => simp
    | cons f fs ih =>
      rw [List.foldr_cons, flushFlow_parts, ih, flowsParts_cons]
      abel
  rw [flushLists, hfold]
  simp [Queues.parts]

/-- The packet that a call hands in. -/
def Call.parts : Call → Multiset Part
  | .receive pkt _ => pkt.parts
  | .flush .. => 0
  | .clean _ => 0

theorem stepLists_parts {c : Call} (h : stepLists l c = .ok l') : l'.parts = l.parts + c.parts := by
  cases c with
  | receive pkt ktime => exact receiveLists_parts (l := { l with clock := { l.clock with ktime := ktime } }) h
  | flush flushOld groOfoTimeout groInseqTimeout ktime =>
    cases h
    exact (flushLists_parts _ _ _ _).trans (add_zero _).symm
  | clean ktime =>
    cases h
    exact (add_zero _).symm

/-! ### Faults -/

theorem receiveFlushLists_ne_error {e : Fault} (hfree : l.free ≠ []) : receiveFlushLists l k b ≠ .error e := by
  intro h
  unfold receiveFlushLists at h
  split at h
  · rename_i hnone
    exact hfree (findFree_none hnone)
  · cases h

theorem receiveHeldLists_ne_error {e : Fault} : receiveHeldLists l f ≠ .error e := by
  intro h
  unfold receiveHeldLists at h
  split at h
  · rename_i hfull
    split at h
    · rename_i hnone
      rw [List.getLast?_eq_none_iff.1 hnone] at hfull
      exact absurd hfull (by decide)
    · cases h
  · cases h

theorem receiveNewLists_ne_error {e : Fault} (hfree : l.free ≠ []) : receiveNewLists l k b ≠ .error e := by
  intro h
  unfold receiveNewLists at h
  simp only at h
  split at h
  · rename_i hnone
    exact hfree (findFree_none hnone)
  · split at h
    · cases h
    · exact receiveHeldLists_ne_error h

theorem receiveFoundLists_error {flush linear : Bool} {e : Fault}
    (h : receiveFoundLists l k b flush linear A f B = .error e) : e = .copyOverrun := by
  unfold receiveFoundLists at h
  simp only at h
  split at h
  · cases h
  · split at h
    · rename_i hw
      cases h
      exact walkSegs_error hw
    · split at h <;> cases h

theorem stepLists_error {c : Call} {e : Fault} (hfree : l.free ≠ []) (h : stepLists l c = .error e) :
    e = .copyOverrun := by
  cases c with
  | flush flushOld groOfoTimeout groInseqTimeout ktime => cases h
  | clean ktime => cases h
  | receive pkt ktime =>
    simp only [stepLists, receiveLists] at h
    split at h
    · cases h
    · exact absurd h (receiveFlushLists_ne_error hfree)
    · simp only [receiveTcpLists] at h
      split at h
      · exact receiveFoundLists_error h
      · split at h
        · exact absurd h (receiveFlushLists_ne_error hfree)
        · exact absurd h (receiveNewLists_ne_error hfree)

/-! ### No access to a buffer that was given away -/

theorem receiveFlushLists_stray (h : receiveFlushLists l k b = .ok l') : l'.stray = l.stray := by
  unfold receiveFlushLists at h
  split at h
  · cases h
  · cases h
    rfl

theorem receiveNewLists_stray (h : receiveNewLists l k b = .ok l') : l'.stray = l.stray := by
  unfold receiveNewLists receiveHeldLists at h
  simp only at h
  split at h
  · cases h
  · split at h
    · cases h
      rfl
    · split at h
      · split at h
        · cases h
        · cases h
          rfl
      · cases h
        rfl

theorem receiveFoundLists_stray {flush linear : Bool} (h : receiveFoundLists l k b flush linear A f B = .ok l') :
    l'.stray = l.stray := by
  unfold receiveFoundLists at h
  simp only at h
  split at h
  · cases h
    rfl
  · split at h
    · cases h
    · split at h <;> cases h <;> rfl

theorem stepLists_stray {c : Call} (h : stepLists l c = .ok l') : l'.stray = l.stray := by
  cases c with
  | flush flushOld groOfoTimeout groInseqTimeout ktime =>
    cases h
    have hfold : ∀ (fs : List (Flow GsoEnd OfoExt)) (l : Lists),
        (fs.foldr (flushFlow flushOld groOfoTimeout groInseqTimeout) l).stray = l.stray := by
      intro fs l
      induction fs with
      | nil => rfl
      | cons f fs ih =>
        rw [List.foldr_cons, flushFlow]
        simp only
        split <;> exact ih
    exact hfold _ _
  | clean ktime =>
    cases h
    rfl
  | receive pkt ktime =>
    simp only [stepLists, receiveLists] at h
    split at h
    · cases h
      rfl
    · exact (receiveFlushLists_stray h).trans rfl
    · simp only [receiveTcpLists] at h
      split at h
      · exact (receiveFoundLists_stray h).trans rfl
      · split at h
        · exact (receiveFlushLists_stray h).trans rfl
        · exact (receiveNewLists_stray h).trans rfl

/-! ### Runs -/

/-- The state between two calls, when the packets `received` have been handed in. -/
structure Between (s : Mem) (l : Lists) (received : Multiset Part) : Prop where
  rep : Rep s l
  packets : l.parts = received
  stray : s.stray = []

theorem Between.step {s s' : Mem} {received : Multiset Part} {c : Call} (h : Between s l received)
    (hstep : step s c = .ok s') : ∃ l', stepLists l c = .ok l' ∧ Between s' l' (received + c.parts) := by
  have hagree := step_spec s l c h.rep
  rw [hstep] at hagree
  obtain ⟨l', hl', hrep⟩ := hagree.exists_ok
  refine ⟨l', hl', hrep, ?_, ?_⟩
  · rw [stepLists_parts hl', h.packets]
  · rw [hrep.links.stray, stepLists_stray hl', ← h.rep.links.stray, h.stray]

theorem Between.init (mem : Mem) : Between (netifNapiAdd mem) (initLists mem) 0 := by
  have hrep := netifNapiAdd_rep mem
  exact ⟨hrep, by simp [Queues.parts, initLists], hrep.links.stray⟩

theorem Between.run {mem s : Mem} {cs : List Call} (h : run mem cs = .ok s) :
    ∃ l, Between s l (cs.map Call.parts).sum := by
  refine runFrom_invariant (I := fun s past => ∃ l, Between s l (past.map Call.parts).sum) ?_ ⟨_, Between.init mem⟩ h
  rintro s c s' past ⟨l, hl⟩ hstep
  obtain ⟨l', -, hl'⟩ := hl.step hstep
  refine ⟨l', ?_⟩
  simpa using hl'

theorem run_error {mem : Mem} {cs : List Call} {e : Fault} (h : run mem cs = .error e) : e = .copyOverrun := by
  refine runFrom_error (I := fun s => ∃ l received, Between s l received) (E := fun e => e = .copyOverrun) ?_ ?_
    ⟨_, _, Between.init mem⟩ h
  · rintro s c s' ⟨l, received, hl⟩ hstep
    obtain ⟨l', -, hl'⟩ := hl.step hstep
    exact ⟨l', _, hl'⟩
  · rintro s c e ⟨l, received, hl⟩ hstep
    have hagree := step_spec s l c hl.rep
    rw [hstep] at hagree
    cases hlists : stepLists l c with
    | ok l' =>
      rw [hlists] at hagree
      exact hagree.elim
    | error e' =>
      rw [hlists] at hagree
      obtain rfl : e = e' := hagree
      exact stepLists_error hl.rep.free_ne_nil hlists

/-- **Representation and conservation.**  Only the copy loop of `skb_gro_merge` can stop a run; otherwise the memory
represents lists that hold, with what went up, every packet handed in exactly once. -/
theorem run_between (mem : Mem) (cs : List Call) :
    match run mem cs with
    | .error e => e = .copyOverrun
    | .ok s =>
      ∃ l : Lists, Rep s l ∧ s.groCount.toNat = (heads l.flows).length ∧ (heads l.flows).length ≤ maxGroSkbs ∧
        s.outOfOrderQueueList ≠ none ∧ l.parts = (cs.map Call.parts).sum ∧ s.stray = [] := by
  cases hrun : run mem cs with
  | error e => exact run_error hrun
  | ok s =>
    obtain ⟨l, hl⟩ := Between.run hrun
    have hlen : (heads l.flows).length = l.flows.length := heads_length fun f hf => (hl.rep.links.flows f hf).ne
    refine ⟨l, hl.rep, ?_, ?_, ?_, hl.packets, hl.stray⟩
    · have hbound : l.flows.length ≤ 8 := hl.rep.bound
      rw [hl.rep.count, BitVec.toNat_ofNat, hlen]
      omega
    · rw [hlen]
      exact hl.rep.bound
    · rw [hl.rep.links.free.first]
      simpa using hl.rep.free_ne_nil

end PacketReordering.Linux41
