import PacketReordering.Linux41.Payload

/-!
# `linux-4.1`: buffers that are ready for the stack

`skb_gro_header_fast` reads headers where the device left them, in the first fragment; `dev_gro_receive` pulls them to
the linear part after the packet has found its place.  In between the packet is linked into a queue that may be flushed.

* `Ready` — the headers are in the linear part, and the fragments fit into their array;
* `walkSegs_ready` — the walk releases no packet that still has to be pulled;
* `run_ready` — whatever is held, and whatever goes up on any way, is ready.
-/

namespace PacketReordering.Linux41

open Lib Gro

/-- The stack can have the buffer. -/
structure Ready (b : Skb) : Prop where
  linear : b.dataOffset ≤ b.headlen
  nrFrags : b.frags.length ≤ maxSkbFrags

section

variable {n : Option SkbId} {k : SkbId} {b c p skb p' skb' : Skb} {inSeq seq2 : U32} {tr : Track} {w : Walked}
  {segs rest pre : List Segment} {p2 : Segment} {l l' : Lists} {pkt : Packet} {A B : List (Flow GsoEnd OfoExt)}
  {us : List (Up GsoEnd)}

/-! ### One buffer -/

theorem pull_nrFrags (b : Skb) : b.pull.frags.length ≤ b.frags.length := by
  unfold Body.pull Body.pullFromFrag0
  split
  · cases b.frags with
    | nil => exact Nat.le_refl _
    | cons f fs =>
      show (if f.size - _ = 0 then fs else _ :: fs).length ≤ _
      split
      · exact Nat.le_succ _
      · exact Nat.le_refl _
  · exact Nat.le_refl _

theorem Ready.pull (h : b.frags.length ≤ maxSkbFrags) : Ready b.pull := by
  refine ⟨?_, (pull_nrFrags b).trans h⟩
  rw [Body.pull_dataOffset, Body.pull_headlen]
  exact Nat.le_max_right _ _

theorem Ready.complete (h : Ready b) : Ready b.complete := by
  unfold Body.complete
  split
  · exact ⟨h.linear, h.nrFrags⟩
  · exact h

/-- The merged buffer has the linear part of the first one, and `skb_gro_merge` has counted the fragments. -/
theorem mergeData_nrFrags {m : ℕ} (h : mergeData m p skb = .merged p' skb') :
    p'.frags.length ≤ m ∧ p'.headlen = p.headlen ∧ p'.dataOffset = p.dataOffset := by
  unfold mergeData at h
  split at h
  · cases h
  split at h
  · dsimp only at h
    split at h
    · cases h
    · rename_i hroom
      split at h
      · cases h
      · cases h
        refine ⟨?_, rfl, rfl⟩
        simp only [Body.append, List.length_modify, List.length_map, List.length_range]
        omega
  · split at h
    · split at h
      · cases h
      · rename_i hroom
        cases h
        refine ⟨?_, rfl, rfl⟩
        simp only [Body.append, List.length_append, List.length_cons]
        omega
    · cases h

theorem skbGroMerge_nrFrags (h : skbGroMerge p skb = .merged p' skb') :
    p'.frags.length ≤ maxSkbFrags ∧ p'.headlen = p.headlen ∧ p'.dataOffset = p.dataOffset := by
  unfold skbGroMerge at h
  split at h
  · cases h
  · split at h
    · cases h
    · split at h
      · rename_i p1 skb1 hdata
        have hcounted := mergeData_nrFrags hdata
        cases h
        exact hcounted
      · rename_i hno
        exact absurd h (hno p' skb')

theorem Ready.merge (hp : Ready p) (h : skbGroMerge p skb = .merged p' skb') : Ready p' := by
  obtain ⟨hcount, hlinear, hoff⟩ := skbGroMerge_nrFrags h
  refine ⟨?_, hcount⟩
  rw [hlinear, hoff]
  exact hp.linear

theorem groHeader_nrFrags {hlen : ℕ} (h : b.groHeader hlen = some c) : c.frags.length ≤ b.frags.length := by
  unfold Body.groHeader at h
  split at h
  · obtain ⟨d, hd, rfl⟩ := Option.map_eq_some_iff.1 h
    unfold Body.pskbMayPull at hd
    split at hd
    · cases hd
      exact Nat.le_refl _
    · split at hd
      · cases hd
        exact eatFrags_length_le _ _
      · cases hd
  · cases h
    exact Nat.le_refl _

theorem inetHeader_nrFrags (b : Skb) : (inetHeader b).1.frags.length ≤ b.frags.length := by
  unfold inetHeader
  cases hc : b.groHeader (b.dataOffset + 20) with
  | none => exact Nat.le_refl _
  | some c =>
    have hle := groHeader_nrFrags hc
    dsimp only
    split
    · exact hle
    · exact hle

theorem tcpHeader_nrFrags (b : Skb) : b.tcpHeader.1.frags.length ≤ b.frags.length := by
  unfold Body.tcpHeader
  dsimp only
  split
  · exact Nat.le_refl _
  · rename_i c hc
    have hle := groHeader_nrFrags hc
    split
    · exact hle
    · split
      · exact hle
      · rename_i d hd
        exact (groHeader_nrFrags hd).trans hle

/-- The checks of the headers make no fragments. -/
theorem parse_nrFrags (pkt : Packet) : pkt.parse.body.frags.length ≤ pkt.body.frags.length := by
  unfold Packet.parse
  split
  · exact Nat.le_refl _
  · have hinet := inetHeader_nrFrags { pkt.body with parts := [pkt.body.part], free := .no, isTcp := false, ext := false }
    dsimp only
    split
    · rename_i c hc
      rw [hc] at hinet
      exact hinet
    · rename_i c flush hc
      rw [hc] at hinet
      split
      · exact hinet
      · have htcp := tcpHeader_nrFrags { c with isTcp := true }
        split
        · rename_i d hd
          rw [hd] at htcp
          exact htcp.trans hinet
        · rename_i d hd
          rw [hd] at htcp
          exact htcp.trans hinet

/-! ### The walk -/

/-- Everything that went up is ready. -/
def UpsReady (us : List (Up GsoEnd)) : Prop := ∀ u ∈ us, Ready u.body

/-- The segments of the queue are ready, but for the packet `k`. -/
def ReadyBut (k : SkbId) (segs : List Segment) : Prop :=
  ∀ x ∈ segs, Ready x.body ∨ x.id = k ∧ x.body.frags.length ≤ maxSkbFrags

theorem ready_of_upFrom {u : Up GsoEnd} (h : UpFrom Ready u) : Ready u.body := by
  obtain ⟨b, hb, hbody, -⟩ := h
  rw [hbody]
  exact hb.complete

theorem UpsReady.append {vs : List (Up GsoEnd)} (h : UpsReady us) (h' : UpsReady vs) : UpsReady (us ++ vs) :=
  List.forall_mem_append.2 ⟨h, h'⟩

theorem UpsReady.release (h : UpsReady tr.up) (hsegs : Bodies Ready segs) : UpsReady (tr.release segs).up :=
  Track.release_upFrom (fun _ hu => ready_of_upFrom hu) hsegs h

theorem readyBut_of_bodies (h : Bodies Ready segs) : ReadyBut k segs := fun x hx => Or.inl (h x hx)

theorem ReadyBut.append {xs : List Segment} (h : ReadyBut k segs) (h' : ReadyBut k xs) : ReadyBut k (segs ++ xs) :=
  List.forall_mem_append.2 ⟨h, h'⟩

theorem ReadyBut.cons (h : Ready p2.body ∨ p2.id = k ∧ p2.body.frags.length ≤ maxSkbFrags) (h' : ReadyBut k segs) :
    ReadyBut k (p2 :: segs) := List.forall_mem_cons.2 ⟨h, h'⟩

theorem ReadyBut.pull (h : ReadyBut k segs) : Bodies Ready (segs.map (pullSeg k)) := by
  intro y hy
  obtain ⟨x, hx, rfl⟩ := List.mem_map.1 hy
  unfold pullSeg
  split
  · rename_i hid
    rcases h x hx with hready | ⟨-, hcount⟩
    · exact Ready.pull hready.nrFrags
    · exact Ready.pull hcount
  · rename_i hid
    rcases h x hx with hready | ⟨hk, -⟩
    · exact hready
    · exact absurd hk hid

/-- What the walk comes to: only the packet itself may still have to be pulled, and only when it is held. -/
structure WalkReady (k : SkbId) (w : Walked) : Prop where
  up : UpsReady w.track.up
  held : ReadyBut k w.segs
  rest : w.fate ≠ .held → Bodies Ready w.segs

theorem WalkReady.all (hup : UpsReady w.track.up) (hsegs : Bodies Ready w.segs) : WalkReady k w :=
  ⟨hup, readyBut_of_bodies hsegs, fun _ => hsegs⟩

theorem behind_ready (hw : Behind n b tr pre p2 rest inSeq seq2 w) (htr : UpsReady tr.up) (hpre : Bodies Ready pre)
    (hp2 : Ready p2.body) (hrest : Bodies Ready rest) : WalkReady k w := by
  cases hw with
  | stay hwhy => exact WalkReady.all htr (bodies_append.2 ⟨hpre, bodies_cons.2 ⟨hp2, hrest⟩⟩)
  | release hin hne hwhy =>
    exact WalkReady.all (htr.release (bodies_append.2 ⟨hpre, bodies_cons.2 ⟨hp2, bodies_nil⟩⟩)) (bodies_setHeadNext.2 hrest)
  | bridge hps hseq hmerge =>
    rw [hps] at hrest
    have hb3 := hp2.merge hmerge
    exact WalkReady.all htr (bodies_append.2 ⟨hpre, bodies_cons.2 ⟨hb3, (bodies_cons.1 hrest).2⟩⟩)
  | bridgeRelease hps hseq hmerge hin hpsh hne =>
    rw [hps] at hrest
    have hb3 := hp2.merge hmerge
    exact WalkReady.all (htr.release (bodies_append.2 ⟨hpre, bodies_cons.2 ⟨hb3, bodies_nil⟩⟩))
      (bodies_setHeadNext.2 (bodies_cons.1 hrest).2)

theorem turn_ready (hw : Turn n k b p2 rest pre inSeq tr (.inl w)) (hb : b.frags.length ≤ maxSkbFrags)
    (htr : UpsReady tr.up) (hpre : Bodies Ready pre) (hp2 : Ready p2.body) (hrest : Bodies Ready rest) :
    WalkReady k w := by
  have hall : Bodies Ready (pre ++ p2 :: rest) := bodies_append.2 ⟨hpre, bodies_cons.2 ⟨hp2, hrest⟩⟩
  have hfront : Bodies Ready (pre ++ [p2]) := bodies_append.2 ⟨hpre, bodies_cons.2 ⟨hp2, bodies_nil⟩⟩
  have hnew : (behind n pre (⟨k, none, b⟩ : Segment)).id = k := by
    unfold behind
    split <;> rfl
  cases hw with
  | drop hseq hwhy => exact WalkReady.all htr hall
  | dropRelease hin hwhy =>
    exact WalkReady.all (htr.release hpre) (bodies_setHeadNext.2 (bodies_cons.2 ⟨hp2, hrest⟩))
  | dropReleaseTo hnot hseq hin hmerge hne hinval hwhy =>
    exact WalkReady.all (htr.release hfront) (bodies_setHeadNext.2 hrest)
  | insert hseq =>
    refine ⟨htr, (readyBut_of_bodies hpre).append (ReadyBut.cons (Or.inr ⟨hnew, ?_⟩) (readyBut_of_bodies (bodies_cons.2 ⟨hp2, hrest⟩))), ?_⟩
    · rw [behind_body]
      exact hb
    · exact fun hne => absurd rfl hne
  | mergeFront hnot hseq hmerge =>
    have hcount := (skbGroMerge_nrFrags hmerge).1
    exact ⟨htr, (readyBut_of_bodies hpre).append (ReadyBut.cons (Or.inr ⟨hnew, hcount⟩) (readyBut_of_bodies hrest)), fun hne => absurd rfl hne⟩
  | append hnil hnot hseq =>
    refine ⟨htr, (readyBut_of_bodies hpre).append (ReadyBut.cons (Or.inl hp2) (ReadyBut.cons (Or.inr ⟨rfl, hb⟩) ?_)), ?_⟩
    · exact readyBut_of_bodies bodies_nil
    · exact fun hne => absurd rfl hne
  | appendRelease hnil hnot hseq hin hmerge hne hpsh =>
    refine ⟨htr.release hfront, ReadyBut.cons (Or.inr ⟨rfl, hb⟩) ?_, fun hne => absurd rfl hne⟩
    exact readyBut_of_bodies bodies_nil
  | merge hnot hseq hmerge hw => exact behind_ready hw htr hpre (hp2.merge hmerge) hrest

/-- **The walk releases no packet that still has to be pulled.** -/
theorem walkSegs_ready (hb : b.frags.length ≤ maxSkbFrags) (htr : UpsReady tr.up) (hsegs : Bodies Ready segs)
    (h : walkSegs n k b segs [] inSeq tr = .ok w) : WalkReady k w := by
  refine walkSegs_induct (I := fun post pre _ tr => Bodies Ready post ∧ Bodies Ready pre ∧ UpsReady tr.up)
    (P := WalkReady k) ?_ ?_ ?_ ⟨hsegs, bodies_nil, htr⟩ h
  · rintro pre inSeq tr ⟨-, hpre, htr⟩
    exact WalkReady.all htr hpre
  · rintro p2 rest pre inSeq tr w ⟨hpost, hpre, htr⟩ hturn
    obtain ⟨hp2, hrest⟩ := bodies_cons.1 hpost
    exact turn_ready hturn hb htr hpre (by rwa [behind_body]) hrest
  · rintro p2 rest pre inSeq tr pre' tr' ⟨hpost, hpre, htr⟩ hturn
    obtain ⟨hp2, hrest⟩ := bodies_cons.1 hpost
    have hfront : Bodies Ready (pre ++ [behind n pre p2]) :=
      bodies_append.2 ⟨hpre, bodies_cons.2 ⟨by rwa [behind_body], bodies_nil⟩⟩
    cases hturn with
    | pass hne hnot hseq => exact ⟨hrest, hfront, htr⟩
    | passRelease hne hnot hseq hin hmerge hinval => exact ⟨hrest, bodies_nil, htr.release hfront⟩

/-! ### Runs -/

/-- All buffers are ready between two calls. -/
structure AllReady (l : Lists) : Prop where
  flows : ∀ f ∈ l.flows, Bodies Ready f.segs
  up : UpsReady l.up

theorem UpsReady.normal (h : UpsReady us) (hb : b.frags.length ≤ maxSkbFrags) : UpsReady (us ++ [Parsed.up k b]) :=
  h.append (List.forall_mem_singleton.2 (Ready.pull hb))

theorem AllReady.replace {f g : Flow GsoEnd OfoExt} (h : AllReady l) (hflows : l.flows = A ++ f :: B)
    (hflows' : l'.flows = A ++ g :: B) (hg : Bodies Ready g.segs) (hup : UpsReady l'.up) : AllReady l' := by
  refine ⟨?_, hup⟩
  have hold := h.flows
  rw [hflows, List.forall_mem_append, List.forall_mem_cons] at hold
  rw [hflows', List.forall_mem_append, List.forall_mem_cons]
  exact ⟨hold.1, hg, hold.2.2⟩

theorem newFlow_ready {x : FreeQueue OfoExt} {timestamp : U64} (hb : b.frags.length ≤ maxSkbFrags) :
    Bodies Ready (newFlow x k b timestamp).segs := by
  have hsized : ({ b with gsoSize := BitVec.ofNat 16 b.groLen } : Skb).frags.length ≤ maxSkbFrags := hb
  exact bodies_cons.2 ⟨Ready.pull hsized, bodies_nil⟩

theorem Arrival.ready (harrival : Arrival l pkt l') (h : AllReady l) (hpkt : pkt.body.frags.length ≤ maxSkbFrags) :
    AllReady l' := by
  have hparsed := (parse_nrFrags pkt).trans hpkt
  cases harrival with
  | other hparse =>
    rw [hparse] at hparsed
    exact ⟨h.flows, h.up.normal hparsed⟩
  | unheld hwhy hqueue =>
    refine ⟨h.flows, h.up.normal ?_⟩
    cases hwhy with
    | badHeader hparse | tcp hparse =>
      rw [hparse] at hparsed
      exact hparsed
  | late hold hlate =>
    obtain ⟨flush, linear, hparse, -⟩ := hold.parse
    rw [hparse] at hparsed
    exact ⟨h.flows, h.up.normal hparsed⟩
  | fresh hold hlate hfull =>
    obtain ⟨flush, linear, hparse, -⟩ := hold.parse
    rw [hparse] at hparsed
    exact ⟨List.forall_mem_cons.2 ⟨newFlow_ready hparsed, h.flows⟩, h.up⟩
  | @evict b x rest P g hold hlate hflows hfull =>
    obtain ⟨flush, linear, hparse, -⟩ := hold.parse
    rw [hparse] at hparsed
    have hold := h.flows
    rw [hflows, List.forall_mem_append, List.forall_mem_singleton] at hold
    refine ⟨List.forall_mem_cons.2 ⟨newFlow_ready hparsed, hold.1⟩, h.up.append fun u hu => ?_⟩
    exact ready_of_upFrom
      ((completeFlow_upFrom false 0 0 (l.clock.ktime 1) g.dat (bodies_setHeadNext.2 hold.2)).1 u hu)
  | @drop b flush linear A B f hfound hwhy =>
    have hflows := (splitFlow_some hfound.split).1
    have hf := h.flows f (hflows ▸ List.mem_append_right _ (List.mem_cons_self ..))
    rw [hfound.parse] at hparsed
    have hwalker : (walker b).frags.length ≤ maxSkbFrags := hparsed
    exact h.replace hflows rfl (bodies_setHeadNext.2 hf) (h.up.normal hwalker)
  | @walked b flush linear A B f w hfound hwhy hwalk =>
    have hflows := (splitFlow_some hfound.split).1
    have hf := h.flows f (hflows ▸ List.mem_append_right _ (List.mem_cons_self ..))
    rw [hfound.parse] at hparsed
    have hwalker : (walker b).frags.length ≤ maxSkbFrags := hparsed
    obtain ⟨hup, hheld, hrest⟩ := walkSegs_ready hwalker h.up hf hwalk
    unfold walkedLists
    cases hfate : w.fate with
    | held => exact h.replace hflows rfl hheld.pull hup
    | merged => exact h.replace hflows rfl (hrest (by simp [hfate])) hup
    | normal => exact h.replace hflows rfl (hrest (by simp [hfate])) (hup.normal hwalker)

theorem flushLists_ready {flushOld : Bool} {groOfoTimeout groInseqTimeout : U64} (h : AllReady l) :
    AllReady (flushLists l flushOld groOfoTimeout groInseqTimeout) := by
  have hfold : ∀ (fs : List (Flow GsoEnd OfoExt)) (l : Lists), (∀ f ∈ fs, Bodies Ready f.segs) → AllReady l →
      AllReady (fs.foldr (flushFlow flushOld groOfoTimeout groInseqTimeout) l) := by
    intro fs l hfs hl
    induction fs with
    | nil => exact hl
    | cons f fs ih =>
      obtain ⟨hf, hfs⟩ := List.forall_mem_cons.1 hfs
      have hrest := ih hfs
      rw [List.foldr_cons]
      generalize fs.foldr (flushFlow flushOld groOfoTimeout groInseqTimeout) l = m at hrest ⊢
      obtain ⟨hups, hsegs⟩ := completeFlow_upFrom flushOld groOfoTimeout groInseqTimeout (m.clock.ktime 0) f.dat
        (bodies_setHeadNext (n := (heads m.flows).head?).2 hf)
      have hup := hrest.up.append fun u hu => ready_of_upFrom (hups u hu)
      unfold flushFlow
      simp only
      split
      · exact ⟨hrest.flows, hup⟩
      · exact ⟨List.forall_mem_cons.2 ⟨hsegs, hrest.flows⟩, hup⟩
  exact hfold _ _ h.flows ⟨fun f hf => absurd hf List.not_mem_nil, h.up⟩

theorem stepLists_ready {c : Call} (h : AllReady l) (hC : c.Meets fun pkt => pkt.body.frags.length ≤ maxSkbFrags)
    (hstep : stepLists l c = .ok l') : AllReady l' := by
  cases c with
  | receive pkt ktime =>
    exact Arrival.ready (l := { l with clock := { l.clock with ktime := ktime } }) (receiveLists_ok hstep) ⟨h.flows, h.up⟩ hC
  | flush flushOld groOfoTimeout groInseqTimeout ktime =>
    cases hstep
    exact flushLists_ready (l := { l with clock := { l.clock with ktime := ktime } }) ⟨h.flows, h.up⟩
  | clean ktime =>
    cases hstep
    exact ⟨h.flows, h.up⟩

end

theorem run_allReady {mem s : Mem} {cs : List Call} (h : run mem cs = .ok s)
    (hC : ∀ c ∈ cs, c.Meets fun pkt => pkt.body.frags.length ≤ maxSkbFrags) : ∃ l, Rep s l ∧ AllReady l := by
  have hinit : ∃ l, Rep (netifNapiAdd mem) l ∧ AllReady l :=
    ⟨_, netifNapiAdd_rep mem, fun f hf => absurd hf List.not_mem_nil, fun u hu => absurd hu List.not_mem_nil⟩
  refine runFrom_mem_invariant (I := fun s => ∃ l, Rep s l ∧ AllReady l) ?_ hinit h
  rintro s c s' hc ⟨l, hrep, hl⟩ hstep
  have hagree := step_spec s l c hrep
  rw [hstep] at hagree
  obtain ⟨l', hl', hrep'⟩ := hagree.exists_ok
  exact ⟨l', hrep', stepLists_ready hl (hC c hc) hl'⟩

/-- **Whatever goes up is ready for the stack**, and so is whatever is held between two calls, if the device hands in
packets whose fragments fit into their array. -/
theorem run_ready {mem s : Mem} {cs : List Call} (h : run mem cs = .ok s)
    (hC : ∀ c ∈ cs, c.Meets fun pkt => pkt.body.frags.length ≤ maxSkbFrags) :
    (∀ f ∈ s.view.flows, ∀ x ∈ f.segs, Ready x.body) ∧ ∀ u ∈ s.up, Ready u.body := by
  obtain ⟨l, hrep, hl⟩ := run_allReady h hC
  constructor
  · intro f hf x hx
    rw [hrep.view_eq] at hf
    obtain ⟨g, hg, rfl⟩ := List.mem_map.1 hf
    obtain ⟨y, hy, rfl⟩ := List.mem_map.1 hx
    have hready := hl.flows g hg y hy
    exact ⟨hready.linear, hready.nrFrags⟩
  · intro u hu
    rw [hrep.links.up] at hu
    exact hl.up u hu

theorem run_ready_bridged :
    ∃ s u, run default bridged = .ok s ∧ u ∈ s.up ∧ u.body.parts.map Part.uid = [2, 0, 1] ∧ Ready u.body := by
  have hend : (run default bridged).map (fun s => s.up.map fun u => u.body.parts.map Part.uid) = .ok [[2, 0, 1]] := by
    decide +kernel
  cases hrun : run default bridged with
  | error e =>
    rw [hrun] at hend
    cases hend
  | ok s =>
    rw [hrun] at hend
    have hups : s.up.map (fun u => u.body.parts.map Part.uid) = [[2, 0, 1]] := by simpa [Except.map] using hend
    obtain ⟨u, us, hu, hvalue, -⟩ := List.map_eq_cons_iff.1 hups
    have hmem : u ∈ s.up := by simp [hu]
    have hC : ∀ c ∈ bridged, c.Meets fun pkt => pkt.body.frags.length ≤ maxSkbFrags := by
      intro c hc
      simp only [bridged, List.mem_cons, List.not_mem_nil, or_false] at hc
      rcases hc with rfl | rfl | rfl | rfl
      · exact Nat.succ_le_of_lt (by decide)
      · exact Nat.succ_le_of_lt (by decide)
      · exact Nat.succ_le_of_lt (by decide)
      · trivial
    obtain ⟨-, hready⟩ := run_ready hrun hC
    exact ⟨s, u, rfl, hmem, hvalue, hready u hmem⟩

end PacketReordering.Linux41
