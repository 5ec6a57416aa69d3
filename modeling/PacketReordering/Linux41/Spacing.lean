import PacketReordering.Gro.Window
import PacketReordering.Linux41.Headers

/-!
# `linux-4.1`: held segments do not overlap

A packet that lies behind a segment is merged with it before `tcp_gro_receive` looks at the next one, and when it reaches
into that ("flush point 7") the flow is to be flushed.  But nobody looks at what `tcp_gro_receive` returns.

* `overlapsNext` — the packet is merged behind a segment and reaches into the next one;
* `walkSegs_apart` — otherwise the walk keeps the segments in order and apart;
* `run_apart` — so does every run in which no packet does that.
-/

namespace PacketReordering.Linux41

open Lib Gro

/-- The sequence numbers of the packet lie in the window of its flow. -/
def Packet.windowed (base : FlowKey → U32) (pkt : Packet) : Bool :=
  match pkt.parse with
  | .tcp b _ _ => decide (b.InWindow (base b.flowKey))
  | _ => true

theorem Packet.inWindow {base : FlowKey → U32} {pkt : Packet} {b : Skb} {flush linear : Bool}
    (h : pkt.windowed base = true) (hparse : pkt.parse = .tcp b flush linear) : b.InWindow (base b.flowKey) := by
  unfold windowed at h
  rw [hparse] at h
  exact of_decide_eq_true h

/-- The buffer is of the flow `key` and lies in its window. -/
def Keyed (base : FlowKey → U32) (key : FlowKey) (b : Skb) : Prop := b.flowKey = key ∧ b.InWindow (base key)

section

variable {base : FlowKey → U32} {p skb p' skb' b : Skb} {p2 : Segment} {f : Flow GsoEnd OfoExt} {segs : List Segment}

theorem sameFlowAs_flowKey (hsegs : f.segs = p2 :: segs) (h : sameFlowAs b f = true) : b.flowKey = p2.body.flowKey := by
  unfold sameFlowAs at h
  rw [hsegs] at h
  simp only [sameAddresses, Bool.and_eq_true, decide_eq_true_eq, beq_iff_eq] at h
  obtain ⟨⟨hlink, ⟨hproto, hsaddr⟩, hdaddr⟩, hports⟩ := h
  rw [Body.flowKey, Body.flowKey, hlink, hproto, hsaddr, hdaddr, hports]

/-- A merged buffer reaches from where `p` begins to where `skb` ends. -/
theorem skbGroMerge_seqEnd (hseq : p.seqEnd = skb.seq) (h : skbGroMerge p skb = .merged p' skb') :
    p'.seq = p.seq ∧ p'.seqEnd = skb.seqEnd := by
  obtain ⟨-, -, -, -, frags, rfl⟩ := skbGroMerge_merged h
  refine ⟨rfl, ?_⟩
  simp only [Body.seqEnd, Body.append] at hseq ⊢
  rw [← hseq]
  bv_omega

theorem keyed_rule (base : FlowKey → U32) : HeldRule (fun pkt => pkt.windowed base = true) (Keyed base) where
  pull key b h := by
    have hsame : b.pull.flowKey = b.flowKey ∧ b.pull.seq = b.seq ∧ b.pull.len = b.len := by
      unfold Body.pull
      split <;> exact ⟨rfl, rfl, rfl⟩
    obtain ⟨hkey, hseq, hlen⟩ := hsame
    rw [Keyed, hkey, Body.InWindow, hseq, hlen]
    exact h
  merge key p skb p' skb' hp hskb hseq hmerge := by
    obtain ⟨hkey, hwin⟩ := hp
    have hskbwin := hskb.2
    have hlast : p.last (base key) = skb.first (base key) := by rw [Body.last, hseq]; rfl
    have hwinlast := hwin.last_eq
    obtain ⟨-, -, -, -, frags, rfl⟩ := skbGroMerge_merged hmerge
    refine ⟨hkey, ?_⟩
    show offset (base key) p.seq + (p.len + skb.len).toNat ≤ 2 ^ 30
    unfold Body.InWindow at hskbwin
    unfold Body.first at hlast hwinlast
    have hadd := BitVec.toNat_add p.len skb.len
    have hmod := Nat.mod_le (p.len.toNat + skb.len.toNat) (2 ^ 32)
    omega
  fresh pkt b flush linear hC hparse _ := ⟨b.flowKey, rfl, Packet.inWindow hC hparse⟩
  join key pkt b flush linear f p segs hC hparse hsegs hp hmatch _ := by
    have hkey : b.flowKey = key := (sameFlowAs_flowKey hsegs hmatch).trans hp.1
    exact ⟨hkey, hkey ▸ Packet.inWindow hC hparse⟩

end

/-! ### The walk -/

/-- The packet `b` lies behind a segment of the queue, is merged with it, and reaches into the next segment; unless that
sends the segment up.  `inSeq` is the number up to which the queue is in sequence. -/
def overlapsNext (b : Skb) : U32 → List Segment → Bool
  | inSeq, p2 :: p3 :: rest =>
    (b.seq == p2.body.seqEnd && (skbGroMerge p2.body b).isMerged && after b.seqEnd p3.body.seq &&
        !(inSeq == p2.body.seq && b.tcp.psh)) ||
      overlapsNext b (if inSeq = p2.body.seq then p2.body.seqEnd else inSeq) (p3 :: rest)
  | _, _ => false

section

variable {base : U32} {n : Option SkbId} {k : SkbId} {b : Skb} {tr : Track} {p2 : Segment} {rest pre : List Segment}
  {inSeq seq2 : U32} {w : Walked}

/-- The packet goes in where the segments before it end and the ones after it have not begun. -/
structure Fits (base : U32) (b : Skb) (pre post : List Segment) : Prop where
  window : Bodies (Body.InWindow base) (pre ++ post)
  apart : Apart base (pre ++ post)
  behind : ∀ x ∈ pre, x.body.last base ≤ b.first base

theorem behind_apart (hw : Behind n b tr pre p2 rest inSeq seq2 w) (hend : p2.body.seqEnd = b.seqEnd)
    (hwin : Bodies (Body.InWindow base) rest) (hbwin : b.InWindow base) (hapart : Apart base (pre ++ rest))
    (hpre : ∀ x ∈ pre, x.body.last base ≤ p2.body.first base)
    (hstay : ∀ p3 ps, rest = p3 :: ps → (decide (inSeq = seq2) && p2.body.tcp.psh) = false →
      after b.seqEnd p3.body.seq = false) : Apart base w.segs := by
  have hrest : Apart base rest := (apart_append.1 hapart).2.1
  cases hw with
  | stay hwhy =>
    refine apart_middle.2 ⟨hapart, hpre, ?_⟩
    rcases hwhy with rfl | hpsh
    · exact fun y hy => absurd hy List.not_mem_nil
    · cases rest with
      | nil => exact fun y hy => absurd hy List.not_mem_nil
      | cons p3 ps =>
        obtain ⟨hp3win, -⟩ := bodies_cons.1 hwin
        have hafter := hstay p3 ps rfl hpsh
        have hle : p2.body.last base ≤ p3.body.first base := by
          rw [Body.last, hend]
          exact (before_eq_false_iff hp3win.first_le_window hbwin.last_le).1 hafter
        have hp3last := hp3win.first_le
        refine List.forall_mem_cons.2 ⟨hle, fun y hy => ?_⟩
        have hy' := (apart_cons.1 hrest).1 y hy
        omega
  | release hin hne hwhy => exact apart_setHeadNext.2 hrest
  | bridge hps hseq hmerge =>
    obtain ⟨hfirst, hlast⟩ := skbGroMerge_seqEnd (hend.trans hseq) hmerge
    rw [hps] at hapart
    obtain ⟨happs, -, hps'⟩ := apart_middle.1 hapart
    refine apart_middle.2 ⟨happs, fun x hx => ?_, fun y hy => ?_⟩
    · show x.body.last base ≤ offset base _
      rw [hfirst]
      exact hpre x hx
    · show offset base _ ≤ y.body.first base
      rw [hlast]
      exact hps' y hy
  | bridgeRelease hps hseq hmerge hin hpsh hne =>
    rw [hps] at hrest
    exact apart_setHeadNext.2 (apart_cons.1 hrest).2

theorem turn_apart (hw : Turn n k b p2 rest pre inSeq tr (.inl w)) (hbwin : b.InWindow base)
    (hfits : Fits base b pre (p2 :: rest)) (hnext : overlapsNext b inSeq (p2 :: rest) = false) : Apart base w.segs := by
  obtain ⟨hwin, hapart, hbehind⟩ := hfits
  obtain ⟨hprewin, hp2win, hrestwin⟩ : Bodies (Body.InWindow base) pre ∧ p2.body.InWindow base ∧
      Bodies (Body.InWindow base) rest := by simpa using hwin
  obtain ⟨hpre, hp2rest, -⟩ := apart_append.1 hapart
  obtain ⟨hprerest, hprep2, hp2⟩ := apart_middle.1 hapart
  have hrest : Apart base rest := (apart_cons.1 hp2rest).2
  have hp2le := hp2win.first_le
  -- in front of `p2`
  have hfront : b.last base ≤ p2.body.first base → ∀ y ∈ p2 :: rest, b.last base ≤ y.body.first base := by
    intro hle
    refine List.forall_mem_cons.2 ⟨hle, fun y hy => ?_⟩
    have hy' := hp2 y hy
    omega
  cases hw with
  | drop hseq hwhy => exact hapart
  | dropRelease hin hwhy => exact apart_setHeadNext.2 hp2rest
  | dropReleaseTo hnot hseq hin hmerge hne hinval hwhy => exact apart_setHeadNext.2 hrest
  | insert hseq =>
    have hle : b.last base ≤ p2.body.first base := by
      rcases hseq with ⟨hbefore, -⟩ | ⟨-, hseq, -⟩
      · exact Nat.le_of_lt ((before_iff hbwin.last_le hp2win.first_le_window).1 hbefore)
      · rw [Body.last, hseq]
        exact Nat.le_refl _
    refine apart_middle.2 ⟨hapart, ?_, ?_⟩
    · rw [behind_body]
      exact hbehind
    · rw [behind_body]
      exact hfront hle
  | mergeFront hnot hseq hmerge =>
    obtain ⟨hfirst, hlast⟩ := skbGroMerge_seqEnd hseq hmerge
    refine apart_middle.2 ⟨hprerest, fun x hx => ?_, fun y hy => ?_⟩
    · show x.body.last base ≤ offset base _
      rw [hfirst]
      exact hbehind x hx
    · show offset base _ ≤ y.body.first base
      rw [hlast]
      exact hp2 y hy
  | append hnil hnot hseq =>
    have hle : p2.body.last base ≤ b.first base := by
      rcases hseq with ⟨hseq, -⟩ | ⟨-, hafter⟩
      · rw [Body.first, hseq]
        exact Nat.le_refl _
      · exact Nat.le_of_lt ((after_iff hbwin.first_le_window hp2win.last_le).1 hafter)
    refine apart_append.2 ⟨hpre, ?_, ?_⟩
    · simp only [apart_cons, apart_nil, List.mem_singleton, forall_eq, List.not_mem_nil, false_imp_iff, implies_true,
        and_true]
      exact hle
    · intro x hx y hy
      rcases List.mem_cons.1 hy with rfl | hy
      · exact hprep2 x hx
      · rw [List.mem_singleton.1 hy]
        exact hbehind x hx
  | appendRelease hnil hnot hseq hin hmerge hne hpsh => simp
  | merge hnot hseq hmerge hw =>
    obtain ⟨hfirst, hlast⟩ := skbGroMerge_seqEnd hseq.symm hmerge
    refine behind_apart hw hlast hrestwin hbwin hprerest (fun x hx => ?_) fun p3 ps hps hpsh => ?_
    · show x.body.last base ≤ offset base _
      rw [hfirst]
      exact hprep2 x hx
    · -- a packet that reaches into the next segment has to be sent up with the segment in front of it
      obtain ⟨hheaders, -, -, -, frags, rfl⟩ := skbGroMerge_merged hmerge
      rw [hps, overlapsNext, Bool.or_eq_false_iff] at hnext
      obtain ⟨hnext, -⟩ := hnext
      have hpsh' : (inSeq == p2.body.seq && b.tcp.psh) = false := by
        have hp2psh := (headersDiffer_eq_false hheaders).1
        have hb2 : ({ p2.body.tcp with flagWord := p2.body.tcp.flagWord ||| (b.tcp.flagWord &&& tcpFlagPsh) } : TcpHdr).psh =
            b.tcp.psh := psh_or_psh hp2psh
        simp only [hb2] at hpsh
        simpa using hpsh
      rw [hmerge, hpsh'] at hnext
      simpa [MergeResult.isMerged, hseq] using hnext

theorem walkSegs_apart {segs : List Segment} (hbwin : b.InWindow base) (hwin : Bodies (Body.InWindow base) segs)
    (hapart : Apart base segs) (hnext : overlapsNext b inSeq segs = false)
    (h : walkSegs n k b segs [] inSeq tr = .ok w) : Apart base w.segs := by
  have hfits : Fits base b [] segs := ⟨hwin, hapart, fun x hx => absurd hx List.not_mem_nil⟩
  refine walkSegs_induct (I := fun post pre inSeq _ => Fits base b pre post ∧ overlapsNext b inSeq post = false)
    (P := fun w => Apart base w.segs) ?_ ?_ ?_ ⟨hfits, hnext⟩ h
  · rintro pre inSeq tr ⟨hfits, -⟩
    simpa using hfits.apart
  · rintro p2 rest pre inSeq tr w ⟨hfits, hnext⟩ hturn
    refine turn_apart hturn hbwin ⟨?_, ?_, hfits.behind⟩ ?_
    · simpa using hfits.window
    · obtain ⟨hprerest, hpre, hrest⟩ := apart_middle.1 hfits.apart
      refine apart_middle.2 ⟨hprerest, ?_, ?_⟩
      · rwa [behind_body]
      · rwa [behind_body]
    · cases rest with
      | nil => rfl
      | cons p3 ps =>
        rw [overlapsNext] at hnext ⊢
        rwa [behind_body]
  · rintro p2 rest pre inSeq tr pre' tr' ⟨hfits, hnext⟩ hturn
    have hnext' : overlapsNext b (if inSeq = p2.body.seq then p2.body.seqEnd else inSeq) rest = false := by
      cases rest with
      | nil => rfl
      | cons p3 ps =>
        rw [overlapsNext, Bool.or_eq_false_iff] at hnext
        exact hnext.2
    obtain ⟨hwin, hapart, hbehind⟩ := hfits
    obtain ⟨hprewin, hp2win, hrestwin⟩ : Bodies (Body.InWindow base) pre ∧ p2.body.InWindow base ∧
        Bodies (Body.InWindow base) rest := by simpa using hwin
    cases hturn with
    | pass hne hnot hseq =>
      rw [behind_body] at hseq
      have hle : p2.body.last base ≤ b.first base := by
        rcases hseq with ⟨hseq, -⟩ | ⟨-, hafter⟩
        · rw [Body.first, hseq]
          exact Nat.le_refl _
        · exact Nat.le_of_lt ((after_iff hbwin.first_le_window hp2win.last_le).1 hafter)
      refine ⟨⟨?_, ?_, ?_⟩, hnext'⟩
      · simpa using hwin
      · rw [List.append_assoc, List.singleton_append]
        obtain ⟨hprerest, hpre, hrest⟩ := apart_middle.1 hapart
        refine apart_middle.2 ⟨hprerest, ?_, ?_⟩
        · rwa [behind_body]
        · rwa [behind_body]
      · intro x hx
        rcases List.mem_append.1 hx with hx | hx
        · exact hbehind x hx
        · rw [List.mem_singleton.1 hx, behind_body]
          exact hle
    | passRelease hne hnot hseq hin hmerge hinval =>
      refine ⟨⟨hrestwin, ?_, fun x hx => absurd hx List.not_mem_nil⟩, hnext'⟩
      exact (apart_append.1 (apart_middle.1 hapart).1).2.1

end

/-! ### Runs -/

/-- The packet does not reach into the segment behind the one it is merged with. -/
def spacedArrival (l : Lists) (pkt : Packet) : Bool :=
  match pkt.parse with
  | .tcp b flush linear =>
    match splitFlow (sameFlowAs b) l.flows with
    | some (_, f, _) =>
      notHeld f b flush linear || isLate f.dat b || !overlapsNext (walker b) (walkDat f.dat b).seqNext f.segs
    | none => true
  | _ => true

/-- The call does not make held segments overlap. -/
def keepsApart (s : Mem) : Call → Bool
  | .receive pkt _ => spacedArrival s.view pkt
  | _ => true

section

variable {base : FlowKey → U32} {l l' : Lists} {pkt : Packet} {b : Skb} {f : Flow GsoEnd OfoExt}

theorem overlapsNext_erase (inSeq : U32) (segs : List Segment) :
    overlapsNext b inSeq (segs.map Seg.erase) = overlapsNext b inSeq segs := by
  induction segs generalizing inSeq with
  | nil => rfl
  | cons x xs ih =>
    cases xs with
    | nil => rfl
    | cons y ys =>
      rw [List.map_cons, List.map_cons, overlapsNext, overlapsNext, ← List.map_cons, ih]
      rfl

theorem spacedArrival_erase : spacedArrival l.erase pkt = spacedArrival l pkt := by
  unfold spacedArrival
  cases pkt.parse with
  | other b => rfl
  | badHeader b => rfl
  | tcp b flush linear =>
    simp only [Queues.erase, splitFlow_erase fun _ => sameFlowAs_erase]
    cases splitFlow (sameFlowAs b) l.flows with
    | none => rfl
    | some r =>
      simp only [Option.map_some, notHeld_erase]
      congr 2
      exact overlapsNext_erase _ _

/-- The segments of every held flow are in its window, in order and apart. -/
structure Spaced (base : FlowKey → U32) (l : Lists) : Prop where
  held : AllHeld (Keyed base) l
  apart : ∀ f ∈ l.flows, ∃ key, Bodies (Keyed base key) f.segs ∧ Apart (base key) f.segs

theorem apart_pullSeg {base : U32} {k : SkbId} {segs : List Segment} (h : Apart base segs) :
    Apart base (segs.map (pullSeg k)) := by
  refine h.map fun x _ => ?_
  unfold pullSeg
  split
  · unfold Body.pull
    split <;> exact ⟨rfl, rfl⟩
  · exact ⟨rfl, rfl⟩

theorem Spaced.flowRule (h : Spaced base l) (hwin : pkt.windowed base = true) (hspaced : spacedArrival l pkt = true)
    (hne : ∀ f ∈ l.flows, f.segs ≠ []) :
    FlowRule l pkt fun f => ∃ key, Bodies (Keyed base key) f.segs ∧ Apart (base key) f.segs where
  fresh b x rest hold := by
    obtain ⟨key, hkey⟩ := newFlow_held (keyed_rule base) hwin hold
    exact ⟨key, hkey, by simp [newFlow]⟩
  drop b flush linear A f B hfound hf := by
    obtain ⟨key, hbodies, hapart⟩ := hf
    exact ⟨key, bodies_setHeadNext.2 hbodies, apart_setHeadNext.2 hapart⟩
  walked b flush linear A f B w hfound hwhy hwalk hf := by
    obtain ⟨key, hbodies, hapart⟩ := hf
    obtain ⟨hflows, hmatch, -⟩ := splitFlow_some hfound.split
    obtain ⟨p, segs, hsegs⟩ := List.exists_cons_of_ne_nil (hne f (hflows ▸ by simp))
    obtain ⟨hnot, hlate⟩ := Bool.or_eq_false_iff.1 hwhy
    have hb : Keyed base key (walker b) :=
      (keyed_rule base).join key pkt b flush linear f p segs hwin hfound.parse hsegs ((bodies_cons.1 (hsegs ▸ hbodies)).1)
        hmatch hnot
    have hnext : overlapsNext (walker b) (walkDat f.dat b).seqNext f.segs = false := by
      unfold spacedArrival at hspaced
      rw [hfound.parse] at hspaced
      simp only [hfound.split, hnot, hlate, Bool.false_or, Bool.not_eq_true'] at hspaced
      exact hspaced
    have hheld := walkSegs_held (keyed_rule base) hb (show UpsHeld (Keyed base) (Track.up ⟨_, _, l.up⟩) from h.held.up)
      hbodies hwalk
    have hspread := walkSegs_apart hb.2 (fun x hx => (hbodies x hx).2) hapart hnext hwalk
    unfold walkedFlow
    cases w.fate with
    | held => exact ⟨key, hheld.1.pull ((keyed_rule base).pull key), apart_pullSeg hspread⟩
    | merged => exact ⟨key, hheld.1, hspread⟩
    | normal => exact ⟨key, hheld.1, hspread⟩

theorem completeFlow_apart {flushOld : Bool} {groOfoTimeout groInseqTimeout timestamp : U64} {n : Option SkbId}
    {r : Dat × List (Up GsoEnd) × List Segment}
    (hr : completeFlow flushOld groOfoTimeout groInseqTimeout timestamp f.dat (setHeadNext n f.segs) = r)
    (hf : ∃ key, Bodies (Keyed base key) f.segs ∧ Apart (base key) f.segs) :
    ∃ key, Bodies (Keyed base key) r.2.2 ∧ Apart (base key) r.2.2 := by
  obtain ⟨key, hbodies, hapart⟩ := hf
  obtain ⟨rel, hsegs, -⟩ :=
    completeFlow_append flushOld groOfoTimeout groInseqTimeout timestamp f.dat (setHeadNext n f.segs)
  have hbodies' := bodies_setHeadNext (n := n).2 hbodies
  have hapart' := apart_setHeadNext (n := n).2 hapart
  rw [hsegs, hr] at hbodies' hapart'
  exact ⟨key, (bodies_append.1 hbodies').2, (apart_append.1 hapart').2.1⟩

theorem stepLists_spaced {c : Call} (h : Spaced base l) (hwin : c.Meets fun pkt => pkt.windowed base = true)
    (hne : ∀ f ∈ l.flows, f.segs ≠ []) (hspaced : ∀ pkt ktime, c = .receive pkt ktime → spacedArrival l pkt = true)
    (hstep : stepLists l c = .ok l') : Spaced base l' := by
  refine ⟨stepLists_held (keyed_rule base) hwin h.held hne hstep, ?_⟩
  cases c with
  | receive pkt ktime =>
    have h' : Spaced base { l with clock := { l.clock with ktime := ktime } } := ⟨⟨h.held.flows, h.held.up⟩, h.apart⟩
    exact (receiveLists_ok hstep).forall_flows (h'.flowRule hwin (hspaced pkt ktime rfl) hne) h.apart
  | flush flushOld groOfoTimeout groInseqTimeout ktime =>
    cases hstep
    exact flushLists_forall_flows _ _ _ (fun f n timestamp r hr hf => completeFlow_apart hr hf) h.apart
  | clean ktime =>
    cases hstep
    exact h.apart

end

/-- **Held segments do not overlap**, in every run in which no packet reaches into the segment behind the one it is merged
with. -/
theorem run_apart {base : FlowKey → U32} {mem s : Mem} {cs : List Call}
    (hwin : ∀ c ∈ cs, c.Meets fun pkt => pkt.windowed base = true)
    (hsteps : Steps step (fun s c => keepsApart s c = true) (netifNapiAdd mem) cs) (hrun : run mem cs = .ok s) :
    ∀ f ∈ s.view.flows, f.segs.IsChain fun x y => after x.body.seqEnd y.body.seq = false := by
  have hinit : ∃ l, Rep (netifNapiAdd mem) l ∧ Spaced base l :=
    ⟨_, netifNapiAdd_rep mem, ⟨fun f hf => absurd hf List.not_mem_nil, fun u hu => absurd hu List.not_mem_nil⟩,
      fun f hf => absurd hf List.not_mem_nil⟩
  have hstep : ∀ s c s', (∃ l, Rep s l ∧ Spaced base l) → keepsApart s c = true ∧ (c.Meets fun pkt => pkt.windowed base = true) →
      step s c = .ok s' → ∃ l, Rep s' l ∧ Spaced base l := by
    rintro s c s' ⟨l, hrep, hl⟩ ⟨hkeep, hc⟩ hstep
    have hagree := step_spec s l c hrep
    rw [hstep] at hagree
    obtain ⟨l', hl', hrep'⟩ := hagree.exists_ok
    refine ⟨l', hrep', stepLists_spaced hl hc (fun f hf => (hrep.links.flows f hf).ne) (fun pkt ktime hcall => ?_) hl'⟩
    rw [hcall, keepsApart, hrep.view_eq, spacedArrival_erase] at hkeep
    exact hkeep
  obtain ⟨l, hrep, hl⟩ := Steps.always hstep hinit (hsteps.and_mem hwin) hrun
  intro f hf
  rw [hrep.view_eq] at hf
  obtain ⟨g, hg, rfl⟩ := List.mem_map.1 hf
  obtain ⟨key, hbodies, hapart⟩ := hl.apart g hg
  have hchain : g.segs.IsChain fun x y => after x.body.seqEnd y.body.seq = false := by
    refine (List.Pairwise.imp_of_mem (fun {x y} hx hy hxy => ?_) hapart).isChain
    exact (before_eq_false_iff (hbodies y hy).2.first_le_window (hbodies x hx).2.last_le).2 hxy
  exact List.isChain_map_of_isChain Seg.erase (fun _ _ h => h) hchain

/-- Two segments with a hole of 50 bytes between them, and a packet of `len` bytes behind the first one. -/
def fillHole (len : ℕ) : List Call :=
  [.receive (.plain 0 1 7 1000 200 0) fun _ => 0, .receive (.plain 1 1 7 1250 100 0) fun _ => 0,
    .receive (.plain 2 1 7 1200 len 0) fun _ => 0]

theorem fillHole_windowed {len : ℕ} (h : (Packet.plain 2 1 7 1200 len 0).windowed (fun _ => 0) = true) :
    ∀ c ∈ fillHole len, c.Meets fun pkt => pkt.windowed (fun _ => 0) = true := by
  intro c hc
  simp only [fillHole, List.mem_cons, List.not_mem_nil, or_false] at hc
  rcases hc with rfl | rfl | rfl
  · show (Packet.plain 0 1 7 1000 200 0).windowed (fun _ => 0) = true
    decide +kernel
  · show (Packet.plain 1 1 7 1250 100 0).windowed (fun _ => 0) = true
    decide +kernel
  · exact h

/-- A packet of 40 bytes leaves a hole of 10. -/
theorem run_apart_fillHole :
    ∃ s, run default (fillHole 40) = .ok s ∧ s.view.flows.map (fun f => f.segs.map fun x => (x.body.seq, x.body.len)) =
      [[(1000, 240), (1250, 100)]] ∧ ∀ f ∈ s.view.flows, f.segs.IsChain fun x y => after x.body.seqEnd y.body.seq = false := by
  have hend : (run default (fillHole 40)).map
      (fun s => s.view.flows.map fun f => f.segs.map fun x => (x.body.seq, x.body.len)) =
      .ok [[(1000, 240), (1250, 100)]] := by decide +kernel
  cases hrun : run default (fillHole 40) with
  | error e =>
    rw [hrun] at hend
    cases hend
  | ok s =>
    rw [hrun] at hend
    refine ⟨s, rfl, by simpa [Except.map] using hend, ?_⟩
    exact @run_apart (fun _ => 0) _ _ _ (fillHole_windowed (by decide +kernel)) (by decide +kernel) hrun

/-- A packet of 100 bytes reaches into the second segment, and is merged with the first one all the same. -/
theorem not_apart_fillHole :
    ¬ ∀ (base : FlowKey → U32) (mem : Mem) (cs : List Call) (s : Mem),
      (∀ c ∈ cs, c.Meets fun pkt => pkt.windowed base = true) → run mem cs = .ok s →
        ∀ f ∈ s.view.flows, f.segs.IsChain fun x y => after x.body.seqEnd y.body.seq = false := by
  intro h
  have hend : (run default (fillHole 100)).map
      (fun s => s.view.flows.map fun f => f.segs.map fun x => (x.body.seqEnd, x.body.seq)) =
      .ok [[(1300, 1000), (1350, 1250)]] := by decide +kernel
  cases hrun : run default (fillHole 100) with
  | error e =>
    rw [hrun] at hend
    cases hend
  | ok s =>
    rw [hrun] at hend
    have hflows : s.view.flows.map (fun f => f.segs.map fun x => (x.body.seqEnd, x.body.seq)) =
        [[(1300, 1000), (1350, 1250)]] := by simpa [Except.map] using hend
    obtain ⟨f, fs, hf, hsegs, -⟩ := List.map_eq_cons_iff.1 hflows
    obtain ⟨x, xs, hx, hxvalue, hxs⟩ := List.map_eq_cons_iff.1 hsegs
    obtain ⟨y, ys, hy, hyvalue, -⟩ := List.map_eq_cons_iff.1 hxs
    simp only [Prod.mk.injEq] at hxvalue hyvalue
    have hchain := h (fun _ => 0) default _ s (fillHole_windowed (by decide +kernel)) hrun f (by simp [hf])
    rw [hx, hy, List.isChain_cons_cons, hxvalue.1, hyvalue.2] at hchain
    exact absurd hchain.1 (by decide)

end PacketReordering.Linux41
