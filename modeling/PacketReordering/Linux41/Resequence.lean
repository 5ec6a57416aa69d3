import PacketReordering.Linux41.InSequence

/-!
# `linux-4.1`: the order of the packets is restored

The packets of a flow may arrive in any order, as long as no two overlap.  What went up and then what is held is in the order
of their sequence numbers as long as no packet goes up behind one that belongs behind it, or past a held one that belongs in
front of it.

* `arrivalInOrder` — the packet does neither;
* `Sequenced` — the packets of the flow, each in its buffer;
* `run_resequences` — the exact condition;
* `not_resequences_missingPiece` — the code does not always meet it.
-/

namespace PacketReordering.Linux41

open Lib Gro

/-- The packet has other ports than `h`, or is empty; or all that went up begins before it, and it goes to its place in the
queue of its flow, if that is held. -/
def arrivalInOrder (h : U32) (l : Lists) (pkt : Packet) : Bool :=
  match pkt.parse with
  | .tcp b flush linear =>
    b.tcp.ports != h || decide (b.len = 0) ||
      !((upsData h l.up).any fun c => before b.seq c.seq) &&
        match splitFlow (sameFlowAs b) l.flows with
        | some (_, f, _) =>
          !if notHeld f b flush linear || isLate f.dat b then (segsData h f.segs).any fun c => before c.seq b.seq
          else overtakes h (walker b) f.segs [] (walkDat f.dat b).seqNext
        | none => true
  | _ => true

def keepsOrder (h : U32) (s : Mem) (c : Call) : Bool :=
  match c with
  | .receive pkt _ => arrivalInOrder h s.view pkt
  | _ => true

/-- The packets are in the order of their numbers, and no two overlap. -/
def Ascending (base : U32) (cs : List Part) : Prop := cs.Pairwise fun c d => partLast base c ≤ partFirst base d

/-- No two of the packets overlap. -/
def NoOverlap (base : U32) (cs : List Part) : Prop :=
  cs.Pairwise fun c d => partLast base c ≤ partFirst base d ∨ partLast base d ≤ partFirst base c

instance (base : U32) (cs : List Part) : Decidable (Ascending base cs) := inferInstanceAs (Decidable (List.Pairwise _ _))

instance (base : U32) (cs : List Part) : Decidable (NoOverlap base cs) := inferInstanceAs (Decidable (List.Pairwise _ _))

/-- The packets `bs` of the flow `key` have arrived. -/
structure Sequenced (base : U32) (key : FlowKey) (bs : List Skb) (l : Lists) : Prop where
  laned : Laned base key l
  rising : Rising base (lane key.ports l).held
  perm : ((lane key.ports l).data key.ports).Perm (bs.flatMap (Body.data key.ports))

/-- The next packet is of the flow `key`, in its window, and overlaps none of the packets `bs`, which are not empty. -/
structure Upcoming (base : U32) (key : FlowKey) (bs : List Skb) (pkt : Packet) : Prop where
  keyed : ∀ b ∈ pkt.arrived key.ports, Keyed (fun _ => base) key b
  window : ∀ d ∈ bs.flatMap (Body.data key.ports), partFirst base d < partLast base d ∧ partLast base d ≤ 2 ^ 30
  clear : ∀ b ∈ pkt.arrived key.ports, b.len ≠ 0 → ∀ d ∈ bs.flatMap (Body.data key.ports),
    partLast base d ≤ b.first base ∨ b.last base ≤ partFirst base d

section

variable {base : U32} {key : FlowKey} {h : U32} {l l' : Lists} {pkt : Packet} {b : Skb} {bs : List Skb} {w : Walked}
  {c : Part} {up front back : List Part} {flush linear : Bool} {f : Flow GsoEnd OfoExt} {A B : List (Flow GsoEnd OfoExt)}

/-! ### One more packet -/

theorem ascending_insert : Ascending base (up ++ front ++ [c] ++ back) ↔ Ascending base (up ++ front ++ back) ∧
    (∀ d ∈ up, partLast base d ≤ partFirst base c) ∧ (∀ d ∈ front, partLast base d ≤ partFirst base c) ∧
      ∀ d ∈ back, partLast base c ≤ partFirst base d := by
  unfold Ascending
  simp only [List.pairwise_append, List.forall_mem_append, List.mem_singleton, forall_eq, List.pairwise_singleton]
  constructor
  · rintro ⟨⟨hfront, -, hup, hc⟩, hback, ⟨hupback, hfrontback⟩, hcback⟩
    exact ⟨⟨hfront, hback, hupback, hfrontback⟩, hup, hc, hcback⟩
  · rintro ⟨⟨hfront, hback, hupback, hfrontback⟩, hup, hc, hcback⟩
    exact ⟨⟨hfront, trivial, hup, hc⟩, hback, ⟨hupback, hfrontback⟩, hcback⟩

/-- A packet with payload, as it is counted. -/
theorem Headed.data_single (hb : Headed pkt b) (hports : b.tcp.ports = h) (hlen : b.len ≠ 0) :
    ∃ c, b.data h = [c] ∧ partFirst base c = b.first base ∧ partLast base c = b.last base := by
  refine ⟨_, hb.data_eq hports hlen, congrArg (offset base) hb.seq.symm, ?_⟩
  have hseq : b.part.seq = b.seq := hb.seq.symm
  have hlen : b.part.len = b.len := hb.len.symm
  show offset base (b.part.seq + b.part.len) = _
  rw [hseq, hlen]
  rfl

/-- Everything that went up begins before the packet. -/
theorem Upcoming.upto_iff (hnext : Upcoming base key bs pkt) (hb : b ∈ pkt.arrived key.ports) (hlen : b.len ≠ 0)
    (hup : ∀ d ∈ up, d ∈ bs.flatMap (Body.data key.ports)) :
    (∀ d ∈ up, partLast base d ≤ b.first base) ↔ (!up.any fun c => before b.seq c.seq) = true := by
  have hbwin : b.InWindow base := (hnext.keyed b hb).2
  have hend := hbwin.last_eq
  have hpos : b.len.toNat ≠ 0 := by bv_omega
  rw [Bool.not_eq_true', List.any_eq_false]
  refine forall₂_congr fun d hd => ?_
  obtain ⟨hlt, hlast⟩ := hnext.window d (hup d hd)
  have hclear := hnext.clear b hb hlen d (hup d hd)
  have hfirst : partFirst base d ≤ 2 ^ 30 := by omega
  rw [before_iff hbwin.first_le_window hfirst]
  show _ ↔ ¬ b.first base < partFirst base d
  omega

/-- Everything that is held begins behind the packet. -/
theorem Upcoming.from_iff (hnext : Upcoming base key bs pkt) (hb : b ∈ pkt.arrived key.ports) (hlen : b.len ≠ 0)
    (hback : ∀ d ∈ back, d ∈ bs.flatMap (Body.data key.ports)) :
    (∀ d ∈ back, b.last base ≤ partFirst base d) ↔ (!back.any fun c => before c.seq b.seq) = true := by
  have hbwin : b.InWindow base := (hnext.keyed b hb).2
  have hend := hbwin.last_eq
  have hpos : b.len.toNat ≠ 0 := by bv_omega
  rw [Bool.not_eq_true', List.any_eq_false]
  refine forall₂_congr fun d hd => ?_
  obtain ⟨hlt, hlast⟩ := hnext.window d (hback d hd)
  have hclear := hnext.clear b hb hlen d (hback d hd)
  have hfirst : partFirst base d ≤ 2 ^ 30 := by omega
  rw [before_iff hfirst hbwin.first_le_window]
  show _ ↔ ¬ partFirst base d < b.first base
  omega

/-- The packet `b` has come between `front` and `back`. -/
theorem Sequenced.put (ok : Bool) (front back : List Part) (hl : Sequenced base key bs l) (hnext : Upcoming base key bs pkt)
    (hb : b ∈ pkt.arrived key.ports) (hlaned : Laned base key l') (hrising : Rising base (lane key.ports l').held)
    (hheld : (lane key.ports l).held.flatMap (Body.data key.ports) = front ++ back)
    (hdata : (lane key.ports l').data key.ports = upsData key.ports l.up ++ front ++ b.data key.ports ++ back)
    (hok : b.len ≠ 0 → ((∀ d ∈ front, partLast base d ≤ b.first base) ∧ (∀ d ∈ back, b.last base ≤ partFirst base d) ↔
      ok = true))
    (hcond : arrivalInOrder key.ports l pkt =
      (decide (b.len = 0) || !((upsData key.ports l.up).any fun c => before b.seq c.seq) && ok)) :
    Sequenced base key (bs ++ pkt.arrived key.ports) l' ∧
      (Ascending base ((lane key.ports l').data key.ports) ↔
        Ascending base ((lane key.ports l).data key.ports) ∧ arrivalInOrder key.ports l pkt = true) := by
  obtain ⟨hhead, hports, harrived⟩ := arrived_headed hb
  have hold : (lane key.ports l).data key.ports = upsData key.ports l.up ++ front ++ back := by
    rw [Lane.data, hheld, ← List.append_assoc]
    rfl
  have hperm : ((lane key.ports l').data key.ports).Perm ((bs ++ [b]).flatMap (Body.data key.ports)) := by
    rw [hdata, List.flatMap_append, List.flatMap_singleton, List.append_assoc _ (b.data key.ports)]
    have hswap : (b.data key.ports ++ back).Perm (back ++ b.data key.ports) := List.perm_append_comm
    refine (hswap.append_left _).trans ?_
    rw [← List.append_assoc, ← hold]
    exact hl.perm.append_right _
  rw [harrived]
  refine ⟨⟨hlaned, hrising, hperm⟩, ?_⟩
  rw [hcond, hold, hdata]
  by_cases hlen : b.len = 0
  · rw [hhead.data_nil hlen, List.append_nil, decide_eq_true hlen]
    simp
  · obtain ⟨c, hc, hfirst, hlast⟩ := hhead.data_single hports hlen
    have hup : ∀ d ∈ upsData key.ports l.up, d ∈ bs.flatMap (Body.data key.ports) := by
      intro d hd
      refine hl.perm.subset ?_
      rw [hold]
      simp [hd]
    rw [hc, ascending_insert, hfirst, hlast, hok hlen, hnext.upto_iff hb hlen hup, decide_eq_false hlen, Bool.false_or,
      Bool.and_eq_true]

/-! ### Arrivals -/

theorem arrivalInOrder_none (harrived : pkt.arrived h = []) : arrivalInOrder h l pkt = true := by
  unfold Packet.arrived at harrived
  unfold arrivalInOrder
  cases hparse : pkt.parse with
  | other b => rfl
  | badHeader b => rfl
  | tcp b flush linear =>
    rw [hparse] at harrived
    simp only at harrived ⊢
    split at harrived
    · cases harrived
    · rename_i hports
      simp [hports]

/-- The packet goes nowhere near a held one. -/
theorem Laned.inOrder_new (hl : Laned base key l) (hne : ∀ f ∈ l.flows, f.segs ≠ [])
    (hb : b ∈ pkt.arrived key.ports) (hnil : (lane key.ports l).held = []) :
    arrivalInOrder key.ports l pkt =
      (decide (b.len = 0) || !((upsData key.ports l.up).any fun c => before b.seq c.seq) && true) := by
  obtain ⟨hhead, hports, harrived⟩ := arrived_headed hb
  unfold Packet.arrived at harrived
  unfold arrivalInOrder
  cases hparse : pkt.parse with
  | other c => rw [hparse] at harrived; cases harrived
  | badHeader c => rw [hparse] at harrived; cases harrived
  | tcp c flush linear =>
    have hc : c = b := by
      rw [hparse] at harrived
      simp only at harrived
      split at harrived
      · exact List.singleton_inj.1 harrived
      · cases harrived
    subst hc
    have hsplit : splitFlow (sameFlowAs c) l.flows = none := by
      cases hsplit : splitFlow (sameFlowAs c) l.flows with
      | none => rfl
      | some r =>
        obtain ⟨A, f, B⟩ := r
        have hfound : Found l pkt c flush linear A f B := ⟨hparse, hsplit⟩
        have hf : f ∈ l.flows := (splitFlow_some hsplit).1 ▸ by simp
        obtain ⟨κ, hbodies⟩ := hl.held.flows f hf
        have hfports := (hfound.hasPorts (h := key.ports) hbodies (hne f hf)).2
        rw [decide_eq_true hports] at hfports
        exact absurd (List.map_eq_nil_iff.1 hnil) (laneOf_ne_nil hf hfports)
    simp only [hsplit, hports, bne_self_eq_false, Bool.false_or]

theorem Found.inOrder_eq (hfound : Found l pkt b flush linear A f B) (hports : b.tcp.ports = h) :
    arrivalInOrder h l pkt = (decide (b.len = 0) || !((upsData h l.up).any fun c => before b.seq c.seq) &&
      !if notHeld f b flush linear || isLate f.dat b then (segsData h f.segs).any fun c => before c.seq b.seq
      else overtakes h (walker b) f.segs [] (walkDat f.dat b).seqNext) := by
  unfold arrivalInOrder
  rw [hfound.parse]
  simp only [hfound.split, hports, bne_self_eq_false, Bool.false_or]

/-- The first of the held buffers go up. -/
theorem Sequenced.drain (hl : Sequenced base key bs l) (hlaned : Laned base key l')
    (hdrains : (lane key.ports l).Drains key.ports (lane key.ports l')) : Sequenced base key bs l' ∧
      (lane key.ports l').data key.ports = (lane key.ports l).data key.ports := by
  have hdata := hdrains.data
  obtain ⟨rel, hheld, -⟩ := hdrains
  have hrising := hl.rising
  rw [hheld] at hrising
  exact ⟨⟨hlaned, (rising_append.1 hrising).2.1, hdata ▸ hl.perm⟩, hdata⟩

/-- **What an arrival does to the order.** -/
theorem Arrival.sequenced (hl : Sequenced base key bs l) (hne : ∀ f ∈ l.flows, f.segs ≠ [])
    (hnext : Upcoming base key bs pkt) (harrival : Arrival l pkt l') :
    Sequenced base key (bs ++ pkt.arrived key.ports) l' ∧
      (Ascending base ((lane key.ports l').data key.ports) ↔
        Ascending base ((lane key.ports l).data key.ports) ∧ arrivalInOrder key.ports l pkt = true) := by
  obtain ⟨hlaned, htakes⟩ := harrival.takes hl.laned hne hnext.keyed
  obtain ⟨s', hs'⟩ : ∃ s', s' = lane key.ports l' := ⟨_, rfl⟩
  rw [← hs'] at htakes
  cases htakes with
  | other harrived hdrains =>
    obtain ⟨hsequenced, hdata⟩ := hl.drain hlaned (hs' ▸ hdrains)
    rw [harrived, List.append_nil, hdata, arrivalInOrder_none harrived]
    exact ⟨hsequenced, by simp⟩
  | @passed b harrived hnil heq =>
    rw [heq] at hs'
    have hb : b ∈ pkt.arrived key.ports := by simp [harrived]
    refine hl.put true [] [] hnext hb hlaned ?_ ?_ ?_ ?_ (hl.laned.inOrder_new hne hb hnil)
    · rw [← hs']
      exact List.Pairwise.nil
    · rw [hnil]
      rfl
    · rw [← hs', Lane.data]
      simp [lane]
    · simp
  | @opened b c harrived hnil hc heq =>
    obtain ⟨hseq, hlen, hdata⟩ := hc
    rw [heq] at hs'
    have hb : b ∈ pkt.arrived key.ports := by simp [harrived]
    refine hl.put true [] [] hnext hb hlaned ?_ ?_ ?_ ?_ (hl.laned.inOrder_new hne hb hnil)
    · rw [← hs']
      exact List.pairwise_singleton _ _
    · rw [hnil]
      rfl
    · rw [← hs', Lane.data]
      simp [lane, hdata]
    · simp
  | @dropped b flush linear A f B harrived hfound hf hwhy heq =>
    have hb : b ∈ pkt.arrived key.ports := by simp [harrived]
    have hheld : (lane key.ports l).held.flatMap (Body.data key.ports) = segsData key.ports f.segs := by
      rw [lane, hf, segsData_eq]
    have hmem : ∀ d ∈ segsData key.ports f.segs, d ∈ bs.flatMap (Body.data key.ports) := by
      intro d hd
      rw [← hheld] at hd
      exact hl.perm.subset (List.mem_append_right _ hd)
    have hcond := hfound.inOrder_eq (arrived_headed hb).2.1
    rw [hwhy, if_pos rfl] at hcond
    rw [heq] at hs'
    refine hl.put _ [] (segsData key.ports f.segs) hnext hb hlaned ?_ hheld ?_ (fun hlen => ?_) hcond
    · rw [← hs']
      exact hl.rising
    · rw [← hs', Lane.data, hheld]
      simp [lane]
    · rw [hnext.from_iff hb hlen hmem]
      simp
  | @walked b flush linear A f B w harrived hfound hf hwhy hwalk heq =>
    have hb : b ∈ pkt.arrived key.ports := by simp [harrived]
    have hports := (arrived_headed hb).2.1
    obtain ⟨hbodies, hbof, -⟩ := hl.laned.walking hne hnext.keyed hfound hwhy hwalk
    rw [hports] at hbodies hbof
    have hheld : (lane key.ports l).held.flatMap (Body.data key.ports) = segsData key.ports f.segs := by
      rw [lane, hf, segsData_eq]
    have hrising := hl.rising
    rw [lane, hf] at hrising
    have hspot : Spot base key (walker b) [] f.segs := by
      refine ⟨hbodies, staged_iff.2 hrising, bodies_nil, fun hlen x hx hxlen => ?_⟩
      have hend := hbof.window.last_eq
      have hpos : (walker b).len.toNat ≠ 0 := by bv_omega
      refine (hbodies x hx).clear hxlen (by omega) fun d hd => hnext.clear b hb hlen d (hl.perm.subset ?_)
      rw [Lane.data, hheld]
      exact List.mem_append_right _ (List.mem_flatMap.2 ⟨x, hx, hd⟩)
    have hplaced := walkSegs_placed hbof (hne f ((splitFlow_some hfound.split).1 ▸ by simp)) hspot hwalk
    obtain ⟨front, back, hsegs, hdata, hiff⟩ := hplaced.data
    have hcond := hfound.inOrder_eq hports
    rw [hwhy, if_neg Bool.false_ne_true] at hcond
    rw [heq] at hs'
    refine hl.put _ front back hnext hb hlaned ?_ (hheld.trans hsegs) ?_ (fun hlen => ?_) hcond
    · rw [← hs']
      exact staged_iff.1 (walkedFlow_staged hplaced.staged)
    · rw [← hs', Lane.data, ← segsData_eq, walkedFlow_data]
      exact hdata
    · rw [Bool.not_eq_true']
      exact hiff hlen

theorem stepLists_sequenced {c : Call} (hl : Sequenced base key bs l) (hne : ∀ f ∈ l.flows, f.segs ≠ [])
    (hnext : ∀ pkt ktime, c = .receive pkt ktime → Upcoming base key bs pkt) (hstep : stepLists l c = .ok l') :
    Sequenced base key (bs ++ c.arrived key.ports) l' ∧
      (Ascending base ((lane key.ports l').data key.ports) ↔ Ascending base ((lane key.ports l).data key.ports) ∧
        ∀ pkt ktime, c = .receive pkt ktime → arrivalInOrder key.ports l pkt = true) := by
  cases c with
  | receive pkt ktime =>
    have hclock : Sequenced base key bs { l with clock := { l.clock with ktime := ktime } } :=
      ⟨⟨⟨hl.laned.held.flows, hl.laned.held.up⟩, hl.laned.sole⟩, hl.rising, hl.perm⟩
    obtain ⟨hsequenced, hiff⟩ := Arrival.sequenced (l := { l with clock := { l.clock with ktime := ktime } }) hclock hne
      (hnext pkt ktime rfl) (receiveLists_ok hstep)
    refine ⟨hsequenced, hiff.trans (and_congr_right fun _ => ⟨fun h pkt' ktime' hc => ?_, fun h => h pkt ktime rfl⟩)⟩
    cases hc
    exact h
  | flush | clean =>
    obtain ⟨hlaned, hdrains⟩ := stepLists_drains hl.laned (fun pkt ktime => by simp) hstep
    obtain ⟨hsequenced, hdata⟩ := hl.drain hlaned hdrains
    rw [hdata]
    refine ⟨?_, fun h => ⟨h, fun pkt ktime hc => nomatch hc⟩, fun h => h.1⟩
    simpa [Call.arrived] using hsequenced

/-! ### Runs -/

theorem overtakes_erase {segs : List Segment} {inSeq : U32} :
    overtakes h b (segs.map Seg.erase) [] inSeq = overtakes h b segs [] inSeq :=
  overtakes_congr List.map_map rfl

theorem arrivalInOrder_erase : arrivalInOrder h l.erase pkt = arrivalInOrder h l pkt := by
  unfold arrivalInOrder
  cases pkt.parse with
  | other b => rfl
  | badHeader b => rfl
  | tcp b flush linear =>
    simp only [Queues.erase, splitFlow_erase fun _ => sameFlowAs_erase]
    cases splitFlow (sameFlowAs b) l.flows with
    | none => rfl
    | some r =>
      obtain ⟨A, f, B⟩ := r
      have hbodies : (f.segs.map Seg.erase).map Seg.body = f.segs.map Seg.body := List.map_map
      simp only [Option.map_some, notHeld_erase]
      rw [Flow.erase, overtakes_erase, segsData_congr hbodies]

/-- The packets of a flow that have arrived are not empty, and lie in its window. -/
theorem arrived_window {cs : List Call} (hkeyed : ∀ b ∈ arrived key.ports cs, Keyed (fun _ => base) key b) :
    ∀ d ∈ (arrived key.ports cs).flatMap (Body.data key.ports),
      partFirst base d < partLast base d ∧ partLast base d ≤ 2 ^ 30 := by
  intro d hd
  obtain ⟨b, hb, hd⟩ := List.mem_flatMap.1 hd
  obtain ⟨pkt, hpkt⟩ := mem_arrived hb
  obtain ⟨hhead, hports, -⟩ := arrived_headed hpkt
  have hbwin : b.InWindow base := (hkeyed b hb).2
  have hlen : b.len ≠ 0 := by
    intro hzero
    rw [hhead.data_nil hzero] at hd
    exact absurd hd List.not_mem_nil
  have hend := hbwin.last_eq
  have hpos : b.len.toNat ≠ 0 := by bv_omega
  obtain ⟨c, hc, hfirst, hlast⟩ := hhead.data_single hports hlen
  rw [hc, List.mem_singleton] at hd
  rw [hd, hfirst, hlast]
  exact ⟨by omega, hbwin.last_le⟩

theorem Upcoming.of_past {past : List Call} {c : Call} {cs : List Call} {ktime : ℕ → U64}
    (hkeyed : ∀ b ∈ arrived key.ports cs, Keyed (fun _ => base) key b)
    (hclear : NoOverlap base ((arrived key.ports cs).flatMap (Body.data key.ports))) (hpast : past ++ [c] <+: cs)
    (hc : c = .receive pkt ktime) : Upcoming base key (arrived key.ports past) pkt := by
  obtain ⟨rest, rfl⟩ := hpast
  have harrived : arrived key.ports (past ++ [c] ++ rest) =
      arrived key.ports past ++ pkt.arrived key.ports ++ arrived key.ports rest := by
    rw [arrived, List.flatMap_append, List.flatMap_append, List.flatMap_singleton, hc]
    rfl
  rw [harrived] at hkeyed hclear
  refine ⟨fun b hb => hkeyed b (by simp [hb]), arrived_window fun b hb => hkeyed b (by simp [hb]),
    fun b hb hlen d hd => ?_⟩
  obtain ⟨hhead, hports, -⟩ := arrived_headed hb
  obtain ⟨e, he, hfirst, hlast⟩ := hhead.data_single hports hlen
  unfold NoOverlap at hclear
  rw [List.flatMap_append, List.flatMap_append] at hclear
  have hcross := (List.pairwise_append.1 (List.pairwise_append.1 hclear).1).2.2 d hd e
    (List.mem_flatMap.2 ⟨b, hb, by simp [he]⟩)
  rwa [hfirst, hlast] at hcross

end

/-- **The packets of a flow, whatever their order of arrival, go up and are held in the order of their sequence numbers
exactly if each of them arrives in order**, and none is lost or goes up twice. -/
theorem run_resequences {base : U32} {key : FlowKey} {mem s : Mem} {cs : List Call}
    (hkeyed : ∀ b ∈ arrived key.ports cs, Keyed (fun _ => base) key b)
    (hclear : NoOverlap base ((arrived key.ports cs).flatMap (Body.data key.ports))) (hrun : run mem cs = .ok s) :
    (s.view.data key.ports).Perm ((arrived key.ports cs).flatMap (Body.data key.ports)) ∧
      (Ascending base (s.view.data key.ports) ↔
        Steps step (fun s c => keepsOrder key.ports s c = true) (netifNapiAdd mem) cs) := by
  have hlane : ∀ l : Lists, (lane key.ports l).data key.ports = l.data key.ports := by
    intro l
    rw [Lane.data, lane, ← segsData_eq]
    rfl
  have halong := Steps.iff_of_past (R := fun s past => ∃ l, Rep s l ∧ Sequenced base key (arrived key.ports past) l)
    (I := fun s => Ascending base (s.view.data key.ports)) (C := fun s c => keepsOrder key.ports s c = true) ?_ ?_
    ?_ hrun
  · obtain ⟨⟨l, hrep, hl⟩, hiff⟩ := halong
    refine ⟨?_, hiff⟩
    rw [hrep.view_eq, data_erase, ← hlane]
    exact hl.perm
  · rintro s c s' past hpast ⟨l, hrep, hl⟩ hstep
    have hagree := step_spec s l c hrep
    rw [hstep] at hagree
    obtain ⟨l', hl', hrep'⟩ := hagree.exists_ok
    have hne : ∀ f ∈ l.flows, f.segs ≠ [] := fun f hf => (hrep.links.flows f hf).ne
    obtain ⟨hsequenced, hiff⟩ := stepLists_sequenced hl hne
      (fun pkt ktime hc => Upcoming.of_past hkeyed hclear hpast hc) hl'
    have harrived : arrived key.ports (past ++ [c]) = arrived key.ports past ++ c.arrived key.ports := by
      rw [arrived, List.flatMap_append, List.flatMap_singleton]
      rfl
    refine ⟨⟨l', hrep', harrived ▸ hsequenced⟩, ?_⟩
    rw [hlane, hlane] at hiff
    rw [hrep'.view_eq, hrep.view_eq, data_erase, data_erase, hiff]
    refine and_congr_right fun _ => ?_
    cases c with
    | receive pkt ktime =>
      rw [keepsOrder, hrep.view_eq, arrivalInOrder_erase]
      refine ⟨fun h => h pkt ktime rfl, fun h pkt' ktime' hc => ?_⟩
      cases hc
      exact h
    | flush | clean =>
      refine ⟨fun _ => rfl, fun _ pkt ktime hc => ?_⟩
      cases hc
  · exact ⟨_, netifNapiAdd_rep mem, Laned.init mem, List.Pairwise.nil, List.Perm.nil⟩
  · exact List.Pairwise.nil

/-- Four packets of the flow of `secondWith`: the second one comes first, and the third one last. -/
def shuffled : List Call :=
  [.receive (.plain 1 1 7 110 10 0) fun _ => 0, .receive (.plain 0 1 7 100 10 0) fun _ => 0,
    .receive (.plain 3 1 7 130 10 0) fun _ => 0, .receive (.plain 2 1 7 120 10 0) fun _ => 0,
    .flush false 0 0 fun _ => 0]

theorem run_resequences_shuffled :
    ∃ s, run default shuffled = .ok s ∧ s.up.map (fun u => u.body.parts.map Part.seq) = [[100, 110, 120, 130]] ∧
      Ascending 0 (s.view.data secondKey.ports) := by
  have hkeyed : ∀ b ∈ arrived secondKey.ports shuffled, Keyed (fun _ => 0) secondKey b := by
    unfold Keyed
    decide +kernel
  have hclear : NoOverlap 0 ((arrived secondKey.ports shuffled).flatMap (Body.data secondKey.ports)) := by
    decide +kernel
  have hsteps : Steps step (fun s c => keepsOrder secondKey.ports s c = true) (netifNapiAdd default) shuffled := by
    decide +kernel
  have hend : (run default shuffled).map (fun s => s.up.map fun u => u.body.parts.map Part.seq) =
      .ok [[100, 110, 120, 130]] := by
    decide +kernel
  obtain ⟨s, hrun, hups⟩ := map_ok hend
  exact ⟨s, hrun, hups, (run_resequences hkeyed hclear hrun).2.2 hsteps⟩

/-- The packet that fills the hole goes up behind the one that it belongs in front of. -/
theorem not_resequences_missingPiece :
    ¬ ∀ (base : U32) (key : FlowKey) (mem s : Mem) (cs : List Call),
      (∀ b ∈ arrived key.ports cs, Keyed (fun _ => base) key b) →
      NoOverlap base ((arrived key.ports cs).flatMap (Body.data key.ports)) → run mem cs = .ok s →
      Ascending base (s.view.data key.ports) := by
  intro h
  obtain ⟨cs, hcs⟩ : ∃ cs, cs = missingPiece.map fun pkt => Call.receive pkt fun _ => 0 := ⟨_, rfl⟩
  have hkeyed : ∀ b ∈ arrived secondKey.ports cs, Keyed (fun _ => 0) secondKey b := by
    rw [hcs]
    unfold Keyed
    decide +kernel
  have hclear : NoOverlap 0 ((arrived secondKey.ports cs).flatMap (Body.data secondKey.ports)) := by
    rw [hcs]
    decide +kernel
  have hend : (run default cs).map (fun s => decide (Ascending 0 (s.view.data secondKey.ports))) = .ok false := by
    rw [hcs]
    decide +kernel
  obtain ⟨s, hrun, hdata⟩ := map_ok hend
  exact of_decide_eq_false hdata (h 0 secondKey default s cs hkeyed hclear hrun)

end PacketReordering.Linux41
