import PacketReordering.Linux318.Held
import Mathlib.Algebra.Order.BigOperators.Group.List

/-!
# `linux-3.18.5`: the queues are in order

When the sequence numbers of every flow lie in a window, the segments of a queue are in order and do not overlap, for
the flow of a packet that reaches into the next segment goes up as a whole.

* `InOrder` — the invariant of a held flow;
* `Way.inOrder` — a packet of the flow keeps it;
* `run_inOrder` — so do runs;
* `run_ordered` — what that means for the memory.
-/

namespace PacketReordering.Linux318

open Lib Gro

/-- The sequence numbers of the packet lie in the window of its flow. -/
def Packet.windowed (env : Env) (base : FlowKey → U32) (pkt : Packet) : Bool :=
  match pkt.parse env with
  | .tcp _ b _ => decide (b.InWindow (base b.flowKey))
  | _ => true

/-- The buffer is of the flow `key`, lies in its window and is not empty. -/
structure Solid (base : FlowKey → U32) (key : FlowKey) (b : Skb) : Prop where
  flow : b.flowKey = key
  window : b.InWindow (base key)
  len : 1 ≤ b.len.toNat

/-- The segments of the flow are in order. -/
def InOrder (base : FlowKey → U32) (f : Flow Stamp OfoExt) : Prop :=
  ∃ key, Bodies (Solid base key) f.segs ∧ Apart (base key) f.segs

section

variable {env : Env} {base : FlowKey → U32} {key : FlowKey} {pkt : Packet} {l l' : Lists} {k : SkbId}
  {i b c p b' p' : Skb} {f : Flow Stamp OfoExt} {x : Segment} {A B : List (Flow Stamp OfoExt)} {w : Walked} {whole : Bool}
  {clock : Clock} {segs all : List Segment} {exit : Exit} {fate : Fate}

theorem Packet.inWindow {flush : Bool} (h : pkt.windowed env base = true) (hparse : pkt.parse env = .tcp i b flush) :
    b.InWindow (base b.flowKey) := by
  unfold windowed at h
  rw [hparse] at h
  exact of_decide_eq_true h

theorem sameFlowAs_flowKey (hhead : f.segs.head? = some x) (h : sameFlowAs env b f = true) :
    b.flowKey = x.body.flowKey := by
  obtain ⟨segs, hsegs⟩ := List.head?_eq_some_iff.1 hhead
  unfold sameFlowAs at h
  rw [hsegs] at h
  simp only [Bool.and_eq_true, decide_eq_true_eq, beq_iff_eq] at h
  obtain ⟨⟨hlink, hip⟩, hports⟩ := h
  obtain ⟨hproto, hsaddr, hdaddr⟩ := (env.sameFlow_iff _ _).1 hip
  rw [Body.flowKey, Body.flowKey, hlink, hproto, hsaddr, hdaddr, hports]

theorem pull_seq : b.pull.seq = b.seq := by
  unfold Body.pull
  split <;> rfl

theorem pull_flowKey : b.pull.flowKey = b.flowKey := by
  unfold Body.pull
  split <;> rfl

theorem pull_parts : b.pull.parts = b.parts := by
  unfold Body.pull
  split <;> rfl

theorem pull_tcp : b.pull.tcp = b.tcp := by
  unfold Body.pull
  split <;> rfl

theorem pull_ext : b.pull.ext = b.ext := by
  unfold Body.pull
  split <;> rfl

theorem Solid.pull (h : Solid base key b) : Solid base key b.pull := by
  obtain ⟨hkey, hwin, hlen⟩ := h
  refine ⟨pull_flowKey.trans hkey, ?_, ?_⟩
  · rw [Body.InWindow, pull_seq, pull_len]
    exact hwin
  · rwa [pull_len]

/-- Two buffers in a row, made one. -/
theorem Solid.merge (hp : Solid base key p) (hb : Solid base key b) (hseq : p.seqEnd = b.seq)
    (hmerge : skbGroMerge p b = .merged p' b') : Solid base key p' := by
  obtain ⟨hkey, hwin, hlen⟩ := hp
  have hlast : p.last (base key) = b.first (base key) := by rw [Body.last, hseq]; rfl
  have hwinlast := hwin.last_eq
  have hbwin := hb.window
  obtain ⟨-, -, -, -, -, frags, rfl⟩ := skbGroMerge_merged hmerge
  have hadd := BitVec.toNat_add p.len b.len
  unfold Body.InWindow at hbwin
  unfold Body.first at hlast hwinlast
  have hmod : (p.len.toNat + b.len.toNat) % 2 ^ 32 = p.len.toNat + b.len.toNat := Nat.mod_eq_of_lt (by omega)
  refine ⟨hkey, ?_, ?_⟩
  · show offset (base key) p.seq + (p.len + b.len).toNat ≤ 2 ^ 30
    omega
  · show 1 ≤ (p.len + b.len).toNat
    omega

theorem solid_rule (base : FlowKey → U32) (key : FlowKey) : WalkRule (Solid base key) (Solid base key) where
  stay _ h := h
  pull _ h := h.pull
  front _ _ _ _ hb hp hseq hmerge := by
    obtain ⟨hkey, hwin, hlen⟩ := hb.merge hp hseq hmerge
    exact ⟨hkey, hwin, hlen⟩
  behind _ _ _ _ hp hb hseq hmerge := by
    obtain ⟨hkey, hwin, hlen⟩ := hp.merge hb hseq hmerge
    exact ⟨hkey, hwin, hlen⟩
  bridge _ _ _ _ hp hp3 hseq hmerge := by
    obtain ⟨hkey, hwin, hlen⟩ := hp.merge hp3 hseq hmerge
    exact ⟨hkey, hwin, hlen⟩

/-- A packet that may be held is not empty: the comparison with `mss` wraps. -/
theorem notHeld_len (h : notHeld env i b p = false) : 1 ≤ b.len.toNat := by
  unfold notHeld at h
  simp only [Bool.or_eq_false_iff, decide_eq_false_iff_not] at h
  have hmss : (tcpSkbMss p).toNat < 2 ^ 16 := by
    rw [tcpSkbMss, BitVec.toNat_setWidth]
    exact Nat.lt_of_le_of_lt (Nat.mod_le _ _) p.gsoSize.isLt
  by_contra hlen
  have hzero : b.len = 0#32 := BitVec.eq_of_toNat_eq (by simpa using hlen)
  refine h.2 ?_
  rw [hzero, BitVec.le_def]
  have hwrap : (0#32 - 1 : U32).toNat = 2 ^ 32 - 1 := by decide
  omega

/-! ### Arrivals -/

/-- A segment that lies between `pre` and `post`. -/
theorem apart_between {base : U32} {pre post : List Segment} {m n : ℕ} (hall : Apart base (pre ++ post))
    (hpre : ∀ x ∈ pre, x.body.last base ≤ m) (hfirst : x.body.first base = m) (hlast : x.body.last base = n)
    (hpost : ∀ y ∈ post, n ≤ y.body.first base) : Apart base (pre ++ x :: post) := by
  rw [← hfirst] at hpre
  rw [← hlast] at hpost
  exact apart_middle.2 ⟨hall, hpre, hpost⟩

/-- The packet in its place keeps the order. -/
theorem Placed.apart {base : U32} (h : Placed base k b exit segs all fate) (hapart : Apart base segs)
    (hexit : fate = .merged → exit ≠ .head) : Apart base all := by
  cases h with
  | refused => exact hapart
  | insert hpre hpost => exact apart_middle.2 ⟨hapart, hpre, hpost⟩
  | front hpre hseq hmerge =>
    obtain ⟨hfirst, hlast⟩ := skbGroMerge_seqEnd hseq hmerge
    obtain ⟨hall, -, hpost⟩ := apart_middle.1 hapart
    exact apart_between hall hpre (congrArg (offset base) hfirst) (congrArg (offset base) hlast) hpost
  | behind hseq hmerge hpost =>
    obtain ⟨hfirst, hlast⟩ := skbGroMerge_seqEnd hseq hmerge
    obtain ⟨hall, hpre, -⟩ := apart_middle.1 hapart
    exact apart_between hall hpre (congrArg (offset base) hfirst) (congrArg (offset base) hlast) (hpost (hexit rfl))
  | @bridge pre post p2 p3 b2 s2 b3 s3 hseq hmerge hseq' hmerge' =>
    obtain ⟨hfirst, hlast⟩ := skbGroMerge_seqEnd hseq hmerge
    have hseq3 : (addFlags b2 b.tcp.flagWord).seqEnd = p3.body.seq := hlast.trans hseq'
    obtain ⟨hfirst', hlast'⟩ := skbGroMerge_seqEnd hseq3 hmerge'
    have hfirst2 : b3.seq = p2.body.seq := hfirst'.trans hfirst
    obtain ⟨hall, hpre, -⟩ := apart_middle.1 hapart
    obtain ⟨hall, -, hpost⟩ := apart_middle.1 hall
    exact apart_between hall hpre (congrArg (offset base) hfirst2) (congrArg (offset base) hlast') hpost

theorem Walked.flow_apart {base : U32} {q : OfoId} (h : Apart base w.segs) : Apart base (w.flow k b q).segs := by
  unfold Walked.flow
  cases w.fate with
  | merged => exact h
  | normal => exact h
  | held =>
    refine h.map fun x _ => ?_
    unfold pullSeg
    split
    · exact ⟨pull_seq, pull_len⟩
    · exact ⟨rfl, rfl⟩

theorem Walked.exit_ne_head {mss : U32} (h : w.flushes b mss = false) : w.exit ≠ .head := by
  intro hexit
  unfold Walked.flushes at h
  rw [hexit] at h
  cases h

/-- The packet of a flow whose buffers are solid is solid. -/
theorem Found.solid (hfound : Found env l pkt i b A f B x) (hwin : pkt.windowed env base = true)
    (hf : Bodies (Solid base key) f.segs) (hhold : notHeld env i b x.body = false) :
    Solid base key (stampWalk l.clock (sized b x.body)) := by
  obtain ⟨flush, hparse⟩ := hfound.parse
  have hkey : b.flowKey = key :=
    (sameFlowAs_flowKey hfound.head (splitFlow_some hfound.split).2.1).trans (hf x hfound.mem_segs).flow
  have hbwin := Packet.inWindow hwin hparse
  rw [hkey] at hbwin
  exact ⟨hkey, hbwin, notHeld_len hhold⟩

/-- A packet of a flow in order keeps it in order, unless the flow goes up. -/
theorem Way.inOrder [GroComplete Stamp] (hfound : Found env l pkt i b A f B x) (hway : Way env l i b f B x c w whole clock)
    (hwin : pkt.windowed env base = true) (hf : Bodies (Solid base key) f.segs) (hapart : Apart (base key) f.segs) :
    Bodies (Solid base key) w.segs ∧ (whole = false → Apart (base key) w.segs) := by
  have hb : notHeld env i b x.body = false → Solid base key (stampWalk l.clock (sized b x.body)) :=
    hfound.solid hwin hf
  refine ⟨(Way.bodies (solid_rule base key) hway hfound.ne hb hf).segs, fun hwhole => ?_⟩
  cases hway with
  | flush hwhy => cases hwhole
  | late hhold hlate => exact apart_setHeadNext.2 hapart
  | walked hhold hlate hwalk =>
    obtain ⟨rel, hsettled⟩ := walkSegs_settled hfound.ne (hb hhold).window (hf.imp fun _ h => h.window) hapart hwalk
    have hall := hsettled.placed.apart (apart_erased.2 hapart) fun _ => Walked.exit_ne_head hwhole
    rw [apart_erased] at hall
    exact (apart_append.1 hall).2.1

theorem newFlow_solid {x : FreeQueue OfoExt} {rest : List (FreeQueue OfoExt)} {since : ℕ}
    (hold : Holdable env l pkt b x rest) (hwin : pkt.windowed env base = true) :
    Bodies (Solid base b.flowKey) (newFlow x k b clock since).segs := by
  obtain ⟨i, flush, hparse, hwhy⟩ := hold.parse
  have hlen := (Bool.or_eq_false_iff.1 hwhy).2
  rw [decide_eq_false_iff_not, BitVec.lt_def] at hlen
  have hb : Solid base b.flowKey { stampNew clock b with gsoSize := BitVec.ofNat 16 b.groLen } :=
    ⟨rfl, Packet.inWindow hwin hparse, Nat.le_of_not_lt hlen⟩
  exact bodies_cons.2 ⟨hb.pull, bodies_nil⟩

theorem inOrder_flowRule [GroComplete Stamp] (hwin : pkt.windowed env base = true) : FlowRule env l pkt (InOrder base) where
  fresh b x rest hold hlate := ⟨b.flowKey, newFlow_solid hold hwin, List.pairwise_singleton _ _⟩
  found i b c A f B p w clock hfound hway := by
    rintro ⟨key, hf, hapart⟩
    obtain ⟨hbodies, hw⟩ := hway.inOrder hfound hwin hf hapart
    exact ⟨key, Walked.flow_bodies (solid_rule base key).pull hbodies, Walked.flow_apart (hw rfl)⟩

theorem completeFlow_inOrder [GroComplete Stamp] {n : Option SkbId} {timeout timestamp : U64}
    {r : Dat × List (Up Stamp) × List Segment}
    (hr : completeFlow timeout timestamp f.dat (setHeadNext n f.segs) = r) (h : InOrder base f) :
    InOrder base ⟨f.q, r.1, r.2.2⟩ := by
  obtain ⟨key, hf, hapart⟩ := h
  have hsuffix := completeFlow_suffix timeout timestamp f.dat (setHeadNext n f.segs)
  rw [hr] at hsuffix
  obtain ⟨rel, hrel⟩ := hsuffix
  have hapart' : Apart (base key) (setHeadNext n f.segs) := apart_setHeadNext.2 hapart
  have hf' : Bodies (Solid base key) (setHeadNext n f.segs) := bodies_setHeadNext.2 hf
  rw [← hrel] at hapart' hf'
  exact ⟨key, (bodies_append.1 hf').2, (apart_append.1 hapart').2.1⟩

theorem stepLists_inOrder {c : Call} (h : ∀ f ∈ l.flows, InOrder base f) (hne : ∀ f ∈ l.flows, f.segs ≠ [])
    (hc : c.Meets fun pkt _ => pkt.windowed env base = true) (hstep : stepLists env l c = .ok l') :
    ∀ f ∈ l'.flows, InOrder base f := by
  let _ := env.groComplete
  cases c with
  | receive pkt clock =>
    have harrival := @receiveLists_ok env { l with clock := clock } _ _ _ hne hstep
    exact harrival.forall_flows (l := { l with clock := clock }) (inOrder_flowRule hc) h
  | flush flushOld clock =>
    cases hstep
    exact flushLists_forall_flows _ (fun f n timestamp r hr _ hf => completeFlow_inOrder hr hf) h
  | clean clock =>
    cases hstep
    exact h

/-- **The queues are in order after every run.** -/
theorem run_inOrder {mem s : Mem} {cs : List Call} (hwin : ∀ c ∈ cs, c.Meets fun pkt _ => pkt.windowed env base = true)
    (hrun : run env mem cs = .ok s) : ∃ l, Rep s l ∧ ∀ f ∈ l.flows, InOrder base f := by
  refine runFrom_mem_invariant (I := fun s => ∃ l, Rep s l ∧ ∀ f ∈ l.flows, InOrder base f) ?_
    ⟨_, netifNapiAdd_rep mem, fun f hf => absurd hf List.not_mem_nil⟩ hrun
  rintro s c s' hc ⟨l, hrep, hl⟩ hs'
  have hagree := step_spec env s l c hrep
  rw [hs'] at hagree
  obtain ⟨l', hl', hrep'⟩ := hagree.exists_ok
  exact ⟨l', hrep', stepLists_inOrder hl (fun f hf => (hrep.links.flows f hf).ne) (hwin c hc) hl'⟩

end

/-! ### The memory -/

/-- The queue object `q` whose flow has the entry `i` of `gro_list`: `ids` are its segments, linked up in order. -/
structure OrderedQueue (s : Mem) (i : SkbId) (q : OfoId) (ids : List SkbId) : Prop where
  queue : s.outOfOrderQueue i = some q
  next : Chain s.cbNext (s.ofoNext q) ids none
  prev : Chain s.cbPrev (s.ofoPrev q) ids.reverse none
  head : ids.head? = some i
  len : ∀ j ∈ ids, 1 ≤ (s.body j).len.toNat
  apart : ids.Pairwise fun j j' => after (s.body j).seqEnd (s.body j').seq = false
  qlen : (s.qlen q).toNat = (ids.map fun j => (s.body j).len.toNat).sum
  skbNum : (s.skbNum q).toNat = ids.length

theorem InOrder.orderedQueue {base : FlowKey → U32} {s : Mem} {f : Flow Stamp OfoExt} {i : SkbId}
    (hf : InOrder base f) (h : Holds s f) (hi : f.ids.head? = some i) : OrderedQueue s i f.q f.ids := by
  obtain ⟨key, hbodies, hapart⟩ := hf
  have hbody : ∀ x ∈ f.segs, s.body x.id = x.body := h.rep.body
  have hlens : f.ids.map (fun j => (s.body j).len.toNat) = f.segs.map fun x => x.body.len.toNat := by
    rw [Flow.ids, segIds, List.map_map]
    exact List.map_congr_left fun x hx => by rw [Function.comp, hbody x hx]
  have hsum : (f.segs.map fun x => x.body.len.toNat).sum ≤ 2 ^ 30 := by
    have hle := hapart.sum_len_le (fun x hx => (hbodies x hx).window) (Nat.zero_le _) fun x _ => Nat.zero_le _
    omega
  have hlength : f.segs.length ≤ (f.segs.map fun x => x.body.len.toNat).sum := by
    have hle := List.length_le_sum_of_one_le (f.segs.map fun x => x.body.len.toNat) fun n hn => by
      obtain ⟨x, hx, rfl⟩ := List.mem_map.1 hn
      exact (hbodies x hx).len
    rwa [List.length_map] at hle
  refine ⟨?_, ?_, ?_, hi, ?_, ?_, ?_, ?_⟩
  · obtain ⟨x, hx, rfl⟩ := List.mem_map.1 (List.mem_of_head? hi)
    exact h.rep.queue x hx
  · have hchain := chain_of_dll h.rep.dll
    rwa [Option.or_none, ← Flow.ids, ← h.next] at hchain
  · have hchain := h.rep.dll.chain_reverse
    rwa [Option.or_none, ← Flow.ids, ← h.prev] at hchain
  · intro j hj
    obtain ⟨x, hx, rfl⟩ := List.mem_map.1 hj
    rw [hbody x hx]
    exact (hbodies x hx).len
  · rw [Flow.ids, segIds, List.pairwise_map]
    refine hapart.imp_of_mem fun {x y} hx hy hxy => ?_
    rw [hbody x hx, hbody y hy]
    exact (before_eq_false_iff (hbodies y hy).window.first_le_window (hbodies x hx).window.last_le).2 hxy
  · rw [h.rep.qlen, hlens]
    exact totalLen_toNat (by omega)
  · rw [h.rep.skbNum, Flow.ids, segIds_length, BitVec.toNat_ofNat]
    exact Nat.mod_eq_of_lt (by omega)

/-- **The queue of every entry of `gro_list` is in order** after every run in which the sequence numbers of each flow lie
in a window. -/
theorem run_ordered {env : Env} {base : FlowKey → U32} {mem s : Mem} {cs : List Call}
    (hwin : ∀ c ∈ cs, c.Meets fun pkt _ => pkt.windowed env base = true) (hrun : run env mem cs = .ok s) :
    ∃ entries, Chain s.next s.groList entries none ∧ ∀ i ∈ entries, ∃ q ids, OrderedQueue s i q ids := by
  obtain ⟨l, hrep, hl⟩ := run_inOrder hwin hrun
  refine ⟨heads l.flows, hrep.links.chain, fun i hi => ?_⟩
  obtain ⟨f, hf, hhead⟩ := List.mem_filterMap.1 hi
  exact ⟨f.q, f.ids, (hl f hf).orderedQueue (hrep.links.flows f hf) hhead⟩

/-- A packet fills a hole between two segments in part. -/
def partFill : List Call :=
  [.receive (.plain 0 1 7 1000 100 0) ⟨fun _ => 0, fun _ => 1⟩, .receive (.plain 1 1 7 1300 100 0) ⟨fun _ => 10, fun _ => 1⟩,
    .receive (.plain 2 1 7 1150 100 0) ⟨fun _ => 20, fun _ => 1⟩]

theorem run_ordered_partFill :
    ∃ s, run .inet default partFill = .ok s ∧ s.view.flows.map (fun f => f.segs.map fun x => (x.body.seq, x.body.len)) =
      [[(1000, 100), (1150, 100), (1300, 100)]] ∧
      ∃ entries, Chain s.next s.groList entries none ∧ ∀ i ∈ entries, ∃ q ids, OrderedQueue s i q ids := by
  have hend : (run .inet default partFill).map
      (fun s => s.view.flows.map fun f => f.segs.map fun x => (x.body.seq, x.body.len)) =
      .ok [[(1000, 100), (1150, 100), (1300, 100)]] := by decide +kernel
  have hwin : ∀ c ∈ partFill, c.Meets fun pkt _ => pkt.windowed .inet (fun _ => 0) = true := by decide +kernel
  cases hrun : run .inet default partFill with
  | error e =>
    rw [hrun] at hend
    cases hend
  | ok s =>
    rw [hrun] at hend
    exact ⟨s, rfl, by simpa [Except.map] using hend, run_ordered hwin hrun⟩

end PacketReordering.Linux318
