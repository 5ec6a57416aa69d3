import PacketReordering.Linux41.Recent

/-!
# `linux-4.1`: the build-up flag

`ofo_queue->flushed` says that a flow has left its build-up phase, in which `seq_next` may still be lowered.  `kmalloc`
leaves it as it is and so does the search for a queue object, so that it has to be written when the object is given to
a flow.

* `ReadsWritten` — it is read only when it has been written since the queue object was given to the flow;
* `marksFlow` — the packet does not open its flow without payload;
* `Marked` — what holds of the flag of a queue object that is not in use;
* `run_readsWritten` — no step of a run reads what was not written, if none opens a flow without payload;
* `not_readsWritten_emptyFirst` — a flow that begins with an empty segment.
-/

namespace PacketReordering.Linux41

open Lib Gro

/-- No flag was read before it was written.  Those of the flows are written, so that the next call may read them, also when
it does not return. -/
structure ReadsWritten (s : Mem) : Prop where
  flows : ∀ f ∈ s.view.flows, f.dat.ext.flushed.Ready
  free : ∀ x ∈ s.view.free, x.dat.ext.flushed.Sound

/-! ### The packets that open a flow -/

/-- The first free queue object that fits is the one of the packet's flow, or the packet has payload, so that `seq_next`
moves when it goes up.  A queue object whose hash becomes 0 is not given to a flow. -/
def opensMarked (free : List (FreeQueue OfoExt)) (b : Skb) : Bool :=
  (free.find? fun x => fitsHash b.tcpHash x.dat.hash).any (fun x => x.dat.hash != 0) || b.tcpHash == 0 ||
    before b.seq b.seqEnd

/-- The packet does not open its flow with nothing to hold. -/
def marksFlow (s : Mem) : Call → Bool
  | .receive pkt _ =>
    match pkt.parse with
    | .other _ => true
    | .badHeader b => opensMarked s.view.free b
    | .tcp b flush linear =>
      (splitFlow (sameFlowAs b) s.view.flows).isSome ||
        !(flush || decide (b.groLen < 1) || hasFlag b.tcp.flagWord flushFlags || linear) || opensMarked s.view.free b
  | _ => true

/-! ### The flag of a queue object -/

/-- The flag of a queue object that is not in use: it is written if the object still belongs to a flow. -/
structure Marked (d : Dat) : Prop where
  sound : d.ext.flushed.Sound
  ready : d.hash ≠ 0 → d.ext.flushed.Ready

section

variable {d : Dat} {b : Skb} {clock : Clock} {timestamp : U64} {f : Flow GsoEnd OfoExt} {flush linear : Bool}

theorem Marked.of_ready (h : d.ext.flushed.Ready) : Marked d := ⟨h.sound, fun _ => h⟩

theorem normalDat_ready (h : d.ext.flushed.Ready) : (normalDat d clock b).1.ext.flushed.Ready := by
  rw [normalDat_dat]
  split
  · exact h.sound.write
  · exact h

/-- When `seq_next` moves, the flag is written. -/
theorem normalDat_moved (h : d.ext.flushed.Sound) (hmove : before d.seqNext b.seqEnd = true) :
    (normalDat d clock b).1.ext.flushed.Ready := by
  rw [normalDat_dat, if_pos hmove]
  exact h.write

theorem normalDat_sound (h : d.ext.flushed.Sound) : (normalDat d clock b).1.ext.flushed.Sound := by
  rw [normalDat_dat]
  split
  · exact h.write.sound
  · exact h

/-- An object that goes to a flow whose first packet is not held keeps its flag unless that packet has payload. -/
theorem Marked.flushDat (h : Marked d) (hopens : d.hash = 0 → b.tcpHash ≠ 0 → before b.seq b.seqEnd = true) :
    Marked (normalDat (flushDat d b timestamp) clock b).1 := by
  by_cases hzero : d.hash = 0#32
  · rw [flushDat_unassigned hzero]
    refine ⟨normalDat_sound Tracked.sound_renew, fun hhash => ?_⟩
    rw [normalDat_dat_hash] at hhash
    exact normalDat_moved Tracked.sound_renew (hopens hzero hhash)
  · rw [flushDat_assigned hzero]
    exact Marked.of_ready (normalDat_ready (h.ready hzero))

/-- An object that goes to a flow whose first packet may be held gets its flag written. -/
theorem Marked.takenDat_ready (h : Marked d) : (takenDat d b timestamp).ext.flushed.Ready := by
  rw [takenDat]
  split
  · exact Tracked.sound_renew.write
  · rename_i hzero
    exact h.ready hzero

theorem readFlushed_eq (h : d.ext.flushed.Ready) : readFlushed d = d := by
  rw [readFlushed, h.read_eq]

theorem dropDat_ready (h : f.dat.ext.flushed.Ready) : (dropDat f b flush linear).ext.flushed.Ready := by
  rw [dropDat, readFlushed_eq h, ite_self]
  exact h

theorem walkDat_ready (h : d.ext.flushed.Ready) : (walkDat d b).ext.flushed.Ready := by
  rw [walkDat, readFlushed_eq h]
  split <;> exact h

theorem release_ready {tr : Track} (rel : List Segment) (h : tr.dat.ext.flushed.Ready) :
    (tr.release rel).dat.ext.flushed.Ready := by
  unfold Track.release
  split
  · exact h
  · have hext := flushSegs_ext { tr.dat with ext := tr.dat.ext.setFlushed (tr.clock.ktime 0) } rel
    rw [Track.flush, hext]
    exact h.sound.write

theorem walkedFlow_ready {n : Option SkbId} {k : SkbId} {segs : List Segment} {inSeq : U32} {tr : Track} {q : OfoId}
    {w : Walked} (h : tr.dat.ext.flushed.Ready) (hwalk : walkSegs n k (walker b) segs [] inSeq tr = .ok w) :
    (walkedFlow k b q w).dat.ext.flushed.Ready := by
  have hw : w.track.dat.ext.flushed.Ready :=
    walkSegs_track (R := fun tr => tr.dat.ext.flushed.Ready) (fun _ => release_ready) h hwalk
  unfold walkedFlow
  cases w.fate with
  | held | merged => exact hw
  | normal => exact normalDat_ready hw

theorem completeFlow_ready {flushOld : Bool} {groOfoTimeout groInseqTimeout : U64} {segs : List Segment}
    (h : d.ext.flushed.Ready) :
    (completeFlow flushOld groOfoTimeout groInseqTimeout timestamp d segs).1.ext.flushed.Ready := by
  have hstamp : ∀ r : Dat × List (Up GsoEnd) × List Segment, r.1.ext.flushed.Ready →
      (stamp timestamp r).1.ext.flushed.Ready := by
    intro r hr
    unfold stamp
    split
    · exact hr
    · exact hr.sound.write
  have hcomplete : ∀ cond, (completeSegs cond d segs).1.ext.flushed.Ready := by
    intro cond
    rw [completeSegs_ext]
    exact h
  cases segs with
  | nil => exact h
  | cons p segs =>
    simp only [completeFlow, ← stamp.eq_def]
    split
    · exact hstamp _ (hcomplete _)
    · split
      · exact hstamp _ (hcomplete _)
      · exact hstamp _ h

end

/-! ### The flags of all queue objects -/

/-- The flag is written in the queue objects that belong to a flow. -/
structure Covered (l : Lists) : Prop where
  flows : ∀ f ∈ l.flows, f.dat.ext.flushed.Ready
  free : ∀ x ∈ l.free, Marked x.dat

section

variable {l l' : Lists} {pkt : Packet} {b : Skb} {x : FreeQueue OfoExt} {rest : List (FreeQueue OfoExt)}
  {A B : List (Flow GsoEnd OfoExt)}

theorem opensMarked_of_unassigned (hmark : opensMarked l.free b = true)
    (hqueue : findFree (fitsHash b.tcpHash) resetOfo l.free = some (x, rest)) (hzero : x.dat.hash = 0)
    (hhash : b.tcpHash ≠ 0) : before b.seq b.seqEnd = true := by
  have hfirst : (l.free.find? fun x => fitsHash b.tcpHash x.dat.hash).any (fun x => x.dat.hash != 0) = false := by
    obtain ⟨xs, y, ys, hfree, -, hxs, hy⟩ := findFree_some hqueue
    have hnone : xs.find? (fun x => fitsHash b.tcpHash x.dat.hash) = none :=
      List.find?_eq_none.2 fun z hz => by rw [hxs z hz]; exact Bool.false_ne_true
    rw [hfree, List.find?_append, hnone, Option.none_or]
    rcases hy with ⟨hfits, rfl⟩ | ⟨hfits, rfl, -⟩
    · rw [List.find?_cons, hfits]
      simp [hzero]
    · simp [hfits]
  rw [opensMarked, hfirst, beq_false_of_ne hhash, Bool.false_or, Bool.false_or] at hmark
  exact hmark

/-- The packet `pkt` does not open its flow with nothing to hold. -/
def opensFlow (l : Lists) (pkt : Packet) : Prop := ∀ b, Unheld l pkt b → opensMarked l.free b = true

theorem walkedLists_free {k : SkbId} {q : OfoId} {w : Walked} : (walkedLists l k b A B q w).free = l.free := by
  unfold walkedLists
  cases w.fate <;> rfl

/-- The queue object that is taken, and those that stay. -/
theorem Covered.taken (h : Covered l) (hqueue : findFree (fitsHash b.tcpHash) resetOfo l.free = some (x, rest)) :
    Marked x.dat ∧ ∀ y ∈ rest, Marked y.dat := by
  refine ⟨?_, fun y hy => h.free y ((findFree_sublist hqueue).subset hy)⟩
  obtain ⟨xs, y, ys, hfree, -, -, hx⟩ := findFree_some hqueue
  have hy : Marked y.dat := h.free y (hfree ▸ by simp)
  rcases hx with ⟨-, rfl⟩ | ⟨-, -, rfl⟩
  · exact hy
  · exact ⟨hy.sound, fun hhash => absurd rfl hhash⟩

theorem Covered.arrival (h : Covered l) (hmark : opensFlow l pkt) (harrival : Arrival l pkt l') : Covered l' := by
  cases harrival with
  | other hparse => exact ⟨h.flows, h.free⟩
  | @unheld b x rest hwhy hqueue =>
    obtain ⟨hx, hrest⟩ := h.taken hqueue
    refine ⟨h.flows, List.forall_mem_cons.2 ⟨hx.flushDat fun hzero hhash => ?_, hrest⟩⟩
    exact opensMarked_of_unassigned (hmark b hwhy) hqueue hzero hhash
  | @late b x rest hold hlate =>
    obtain ⟨hx, hrest⟩ := h.taken hold.queue
    exact ⟨h.flows, List.forall_mem_cons.2 ⟨Marked.of_ready (normalDat_ready hx.takenDat_ready), hrest⟩⟩
  | @fresh b x rest hold hlate hfull =>
    obtain ⟨hx, hrest⟩ := h.taken hold.queue
    exact ⟨List.forall_mem_cons.2 ⟨hx.takenDat_ready, h.flows⟩, hrest⟩
  | @evict b x rest P g hold hlate hP hfull =>
    obtain ⟨hx, hrest⟩ := h.taken hold.queue
    have hflows := h.flows
    rw [hP] at hflows
    refine ⟨List.forall_mem_cons.2 ⟨hx.takenDat_ready, fun f hf => hflows f (List.mem_append_left _ hf)⟩, ?_⟩
    exact List.forall_mem_cons.2 ⟨Marked.of_ready (completeFlow_ready (hflows g (by simp))), hrest⟩
  | @drop b flush linear A B f hfound hwhy =>
    have hf := (splitFlow_some hfound.split).1
    have hready : f.dat.ext.flushed.Ready := h.flows f (hf ▸ by simp)
    exact ⟨forall_mem_replace hf h.flows (normalDat_ready (dropDat_ready hready)), h.free⟩
  | @walked b flush linear A B f w hfound hwhy hwalk =>
    have hf := (splitFlow_some hfound.split).1
    have hready : f.dat.ext.flushed.Ready := h.flows f (hf ▸ by simp)
    constructor
    · rw [walkedLists_flows]
      exact forall_mem_replace hf h.flows (walkedFlow_ready (walkDat_ready hready) hwalk)
    · rw [walkedLists_free]
      exact h.free

theorem flushLists_covered (flushOld : Bool) (groOfoTimeout groInseqTimeout : U64) (h : Covered l) :
    Covered (flushLists l flushOld groOfoTimeout groInseqTimeout) := by
  have hfold : ∀ (fs : List (Flow GsoEnd OfoExt)) (l : Lists), (∀ f ∈ fs, f.dat.ext.flushed.Ready) → Covered l →
      Covered (fs.foldr (flushFlow flushOld groOfoTimeout groInseqTimeout) l) := by
    intro fs l hfs hl
    induction fs with
    | nil => exact hl
    | cons f fs ih =>
      obtain ⟨hf, hfs⟩ := List.forall_mem_cons.1 hfs
      have hrest := ih hfs
      rw [List.foldr_cons, flushFlow]
      simp only
      split
      · exact ⟨hrest.flows, List.forall_mem_cons.2 ⟨Marked.of_ready (completeFlow_ready hf), hrest.free⟩⟩
      · exact ⟨List.forall_mem_cons.2 ⟨completeFlow_ready hf, hrest.flows⟩, hrest.free⟩
  exact hfold _ _ h.flows ⟨fun f hf => absurd hf List.not_mem_nil, h.free⟩

theorem cleanLists_covered (h : Covered l) : Covered (cleanLists l) := by
  refine ⟨h.flows, fun x hx => ?_⟩
  obtain ⟨y, hy, rfl⟩ := List.mem_map.1 hx
  unfold cleanQueue
  split
  · exact ⟨(h.free y hy).sound, fun hhash => absurd rfl hhash⟩
  · exact h.free y hy

end

/-! ### Calls and runs -/

/-- The lists between two calls. -/
def Assigned (s : Mem) : Prop := ∃ l, Rep s l ∧ Covered l

section

variable {s s' : Mem} {l : Lists} {c : Call}

theorem opensFlow_of_marksFlow {pkt : Packet} {ktime : ℕ → U64} (hrep : Rep s l)
    (hmark : marksFlow s (.receive pkt ktime) = true) :
    opensFlow { l with clock := { l.clock with ktime := ktime } } pkt := by
  intro b hwhy
  rw [marksFlow, hrep.view_eq] at hmark
  cases hwhy with
  | badHeader hparse =>
    rw [hparse] at hmark
    exact hmark
  | tcp hparse hsplit hwhy =>
    have hnone : splitFlow (sameFlowAs b) l.erase.flows = none := by
      have hsplit' : splitFlow (sameFlowAs b) l.flows = none := hsplit
      rw [Queues.erase, splitFlow_erase (fun _ => sameFlowAs_erase), hsplit']
      rfl
    simp only [hparse, hnone, hwhy, Option.isSome_none, Bool.not_true, Bool.or_false, Bool.false_or] at hmark
    exact hmark

theorem Assigned.step (h : Assigned s) (hmark : marksFlow s c = true) (hstep : step s c = .ok s') : Assigned s' := by
  obtain ⟨l, hrep, hl⟩ := h
  have hagree := step_spec s l c hrep
  rw [hstep] at hagree
  obtain ⟨l', hl', hrep'⟩ := hagree.exists_ok
  refine ⟨l', hrep', ?_⟩
  cases c with
  | receive pkt ktime =>
    have hclock : Covered { l with clock := { l.clock with ktime := ktime } } := ⟨hl.flows, hl.free⟩
    exact hclock.arrival (opensFlow_of_marksFlow hrep hmark) (receiveLists_ok hl')
  | flush flushOld groOfoTimeout groInseqTimeout ktime =>
    cases hl'
    exact flushLists_covered _ _ _ ⟨hl.flows, hl.free⟩
  | clean ktime =>
    cases hl'
    exact cleanLists_covered ⟨hl.flows, hl.free⟩

theorem Assigned.init (mem : Mem) : Assigned (netifNapiAdd mem) := by
  refine ⟨_, netifNapiAdd_rep mem, fun f hf => absurd hf List.not_mem_nil, fun x hx => ?_⟩
  obtain ⟨q, -, rfl⟩ := List.mem_map.1 hx
  exact ⟨Tracked.sound_renew, fun hhash => absurd rfl hhash⟩

theorem Assigned.readsWritten (h : Assigned s) : ReadsWritten s := by
  obtain ⟨l, hrep, hl⟩ := h
  constructor
  · intro f hf
    rw [hrep.view_eq] at hf
    obtain ⟨g, hg, rfl⟩ := List.mem_map.1 hf
    exact hl.flows g hg
  · intro x hx
    rw [hrep.view_eq] at hx
    exact (hl.free x hx).sound

end

/-- **The flag is read only when it was written for the flow**, in a run in which no flow is opened with nothing to
hold. -/
theorem run_readsWritten {mem s : Mem} {cs : List Call}
    (hsteps : Steps step (fun s c => marksFlow s c = true) (netifNapiAdd mem) cs) (hrun : run mem cs = .ok s) :
    ReadsWritten s :=
  (Steps.always (fun _ _ _ h hmark hstep => Assigned.step h hmark hstep) (Assigned.init mem) hsteps hrun).readsWritten

/-- A packet of the flow, a later one that is held, and one that comes before both. -/
def threeOf (len : ℕ) : List Call :=
  [.receive (.plain 0 1 7 1000 len 0) fun _ => 0, .receive (.plain 1 1 7 1100 100 0) fun _ => 0,
    .receive (.plain 2 1 7 950 50 0) fun _ => 0]

/-- With ten bytes the first packet of the flow writes the flag that the third one reads, so that `seq_next` is lowered. -/
theorem run_readsWritten_threeOf :
    ∃ s, run default (threeOf 10) = .ok s ∧ ReadsWritten s ∧ s.view.flows.map (fun f => f.dat.seqNext) = [950] := by
  have hsteps : Steps step (fun s c => marksFlow s c = true) (netifNapiAdd default) (threeOf 10) := by decide +kernel
  have hend : (run default (threeOf 10)).map (fun s => s.view.flows.map fun f => f.dat.seqNext) = .ok [950] := by
    decide +kernel
  obtain ⟨s, hrun, hseq⟩ := map_ok hend
  exact ⟨s, hrun, run_readsWritten hsteps hrun, hseq⟩

/-- Without payload it does not, and the third one reads what was in the memory. -/
theorem not_readsWritten_emptyFirst :
    ¬ ∀ (mem s : Mem) (cs : List Call), run mem cs = .ok s → ReadsWritten s := by
  intro h
  have hend : (run default (threeOf 0)).map (fun s => s.view.flows.map fun f => f.dat.ext.flushed.stale) = .ok [true] := by
    decide +kernel
  obtain ⟨s, hrun, hstale⟩ := map_ok hend
  obtain ⟨f, hflows, hf⟩ := List.map_eq_singleton_iff.1 hstale
  have hsound : f.dat.ext.flushed.stale = false := ((h default s _ hrun).flows f (hflows ▸ by simp)).sound
  exact absurd (hf.symm.trans hsound) (by decide)

end PacketReordering.Linux41
