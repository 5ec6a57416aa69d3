import PacketReordering.Linux318.Ordering

/-!
# `linux-3.18.5`: `seq_next` and what was delivered

From the moment when a queue object is given to a flow, its `seq_next` is the serial maximum of the sequence number with
which the flow began and of the ends of everything that left through the queue.  All of that was delivered, unless
`gro_complete` reported an error.

* `released`, `delivered`, `SerialMax` — the ends, and what the maximum is;
* `Current` — the invariant of a queue object that a flow has;
* `Tracked` — the invariant of all queue objects;
* `Given` — the queue object that a packet finds.
-/

namespace PacketReordering.Linux318

open Lib Gro

/-- The buffer carries a TCP packet with the ports `h` that receive offload has looked at. -/
def through (h : U32) (u : Up Stamp) : Bool := u.body.parts.any fun c => c.isTcp && c.ports == h

/-- The ends of what left through the queue object with the data `d` since its flow has it. -/
def released (up : List (Up Stamp)) (d : Dat) : List U32 :=
  ((up.drop d.ext.since).filter (through d.hash)).map fun u => u.body.seqEnd

/-- `n` is the serial maximum of `ns`. -/
def SerialMax (n : U32) (ns : List U32) : Prop := n ∈ ns ∧ ∀ m ∈ ns, before n m = false

/-- `seq_next` of a queue object with the data `d` is up to date. -/
structure Current (base : U32) (up : List (Up Stamp)) (d : Dat) : Prop where
  since : d.ext.since ≤ up.length
  tops : Tops base d.seqNext (d.ext.origin :: released up d)

/-- The buffer has the ports `h` and carries TCP packets with these ports only. -/
structure Ported (h : U32) (b : Skb) : Prop where
  ports : b.tcp.ports = h
  parts : b.parts ≠ []
  tcp : ∀ c ∈ b.parts, c.isTcp = true ∧ c.ports = h

/-- The buffer is a held one of the flow with the ports `h`. -/
structure Carries (base : FlowKey → U32) (key : U32 → FlowKey) (h : U32) (b : Skb) : Prop where
  solid : Solid base (key h) b
  ported : Ported h b

section

variable {env : Env} {base : FlowKey → U32} {key : U32 → FlowKey} {pkt : Packet} {l l' : Lists} {k : SkbId}
  {i b c p b' p' : Skb} {f : Flow Stamp OfoExt} {x : Segment} {A B : List (Flow Stamp OfoExt)} {w : Walked} {whole : Bool}
  {clock : Clock} {segs rel all : List Segment} {win n m h : U32} {ns ms : List U32} {d : Dat} {up us : List (Up Stamp)}

/-! ### Maxima -/

theorem tops_maxSeq (ht : Tops win n ns) (hm : offset win m ≤ 2 ^ 30) : Tops win (maxSeq n m) (ns ++ [m]) := by
  have hraise := ht.raise hm
  simpa only [Gro.maxSeq, before, decide_eq_true_eq] using hraise

/-! ### What goes up -/

@[simp] theorem complete_seqEnd : b.complete.seqEnd = b.seqEnd := by
  unfold Body.complete
  split <;> rfl

theorem Ported.through {u : Up Stamp} (hb : Ported h b) (hu : u.body.parts = b.parts) :
    Linux318.through h u = true := by
  obtain ⟨c, hc⟩ := List.exists_mem_of_ne_nil _ hb.parts
  unfold Linux318.through
  rw [hu, List.any_eq_true]
  exact ⟨c, hc, by simpa using hb.tcp c hc⟩

/-- A buffer of the flow does not go through another queue. -/
theorem Ported.not_through {u : Up Stamp} (hb : Ported h b) (hu : u.body.parts = b.parts) (hn : n ≠ h) :
    Linux318.through n u = false := by
  unfold Linux318.through
  rw [hu, List.any_eq_false]
  intro c hc
  have hports := (hb.tcp c hc).2
  rw [← hports] at hn
  simpa using fun _ => hn.symm

theorem carries_rule (base : FlowKey → U32) (key : U32 → FlowKey) (h : U32) :
    WalkRule (Carries base key h) (Carries base key h) := by
  have hmerge : ∀ p b p' b' : Skb, Carries base key h p → Carries base key h b → p.seqEnd = b.seq →
      skbGroMerge p b = .merged p' b' → Carries base key h p' := by
    rintro p b p' b' ⟨hp, hports, hparts, htcp⟩ ⟨hb, -, -, hbtcp⟩ hseq hmerge
    have hsolid := hp.merge hb hseq hmerge
    obtain ⟨-, -, -, -, -, frags, rfl⟩ := skbGroMerge_merged hmerge
    exact ⟨hsolid, hports, by simp [Body.append, hparts], List.forall_mem_append.2 ⟨htcp, hbtcp⟩⟩
  refine ⟨fun _ hb => hb, ?_, ?_, ?_, ?_⟩
  · rintro b ⟨hsolid, hports, hparts, htcp⟩
    refine ⟨hsolid.pull, ?_, by rwa [pull_parts], by rwa [pull_parts]⟩
    rwa [pull_tcp]
  · intro b p b' p' hb hp hseq hm
    obtain ⟨⟨hflow, hwin, hlen⟩, hports, hparts, htcp⟩ := hmerge _ _ _ _ hb hp hseq hm
    exact ⟨⟨hflow, hwin, hlen⟩, hports, hparts, htcp⟩
  · intro p b p' b' hp hb hseq hm
    obtain ⟨⟨hflow, hwin, hlen⟩, hports, hparts, htcp⟩ := hmerge _ _ _ _ hp hb hseq hm
    exact ⟨⟨hflow, hwin, hlen⟩, hports, hparts, htcp⟩
  · intro p p3 p' s' hp hp3 hseq hm
    obtain ⟨⟨hflow, hwin, hlen⟩, hports, hparts, htcp⟩ := hmerge _ _ _ _ hp hp3 hseq hm
    exact ⟨⟨hflow, hwin, hlen⟩, hports, hparts, htcp⟩

/-! ### `seq_next` and what goes up -/

theorem released_append (hsince : d.ext.since ≤ up.length) :
    released (up ++ us) d = released up d ++ (us.filter (through d.hash)).map fun u => u.body.seqEnd := by
  rw [released, List.drop_append_of_le_length hsince, List.filter_append, List.map_append]
  rfl

theorem released_since_length (hsince : d.ext.since = up.length) : released up d = [] := by
  rw [released, hsince, List.drop_length]
  rfl

/-- What goes through other queues does not matter. -/
theorem Current.others (hd : Current win up d) (hus : ∀ u ∈ us, through d.hash u = false) : Current win (up ++ us) d := by
  obtain ⟨hsince, htops⟩ := hd
  refine ⟨Nat.le_trans hsince (by simp), ?_⟩
  have hnone : us.filter (through d.hash) = [] := List.filter_eq_nil_iff.2 fun u hu => by simp [hus u hu]
  rwa [released_append hsince, hnone, List.map_nil, List.append_nil]

/-- Only the hash, the number and the two records matter. -/
theorem Current.congr {e : Dat} (hd : Current win up d) (hhash : e.hash = d.hash) (hseq : e.seqNext = d.seqNext)
    (horigin : e.ext.origin = d.ext.origin) (hsince : e.ext.since = d.ext.since) : Current win up e := by
  obtain ⟨hs, htops⟩ := hd
  refine ⟨by rwa [hsince], ?_⟩
  rwa [hseq, horigin, released, hsince, hhash]

/-- A buffer with the end `m` goes through the queue. -/
theorem Current.one {u : Up Stamp} (hd : Current win up d) (hu : through d.hash u = true) (hwin : offset win u.body.seqEnd ≤ 2 ^ 30) :
    Current win (up ++ [u]) (d.setSeqNext (maxSeq d.seqNext u.body.seqEnd)) := by
  obtain ⟨hsince, htops⟩ := hd
  refine ⟨Nat.le_trans hsince (by simp), ?_⟩
  have hend : released (up ++ [u]) (d.setSeqNext (maxSeq d.seqNext u.body.seqEnd)) = released up d ++ [u.body.seqEnd] := by
    show released (up ++ [u]) d = _
    rw [released_append hsince, List.filter_cons_of_pos hu]
    rfl
  rw [hend, ← List.cons_append]
  exact tops_maxSeq htops hwin

/-- `dev_gro_complete` takes the maximum with the end of each segment. -/
theorem Current.complete [GroComplete Stamp] {cond : Dat → SkbId → Skb → Bool} (hd : Current (base (key h)) up d)
    (hhash : d.hash = h)
    (hsegs : Bodies (Carries base key h) segs) :
    Current (base (key h)) (up ++ (completeSegs cond d segs).2.1) (completeSegs cond d segs).1 := by
  induction segs generalizing d up with
  | nil => rwa [completeSegs, List.append_nil]
  | cons x segs ih =>
    obtain ⟨hx, hrest⟩ := bodies_cons.1 hsegs
    rw [completeSegs]
    split
    · have hend : (x.up .devGroComplete).body.seqEnd = x.body.seqEnd := complete_seqEnd
      have hup : through d.hash (x.up .devGroComplete) = true := by
        rw [hhash]
        exact hx.ported.through complete_parts
      have hone := hd.one hup (by rw [hend]; exact hx.solid.window.last_le)
      rw [hend] at hone
      have hstep := ih hone hhash hrest
      rwa [List.append_assoc, List.singleton_append] at hstep
    · rwa [List.append_nil]

/-- The segments that go up in `skb_gro_flush`, and their ends. -/
theorem flushSegs_ends [GroComplete Stamp] (hrel : Bodies (Carries base key h) rel) :
    ((flushSegs d rel).2.filter (through h)).map (fun u => u.body.seqEnd) = rel.map fun x => x.body.seqEnd := by
  induction rel generalizing d with
  | nil => rfl
  | cons x rel ih =>
    obtain ⟨hx, hrest⟩ := bodies_cons.1 hrel
    rw [flushSegs, List.filter_cons_of_pos (hx.ported.through complete_parts), List.map_cons, List.map_cons, ih hrest]
    simp [Seg.up]

/-- `skb_gro_flush` sets the number to the end of the last segment, and that is the maximum when the segment reaches the
packet `b`, for which there was room behind `seq_next`. -/
theorem Current.flush [GroComplete Stamp] (hd : Current (base (key h)) up d) (hhash : d.hash = h)
    (hrel : Bodies (Carries base key h) rel)
    (hreach : Reaches (base (key h)) b rel) (hb : offset (base (key h)) d.seqNext ≤ b.first (base (key h))) :
    Current (base (key h)) (up ++ (flushSegs d rel).2) (flushSegs d rel).1 := by
  rcases hreach with rfl | ⟨z, hz, hbz, hle⟩
  · rwa [flushSegs, List.append_nil]
  · obtain ⟨rel, rfl⟩ := List.getLast?_eq_some_iff.1 hz
    obtain ⟨hsince, htops⟩ := hd
    rw [flushSegs_concat]
    refine ⟨Nat.le_trans hsince (by simp), ?_⟩
    have hends : released (up ++ (flushSegs d (rel ++ [z])).2) (d.setSeqNext z.body.seqEnd) =
        released up d ++ (rel ++ [z]).map fun x => x.body.seqEnd := by
      show released (up ++ (flushSegs d (rel ++ [z])).2) d = _
      rw [released_append hsince, hhash, flushSegs_ends hrel]
    rw [hends, ← List.cons_append]
    refine htops.jump ⟨List.mem_map_of_mem (by simp), fun e he => ?_, (hrel z (by simp)).solid.window.last_le⟩ ?_
    · obtain ⟨y, hy, rfl⟩ := List.mem_map.1 he
      exact hle y hy
    · exact Nat.le_trans hb hbz

/-! ### All queue objects -/

/-- The queue object with its segments, none when it is free. -/
structure Exact (base : FlowKey → U32) (key : U32 → FlowKey) (up : List (Up Stamp)) (r : Flow Stamp OfoExt) : Prop where
  bodies : Bodies (Carries base key r.dat.hash) r.segs
  apart : Apart (base (key r.dat.hash)) r.segs
  held : r.segs ≠ [] → r.dat.hash ≠ 0
  free : r.segs = [] → (r.dat.ext.age = 0 ↔ r.dat.hash = 0)
  current : r.dat.hash ≠ 0 → Current (base (key r.dat.hash)) up r.dat

/-- The queue objects are exact, and no two are of one flow. -/
structure Tracked (base : FlowKey → U32) (key : U32 → FlowKey) (up : List (Up Stamp)) (rs : List (Flow Stamp OfoExt)) :
    Prop where
  exact : ∀ r ∈ rs, Exact base key up r
  distinct : rs.Pairwise fun r r' => r.dat.hash = r'.dat.hash → r.dat.hash = 0

/-- A free queue object, without segments. -/
def record (x : FreeQueue OfoExt) : Flow Stamp OfoExt := ⟨x.q, x.dat, []⟩

/-- All queue objects. -/
def records (l : Lists) : List (Flow Stamp OfoExt) := l.flows ++ l.free.map record

/-- The queue object is still the one of the same flow. -/
structure Same (r r' : Flow Stamp OfoExt) : Prop where
  q : r'.q = r.q
  hash : r'.dat.hash = r.dat.hash
  origin : r'.dat.ext.origin = r.dat.ext.origin
  since : r'.dat.ext.since = r.dat.ext.since

/-- The queue object is still the one of the same flow, or it was taken away from it. -/
def Kept (r r' : Flow Stamp OfoExt) : Prop :=
  Same r r' ∨ r'.q = r.q ∧ (r'.dat.hash = 0 ∨ r'.dat.hash ≠ r.dat.hash)

/-- The queue objects `rs'` are what has become of those in `rs`. -/
def Follows (K : Flow Stamp OfoExt → Flow Stamp OfoExt → Prop) (rs rs' : List (Flow Stamp OfoExt)) : Prop :=
  ∀ r' ∈ rs', ∃ r ∈ rs, K r r'

variable {r r' : Flow Stamp OfoExt} {P rs rs' : List (Flow Stamp OfoExt)}

theorem Same.refl (r : Flow Stamp OfoExt) : Same r r := ⟨rfl, rfl, rfl, rfl⟩

theorem Same.trans {r₁ r₂ r₃ : Flow Stamp OfoExt} (h₁ : Same r₁ r₂) (h₂ : Same r₂ r₃) : Same r₁ r₃ :=
  ⟨h₂.q.trans h₁.q, h₂.hash.trans h₁.hash, h₂.origin.trans h₁.origin, h₂.since.trans h₁.since⟩

theorem follows_replace {K : Flow Stamp OfoExt → Flow Stamp OfoExt → Prop} (hK : ∀ r, K r r) (hrs : rs.Perm (r :: P))
    (hrs' : rs'.Perm (r' :: P)) (h : K r r') : Follows K rs rs' := by
  intro g hg
  rcases List.mem_cons.1 (hrs'.mem_iff.1 hg) with rfl | hg
  · exact ⟨r, hrs.mem_iff.2 (List.mem_cons_self ..), h⟩
  · exact ⟨g, hrs.mem_iff.2 (List.mem_cons_of_mem _ hg), hK g⟩

theorem Exact.others (hr : Exact base key up r) (hus : r.dat.hash ≠ 0 → ∀ u ∈ us, through r.dat.hash u = false) :
    Exact base key (up ++ us) r :=
  ⟨hr.bodies, hr.apart, hr.held, hr.free, fun hne => (hr.current hne).others (hus hne)⟩

theorem Tracked.perm (ht : Tracked base key up rs) (hrs : rs.Perm rs') : Tracked base key up rs' := by
  refine ⟨fun r hr => ht.exact r (hrs.mem_iff.2 hr), ?_⟩
  refine (hrs.pairwise_iff fun h he => ?_).1 ht.distinct
  rw [he, h he.symm]

/-- What goes through no queue. -/
theorem Tracked.others (ht : Tracked base key up rs) (hus : ∀ u ∈ us, ∀ n, through n u = false) :
    Tracked base key (up ++ us) rs :=
  ⟨fun r hr => (ht.exact r hr).others fun _ u hu => hus u hu _, ht.distinct⟩

/-- One queue object moves on, and what goes up goes through it. -/
theorem Tracked.replace (ht : Tracked base key up rs) (us : List (Up Stamp)) (hrs : rs.Perm (r :: P)) (hrs' : rs'.Perm (r' :: P))
    (hr' : Exact base key (up ++ us) r')
    (hhash : r'.dat.hash = 0 ∨ r'.dat.hash = r.dat.hash ∨ ∀ g ∈ P, g.dat.hash ≠ r'.dat.hash)
    (hus : ∀ u ∈ us, ∀ n, n ≠ r'.dat.hash → through n u = false) : Tracked base key (up ++ us) rs' := by
  have ht' := ht.perm hrs
  obtain ⟨hr, hP⟩ := List.pairwise_cons.1 ht'.distinct
  have hne : ∀ g ∈ P, g.dat.hash ≠ 0 → g.dat.hash ≠ r'.dat.hash := by
    intro g hg hg0 he
    rcases hhash with hhash | hhash | hhash
    · exact hg0 (he.trans hhash)
    · rw [hhash] at he
      exact hg0 (he.trans (hr g hg he.symm))
    · exact hhash g hg he
  have hnew : Tracked base key (up ++ us) (r' :: P) := by
    refine ⟨List.forall_mem_cons.2 ⟨hr', fun g hg => ?_⟩, List.pairwise_cons.2 ⟨fun g hg he => ?_, hP⟩⟩
    · exact (ht'.exact g (List.mem_cons_of_mem _ hg)).others fun hg0 u hu => hus u hu _ (hne g hg hg0)
    · by_contra h0
      rw [he] at h0
      exact hne g hg h0 he.symm
  exact hnew.perm hrs'.symm

/-! ### A queue object for a packet -/

/-- The packet is of the flow with its ports, and lies in the window of the flow. -/
def Packet.regular (env : Env) (base : FlowKey → U32) (key : U32 → FlowKey) (pkt : Packet) : Bool :=
  match pkt.parse env with
  | .tcp _ b _ => decide (b.InWindow (base b.flowKey)) && decide (b.flowKey = key b.tcp.ports) && decide (b.tcp.ports ≠ 0)
  | .badHeader _ => false
  | .other _ => true

theorem Packet.regular_tcp {flush : Bool} (hpkt : pkt.regular env base key = true) (hparse : pkt.parse env = .tcp i b flush) :
    b.InWindow (base (key b.tcp.ports)) ∧ b.flowKey = key b.tcp.ports ∧ b.tcp.ports ≠ 0 := by
  unfold regular at hpkt
  rw [hparse] at hpkt
  simp only [Bool.and_eq_true, decide_eq_true_eq] at hpkt
  obtain ⟨⟨hwin, hkey⟩, hports⟩ := hpkt
  rw [hkey] at hwin
  exact ⟨hwin, hkey, hports⟩

theorem Packet.regular_windowed (hpkt : pkt.regular env base key = true) : pkt.windowed env base = true := by
  unfold regular at hpkt
  unfold windowed
  revert hpkt
  cases pkt.parse env with
  | other b => exact fun _ => rfl
  | badHeader b => exact fun _ => rfl
  | tcp i b flush =>
    intro hpkt
    simp only [Bool.and_eq_true] at hpkt
    exact hpkt.1.1

theorem parse_ported {flush : Bool} (hparse : pkt.parse env = .tcp i b flush) : Ported b.tcp.ports b := by
  have hhead := parse_tcp hparse
  refine ⟨rfl, by simp [hhead.parts], fun c hc => ?_⟩
  rw [hhead.parts, List.mem_singleton] at hc
  rw [hc]
  exact ⟨rfl, rfl⟩

/-- Packets that receive offload leaves alone go through no queue. -/
theorem parse_other_not_through (hparse : pkt.parse env = .other b) : through n (Parsed.up k b) = false := by
  have hparts : b.parts = [pkt.body.part] := by
    unfold Packet.parse at hparse
    split at hparse
    · cases hparse
      rfl
    · split at hparse
      · rename_i c hinet
        cases hparse
        have hsame := env.header_parts { pkt.body with parts := [pkt.body.part], free := .no, isTcp := false }
        rwa [hinet] at hsame
      · rename_i c fl hinet
        have hsame := env.header_parts { pkt.body with parts := [pkt.body.part], free := .no, isTcp := false }
        rw [hinet] at hsame
        split at hparse
        · cases hparse
          exact hsame
        · split at hparse <;> cases hparse
  unfold through Parsed.up
  rw [pull_parts, hparts]
  rfl

theorem sameFlowAs_of_flowKey {f : Flow Stamp OfoExt} (hhead : f.segs.head? = some x) (he : b.flowKey = x.body.flowKey) :
    sameFlowAs env b f = true := by
  obtain ⟨segs, hsegs⟩ := List.head?_eq_some_iff.1 hhead
  unfold sameFlowAs
  rw [hsegs]
  simp only [Body.flowKey, FlowKey.mk.injEq] at he
  obtain ⟨hlink, hproto, hsaddr, hdaddr, hports⟩ := he
  simp [hlink, hports, (env.sameFlow_iff b x.body).2 ⟨hproto, hsaddr, hdaddr⟩]

/-- A packet that is of no held flow: no held flow has its ports. -/
theorem Tracked.no_flow (ht : Tracked base key up (records l)) (hne : ∀ f ∈ l.flows, f.segs ≠ [])
    (hkey : b.flowKey = key b.tcp.ports) (hsplit : splitFlow (sameFlowAs env b) l.flows = none) :
    ∀ f ∈ l.flows, f.dat.hash ≠ b.tcp.ports := by
  intro f hf hhash
  obtain ⟨p, segs, hsegs⟩ := List.exists_cons_of_ne_nil (hne f hf)
  have hp := (ht.exact f (List.mem_append_left _ hf)).bodies p (by simp [hsegs])
  have hmatch : sameFlowAs env b f = true := by
    refine @sameFlowAs_of_flowKey env b p f (by rw [hsegs, List.head?_cons]) ?_
    rw [hkey, hp.solid.flow, hhash]
  rw [splitFlow_none hsplit f hf] at hmatch
  cases hmatch

/-- What a packet finds in the list of free queue objects, given to its flow. -/
structure Given (base : FlowKey → U32) (key : U32 → FlowKey) (l : Lists) (b : Skb) (x : FreeQueue OfoExt)
    (rest : List (FreeQueue OfoExt)) (y : Flow Stamp OfoExt) (P : List (Flow Stamp OfoExt)) : Prop where
  perm : (records l).Perm (y :: P)
  rest : (l.flows ++ rest.map record).Perm P
  distinct : ∀ g ∈ P, g.dat.hash ≠ b.tcp.ports
  current : Current (base (key b.tcp.ports)) l.up { assign x.dat b.seq l.up.length with hash := b.tcp.ports }
  kept : ∀ r', r'.q = x.q → r'.dat.hash = b.tcp.ports → r'.dat.ext.origin = (assign x.dat b.seq l.up.length).ext.origin →
    r'.dat.ext.since = (assign x.dat b.seq l.up.length).ext.since → Kept y r'
  hash : before b.seq (assign x.dat b.seq l.up.length).seqNext = true → (assign x.dat b.seq l.up.length).hash = b.tcp.ports

theorem Tracked.given {rest : List (FreeQueue OfoExt)} {y : FreeQueue OfoExt} (ht : Tracked base key l.up (records l))
    (hflows : ∀ f ∈ l.flows, f.dat.hash ≠ b.tcp.ports) (hports : b.tcp.ports ≠ 0) (hseq : b.tcpHash = b.tcp.ports)
    (hwin : b.InWindow (base (key b.tcp.ports)))
    (hfind : findFree (fun hash => hash == b.tcpHash) resetOfo l.free = some (y, rest)) :
    ∃ r P, Given base key l b y rest r P := by
  obtain ⟨xs, z, ys, hfree, rfl, hxs, hz⟩ := findFree_some hfind
  have hbefore : (records l).Perm (record z :: (l.flows ++ (xs ++ ys).map record)) := by
    rw [records, hfree]
    simp only [List.map_append, List.map_cons]
    rw [← List.append_assoc, ← List.append_assoc]
    exact List.perm_middle
  obtain ⟨hdistinct, -⟩ := List.pairwise_cons.1 (ht.perm hbefore).distinct
  have hexact := (ht.perm hbefore).exact (record z) (List.mem_cons_self ..)
  rcases hz with ⟨hfit, rfl⟩ | ⟨hno, rfl, rfl⟩
  · -- the queue object is the one of the flow
    have hhash : y.dat.hash = b.tcp.ports := by rw [← hseq]; exact eq_of_beq hfit
    have hne : y.dat.hash ≠ 0 := hhash ▸ hports
    have hage : y.dat.ext.age ≠ 0 := fun h0 => hne ((hexact.free rfl).1 h0)
    have hassign : assign y.dat b.seq l.up.length = y.dat := if_neg hage
    refine ⟨record y, _, hbefore, List.Perm.refl _, fun g hg he => ?_, ?_, ?_, fun _ => by rw [hassign, hhash]⟩
    · exact hne (hdistinct g hg (hhash.trans he.symm))
    · rw [hassign, ← hhash]
      exact hexact.current hne
    · intro r' hq hr' horigin hsince
      rw [hassign] at horigin hsince
      exact Or.inl ⟨hq, hr'.trans hhash.symm, horigin, hsince⟩
  · -- the last one is taken away from its flow
    have hzhash : z.dat.hash ≠ b.tcp.ports := by
      intro he
      rw [← hseq] at he
      simp [he] at hno
    have hassign : assign (resetOfo z.dat) b.seq l.up.length =
        { hash := 0, seqNext := b.seq, ext := { z.dat.ext with age := 0, origin := b.seq, since := l.up.length } } :=
      if_pos rfl
    refine ⟨record z, _, hbefore, List.Perm.refl _, ?_, ?_, ?_, fun hlate => ?_⟩
    · refine List.forall_mem_append.2 ⟨hflows, fun g hg he => ?_⟩
      obtain ⟨y, hy, rfl⟩ := List.mem_map.1 hg
      rw [List.append_nil] at hy
      have hfit := hxs y hy
      have he' : y.dat.hash = b.tcpHash := he.trans hseq.symm
      simp [he'] at hfit
    · rw [hassign]
      refine ⟨Nat.le_refl _, ?_⟩
      show Tops _ b.seq (b.seq :: released _ _)
      rw [released_since_length rfl]
      exact tops_singleton hwin.first_le_window
    · intro r' hq hr' _ _
      exact Or.inr ⟨hq, Or.inr fun he => hzhash (he.symm.trans hr')⟩
    · rw [hassign] at hlate
      rw [(before_eq_false_iff hwin.first_le_window hwin.first_le_window).2 (Nat.le_refl _)] at hlate
      cases hlate

end

end PacketReordering.Linux318
