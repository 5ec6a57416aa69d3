import PacketReordering.Linux41.Conservation

/-!
# `linux-4.1`: a TCP packet whose header is not all there

`tcp_gro_receive` gives up on such a packet before it has written `seq`, `len` and `tcp_hash` to the control block.
`dev_gro_receive` takes a queue object with what is there.

* `parse_badHeader` — the control block is that of the buffer before it was received;
* `PassedBy` — the packet went up, and that was all;
* `receive_badHeader` — the exact condition on the first free queue object;
* `not_passedBy_cut` — the code does not meet it.
-/

namespace PacketReordering.Linux41

open Lib Gro

/-- What the code has in a queue object. -/
def contents (d : Dat) : U32 × U32 × U64 × Bool := (d.hash, d.seqNext, d.ext.timestamp, d.ext.flushed.value)

/-- What the code has in the list of the free queue objects. -/
def cached (free : List (FreeQueue OfoExt)) : List (OfoId × U32 × U32 × U64 × Bool) :=
  free.map fun x => (x.q, contents x.dat)

/-- The packet `pkt` went up once, as it was received, and no flow and no queue object changed. -/
structure PassedBy (s s' : Mem) (pkt : Packet) : Prop where
  up : ∃ u, s'.up = s.up ++ [u] ∧ u.id = s.nskb ∧ u.via = .normal ∧ u.body.parts = [pkt.body.part]
  flows : s'.view.flows = s.view.flows
  free : cached s'.view.free = cached s.view.free

/-- The queue object has the hash, the sequence number and the time already that `dev_gro_receive` writes to it for the
control block of `b`. -/
def alreadySo (d : Dat) (b : Skb) (ktime : ℕ → U64) : Bool :=
  let seqNext := if d.hash = 0#32 then b.seq else d.seqNext
  d.hash == b.tcpHash &&
    if before seqNext b.seqEnd then d.seqNext == b.seqEnd && d.ext.timestamp == ktime 1 && d.ext.flushed.value
    else d.seqNext == seqNext && d.ext.timestamp == ktime 0

/-- The first free queue object is so already. -/
def firstAlreadySo (s : Mem) (pkt : Packet) (ktime : ℕ → U64) : Bool :=
  s.view.free.head?.any fun x => alreadySo x.dat pkt.body ktime

section

variable {l l' : Lists} {pkt : Packet} {k : SkbId} {b c : Skb} {d : Dat}

/-! ### The control block -/

theorem tcpHeader_bad (h : b.tcpHeader = (c, false)) :
    ∃ headlen frags frag0Len, c = { b with headlen := headlen, frags := frags, frag0Len := frag0Len } := by
  cases hc : b.groHeader (b.dataOffset + 20) with
  | none =>
    simp only [Body.tcpHeader, hc, Prod.mk.injEq, and_true] at h
    exact ⟨b.headlen, b.frags, b.frag0Len, h.symm⟩
  | some e =>
    obtain ⟨headlen, frags, frag0Len, rfl⟩ := Body.groHeader_some hc
    simp only [Body.tcpHeader, hc] at h
    split at h
    · cases h
      exact ⟨headlen, frags, frag0Len, rfl⟩
    · split at h
      · cases h
        exact ⟨headlen, frags, frag0Len, rfl⟩
      · cases h

theorem inetHeader_some {flush : Bool} (h : inetHeader b = (c, some flush)) :
    ∃ headlen frags frag0Len dataOffset,
      c = { b with headlen := headlen, frags := frags, frag0Len := frag0Len, dataOffset := dataOffset } := by
  unfold inetHeader at h
  split at h
  · cases h
  · rename_i e he
    obtain ⟨headlen, frags, frag0Len, rfl⟩ := Body.groHeader_some he
    simp only at h
    split at h
    · cases h
    · cases h
      exact ⟨headlen, frags, frag0Len, b.dataOffset + 20, rfl⟩

/-- The control block is what happened to be in the memory of the buffer. -/
theorem parse_badHeader (h : pkt.parse = .badHeader b) :
    b.seq = pkt.body.seq ∧ b.len = pkt.body.len ∧ b.tcpHash = pkt.body.tcpHash ∧ b.parts = [pkt.body.part] := by
  unfold Packet.parse at h
  split at h
  · cases h
  · simp only at h
    split at h
    · cases h
    · rename_i c flush hinet
      split at h
      · cases h
      · split at h
        · rename_i e htcp
          cases h
          obtain ⟨headlen, frags, frag0Len, dataOffset, rfl⟩ := inetHeader_some hinet
          obtain ⟨headlen', frags', frag0Len', rfl⟩ := tcpHeader_bad htcp
          exact ⟨rfl, rfl, rfl, rfl⟩
        · cases h

/-! ### The queue object -/

theorem alreadySo_congr {ktime : ℕ → U64} (hseq : b.seq = c.seq) (hlen : b.len = c.len) (hhash : b.tcpHash = c.tcpHash) :
    alreadySo d b ktime = alreadySo d c ktime := by
  simp only [alreadySo, Body.seqEnd, hseq, hlen, hhash]
  rfl

theorem contents_normalDat_flushDat (d : Dat) (b : Skb) (clock : Clock) :
    contents (normalDat (flushDat d b (clock.ktime 0)) clock.tickKtime b).1 = contents d ↔
      alreadySo d b clock.ktime = true := by
  have hseq : (flushDat d b (clock.ktime 0)).seqNext = if d.hash = 0#32 then b.seq else d.seqNext := by
    unfold flushDat
    split <;> rfl
  have hvalue : (flushDat d b (clock.ktime 0)).ext.flushed.value = d.ext.flushed.value := by
    unfold flushDat
    split <;> rfl
  have htime : (flushDat d b (clock.ktime 0)).ext.timestamp = clock.ktime 0 := rfl
  have hhash : (flushDat d b (clock.ktime 0)).hash = b.tcpHash := rfl
  simp only [normalDat_dat, alreadySo, hseq]
  generalize (if d.hash = 0#32 then b.seq else d.seqNext) = seqNext at hseq ⊢
  by_cases hbefore : before seqNext b.seqEnd = true
  · simp only [if_pos hbefore, contents, OfoExt.setFlushed, Lib.Tracked.value_write, hhash, Prod.mk.injEq, Bool.and_eq_true,
      beq_iff_eq]
    constructor
    · rintro ⟨hhash, hseq, htime, hflushed⟩
      exact ⟨hhash.symm, ⟨hseq.symm, htime.symm⟩, hflushed.symm⟩
    · rintro ⟨hhash, ⟨hseq, htime⟩, hflushed⟩
      exact ⟨hhash.symm, hseq.symm, htime.symm, hflushed.symm⟩
  · simp only [if_neg hbefore, contents, hhash, hseq, htime, hvalue, Prod.mk.injEq, Bool.and_eq_true, beq_iff_eq, and_true]
    constructor
    · rintro ⟨hhash, hseq, htime⟩
      exact ⟨hhash.symm, hseq.symm, htime.symm⟩
    · rintro ⟨hhash, hseq, htime⟩
      exact ⟨hhash.symm, hseq.symm, htime.symm⟩

/-- **The free queue objects stay as they are exactly if the first one is so already.** -/
theorem receiveFlushLists_free (hne : l.free ≠ []) : ∃ l', receiveFlushLists l k b = .ok l' ∧ l'.flows = l.flows ∧
    l'.up = l.up ++ [Parsed.up k b] ∧
    (cached l'.free = cached l.free ↔ (l.free.head?.any fun x => alreadySo x.dat b l.clock.ktime) = true) := by
  obtain ⟨y, ys, hfree⟩ := List.exists_cons_of_ne_nil hne
  cases hfind : findFree (fitsHash b.tcpHash) resetOfo l.free with
  | none => exact absurd (findFree_none hfind) hne
  | some r =>
    obtain ⟨x, rest⟩ := r
    unfold receiveFlushLists
    rw [hfind]
    refine ⟨_, rfl, rfl, rfl, ?_⟩
    simp only
    rw [hfree] at hfind ⊢
    rw [List.head?_cons, Option.any_some, ← contents_normalDat_flushDat]
    rw [findFree] at hfind
    by_cases hfits : fitsHash b.tcpHash y.dat.hash = true
    · rw [if_pos hfits] at hfind
      cases hfind
      constructor
      · intro h
        injection h with hhead
        exact congrArg Prod.snd hhead
      · intro h
        exact congrArg (fun c => (y.q, c) :: cached ys) h
    · -- the hash of the first one is neither `tcp_hash` nor 0
      have hother : ∀ d : Dat,
          contents (normalDat (flushDat d b (l.clock.ktime 0)) l.clock.tickKtime b).1 ≠ contents y.dat := by
        intro d hd
        have hhash : (normalDat (flushDat d b (l.clock.ktime 0)) l.clock.tickKtime b).1.hash = y.dat.hash :=
          congrArg Prod.fst hd
        rw [normalDat_dat_hash] at hhash
        exact hfits (by simp [fitsHash, ← hhash, flushDat])
      constructor
      · intro h
        injection h with hhead
        exact absurd (congrArg Prod.snd hhead) (hother x.dat)
      · exact fun h => absurd h (hother y.dat)

end

/-- **A packet whose TCP header is not all there passes by exactly if the first free queue object is already as
`dev_gro_receive` writes it**, in every reachable state; it goes up in any case. -/
theorem receive_badHeader {mem s : Mem} {cs : List Call} (hrun : run mem cs = .ok s) {pkt : Packet} {b : Skb}
    (hbad : pkt.parse = .badHeader b) (ktime : ℕ → U64) :
    ∃ s', step s (.receive pkt ktime) = .ok s' ∧ (PassedBy s s' pkt ↔ firstAlreadySo s pkt ktime = true) := by
  have hagree := run_spec mem cs
  rw [hrun] at hagree
  obtain ⟨l, -, hrep⟩ := hagree.exists_ok
  obtain ⟨hseq, hlen, hhash, hparts⟩ := parse_badHeader hbad
  have hstep := step_spec s l (.receive pkt ktime) hrep
  obtain ⟨l', hl', hflows, hup, hfree⟩ := @receiveFlushLists_free
    { l with nskb := l.nskb + 1, clock := { l.clock with ktime := ktime } } l.nskb b hrep.free_ne_nil
  have hlists : stepLists l (.receive pkt ktime) = .ok l' := by
    simp only [stepLists, receiveLists, hbad]
    exact hl'
  rw [hlists] at hstep
  cases hs' : step s (.receive pkt ktime) with
  | error e =>
    rw [hs'] at hstep
    exact hstep.elim
  | ok s' =>
    rw [hs'] at hstep
    have hrep' : Rep s' l' := hstep
    refine ⟨s', rfl, ?_⟩
    have hcond : firstAlreadySo s pkt ktime = true ↔ cached l'.free = cached l.free := by
      rw [hfree, firstAlreadySo, hrep.view_eq]
      simp only [Queues.erase, alreadySo_congr hseq hlen hhash]
    rw [hcond]
    constructor
    · intro h
      have hsame := h.free
      rwa [hrep.view_eq, hrep'.view_eq] at hsame
    · intro hsame
      refine ⟨⟨Parsed.up l.nskb b, ?_, hrep.links.nskb.symm, rfl, ?_⟩, ?_, ?_⟩
      · rw [hrep'.links.up, hup, hrep.links.up]
      · rw [Parsed.up, pull_parts, hparts]
      · rw [hrep.view_eq, hrep'.view_eq, Queues.erase, Queues.erase, hflows]
      · rw [hrep.view_eq, hrep'.view_eq]
        exact hsame

/-- A TCP packet whose data offset is four words; `tcpHash`, `seq` and `len` are left in its control block. -/
def Packet.cut (tcpHash seq len : U32) : Packet where
  featuresGro := true
  isGso := false
  hasFragList := false
  csumBad := false
  isIp := true
  body := { (default : Skb) with
    ip := ⟨0x45, 0, 40, ipDf, 64, ipprotoTcp, 1, 0, false⟩
    tcp := ⟨7, 100, 0, 0x40000000, []⟩
    frags := [⟨0, 0, 40⟩]
    frag0Len := 40
    tcpHash := tcpHash
    seq := seq
    len := len }
  dataOffset_eq := rfl
  frag0_eq := Or.inr ⟨rfl, rfl⟩

/-- A packet with FIN, which is not held; its flow has the first free queue object then. -/
def finOnly : List Call := [.receive (.plain 0 1 7 100 10 tcpFlagFin) fun _ => 5]

/-- A packet with the control block of the one before it, and no time gone by, changes nothing. -/
theorem receive_badHeader_cut :
    ∃ s s', run default finOnly = .ok s ∧ (s.view.free.head?.map fun x => x.dat.hash) = some 7 ∧
      step s (.receive (.cut 7 100 10) fun _ => 5) = .ok s' ∧ PassedBy s s' (.cut 7 100 10) := by
  obtain ⟨b, hbad⟩ : ∃ b, (Packet.cut 7 100 10).parse = .badHeader b := ⟨_, rfl⟩
  have hend : (run default finOnly).map (fun s =>
      (s.view.free.head?.map fun x => x.dat.hash, firstAlreadySo s (.cut 7 100 10) fun _ => 5)) = .ok (some 7, true) := by
    decide +kernel
  cases hrun : run default finOnly with
  | error e =>
    rw [hrun] at hend
    cases hend
  | ok s =>
    rw [hrun] at hend
    obtain ⟨hhash, hso⟩ : (s.view.free.head?.map fun x => x.dat.hash) = some 7 ∧
        firstAlreadySo s (.cut 7 100 10) (fun _ => 5) = true := by simpa only [Except.map, Except.ok.injEq, Prod.mk.injEq] using hend
    obtain ⟨s', hs', hpassed⟩ := receive_badHeader hrun hbad fun _ => 5
    exact ⟨s, s', rfl, hhash, hs', hpassed.2 hso⟩

/-- The first free queue object gets the hash 7, which is in the control block of the packet. -/
theorem not_passedBy_cut :
    ¬ ∀ (mem : Mem) (cs : List Call) (s s' : Mem) (pkt : Packet) (b : Skb) (ktime : ℕ → U64), run mem cs = .ok s →
      pkt.parse = .badHeader b → step s (.receive pkt ktime) = .ok s' → PassedBy s s' pkt := by
  intro h
  obtain ⟨b, hbad⟩ : ∃ b, (Packet.cut 7 0 0).parse = .badHeader b := ⟨_, rfl⟩
  have hhash : (step (netifNapiAdd default) (.receive (.cut 7 0 0) fun _ => 0)).map (fun s =>
      (cached s.view.free).head?.map fun x => x.2.1) = .ok (some 7) := by decide +kernel
  have hzero : (cached (netifNapiAdd default).view.free).head?.map (fun x => x.2.1) = some 0 := by decide +kernel
  cases hs' : step (netifNapiAdd default) (.receive (.cut 7 0 0) fun _ => 0) with
  | error e =>
    rw [hs'] at hhash
    cases hhash
  | ok s' =>
    have hpassed := h default [] _ s' _ b _ rfl hbad hs'
    rw [hs'] at hhash
    simp only [Except.map, Except.ok.injEq, hpassed.free, hzero] at hhash
    exact absurd hhash (by decide)

end PacketReordering.Linux41
