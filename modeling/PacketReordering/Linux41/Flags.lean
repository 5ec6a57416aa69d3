import PacketReordering.Linux41.Geometry
import PacketReordering.Linux41.Headers

/-!
# `linux-4.1`: where the flags of a segment come from

The header of a segment is that of its first packet, and PSH belongs to the last one.

* `FlagsInPlace` — no packet of the segment has one of the flags that end or open a connection, only the last one may
  have PSH, and the header says whether it has;
* `run_flagsInPlace` — this holds of every segment that is held or has gone up.
-/

namespace PacketReordering.Linux41

open Gro

/-- The flags of the packets in `b`, which lie one behind the other. -/
structure FlagsInPlace (b : Skb) : Prop where
  laid : Laid b.seq b.parts b.seqEnd
  plain : ∀ c ∈ b.parts, hasFlag c.flagWord (tcpFlagSyn ||| tcpFlagFin ||| tcpFlagRst ||| tcpFlagUrg) = false
  psh : ∃ init last, b.parts = init ++ [last] ∧ (∀ c ∈ init, hasFlag c.flagWord tcpFlagPsh = false) ∧
    b.tcp.psh = hasFlag last.flagWord tcpFlagPsh

variable {p skb p' skb' b : Skb}

theorem skbGroMerge_laid (hp : Laid p.seq p.parts p.seqEnd) (hskb : Laid skb.seq skb.parts skb.seqEnd)
    (hseq : p.seqEnd = skb.seq) (h : skbGroMerge p skb = .merged p' skb') : Laid p'.seq p'.parts p'.seqEnd := by
  obtain ⟨-, hparts, hfirst, hlen, -⟩ := skbGroMerge_control h
  have hend : p'.seqEnd = skb.seqEnd := by
    simp only [Body.seqEnd] at hseq ⊢
    rw [hfirst, hlen, ← hseq]
    bv_omega
  rw [hfirst, hparts, hend]
  exact hp.append (hseq ▸ hskb)

/-- A packet lies from its sequence number to the end of its payload. -/
theorem parse_laid {pkt : Packet} {flush linear : Bool} (hparse : pkt.parse = .tcp b flush linear) :
    Laid b.seq b.parts b.seqEnd := by
  have hb := parse_tcp hparse
  rw [hb.parts, Body.seqEnd, hb.len, hb.seq]
  exact ⟨rfl, rfl⟩

theorem laid_rule : HeldRule (fun _ => True) fun (_ : Unit) b => Laid b.seq b.parts b.seqEnd where
  pull _ b h := by
    have hsame : b.pull.parts = b.parts ∧ b.pull.seq = b.seq ∧ b.pull.seqEnd = b.seqEnd := by
      unfold Body.pull
      split <;> exact ⟨rfl, rfl, rfl⟩
    obtain ⟨hparts, hseq, hend⟩ := hsame
    rwa [hparts, hseq, hend]
  merge _ p skb p' skb' hp hskb hseq hmerge := skbGroMerge_laid hp hskb hseq hmerge
  fresh pkt b flush linear _ hparse _ := by
    have hlaid := parse_laid hparse
    exact ⟨(), hlaid⟩
  join _ pkt b flush linear f p segs _ hparse _ _ _ _ := by
    have hlaid := parse_laid hparse
    exact hlaid

/-- The flags with which a packet is not held are the four. -/
theorem flushFlags_eq : flushFlags = tcpFlagSyn ||| tcpFlagFin ||| tcpFlagRst ||| tcpFlagUrg := by decide

/-- A header that speaks for its packets has their flags in place. -/
theorem Speaks.flagsInPlace (h : Speaks b) (hlaid : Laid b.seq b.parts b.seqEnd) : FlagsInPlace b := by
  obtain ⟨init, last, hparts, hinit, hlast⟩ := h.psh
  refine ⟨hlaid, fun c hc => ?_, init, last, hparts, hinit, hlast.symm⟩
  rw [← flushFlags_eq]
  exact (h.agrees c hc).plain

theorem laid_complete (h : Laid b.seq b.parts b.seqEnd) : Laid b.complete.seq b.complete.parts b.complete.seqEnd := by
  have hplace : b.complete.seq = b.seq ∧ b.complete.seqEnd = b.seqEnd := by
    unfold Body.complete
    split <;> exact ⟨rfl, rfl⟩
  rwa [complete_parts, hplace.1, hplace.2]

theorem FlagsInPlace.complete (h : FlagsInPlace b) : FlagsInPlace b.complete := by
  have htcp : b.complete.tcp = b.tcp := by
    unfold Body.complete
    split <;> rfl
  obtain ⟨hlaid, hplain, hpsh⟩ := h
  constructor
  · exact laid_complete hlaid
  · rwa [complete_parts]
  · rwa [complete_parts, htcp]

/-- **The flags of a segment are in place**, whatever the order in which its packets arrived and were merged. -/
theorem run_flagsInPlace {mem s : Mem} {cs : List Call} (h : run mem cs = .ok s) :
    (∀ f ∈ s.view.flows, ∀ x ∈ f.segs, FlagsInPlace x.body) ∧ ∀ u ∈ s.up, u.via ≠ .normal → FlagsInPlace u.body := by
  obtain ⟨hheld, hgone⟩ := run_heldBodies (laid_rule.and speaking_rule) (fun c _ => c.meets_true) h
  constructor
  · intro f hf x hx
    obtain ⟨κ, hbodies⟩ := hheld f hf
    obtain ⟨hlaid, hspeaks, -⟩ := hbodies x hx
    exact hspeaks.flagsInPlace hlaid
  · intro u hu hvia
    obtain ⟨κ, b, ⟨hlaid, hspeaks, -⟩, hbody⟩ := hgone u hu hvia
    rw [hbody]
    exact (hspeaks.flagsInPlace hlaid).complete

/-- The first packet of the three comes last, and the third has PSH. -/
def bridged : List Call :=
  [.receive (.plain 0 1 7 110 10 0) fun _ => 0, .receive (.plain 1 1 7 120 10 tcpFlagPsh) fun _ => 0,
    .receive (.plain 2 1 7 100 10 0) fun _ => 0, .flush false 0 0 fun _ => 0]

theorem run_flagsInPlace_bridged :
    ∃ s u, run default bridged = .ok s ∧ u ∈ s.up ∧ u.body.parts.map Part.uid = [2, 0, 1] ∧ u.body.tcp.psh = true ∧
      FlagsInPlace u.body := by
  have hend : (run default bridged).map (fun s => s.up.map fun u =>
      (u.via, u.body.parts.map Part.uid, u.body.tcp.psh)) = .ok [(.devGroComplete, [2, 0, 1], true)] := by
    decide +kernel
  cases hrun : run default bridged with
  | error e =>
    rw [hrun] at hend
    cases hend
  | ok s =>
    rw [hrun] at hend
    have hups : s.up.map (fun u => (u.via, u.body.parts.map Part.uid, u.body.tcp.psh)) =
        [(.devGroComplete, [2, 0, 1], true)] := by simpa [Except.map] using hend
    obtain ⟨u, us, hu, hvalue, -⟩ := List.map_eq_cons_iff.1 hups
    simp only [Prod.mk.injEq] at hvalue
    obtain ⟨hvia, huids, hpsh⟩ := hvalue
    have hmem : u ∈ s.up := by simp [hu]
    exact ⟨s, u, rfl, hmem, huids, hpsh, (run_flagsInPlace hrun).2 u hmem (by simp [hvia])⟩

end PacketReordering.Linux41
