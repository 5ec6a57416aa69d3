import PacketReordering.Gro.Stream
import PacketReordering.Linux41.Geometry
import PacketReordering.Linux41.Spacing

/-!
# `linux-4.1`: the buffers of one flow

* `OfFlow` — the buffers of a flow in the window from `base` on;
* `Staged` — the segments of a queue in the order of their numbers, with no payload twice;
* `Staged.put` — one more segment in its place.
-/

namespace PacketReordering.Linux41

open Lib Gro

/-- The packet, if its TCP header was found and it has the ports `h`. -/
def Packet.arrived (h : U32) (pkt : Packet) : List Skb :=
  match pkt.parse with
  | .tcp b _ _ => if b.tcp.ports = h then [b] else []
  | _ => []

/-- A buffer of a flow with the ports `κ`; if these are the ones of the flow `key`, it is of that flow, and its packets lie
one behind the other. -/
structure OfFlow (base : U32) (key : FlowKey) (κ : U32) (b : Skb) : Prop where
  ported : b.Ported κ
  tcp : ∀ c ∈ b.parts, c.isTcp = true
  keyed : κ = key.ports → Keyed (fun _ => base) key b
  tiled : κ = key.ports → Tiled base (b.first base) b.parts (b.last base)

section

variable {base : U32} {key : FlowKey} {h κ : U32} {l l' : Lists} {pkt : Packet} {n : Option SkbId} {k : SkbId} {b c : Skb}
  {tr : Track} {w : Walked} {segs rest pre post : List Segment} {p2 : Segment} {inSeq seq2 : U32} {bs : List Skb}
  {f : Flow GsoEnd OfoExt} {A B : List (Flow GsoEnd OfoExt)} {flush linear : Bool}

/-! ### Buffers -/

theorem Headed.data_eq (hb : Headed pkt b) (hports : b.tcp.ports = h) (hlen : b.len ≠ 0) :
    b.data h = [{ b.part with isTcp := true }] := by
  have hpart : Part.isData h { b.part with isTcp := true } = true := by
    have hlen' : BitVec.ofNat 32 b.groLen ≠ 0 := hb.len ▸ hlen
    simpa [Part.isData, Body.part, hports] using hlen'
  rw [Body.data, hb.parts, List.filter_cons_of_pos hpart, List.filter_nil]

theorem Headed.data_nil (hb : Headed pkt b) (hlen : b.len = 0) : b.data h = [] := by
  have hpart : Part.isData h { b.part with isTcp := true } = false := by
    have hlen' : BitVec.ofNat 32 b.groLen = 0 := hb.len ▸ hlen
    simp [Part.isData, Body.part, hlen']
  rw [Body.data, hb.parts, List.filter_cons_of_neg (by simp [hpart]), List.filter_nil]

theorem Headed.ported (hb : Headed pkt b) : b.Ported b.tcp.ports := by
  refine ⟨rfl, fun c hc => ?_⟩
  rw [hb.parts, List.mem_singleton] at hc
  rw [hc]
  rfl

theorem Headed.tcpParts (hb : Headed pkt b) : ∀ c ∈ b.parts, c.isTcp = true := by
  intro c hc
  rw [hb.parts, List.mem_singleton] at hc
  rw [hc]

/-- Packets at whose TCP header receive offload has not looked carry no data. -/
theorem data_part {b : Skb} (hparts : b.parts = [pkt.body.part]) : b.data h = [] := by
  rw [Body.data, hparts]
  rfl

theorem parse_other_parts (hparse : pkt.parse = .other b) : b.parts = [pkt.body.part] := by
  have hinet : ∀ c : Skb, (inetHeader c).1.parts = c.parts := by
    intro c
    unfold inetHeader
    cases hd : c.groHeader (c.dataOffset + 20) with
    | none => rfl
    | some d =>
      obtain ⟨headlen, frags, frag0Len, rfl⟩ := Body.groHeader_some hd
      simp only
      split <;> rfl
  unfold Packet.parse at hparse
  split at hparse
  · cases hparse
    rfl
  · have hsame := hinet { pkt.body with parts := [pkt.body.part], free := .no, isTcp := false, ext := false }
    simp only at hparse
    split at hparse
    · rename_i c hc
      cases hparse
      rwa [hc] at hsame
    · rename_i c fl hc
      rw [hc] at hsame
      split at hparse
      · cases hparse
        exact hsame
      · split at hparse <;> cases hparse

theorem arrived_tcp (hparse : pkt.parse = .tcp b flush linear) (hports : b.tcp.ports = h) : pkt.arrived h = [b] := by
  unfold Packet.arrived
  rw [hparse]
  simp only [if_pos hports]

theorem Headed.tiled {base : U32} (hb : Headed pkt b) (hwin : b.InWindow base) :
    Tiled base (b.first base) b.parts (b.last base) := by
  have hseq : b.part.seq = b.seq := hb.seq.symm
  have hlen : b.part.len = b.len := hb.len.symm
  rw [hb.parts]
  refine ⟨congrArg (offset base) hseq, ?_, ?_⟩
  · show b.first base ≤ offset base (b.part.seq + b.part.len)
    rw [hseq, hlen]
    exact hwin.first_le
  · show offset base (b.part.seq + b.part.len) = b.last base
    rw [hseq, hlen]
    rfl

theorem pull_ends {base : U32} : b.pull.first base = b.first base ∧ b.pull.last base = b.last base ∧ b.pull.len = b.len := by
  unfold Body.pull
  split <;> exact ⟨rfl, rfl, rfl⟩

/-- What the buffers of one flow have in common. -/
theorem ofFlow_rule (base : U32) (key : FlowKey) :
    HeldRule (fun pkt => ∀ b ∈ pkt.arrived key.ports, Keyed (fun _ => base) key b) (OfFlow base key) where
  pull κ b hb := by
    have htcp : b.pull.tcp = b.tcp := by
      unfold Body.pull
      split <;> rfl
    refine ⟨⟨by rw [htcp]; exact hb.ported.1, by rw [pull_parts]; exact hb.ported.2⟩, by rw [pull_parts]; exact hb.tcp,
      fun hκ => ?_, fun hκ => ?_⟩
    · exact (keyed_rule fun _ => base).pull key b (hb.keyed hκ)
    · rw [pull_parts, pull_ends.1, pull_ends.2.1]
      exact hb.tiled hκ
  merge κ p skb p' skb' hp hskb hseq hmerge := by
    obtain ⟨-, hparts, -⟩ := skbGroMerge_control hmerge
    have hports : p'.tcp.ports = p.tcp.ports := by
      obtain ⟨-, -, -, -, frags, rfl⟩ := skbGroMerge_merged hmerge
      rfl
    refine ⟨⟨hports.trans hp.ported.1, ?_⟩, ?_, fun hκ => ?_, fun hκ => ?_⟩
    · rw [hparts]
      exact List.forall_mem_append.2 ⟨hp.ported.2, hskb.ported.2⟩
    · rw [hparts]
      exact List.forall_mem_append.2 ⟨hp.tcp, hskb.tcp⟩
    · exact (keyed_rule fun _ => base).merge key p skb p' skb' (hp.keyed hκ) (hskb.keyed hκ) hseq hmerge
    · obtain ⟨hfirst, hlast⟩ := skbGroMerge_seqEnd hseq hmerge
      have hmeet : p.last base = skb.first base := congrArg (offset base) hseq
      have hends : p'.first base = p.first base ∧ p'.last base = skb.last base :=
        ⟨congrArg (offset base) hfirst, congrArg (offset base) hlast⟩
      have hptiled := hp.tiled hκ
      rw [hmeet] at hptiled
      rw [hparts, hends.1, hends.2]
      exact hptiled.append (hskb.tiled hκ)
  fresh pkt b flush linear hC hparse _ := by
    have hhead := parse_tcp hparse
    have hkeyed : b.tcp.ports = key.ports → Keyed (fun _ => base) key b :=
      fun hκ => hC b (by simp [arrived_tcp hparse hκ])
    exact ⟨b.tcp.ports, hhead.ported, hhead.tcpParts, hkeyed, fun hκ => hhead.tiled (hkeyed hκ).2⟩
  join κ pkt b flush linear f p segs hC hparse hsegs hp hmatch _ := by
    have hhead := parse_tcp hparse
    have hκ : b.tcp.ports = κ := (congrArg FlowKey.ports (sameFlowAs_flowKey hsegs hmatch)).trans hp.ported.1
    have hkeyed : κ = key.ports → Keyed (fun _ => base) key b :=
      fun hkey => hC b (by simp [arrived_tcp hparse (hκ.trans hkey)])
    exact ⟨hκ ▸ hhead.ported, hhead.tcpParts, hkeyed, fun hkey => hhead.tiled (hkeyed hkey).2⟩

theorem OfFlow.window (hb : OfFlow base key key.ports b) : b.InWindow base := (hb.keyed rfl).2

/-- The packets with payload lie in the buffer, and none is empty. -/
theorem OfFlow.data_within (hb : OfFlow base key key.ports b) {d : Part} (hd : d ∈ b.data key.ports) :
    b.first base ≤ partFirst base d ∧ partFirst base d < partLast base d ∧ partLast base d ≤ b.last base := by
  obtain ⟨hmem, hdata⟩ := List.mem_filter.1 hd
  obtain ⟨hfirst, hle, hlast⟩ := (hb.tiled rfl).within d hmem
  refine ⟨hfirst, Nat.lt_of_le_of_ne hle fun heq => ?_, hlast⟩
  have hseq : d.seq = d.seq + d.len := offset_inj.1 heq
  have hlen : d.len = 0 := by bv_omega
  simp [Part.isData, hlen] at hdata

theorem OfFlow.data_nil (hb : OfFlow base key key.ports b) (hlen : b.len = 0) : b.data key.ports = [] := by
  rw [List.eq_nil_iff_forall_not_mem]
  intro d hd
  obtain ⟨hfirst, hlt, hlast⟩ := hb.data_within hd
  have hend := hb.window.last_eq
  have hzero : b.len.toNat = 0 := by rw [hlen]; rfl
  omega

/-- What overlaps none of the packets with payload lies before the buffer or behind it. -/
theorem OfFlow.clear {first last : ℕ} (hb : OfFlow base key key.ports b) (hlen : b.len ≠ 0) (hlt : first < last)
    (hclear : ∀ d ∈ b.data key.ports, partLast base d ≤ first ∨ last ≤ partFirst base d) :
    b.last base ≤ first ∨ last ≤ b.first base := by
  have hend := hb.window.last_eq
  have hpos : b.len.toNat ≠ 0 := by bv_omega
  refine (hb.tiled rfl).clear (by omega) hlt fun c hc hne => hclear c (List.mem_filter.2 ⟨hc, ?_⟩)
  have hsome : (c.len != 0) = true := by
    refine bne_iff_ne.2 fun hzero => Nat.ne_of_lt hne (congrArg (offset base) ?_)
    bv_omega
  rw [Part.isData, hb.tcp c hc, hb.ported.2 c hc, hsome, beq_self_eq_true]
  rfl

/-! ### Segments in the order of their first numbers -/

/-- The segments are in order, and one with payload begins behind the ends of all before it. -/
def Staged (base : U32) (segs : List Segment) : Prop :=
  segs.Pairwise fun x y =>
    x.body.first base ≤ y.body.first base ∧ (y.body.len ≠ 0 → x.body.last base ≤ y.body.first base)

/-- The same of the buffers. -/
def Rising (base : U32) (cs : List Skb) : Prop :=
  cs.Pairwise fun c d => c.first base ≤ d.first base ∧ (d.len ≠ 0 → c.last base ≤ d.first base)

theorem staged_iff : Staged base segs ↔ Rising base (segs.map Seg.body) := by
  unfold Staged Rising
  rw [List.pairwise_map]

theorem rising_append {cs ds : List Skb} : Rising base (cs ++ ds) ↔ Rising base cs ∧ Rising base ds ∧ ∀ c ∈ cs, ∀ d ∈ ds,
    c.first base ≤ d.first base ∧ (d.len ≠ 0 → c.last base ≤ d.first base) :=
  List.pairwise_append

theorem staged_append : Staged base (pre ++ post) ↔ Staged base pre ∧ Staged base post ∧ ∀ x ∈ pre, ∀ y ∈ post,
    x.body.first base ≤ y.body.first base ∧ (y.body.len ≠ 0 → x.body.last base ≤ y.body.first base) :=
  List.pairwise_append

/-- Segments with these buffers. -/
theorem Staged.of_map {f : Segment → Segment} (hf : ∀ x, (f x).body.seq = x.body.seq ∧ (f x).body.len = x.body.len)
    (hsegs : Staged base segs) : Staged base (segs.map f) := by
  refine List.pairwise_map.2 (hsegs.imp fun {x y} hxy => ?_)
  rw [Body.first, Body.first, Body.last, Body.seqEnd, (hf x).1, (hf x).2, (hf y).1, (hf y).2]
  exact hxy

theorem staged_setHeadNext : Staged base (setHeadNext n segs) ↔ Staged base segs := by
  cases segs with
  | nil => rfl
  | cons x segs =>
    unfold Staged
    simp [setHeadNext]

theorem staged_behind : Staged base (pre ++ behind n pre p2 :: post) ↔ Staged base (pre ++ p2 :: post) := by
  unfold Staged
  rw [List.pairwise_append, List.pairwise_append]
  simp

/-- The segment `s` in its place between `pre` and `post`. -/
theorem Staged.put {s : Segment} (hsegs : Staged base (pre ++ post))
    (hpre : ∀ x ∈ pre, x.body.first base ≤ s.body.first base ∧ (s.body.len ≠ 0 → x.body.last base ≤ s.body.first base))
    (hpost : ∀ y ∈ post, s.body.first base ≤ y.body.first base ∧ (y.body.len ≠ 0 → s.body.last base ≤ y.body.first base)) :
    Staged base (pre ++ s :: post) := by
  obtain ⟨hspre, hspost, hcross⟩ := staged_append.1 hsegs
  refine staged_append.2 ⟨hspre, List.pairwise_cons.2 ⟨hpost, hspost⟩, fun x hx => ?_⟩
  exact List.forall_mem_cons.2 ⟨hpre x hx, hcross x hx⟩

/-- What has payload and comes after a segment of the queue begins behind its end. -/
theorem Staged.behind_last {s y : Segment} (hsegs : Staged base (pre ++ s :: post)) (hy : y ∈ post) (hlen : y.body.len ≠ 0) :
    s.body.last base ≤ y.body.first base :=
  ((List.pairwise_cons.1 (staged_append.1 hsegs).2.1).1 y hy).2 hlen

theorem release_data : upsData h (tr.release segs).up = upsData h tr.up ++ segsData h segs := by
  unfold Track.release
  split
  · rename_i hnil
    rw [hnil, segsData_nil, List.append_nil]
  · rw [Track.flush, upsData_append, flushSegs_data]

end

end PacketReordering.Linux41
