import PacketReordering.Linux41.Held
import Mathlib.Algebra.Group.Action.Defs
import Mathlib.Algebra.Order.BigOperators.Group.List
import Mathlib.Algebra.Order.Ring.Nat

/-!
# `linux-4.1`: the boundaries of the packets in a segment

A segment that goes up carries `gso_size` and a count, from which the boundaries of the packets in it are computed.

* `Geometry` — these describe the packets as they are;
* `skbGroMerge_geometry` — `skb_gro_merge` keeps that, whichever of its two buffers is the new one;
* `run_geometry` — it holds in every run of the segments that the 16-bit fields can describe.
-/

namespace PacketReordering.Linux41

open Gro

/-- The lengths of the packets in the buffer, in the order of the payload. -/
def lens (b : Skb) : List ℕ := b.parts.map fun c => c.len.toNat

/-- The packets lie one behind the other, from `seq` to `seqEnd`. -/
def Laid : U32 → List Part → U32 → Prop
  | seq, [], seqEnd => seq = seqEnd
  | seq, c :: cs, seqEnd => c.seq = seq ∧ Laid (seq + c.len) cs seqEnd

/-- The control block of `b` describes the packets in it. -/
structure Geometry (b : Skb) : Prop where
  laid : Laid b.seq b.parts b.seqEnd
  count : b.count.toNat = b.parts.length
  len : b.len.toNat = (lens b).sum
  first : (lens b).head? = some b.gsoSize.toNat
  last : ∃ init n, lens b = init ++ [n] ∧ (∀ m ∈ init, m = b.gsoSize.toNat) ∧ n ≤ b.gsoSize.toNat ∧
    (b.ext = true ↔ n < b.gsoSize.toNat)

/-- The `gso_segs` with which a buffer goes up that was received with `gsoSegs`: `tcp_gro_complete` writes the count, and
`napi_gro_complete` calls it unless that is 1. -/
def napiGroCompleteSegs (gsoSegs : U16) (u : Up GsoEnd) : U16 :=
  if u.via = .normal ∨ u.body.count = 1 then gsoSegs else u.body.count

/-- The 16-bit fields can describe the packets in `b`. -/
def Describable (b : Skb) : Prop := b.parts.length < 65536 ∧ ∀ n ∈ lens b, n < 65536

variable {p skb p' skb' b : Skb}

theorem Laid.append {cs ds : List Part} {r s t : U32} (h : Laid r cs s) (h' : Laid s ds t) : Laid r (cs ++ ds) t := by
  induction cs generalizing r with
  | nil =>
    obtain rfl : r = s := h
    exact h'
  | cons c cs ih => exact ⟨h.1, ih h.2⟩

theorem Describable.sum_lt (h : Describable b) : (lens b).sum < 2 ^ 32 := by
  have hle : (lens b).sum ≤ (lens b).length • 65535 :=
    List.sum_le_card_nsmul _ _ fun n hn => Nat.le_of_lt_succ (h.2 n hn)
  have hlen : (lens b).length < 65536 := by
    rw [lens, List.length_map]
    exact h.1
  rw [smul_eq_mul] at hle
  omega

theorem skbGroMerge_control (h : skbGroMerge p skb = .merged p' skb') :
    gsoSizesDiffer p skb = false ∧ p'.parts = p.parts ++ skb.parts ∧ p'.seq = p.seq ∧ p'.len = p.len + skb.len ∧
      p'.count = p.count + skb.count ∧ p'.gsoSize = p.gsoSize ∧
      p'.ext = (p.ext || skb.ext || decide (skb.gsoSize.toNat < p.gsoSize.toNat)) := by
  obtain ⟨-, hsizes, -, -, frags, rfl⟩ := skbGroMerge_merged h
  exact ⟨hsizes, rfl, rfl, rfl, rfl, rfl, rfl⟩

/-- What the check of `gso_size` says. -/
theorem gsoSizesDiffer_eq_false (h : gsoSizesDiffer p skb = false) :
    p.ext = false ∧ skb.gsoSize.toNat ≤ p.gsoSize.toNat ∧
      (skb.gsoSize.toNat < p.gsoSize.toNat → skb.count.toNat ≤ 1) := by
  unfold gsoSizesDiffer at h
  simp only [Bool.or_eq_false_iff, Bool.and_eq_false_iff, decide_eq_false_iff_not, BitVec.lt_def] at h
  obtain ⟨⟨hext, hcount⟩, hle⟩ := h
  refine ⟨hext, by omega, fun hlt => ?_⟩
  rcases hcount with hcount | hcount
  · exact absurd hlt hcount
  · have hone : (1 : U16).toNat = 1 := rfl
    omega

/-- **`skb_gro_merge` keeps the boundaries.** -/
theorem skbGroMerge_geometry (hp : Geometry p) (hskb : Geometry skb) (hdesc : Describable p')
    (hseq : p.seqEnd = skb.seq) (h : skbGroMerge p skb = .merged p' skb') : Geometry p' := by
  obtain ⟨hsizes, hparts, hseq', hlen', hcount', hgso', hext'⟩ := skbGroMerge_control h
  obtain ⟨hext, hle, hone⟩ := gsoSizesDiffer_eq_false hsizes
  have hlens : lens p' = lens p ++ lens skb := by rw [lens, hparts, List.map_append]; rfl
  obtain ⟨init, n, hinit, hall, hn, hlast⟩ := hp.last
  obtain ⟨init', n', hinit', hall', hn', hlast'⟩ := hskb.last
  -- `gso_end` of `p` is not set, so its last packet has the size of the others
  have hn_eq : n = p.gsoSize.toNat := by
    have hnot : ¬ n < p.gsoSize.toNat := fun hlt => by simp [hlast.2 hlt] at hext
    omega
  have hp_all : ∀ m ∈ lens p, m = p.gsoSize.toNat := by
    intro m hm
    rw [hinit] at hm
    rcases List.mem_append.1 hm with hm | hm
    · exact hall m hm
    · rw [List.mem_singleton.1 hm, hn_eq]
  constructor
  · rw [hseq', hparts]
    have hend : p'.seqEnd = skb.seqEnd := by
      simp only [Body.seqEnd] at hseq ⊢
      rw [hseq', hlen', ← hseq]
      bv_omega
    rw [hend]
    exact hp.laid.append (hseq ▸ hskb.laid)
  · have hbound := hdesc.1
    rw [hparts, List.length_append] at hbound
    rw [hparts, List.length_append, hcount', BitVec.toNat_add, hp.count, hskb.count]
    omega
  · have hsum := hdesc.sum_lt
    rw [hlens, List.sum_append] at hsum
    rw [hlens, List.sum_append, hlen', BitVec.toNat_add, hp.len, hskb.len]
    omega
  · rw [hlens, hgso', List.head?_append, hp.first]
    rfl
  · rcases Nat.lt_or_ge skb.gsoSize.toNat p.gsoSize.toNat with hlt | hge
    · -- a single packet that is shorter
      have hlength : (lens skb).length ≤ 1 := by
        rw [lens, List.length_map, ← hskb.count]
        exact hone hlt
      have hnil : init' = [] := by
        rw [hinit', List.length_append, List.length_singleton] at hlength
        exact List.eq_nil_of_length_eq_zero (by omega)
      refine ⟨lens p, n', ?_, ?_, ?_, ?_⟩
      · rw [hlens, hinit', hnil, List.nil_append]
      · rw [hgso']
        exact hp_all
      · rw [hgso']
        omega
      · rw [hext', hgso', decide_eq_true hlt, Bool.or_true]
        exact ⟨fun _ => by omega, fun _ => rfl⟩
    · have hgso : skb.gsoSize.toNat = p.gsoSize.toNat := by omega
      refine ⟨lens p ++ init', n', ?_, ?_, ?_, ?_⟩
      · rw [hlens, hinit', List.append_assoc]
      · intro m hm
        rw [hgso']
        rcases List.mem_append.1 hm with hm | hm
        · exact hp_all m hm
        · rw [hall' m hm, hgso]
      · rw [hgso']
        omega
      · rw [hext', hgso', hext, Bool.false_or, hgso, decide_eq_false (Nat.lt_irrefl _), Bool.or_false, hlast',
          hgso]

/-! ### The rule -/

theorem Geometry.congr (h : Geometry b) (hparts : p.parts = b.parts) (hseq : p.seq = b.seq) (hlen : p.len = b.len)
    (hcount : p.count = b.count) (hgso : p.gsoSize = b.gsoSize) (hext : p.ext = b.ext) : Geometry p := by
  obtain ⟨hlaid, hcount', hlen', hfirst, hlast⟩ := h
  have hlens : lens p = lens b := by rw [lens, lens, hparts]
  have hend : p.seqEnd = b.seqEnd := by rw [Body.seqEnd, Body.seqEnd, hseq, hlen]
  constructor
  · rw [hseq, hparts, hend]
    exact hlaid
  · rw [hcount, hparts]
    exact hcount'
  · rw [hlen, hlens]
    exact hlen'
  · rw [hlens, hgso]
    exact hfirst
  · rw [hlens, hgso, hext]
    exact hlast

/-- A packet alone, when its length fits. -/
theorem Geometry.single {pkt : Packet} {flush linear : Bool} (hparse : pkt.parse = .tcp b flush linear)
    (hdesc : Describable b) {gsoSize : U16} (hgso : b.len.toNat < 65536 → gsoSize.toNat = b.len.toNat) :
    Geometry { b with gsoSize := gsoSize } := by
  have hb := parse_tcp hparse
  have hlens : lens b = [b.len.toNat] := by rw [lens, hb.parts, hb.len]; rfl
  have hshort : b.len.toNat < 65536 := hdesc.2 _ (by simp [hlens])
  constructor
  · show Laid b.seq b.parts (b.seq + b.len)
    rw [hb.parts, hb.seq, hb.len]
    exact ⟨rfl, rfl⟩
  · show b.count.toNat = b.parts.length
    rw [hb.parts, hb.count]
    rfl
  · show b.len.toNat = (lens b).sum
    rw [hlens, List.sum_singleton]
  · show (lens b).head? = some gsoSize.toNat
    rw [hlens, hgso hshort]
    rfl
  · refine ⟨[], b.len.toNat, hlens, fun m hm => absurd hm List.not_mem_nil, ?_, ?_⟩
    · rw [hgso hshort]
    · show b.ext = true ↔ b.len.toNat < gsoSize.toNat
      rw [hb.ext, hgso hshort]
      exact ⟨fun hf => absurd hf Bool.false_ne_true, fun hlt => absurd hlt (Nat.lt_irrefl _)⟩

theorem geometry_rule : HeldRule (fun _ => True) fun (_ : Unit) b => Describable b → Geometry b where
  pull _ b h hdesc := by
    have hsame : b.pull.parts = b.parts ∧ b.pull.seq = b.seq ∧ b.pull.len = b.len ∧ b.pull.count = b.count ∧
        b.pull.gsoSize = b.gsoSize ∧ b.pull.ext = b.ext := by
      unfold Body.pull
      split <;> exact ⟨rfl, rfl, rfl, rfl, rfl, rfl⟩
    obtain ⟨hparts, hseq, hlen, hcount, hgso, hext⟩ := hsame
    refine (h ?_).congr hparts hseq hlen hcount hgso hext
    rwa [Describable, lens, hparts] at hdesc
  merge _ p skb p' skb' hp hskb hseq hmerge hdesc := by
    obtain ⟨-, hparts, -⟩ := skbGroMerge_control hmerge
    have hdesc' := hdesc
    rw [Describable, lens, hparts, List.map_append, List.length_append] at hdesc'
    obtain ⟨hlength, hshort⟩ := hdesc'
    have hp' := hp ⟨by omega, fun n hn => hshort n (List.mem_append_left _ hn)⟩
    have hskb' := hskb ⟨by omega, fun n hn => hshort n (List.mem_append_right _ hn)⟩
    exact skbGroMerge_geometry hp' hskb' hdesc hseq hmerge
  fresh pkt b flush linear _ hparse _ := by
    refine ⟨(), fun hdesc => Geometry.single hparse hdesc fun hshort => ?_⟩
    rw [(parse_tcp hparse).len, BitVec.toNat_ofNat] at hshort ⊢
    rw [BitVec.toNat_ofNat]
    omega
  join _ pkt b flush linear f p segs _ hparse _ _ _ _ hdesc := by
    refine Geometry.single hparse hdesc fun hshort => ?_
    rw [BitVec.toNat_setWidth]
    omega

/-- `gso_segs` is the number of packets. -/
theorem Geometry.gsoSegs {u : Up GsoEnd} {gsoSegs : U16} (h : Geometry b) (hbody : u.body = b.complete)
    (hvia : u.via ≠ .normal) (hseveral : 2 ≤ u.body.parts.length) :
    (napiGroCompleteSegs gsoSegs u).toNat = u.body.parts.length := by
  have hcount : u.body.count.toNat = u.body.parts.length := by
    rw [hbody, complete_parts, ← h.count]
    unfold Body.complete
    split <;> rfl
  have hne : u.body.count ≠ 1 := by
    intro hone
    rw [hone] at hcount
    have hsingle : (1 : U16).toNat = 1 := rfl
    omega
  rw [napiGroCompleteSegs, if_neg (not_or.2 ⟨hvia, hne⟩), hcount]

/-- **The control block of a segment describes the packets in it**, when they are fewer than 65536 and each is shorter than
65536 bytes; `napi_gro_complete` clears `gso_size` when there is only one, and when there are more `gso_segs` is their
number. -/
theorem run_geometry {mem s : Mem} {cs : List Call} (h : run mem cs = .ok s) :
    (∀ f ∈ s.view.flows, ∀ x ∈ f.segs, Describable x.body → Geometry x.body) ∧
      ∀ u ∈ s.up, u.via ≠ .normal → Describable u.body → ∃ b, Geometry b ∧ u.body = b.complete ∧
        (2 ≤ u.body.parts.length → ∀ gsoSegs, (napiGroCompleteSegs gsoSegs u).toNat = u.body.parts.length) := by
  obtain ⟨hheld, hgone⟩ := run_heldBodies geometry_rule (fun c _ => c.meets_true) h
  constructor
  · intro f hf x hx
    obtain ⟨-, hbodies⟩ := hheld f hf
    exact hbodies x hx
  · intro u hu hvia hdesc
    obtain ⟨-, b, hb, hbody⟩ := hgone u hu hvia
    rw [Describable, lens, hbody, complete_parts] at hdesc
    exact ⟨b, hb hdesc, hbody, fun hseveral _ => (hb hdesc).gsoSegs hbody hvia hseveral⟩

/-- A segment of 10, 10 and 5 bytes. -/
def threeInSequence : List Call :=
  [.receive (.plain 0 1 7 100 10 0) fun _ => 0, .receive (.plain 1 1 7 120 5 0) fun _ => 0,
    .receive (.plain 2 1 7 110 10 0) fun _ => 0]

theorem run_geometry_three :
    ∃ s, run default threeInSequence = .ok s ∧ ∃ f ∈ s.view.flows, ∃ x ∈ f.segs, lens x.body = [10, 10, 5] ∧
      Geometry x.body := by
  have hend : (run default threeInSequence).map (fun s => s.view.flows.map fun f => f.segs.map fun x =>
      lens x.body) = .ok [[[10, 10, 5]]] := by decide +kernel
  cases hrun : run default threeInSequence with
  | error e =>
    rw [hrun] at hend
    cases hend
  | ok s =>
    rw [hrun] at hend
    have hflows : s.view.flows.map (fun f => f.segs.map fun x => lens x.body) = [[[10, 10, 5]]] := by
      simpa [Except.map] using hend
    obtain ⟨f, fs, hf, hsegs, -⟩ := List.map_eq_cons_iff.1 hflows
    obtain ⟨x, xs, hx, hlens, -⟩ := List.map_eq_cons_iff.1 hsegs
    have hfmem : f ∈ s.view.flows := by simp [hf]
    have hxmem : x ∈ f.segs := by simp [hx]
    have hdesc : Describable x.body := by
      have hlength : x.body.parts.length = 3 := by
        have hthree := congrArg List.length hlens
        rwa [lens, List.length_map] at hthree
      refine ⟨by omega, ?_⟩
      rw [hlens]
      decide
    exact ⟨s, rfl, f, hfmem, x, hxmem, hlens, (run_geometry hrun).1 f hfmem x hxmem hdesc⟩

/-- The `gso_size` of a packet of 65536 bytes is 0. -/
theorem not_geometry_long :
    ¬ ∀ (mem : Mem) (cs : List Call) (s : Mem), run mem cs = .ok s → ∀ f ∈ s.view.flows, ∀ x ∈ f.segs,
      (lens x.body).head? = some x.body.gsoSize.toNat := by
  intro h
  have hend : (run default [.receive (.plain 0 1 7 100 65536 0) fun _ => 0]).map (fun s => s.view.flows.map fun f =>
      f.segs.map fun x => (lens x.body, x.body.gsoSize)) = .ok [[([65536], 0)]] := by decide +kernel
  cases hrun : run default [.receive (.plain 0 1 7 100 65536 0) fun _ => 0] with
  | error e =>
    rw [hrun] at hend
    cases hend
  | ok s =>
    rw [hrun] at hend
    have hflows : s.view.flows.map (fun f => f.segs.map fun x => (lens x.body, x.body.gsoSize)) = [[([65536], 0)]] := by
      simpa [Except.map] using hend
    obtain ⟨f, fs, hf, hsegs, -⟩ := List.map_eq_cons_iff.1 hflows
    obtain ⟨x, xs, hx, hvalue, -⟩ := List.map_eq_cons_iff.1 hsegs
    simp only [Prod.mk.injEq] at hvalue
    have hfirst := h default _ s hrun f (by simp [hf]) x (by simp [hx])
    rw [hvalue.1, hvalue.2] at hfirst
    exact absurd hfirst (by decide)

end PacketReordering.Linux41
