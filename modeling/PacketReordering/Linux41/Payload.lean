import PacketReordering.Gro.Bytes
import PacketReordering.Linux41.Flags

/-!
# `linux-4.1`: the bytes of a segment

`skb_gro_merge` splices fragments of one buffer into another and cuts the headers off the first one.  Receive offload
does not copy payload.

* `Packet.payload` — the bytes of a packet behind its headers;
* `parse_payload` — these are what the buffer describes when `tcp_gro_receive` has looked at it;
* `Conveys` — a buffer describes the payloads of its packets, one behind the other;
* `run_conveys` — so does every segment that is held or has gone up.
-/

namespace PacketReordering.Linux41

open Gro

/-- The bytes of a packet behind its IP header without options and its TCP header. -/
def Packet.payload (pages : Pages) (pkt : Packet) : List U8 := pkt.body.bytesFrom pages (20 + pkt.body.tcp.thlen)

/-- The buffer describes the payloads of the packets in it; `content` is the payload of a packet by its name. -/
structure Conveys (pages : Pages) (content : ℕ → List U8) (b : Skb) : Prop where
  reaches : b.Reaches b.dataOffset
  payload : b.payload pages = b.parts.flatMap fun c => content c.uid
  len : ∀ c ∈ b.parts, c.len = BitVec.ofNat 32 (content c.uid).length
  short : 2 ≤ b.parts.length → b.groLen < 65536

variable {pages : Pages} {content : ℕ → List U8} {pkt : Packet} {p skb p' skb' b c : Skb} {flush linear : Bool}

/-! ### The headers -/

theorem inetHeader_payload (pages : Pages) (hb : b.Frag0Set) (h : inetHeader b = (c, some flush)) :
    c.Frag0Set ∧ c.dataOffset = b.dataOffset + 20 ∧ ∀ k, b.dataOffset + 20 ≤ k → c.bytesFrom pages k = b.bytesFrom pages k := by
  unfold inetHeader at h
  split at h
  · cases h
  · rename_i d hd
    have hkeep := fun k (hk : b.dataOffset + 20 ≤ k) => Body.groHeader_bytesFrom pages hd hk
    have hset := Body.groHeader_frag0Set hb hd
    obtain ⟨headlen, frags, frag0Len, rfl⟩ := Body.groHeader_some hd
    split at h
    · cases h
    · cases h
      exact ⟨hset, rfl, hkeep⟩

theorem tcpHeader_payload (pages : Pages) (hb : b.Frag0Set) (h : b.tcpHeader = (c, true)) :
    c.Reaches c.dataOffset ∧ c.dataOffset = b.dataOffset + b.tcp.thlen ∧
      c.payload pages = b.bytesFrom pages (b.dataOffset + b.tcp.thlen) := by
  unfold Body.tcpHeader at h
  dsimp only at h
  split at h
  · cases h
  · rename_i d hd
    split at h
    · cases h
    · rename_i hlen
      split at h
      · cases h
      · rename_i e he
        have htcp : d.tcp = b.tcp := (Body.groHeader_sameHeaders hd).tcp
        have hset := Body.groHeader_frag0Set hb hd
        have hreach : e.Reaches (b.dataOffset + d.tcp.thlen) := Body.groHeader_reaches hset he
        have hsecond : e.bytesFrom pages (b.dataOffset + d.tcp.thlen) = d.bytesFrom pages (b.dataOffset + d.tcp.thlen) :=
          Body.groHeader_bytesFrom pages he (Nat.le_refl _)
        have hfirst : d.bytesFrom pages (b.dataOffset + d.tcp.thlen) = b.bytesFrom pages (b.dataOffset + d.tcp.thlen) :=
          Body.groHeader_bytesFrom pages hd (by omega)
        have hsame : e.tcp = d.tcp := (Body.groHeader_sameHeaders he).tcp
        rw [← hsame] at hreach hsecond hfirst
        rw [← htcp, ← hsame]
        cases h
        exact ⟨hreach, rfl, hsecond.trans hfirst⟩

/-- **The payload of a packet is where `tcp_gro_receive` says.** -/
theorem parse_payload (pages : Pages) (h : pkt.parse = .tcp b flush linear) :
    b.Reaches b.dataOffset ∧ b.payload pages = pkt.payload pages := by
  have hset : ({ pkt.body with parts := [pkt.body.part], free := .no, isTcp := false, ext := false } : Skb).Frag0Set :=
    pkt.frag0_eq
  unfold Packet.parse at h
  split at h
  · cases h
  · dsimp only at h
    split at h
    · cases h
    · rename_i c fl hinet
      obtain ⟨hc, hoff, hkeep⟩ := inetHeader_payload pages hset hinet
      have htcp : c.tcp = pkt.body.tcp := by
        have hsame := inetHeader_sameHeaders
          { pkt.body with parts := [pkt.body.part], free := .no, isTcp := false, ext := false }
        rw [hinet] at hsame
        exact hsame.tcp
      have hoff : c.dataOffset = 20 := by
        rw [hoff]
        show pkt.body.dataOffset + 20 = 20
        rw [pkt.dataOffset_eq]
      split at h
      · cases h
      · split at h
        · cases h
        · rename_i d hd
          cases h
          have hc' : ({ c with isTcp := true } : Skb).Frag0Set := hc
          obtain ⟨hreach, -, hpayload⟩ := tcpHeader_payload pages hc' hd
          refine ⟨hreach, hpayload.trans ?_⟩
          show c.bytesFrom pages (c.dataOffset + c.tcp.thlen) = _
          rw [hoff, htcp]
          refine hkeep _ ?_
          show pkt.body.dataOffset + 20 ≤ _
          rw [pkt.dataOffset_eq]
          omega

/-! ### Merging -/

theorem skbGroMerge_data (h : skbGroMerge p skb = .merged p' skb') :
    ∃ p1 skb1, mergeData maxSkbFrags p skb = .merged p1 skb1 ∧ p'.headPage = p1.headPage ∧ p'.headData = p1.headData ∧
      p'.headlen = p1.headlen ∧ p'.frags = p1.frags ∧ p'.dataOffset = p1.dataOffset := by
  unfold skbGroMerge at h
  split at h
  · cases h
  · split at h
    · cases h
    · split at h
      · rename_i p1 skb1 hdata
        cases h
        exact ⟨p1, skb1, hdata, rfl, rfl, rfl, rfl, rfl⟩
      · rename_i hno
        exact absurd h (hno p' skb')

theorem mergeData_short {n : ℕ} {p1 skb1 : Skb} (h : mergeData n p skb = .merged p1 skb1) :
    p.skbLen + skb.groLen < 65536 := by
  unfold mergeData at h
  split at h
  · cases h
  · omega

theorem Body.Reaches.congr {n : ℕ} (h : b.Reaches n) (hlen : c.headlen = b.headlen) (hfrags : c.frags = b.frags) :
    c.Reaches n := by
  unfold Body.Reaches at h ⊢
  rwa [hlen, hfrags]

theorem Conveys.congr (h : Conveys pages content b) (hparts : c.parts = b.parts) (hpage : c.headPage = b.headPage)
    (hdata : c.headData = b.headData) (hlen : c.headlen = b.headlen) (hfrags : c.frags = b.frags)
    (hoff : c.dataOffset = b.dataOffset) : Conveys pages content c := by
  have hbytes : c.payload pages = b.payload pages := by
    rw [Body.payload, Body.payload, hoff, Body.bytesFrom_congr hpage hdata hlen hfrags]
  constructor
  · rw [hoff]
    exact Body.Reaches.congr h.reaches hlen hfrags
  · rw [hbytes, hparts]
    exact h.payload
  · rw [hparts]
    exact h.len
  · rw [hparts, ← Body.payload_length pages, hbytes, Body.payload_length]
    exact h.short

theorem Conveys.merge (hp : Conveys pages content p) (hskb : Conveys pages content skb)
    (h : skbGroMerge p skb = .merged p' skb') : Conveys pages content p' := by
  obtain ⟨-, hparts, -⟩ := skbGroMerge_control h
  obtain ⟨p1, skb1, hdata, hpage, hfirst, hlen, hfrags, hoff⟩ := skbGroMerge_data h
  obtain ⟨hbytes, hreach⟩ := mergeData_payload pages hdata hp.reaches hskb.reaches
  have hpayload : p'.payload pages = p.payload pages ++ skb.payload pages := by
    rw [← hbytes, Body.payload, Body.payload, hoff, Body.bytesFrom_congr hpage hfirst hlen hfrags]
  constructor
  · rw [hoff]
    exact Body.Reaches.congr hreach hlen hfrags
  · rw [hpayload, hp.payload, hskb.payload, hparts, List.flatMap_append]
  · intro c hc
    rw [hparts] at hc
    rcases List.mem_append.1 hc with hc | hc
    · exact hp.len c hc
    · exact hskb.len c hc
  · intro _
    have hshort := mergeData_short hdata
    have hlength := congrArg List.length hpayload
    rw [List.length_append, Body.payload_length, Body.payload_length, Body.payload_length] at hlength
    have hle : p.groLen ≤ p.skbLen := Nat.sub_le _ _
    omega

/-- A packet alone. -/
theorem Conveys.single (hparse : pkt.parse = .tcp b flush linear) (hcontent : pkt.payload pages = content pkt.body.uid) :
    Conveys pages content b := by
  obtain ⟨hreach, hpayload⟩ := parse_payload pages hparse
  have hb := parse_tcp hparse
  have hlength : b.groLen = (content pkt.body.uid).length := by
    rw [← Body.payload_length pages, hpayload, hcontent]
  constructor
  · exact hreach
  · rw [hpayload, hcontent, hb.parts, List.flatMap_singleton, ← hb.uid]
    rfl
  · intro c hc
    rw [hb.parts, List.mem_singleton] at hc
    subst hc
    show BitVec.ofNat 32 b.groLen = BitVec.ofNat 32 (content b.uid).length
    rw [hlength, hb.uid]
  · intro htwo
    rw [hb.parts, List.length_singleton] at htwo
    omega

theorem conveys_rule :
    HeldRule (fun pkt => pkt.payload pages = content pkt.body.uid) fun (_ : Unit) b => Conveys pages content b where
  pull _ b h := by
    have hparts : b.pull.parts = b.parts := by
      unfold Body.pull
      split <;> rfl
    have hpayload : b.pull.payload pages = b.payload pages := Body.payload_pull h.reaches
    constructor
    · exact Body.pull_reaches
    · rw [hpayload, hparts]
      exact h.payload
    · rw [hparts]
      exact h.len
    · rw [hparts, ← Body.payload_length pages, hpayload, Body.payload_length]
      exact h.short
  merge _ p skb p' skb' hp hskb _ hmerge := hp.merge hskb hmerge
  fresh pkt b flush linear hC hparse _ := ⟨(), (Conveys.single hparse hC).congr rfl rfl rfl rfl rfl rfl⟩
  join _ pkt b flush linear f p segs hC hparse _ _ _ _ := (Conveys.single hparse hC).congr rfl rfl rfl rfl rfl rfl

theorem Conveys.complete (h : Conveys pages content b) : Conveys pages content b.complete := by
  refine h.congr complete_parts ?_ ?_ ?_ ?_ ?_ <;> unfold Body.complete <;> split <;> rfl

/-- **A segment describes the bytes of its packets**, in the order of their sequence numbers, which leave no gap. -/
theorem run_conveys {mem s : Mem} {cs : List Call} (h : run mem cs = .ok s)
    (hcontent : ∀ c ∈ cs, c.Meets fun pkt => pkt.payload pages = content pkt.body.uid) :
    (∀ f ∈ s.view.flows, ∀ x ∈ f.segs, Conveys pages content x.body ∧ Laid x.body.seq x.body.parts x.body.seqEnd) ∧
      ∀ u ∈ s.up, u.via ≠ .normal → Conveys pages content u.body ∧ Laid u.body.seq u.body.parts u.body.seqEnd := by
  obtain ⟨hheld, hgone⟩ := run_heldBodies conveys_rule hcontent h
  obtain ⟨hlaid, hlaidUp⟩ := run_heldBodies laid_rule (fun c _ => c.meets_true) h
  constructor
  · intro f hf x hx
    obtain ⟨-, hbodies⟩ := hheld f hf
    obtain ⟨-, hlaids⟩ := hlaid f hf
    exact ⟨hbodies x hx, hlaids x hx⟩
  · intro u hu hvia
    obtain ⟨-, b, hb, hbody⟩ := hgone u hu hvia
    obtain ⟨-, b', hb', hbody'⟩ := hlaidUp u hu hvia
    exact ⟨hbody ▸ hb.complete, hbody' ▸ laid_complete hb'⟩

/-- Pages with different bytes. -/
def numbered : Pages := fun page k => BitVec.ofNat 8 (100 * page + k)

/-- The three packets of `bridged` have 10 bytes each behind their headers. -/
theorem bridged_payload :
    ∀ c ∈ bridged, c.Meets fun pkt => pkt.payload numbered = bytesAt numbered pkt.body.uid 40 10 := by
  intro c hc
  simp only [bridged, List.mem_cons, List.not_mem_nil, or_false] at hc
  rcases hc with rfl | rfl | rfl | rfl
  · exact List.append_nil _
  · exact List.append_nil _
  · exact List.append_nil _
  · trivial

theorem run_conveys_bridged :
    ∃ s u, run default bridged = .ok s ∧ u ∈ s.up ∧
      u.body.payload numbered = bytesAt numbered 2 40 10 ++ bytesAt numbered 0 40 10 ++ bytesAt numbered 1 40 10 := by
  have hend : (run default bridged).map (fun s => s.up.map fun u => (u.via, u.body.parts.map Part.uid)) =
      .ok [(.devGroComplete, [2, 0, 1])] := by decide +kernel
  cases hrun : run default bridged with
  | error e =>
    rw [hrun] at hend
    cases hend
  | ok s =>
    rw [hrun] at hend
    have hups : s.up.map (fun u => (u.via, u.body.parts.map Part.uid)) = [(.devGroComplete, [2, 0, 1])] := by
      simpa [Except.map] using hend
    obtain ⟨u, us, hu, hvalue, -⟩ := List.map_eq_cons_iff.1 hups
    simp only [Prod.mk.injEq] at hvalue
    obtain ⟨hvia, huids⟩ := hvalue
    have hmem : u ∈ s.up := by simp [hu]
    obtain ⟨-, hups⟩ := @run_conveys numbered (fun uid => bytesAt numbered uid 40 10) _ _ _ hrun bridged_payload
    obtain ⟨hconveys, -⟩ := hups u hmem (by simp [hvia])
    refine ⟨s, u, rfl, hmem, ?_⟩
    rw [hconveys.payload, ← List.flatMap_map Part.uid fun uid => bytesAt numbered uid 40 10, huids]
    simp [List.flatMap_cons]

end PacketReordering.Linux41
