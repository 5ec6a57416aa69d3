import PacketReordering.Gro.Bodies
import PacketReordering.Linux318.Arrivals
import PacketReordering.Linux318.Placing

/-!
# `linux-3.18.5`: what all held buffers have

A property of buffers that merging and pulling keep, and that a packet has when it joins its flow, is kept by the walk
and by the loops of `dev_gro_complete`.

* `WalkRule` — such a property;
* `walkSegs_bodies`, `completeFlow_bodies` — it is kept, and what goes up had it;
* `run_received` — no segment is freed on its way up, if `gro_complete` knows the protocols that `gro_receive` knows.
-/

namespace PacketReordering.Linux318

open Lib Gro

/-- A property `Q` of held buffers that a packet with `J` and the merges of the walk keep. -/
structure WalkRule (J Q : Skb → Prop) : Prop where
  stay : ∀ b, J b → Q b
  pull : ∀ b, Q b → Q b.pull
  front : ∀ b p b' p', J b → Q p → b.seqEnd = p.seq → skbGroMerge b p = .merged b' p' →
    Q { b' with ext := b'.ext.of p'.ext }
  behind : ∀ p b p' b', Q p → J b → p.seqEnd = b.seq → skbGroMerge p b = .merged p' b' →
    Q (addFlags p' b.tcp.flagWord)
  bridge : ∀ p p3 p' s', Q p → Q p3 → p.seqEnd = p3.seq → skbGroMerge p p3 = .merged p' s' →
    Q { p' with ext := p'.ext.min s'.ext }

/-- A property `Q` that the walk of the packet `b` keeps, as long as `b` is merged only with segments behind it that have
`F`, and two held segments are merged only when they have `G`. -/
structure TurnRule (F : Skb → Prop) (G : Skb → Skb → Prop) (b : Skb) (Q : Skb → Prop) : Prop where
  stay : Q b
  front : ∀ p b' p', F p → Q p → b.seqEnd = p.seq → skbGroMerge b p = .merged b' p' →
    Q { b' with ext := b'.ext.of p'.ext }
  behind : ∀ p p' b', Q p → p.seqEnd = b.seq → skbGroMerge p b = .merged p' b' → Q (addFlags p' b.tcp.flagWord)
  bridge : ∀ p p3 p' s', G p p3 → Q p → Q p3 → p.seqEnd = p3.seq → skbGroMerge p p3 = .merged p' s' →
    Q { p' with ext := p'.ext.min s'.ext }

theorem WalkRule.turn {J Q : Skb → Prop} {b : Skb} (hQ : WalkRule J Q) (hb : J b) :
    TurnRule (fun _ => True) (fun _ _ => True) b Q where
  stay := hQ.stay b hb
  front p b' p' _ hp hseq hmerge := hQ.front b p b' p' hb hp hseq hmerge
  behind p p' b' hp hseq hmerge := hQ.behind p b p' b' hp hb hseq hmerge
  bridge p p3 p' s' _ hp hp3 hseq hmerge := hQ.bridge p p3 p' s' hp hp3 hseq hmerge

variable {J Q F : Skb → Prop} {G : Skb → Skb → Prop} {n : Option SkbId} {k : SkbId} {b : Skb} {tr : Track} {w : Walked} {inSeq seq2 : U32}
  {p2 : Segment} {rest pre segs rel : List Segment}

/-- What the walk leaves, held and gone up, when the buffers in `up` went up before. -/
structure WalkBodies [GroComplete Stamp] (Q : Skb → Prop) (up : List (Up Stamp)) (w : Walked) : Prop where
  segs : Bodies Q w.segs
  up : ∀ u ∈ w.track.up, u ∈ up ∨ UpFrom Q u

/-- What went up is in `up`, or had `Q`. -/
def UpsIn [GroComplete Stamp] (Q : Skb → Prop) (up : List (Up Stamp)) (tr : Track) : Prop := ∀ u ∈ tr.up, u ∈ up ∨ UpFrom Q u

theorem UpsIn.flush [GroComplete Stamp] {up : List (Up Stamp)} (h : UpsIn Q up tr) (hrel : Bodies Q rel) :
    UpsIn Q up (tr.flush rel) := by
  intro u hu
  rcases List.mem_append.1 hu with hu | hu
  · exact h u hu
  · exact Or.inr (flushSegs_upFrom hrel u hu)

theorem bridged_bodies [GroComplete Stamp] {up : List (Up Stamp)} (hQ : TurnRule F G b Q) {e : U32}
    (hw : Bridged n e tr pre p2 rest inSeq seq2 w) (hend : p2.body.seqEnd = e) (hup : UpsIn Q up tr)
    (hpre : Bodies Q pre) (hp2 : Q p2.body) (hrest : Bodies Q rest)
    (hG : ∀ p3 ps b2 b3, rest = p3 :: ps → e = p3.body.seq → skbGroMerge p2.body p3.body = .merged b2 b3 → G p2.body p3.body) :
    WalkBodies Q up w := by
  have hall : Bodies Q (pre ++ p2 :: rest) := bodies_append.2 ⟨hpre, bodies_cons.2 ⟨hp2, hrest⟩⟩
  have hfront : Bodies Q (pre ++ [p2]) := bodies_append.2 ⟨hpre, bodies_cons.2 ⟨hp2, bodies_nil⟩⟩
  cases hw with
  | last hnil => exact ⟨hfront, hup⟩
  | release hps hseq hmerge hin => exact ⟨bodies_setHeadNext.2 hrest, hup.flush hfront⟩
  | stay hps hseq hmerge hin => exact ⟨hall, hup⟩
  | refuseLast hps hseq hmerge hne => exact ⟨hall, hup⟩
  | refuse hps hnil hseq hmerge hne =>
    rw [hps] at hrest
    obtain ⟨hp3, hrest⟩ := bodies_cons.1 hrest
    exact ⟨bodies_setHeadNext.2 hrest,
      hup.flush (bodies_append.2 ⟨hpre, bodies_cons.2 ⟨hp2, bodies_cons.2 ⟨hp3, bodies_nil⟩⟩⟩)⟩
  | bridge hps hseq hmerge =>
    have hguard := hG _ _ _ _ hps hseq hmerge
    rw [hps] at hrest
    obtain ⟨hp3, hrest⟩ := bodies_cons.1 hrest
    exact ⟨bodies_append.2 ⟨hpre, bodies_cons.2 ⟨hQ.bridge _ _ _ _ hguard hp2 hp3 (hend.trans hseq) hmerge, hrest⟩⟩, hup⟩
  | overlap hps hseq hafter => exact ⟨hall, hup⟩
  | gap hps hseq hafter => exact ⟨hall, hup⟩

/-- The packet `b` may be merged with what it meets at the segment `p2`. -/
structure Permits (F : Skb → Prop) (G : Skb → Skb → Prop) (b : Skb) (p2 : Segment) (rest : List Segment) : Prop where
  front : ∀ b' p', b.seqEnd = p2.body.seq → skbGroMerge b p2.body = .merged b' p' → F p2.body
  bridge : ∀ b2 s2 p3 ps b3 s3, before b.seqEnd p2.body.seq = false → b.seqEnd ≠ p2.body.seq → b.seq = p2.body.seqEnd →
    skbGroMerge p2.body b = .merged b2 s2 → rest = p3 :: ps → b.seqEnd = p3.body.seq →
    skbGroMerge (addFlags b2 b.tcp.flagWord) p3.body = .merged b3 s3 → G (addFlags b2 b.tcp.flagWord) p3.body

theorem turn_bodies [GroComplete Stamp] {up : List (Up Stamp)} (hQ : TurnRule F G b Q)
    (hw : Turn n k b p2 rest pre inSeq tr (.inl w))
    (hpermits : Permits F G b p2 rest) (hup : UpsIn Q up tr) (hpre : Bodies Q pre) (hp2 : Q p2.body)
    (hrest : Bodies Q rest) : WalkBodies Q up w := by
  have hall : Bodies Q (pre ++ p2 :: rest) := bodies_append.2 ⟨hpre, bodies_cons.2 ⟨hp2, hrest⟩⟩
  have hfront : Bodies Q (pre ++ [p2]) := bodies_append.2 ⟨hpre, bodies_cons.2 ⟨hp2, bodies_nil⟩⟩
  have hbQ : Q b := hQ.stay
  cases hw with
  | insert hseq =>
    refine ⟨bodies_append.2 ⟨hpre, bodies_cons.2 ⟨?_, bodies_cons.2 ⟨hp2, hrest⟩⟩⟩, hup⟩
    rwa [behind_body]
  | mergeFront hseq hmerge =>
    have hguard := hpermits.front _ _ hseq hmerge
    exact ⟨bodies_append.2 ⟨hpre, bodies_cons.2 ⟨hQ.front _ _ _ hguard hp2 hseq hmerge, hrest⟩⟩, hup⟩
  | refuseLast hnil hwhy => exact ⟨hfront, hup⟩
  | refuse hne hwhy => exact ⟨bodies_setHeadNext.2 hrest, hup.flush hfront⟩
  | append hnil hnot hseq =>
    exact ⟨bodies_append.2 ⟨hpre, bodies_cons.2 ⟨hp2, bodies_cons.2 ⟨hbQ, bodies_nil⟩⟩⟩, hup⟩
  | appendRelease hnil hnot hseq hin hmerge =>
    exact ⟨bodies_cons.2 ⟨hbQ, bodies_nil⟩, hup.flush hfront⟩
  | merge hnot hseq hmerge hw =>
    have hend := (skbGroMerge_seqEnd hseq.symm hmerge).2
    exact bridged_bodies hQ hw hend hup hpre (hQ.behind _ _ _ hp2 hseq.symm hmerge) hrest
      fun p3 ps b3 s3 hps hseq3 hmerge3 => hpermits.bridge _ _ _ _ _ _ hnot.1 hnot.2 hseq hmerge hps hseq3 hmerge3
  | overlap hnot hseq hafter => exact ⟨hall, hup⟩

theorem next_bodies [GroComplete Stamp] {up : List (Up Stamp)} {pre' : List Segment} {tr' : Track}
    (hturn : Turn n k b (behind n pre p2) rest pre inSeq tr (.inr (pre', tr'))) (hup : UpsIn Q up tr)
    (hall : Bodies Q (pre ++ p2 :: rest)) : Bodies Q (pre' ++ rest) ∧ UpsIn Q up tr' := by
  obtain ⟨hpre, hp2rest⟩ := bodies_append.1 hall
  obtain ⟨hp2, hrest⟩ := bodies_cons.1 hp2rest
  have hfront : Bodies Q (pre ++ [behind n pre p2]) :=
    bodies_append.2 ⟨hpre, bodies_cons.2 ⟨by rwa [behind_body], bodies_nil⟩⟩
  cases hturn with
  | pass hne hnot hseq => exact ⟨bodies_append.2 ⟨hfront, hrest⟩, hup⟩
  | passRelease hne hnot hseq hin hmerge => exact ⟨hrest, hup.flush hfront⟩

/-- **The walk keeps the property.** -/
theorem walkSegs_bodies [GroComplete Stamp] (hQ : WalkRule J Q) (hb : J b) (hne : segs ≠ []) (hsegs : Bodies Q segs)
    (h : walkSegs n k b segs [] inSeq tr = .ok w) : WalkBodies Q tr.up w := by
  refine walkSegs_induct (I := fun post pre _ tr' => Bodies Q (pre ++ post) ∧ UpsIn Q tr.up tr')
    (P := fun w => WalkBodies Q tr.up w) ?_ ?_ hne ⟨show Bodies Q ([] ++ segs) from hsegs, fun u hu => Or.inl hu⟩ h
  · rintro p2 rest pre inSeq tr' w ⟨hall, hup⟩ hturn
    obtain ⟨hpre, hp2rest⟩ := bodies_append.1 hall
    obtain ⟨hp2, hrest⟩ := bodies_cons.1 hp2rest
    exact turn_bodies (hQ.turn hb) hturn ⟨fun _ _ _ _ => trivial, fun _ _ _ _ _ _ _ _ _ _ _ _ _ => trivial⟩ hup hpre
      (by rwa [behind_body]) hrest
  · rintro p2 rest pre inSeq tr' pre' tr'' ⟨hall, hup⟩ hturn
    exact next_bodies hturn hup hall

/-- The packet in its place has the property too. -/
theorem Placed.bodies {base : U32} {exit : Exit} {all : List Segment} {fate : Fate} (hQ : WalkRule J Q)
    (h : Placed base k b exit segs all fate) (hb : J b) (hsegs : Bodies Q segs) : Bodies Q all := by
  cases h with
  | refused => exact hsegs
  | insert hpre hpost =>
    obtain ⟨hpre, hpost⟩ := bodies_append.1 hsegs
    exact bodies_append.2 ⟨hpre, bodies_cons.2 ⟨hQ.stay _ hb, hpost⟩⟩
  | front hpre hseq hmerge =>
    obtain ⟨hpre, hrest⟩ := bodies_append.1 hsegs
    obtain ⟨hp2, hpost⟩ := bodies_cons.1 hrest
    exact bodies_append.2 ⟨hpre, bodies_cons.2 ⟨hQ.front _ _ _ _ hb hp2 hseq hmerge, hpost⟩⟩
  | behind hseq hmerge hpost =>
    obtain ⟨hpre, hrest⟩ := bodies_append.1 hsegs
    obtain ⟨hp2, hpost⟩ := bodies_cons.1 hrest
    exact bodies_append.2 ⟨hpre, bodies_cons.2 ⟨hQ.behind _ _ _ _ hp2 hb hseq hmerge, hpost⟩⟩
  | bridge hseq hmerge hseq' hmerge' =>
    obtain ⟨hpre, hrest⟩ := bodies_append.1 hsegs
    obtain ⟨hp2, hrest⟩ := bodies_cons.1 hrest
    obtain ⟨hp3, hpost⟩ := bodies_cons.1 hrest
    have hend := (skbGroMerge_seqEnd hseq hmerge).2
    have hp2' := hQ.behind _ _ _ _ hp2 hb hseq hmerge
    exact bodies_append.2 ⟨hpre, bodies_cons.2 ⟨hQ.bridge _ _ _ _ hp2' hp3 (hend.trans hseq') hmerge', hpost⟩⟩

/-! ### The end of a call -/

section

variable {env : Env} {l : Lists} {i c : Skb} {f : Flow Stamp OfoExt} {B : List (Flow Stamp OfoExt)} {p : Segment}
  {whole : Bool} {clock : Clock}

theorem Walked.flow_bodies {q : OfoId} (hpull : ∀ b, Q b → Q b.pull) (h : Bodies Q w.segs) :
    Bodies Q (w.flow k b q).segs := by
  unfold Walked.flow
  cases w.fate with
  | held => exact h.pull hpull
  | merged => exact h
  | normal => exact h

/-- A packet of a held flow keeps the property. -/
theorem Way.bodies [GroComplete Stamp] (hQ : WalkRule J Q) (hway : Way env l i b f B p c w whole clock) (hne : f.segs ≠ [])
    (hb : notHeld env i b p.body = false → J (stampWalk l.clock (sized b p.body))) (hf : Bodies Q f.segs) :
    WalkBodies Q l.up w := by
  cases hway with
  | flush hwhy => exact ⟨bodies_setHeadNext.2 hf, fun u hu => Or.inl hu⟩
  | late hhold hlate => exact ⟨bodies_setHeadNext.2 hf, fun u hu => Or.inl hu⟩
  | walked hhold hlate hwalk => exact walkSegs_bodies hQ (hb hhold) hne hf hwalk

/-- `dev_gro_complete` gives away the first segments. -/
theorem completeFlow_suffix [GroComplete Stamp] (timeout timestamp : U64) (d : Dat) (segs : List Segment) :
    (completeFlow timeout timestamp d segs).2.2 <:+ segs := by
  have hloop : ∀ (cond : Dat → SkbId → Skb → Bool) (d : Dat) (xs : List Segment), (completeSegs cond d xs).2.2 <:+ xs := by
    intro cond d xs
    obtain ⟨rel, hrel, -⟩ := completeSegs_append cond d xs
    exact ⟨rel, hrel.symm⟩
  exact (hloop _ _ _).trans (hloop _ _ _)

theorem completeFlow_bodies [GroComplete Stamp] (timeout timestamp : U64) (d : Dat) (h : Bodies Q segs) :
    (∀ u ∈ (completeFlow timeout timestamp d segs).2.1, UpFrom Q u) ∧
      Bodies Q (completeFlow timeout timestamp d segs).2.2 := by
  unfold completeFlow
  have hloop : ∀ (cond : Dat → SkbId → Skb → Bool) (d : Dat) (xs : List Segment), Bodies Q xs →
      (∀ u ∈ (completeSegs cond d xs).2.1, UpFrom Q u) ∧ Bodies Q (completeSegs cond d xs).2.2 :=
    fun cond d xs hxs => completeSegs_upFrom hxs
  obtain ⟨hup, hrest⟩ := hloop _ _ _ h
  obtain ⟨hup', hrest'⟩ := hloop _ _ _ hrest
  exact ⟨List.forall_mem_append.2 ⟨hup, hup'⟩, hrest'⟩

/-! ### Calls -/

/-- All held buffers have `Q`, and so had those that went up as segments. -/
structure AllBodies [GroComplete Stamp] (Q : Skb → Prop) (l : Lists) : Prop where
  flows : ∀ f ∈ l.flows, Bodies Q f.segs
  up : ∀ u ∈ l.up, SentFrom Q u

/-- The property `Q` is kept when `pkt` arrives. -/
structure BodyRule [GroComplete Stamp] (env : Env) (l : Lists) (pkt : Packet) (Q : Skb → Prop) : Prop where
  pull : ∀ b, Q b → Q b.pull
  fresh : ∀ b x rest, Holdable env l pkt b x rest → Bodies Q (newFlow x l.nskb b l.clock l.up.length).segs
  found : ∀ i b c A f B p w whole clock, Found env l pkt i b A f B p → Way env l i b f B p c w whole clock →
    Bodies Q f.segs → WalkBodies Q l.up w

variable {l' : Lists} {pkt : Packet} {A : List (Flow Stamp OfoExt)}

theorem AllBodies.append_up [GroComplete Stamp] {us : List (Up Stamp)} (h : ∀ u ∈ l.up, SentFrom Q u)
    (hus : ∀ u ∈ us, UpFrom Q u) : ∀ u ∈ l.up ++ us, SentFrom Q u :=
  List.forall_mem_append.2 ⟨h, fun u hu => Or.inr (hus u hu)⟩

theorem AllBodies.append_normal [GroComplete Stamp] {b : Skb} (h : ∀ u ∈ l.up, SentFrom Q u) :
    ∀ u ∈ l.up ++ [Parsed.up k b], SentFrom Q u := by
  refine List.forall_mem_append.2 ⟨h, fun u hu => Or.inl ?_⟩
  rw [List.mem_singleton.1 hu]
  exact ⟨rfl, rfl⟩

theorem endLists_allBodies [GroComplete Stamp] {q : OfoId} (hpull : ∀ b, Q b → Q b.pull)
    (hflows : ∀ f ∈ A ++ B, Bodies Q f.segs)
    (hup : ∀ u ∈ l.up, SentFrom Q u) (hw : WalkBodies Q l.up w) :
    AllBodies Q (endLists l k c A B q w whole) := by
  obtain ⟨hsegs, hwup⟩ := hw
  have hwup' : ∀ u ∈ w.track.up, SentFrom Q u := by
    intro u hu
    rcases hwup u hu with hu | hu
    · exact hup u hu
    · exact Or.inr hu
  have hdrop := (completeFlow_bodies 0 (l.clock.ktime 0) w.track.dat (bodies_setHeadNext (n := none).2 hsegs)).1
  have hall := AllBodies.append_up (l := { l with up := w.track.up }) hwup' hdrop
  refine ⟨?_, ?_⟩
  · rw [endLists_flows]
    cases whole with
    | true => exact hflows
    | false =>
      obtain ⟨hA, hB⟩ := List.forall_mem_append.1 hflows
      exact List.forall_mem_append.2 ⟨hA, List.forall_mem_cons.2 ⟨Walked.flow_bodies hpull hsegs, hB⟩⟩
  · unfold endLists dropFlow
    cases whole with
    | true =>
      cases w.fate with
      | held => exact hall
      | merged => exact hall
      | normal => exact AllBodies.append_normal (l := { l with up := _ }) hall
    | false =>
      cases w.fate with
      | held => exact hwup'
      | merged => exact hwup'
      | normal => exact AllBodies.append_normal (l := { l with up := w.track.up }) hwup'

theorem Arrival.allBodies [GroComplete Stamp] (hR : BodyRule env l pkt Q) (h : AllBodies Q l)
    (harrival : Arrival env l pkt l') :
    AllBodies Q l' := by
  obtain ⟨hflows, hup⟩ := h
  cases harrival with
  | other hparse => exact ⟨hflows, AllBodies.append_normal hup⟩
  | unheld hwhy hqueue => exact ⟨hflows, AllBodies.append_normal hup⟩
  | late hold hlate => exact ⟨hflows, AllBodies.append_normal hup⟩
  | fresh hold hlate hfull => exact ⟨List.forall_mem_cons.2 ⟨hR.fresh _ _ _ hold, hflows⟩, hup⟩
  | @evict b x rest P g hold hlate hl hfull =>
    rw [hl, List.forall_mem_append] at hflows
    obtain ⟨hP, hg⟩ := hflows
    have hdrop : Bodies Q (setHeadNext none g.segs) := bodies_setHeadNext.2 (hg g (List.mem_singleton_self g))
    exact ⟨List.forall_mem_cons.2 ⟨hR.fresh _ _ _ hold, hP⟩,
      AllBodies.append_up hup (completeFlow_bodies 0 (l.clock.ktime 1) g.dat hdrop).1⟩
  | @found i b c A B f p w whole clock hfound hway =>
    have hw := hR.found _ _ _ _ _ _ _ _ _ _ hfound hway (hflows f hfound.mem)
    rw [hfound.flows_eq, List.forall_mem_append, List.forall_mem_cons] at hflows
    exact endLists_allBodies (l := { l with nskb := l.nskb + 1, clock := clock }) hR.pull
      (List.forall_mem_append.2 ⟨hflows.1, hflows.2.2⟩) hup hw

theorem flushFlow_allBodies [GroComplete Stamp] (hf : Bodies Q f.segs) (h : AllBodies Q l) :
    AllBodies Q (flushFlow f l) := by
  obtain ⟨hflows, hup⟩ := h
  have hdone := completeFlow_bodies 100000 (l.clock.ktime 0) f.dat (bodies_setHeadNext (n := (heads l.flows).head?).2 hf)
  unfold flushFlow
  simp only
  split
  · exact ⟨hflows, AllBodies.append_up hup hdone.1⟩
  · exact ⟨List.forall_mem_cons.2 ⟨hdone.2, hflows⟩, AllBodies.append_up hup hdone.1⟩

theorem flushLists_allBodies [GroComplete Stamp] (flushOld : Bool) (h : AllBodies Q l) :
    AllBodies Q (flushLists l flushOld) := by
  have hfold : ∀ (fs : List (Flow Stamp OfoExt)) (l : Lists), (∀ f ∈ fs, Bodies Q f.segs) → AllBodies Q l →
      AllBodies Q (flushFlows flushOld fs l) := by
    intro fs
    induction fs with
    | nil => exact fun l _ hl => hl
    | cons f fs ih =>
      intro l hfs hl
      obtain ⟨hf, hrest⟩ := List.forall_mem_cons.1 hfs
      have htick : AllBodies Q { l with clock := l.clock.tickJiffies } := ⟨hl.flows, hl.up⟩
      rw [flushFlows]
      split
      · simp only
        split
        · exact ⟨List.forall_mem_append.2 ⟨fun g hg => hfs g (List.mem_reverse.1 hg), hl.flows⟩, hl.up⟩
        · exact ih _ hrest (flushFlow_allBodies hf htick)
      · exact ih _ hrest (flushFlow_allBodies hf hl)
  exact hfold _ _ (fun f hf => h.flows f (List.mem_reverse.1 hf)) ⟨fun f hf => absurd hf List.not_mem_nil, h.up⟩

end

/-! ### The result of `gro_complete` -/

/-- `inet_gro_receive` hands packets with this IP protocol to TCP. -/
def Env.HandsOn (env : Env) (protocol : U8) : Prop := ∃ b c flush, env.header b = (c, some flush) ∧ c.ip.protocol = protocol

/-- For these protocols `inet_gro_complete` finds the callback of TCP as well, and `tcp_gro_complete` returns 0. -/
def Env.Completes (env : Env) : Prop := ∀ b : Skb, env.HandsOn b.ip.protocol → env.completeErr b = false

theorem completes_inet : Env.inet.Completes := by
  rintro b ⟨i, c, flush, hheader, hprotocol⟩
  refine decide_eq_false (not_not.2 ?_)
  rw [← hprotocol]
  unfold Env.inet at hheader
  simp only at hheader
  split at hheader
  · cases hheader
  · split at hheader
    · cases hheader
    · rename_i hcheck
      cases hheader
      simp only [Bool.or_eq_true, decide_eq_true_eq, not_or, ne_eq, not_not] at hcheck
      exact hcheck.1.1

section

variable {env : Env} {pkt : Packet} {i : Skb} {l l' : Lists} {flush : Bool}

theorem parse_handsOn (h : pkt.parse env = .tcp i b flush) : env.HandsOn b.ip.protocol := by
  have hip := (parse_tcp h).ip
  unfold Packet.parse at h
  split at h
  · cases h
  · split at h
    · cases h
    · rename_i c fl hinet
      have hc := env.header_same { pkt.body with parts := [pkt.body.part], free := .no, isTcp := false }
      rw [hinet] at hc
      refine ⟨_, c, fl, hinet, ?_⟩
      rw [hip]
      exact congrArg IpHdr.protocol hc.ip

theorem handsOn_rule (env : Env) : WalkRule (fun b => env.HandsOn b.ip.protocol) fun b => env.HandsOn b.ip.protocol := by
  have hmerge : ∀ p b p' b' : Skb, env.HandsOn p.ip.protocol → skbGroMerge p b = .merged p' b' → env.HandsOn p'.ip.protocol := by
    intro p b p' b' hp hmerge
    obtain ⟨-, -, -, -, -, frags, rfl⟩ := skbGroMerge_merged hmerge
    exact hp
  refine ⟨fun _ hb => hb, fun b hb => ?_, fun b p b' p' hb _ _ h => hmerge b p b' p' hb h,
    fun p b p' b' hp _ _ h => hmerge p b p' b' hp h, fun p p3 p' s' hp _ _ h => hmerge p p3 p' s' hp h⟩
  unfold Body.pull
  split
  · exact hb
  · exact hb

theorem handsOn_body [GroComplete Stamp] : BodyRule env l pkt fun b => env.HandsOn b.ip.protocol where
  pull := (handsOn_rule env).pull
  fresh b x rest hold := by
    obtain ⟨i, flush, hparse, -⟩ := hold.parse
    have hb := parse_handsOn hparse
    exact bodies_cons.2 ⟨(handsOn_rule env).pull _ hb, bodies_nil⟩
  found i b c A f B p w whole clock hfound hway hf := by
    obtain ⟨flush, hparse⟩ := hfound.parse
    have hb := parse_handsOn hparse
    exact hway.bodies (handsOn_rule env) hfound.ne (fun _ => hb) hf

theorem stepLists_handsOn {c : Call} (hne : ∀ f ∈ l.flows, f.segs ≠ []) (hstep : stepLists env l c = .ok l')
    (h : @AllBodies env.groComplete (fun b => env.HandsOn b.ip.protocol) l) :
    @AllBodies env.groComplete (fun b => env.HandsOn b.ip.protocol) l' := by
  let _ := env.groComplete
  cases c with
  | receive pkt clock =>
    have harrival := @receiveLists_ok env { l with clock := clock } _ _ _ hne hstep
    exact harrival.allBodies (l := { l with clock := clock }) handsOn_body ⟨h.flows, h.up⟩
  | flush flushOld clock =>
    cases hstep
    exact flushLists_allBodies flushOld ⟨h.flows, h.up⟩
  | clean clock =>
    cases hstep
    exact ⟨h.flows, h.up⟩

/-- What goes up reaches the stack. -/
theorem run_received {mem s : Mem} {cs : List Call} (hcompletes : env.Completes) (hrun : run env mem cs = .ok s) :
    received s.up = s.up := by
  let _ := env.groComplete
  obtain ⟨l, hrep, hl⟩ := run_invariant (I := fun _ l => AllBodies (fun b => env.HandsOn b.ip.protocol) l)
    ⟨fun f hf => absurd hf List.not_mem_nil, fun u hu => absurd hu List.not_mem_nil⟩
    (fun _ _ _ _ _ _ hrep _ hl hstep => stepLists_handsOn (fun f hf => (hrep.links.flows f hf).ne) hstep hl) hrun
  refine List.filter_eq_self.2 fun u hu => ?_
  rw [hrep.links.up] at hu
  rcases hl.up u hu with ⟨-, hfreed⟩ | ⟨b, hb, -, hfreed⟩
  · rw [hfreed]
    rfl
  · have herr : b.completeErr = false := by
      unfold Body.completeErr
      rw [show GroComplete.err b = false from hcompletes b hb, Bool.and_false]
    rw [hfreed, herr]
    rfl

end

/-- Two packets in sequence, and `inet_gro_complete` fails for the segment. -/
example : (run { Env.inet with completeErr := fun _ => true } default
    [.receive (.plain 0 1 7 1000 100 0) ⟨fun _ => 0, fun _ => 1⟩, .receive (.plain 1 1 7 1100 100 0) ⟨fun _ => 10, fun _ => 1⟩,
      .flush false ⟨fun _ => 200000, fun _ => 1⟩]).map (fun s => s.up.map fun u => (u.body.parts.length, u.freed)) =
    .ok [(2, true)] := by decide +kernel

end PacketReordering.Linux318
