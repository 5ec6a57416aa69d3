import PacketReordering.Gro.Bodies
import PacketReordering.Linux41.Arrivals
import PacketReordering.Linux41.Conservation

/-!
# `linux-4.1`: what all held buffers have

A property of buffers that merging and pulling keep, and that every packet has when it joins its flow, holds of every
segment in every run.

* `HeldRule` — such a property, with a parameter that the buffers of one flow share;
* `AllHeld` — it holds of the held segments and of those that went up;
* `run_allHeld`, `run_heldBodies` — the rule, over the lists and over the state.
-/

namespace PacketReordering.Linux41

open Lib Gro

/-! ### Segments whose buffers have a property -/

section

variable {P : Skb → Prop} {xs : List Segment}

theorem completeFlow_upFrom (flushOld : Bool) (groOfoTimeout groInseqTimeout timestamp : U64) (d : Dat)
    (h : Bodies P xs) :
    (∀ u ∈ (completeFlow flushOld groOfoTimeout groInseqTimeout timestamp d xs).2.1, UpFrom P u) ∧
      Bodies P (completeFlow flushOld groOfoTimeout groInseqTimeout timestamp d xs).2.2 := by
  cases xs with
  | nil => exact ⟨fun u hu => absurd hu List.not_mem_nil, bodies_nil⟩
  | cons x xs =>
    have hstamp : ∀ r, (stamp timestamp r).2 = r.2 := by
      intro r
      unfold stamp
      split <;> rfl
    simp only [completeFlow, ← stamp.eq_def, hstamp]
    split
    · exact completeSegs_upFrom h
    · split
      · exact completeSegs_upFrom h
      · exact ⟨fun u hu => absurd hu List.not_mem_nil, h⟩

theorem Track.release_upFrom {tr : Track} {R : Up GsoEnd → Prop} (hP : ∀ u, UpFrom P u → R u) (h : Bodies P xs)
    (hup : ∀ u ∈ tr.up, R u) : ∀ u ∈ (tr.release xs).up, R u := by
  unfold Track.release
  split
  · exact hup
  · intro u hu
    rcases List.mem_append.1 hu with hu | hu
    · exact hup u hu
    · exact hP u (flushSegs_upFrom h u hu)

end

/-! ### The rule -/

/-- A property `Q κ` of buffers that receive offload keeps when the packets have `C`; `κ` is what the buffers of one flow
have in common. -/
structure HeldRule {K : Type} (C : Packet → Prop) (Q : K → Skb → Prop) : Prop where
  pull : ∀ κ b, Q κ b → Q κ b.pull
  merge : ∀ κ p skb p' skb', Q κ p → Q κ skb → p.seqEnd = skb.seq → skbGroMerge p skb = .merged p' skb' → Q κ p'
  fresh : ∀ pkt b flush linear, C pkt → pkt.parse = .tcp b flush linear →
    (flush || decide (b.groLen < 1) || hasFlag b.tcp.flagWord flushFlags || linear) = false →
    ∃ κ, Q κ { b with gsoSize := BitVec.ofNat 16 b.groLen }
  join : ∀ κ pkt b flush linear f p segs, C pkt → pkt.parse = .tcp b flush linear → f.segs = p :: segs → Q κ p.body →
    sameFlowAs b f = true → notHeld f b flush linear = false → Q κ (walker b)

/-- Two properties at once. -/
theorem HeldRule.and {K K' : Type} {C : Packet → Prop} {Q : K → Skb → Prop} {Q' : K' → Skb → Prop} (h : HeldRule C Q)
    (h' : HeldRule C Q') : HeldRule C fun (κ : K × K') b => Q κ.1 b ∧ Q' κ.2 b where
  pull κ b hb := ⟨h.pull κ.1 b hb.1, h'.pull κ.2 b hb.2⟩
  merge κ p skb p' skb' hp hskb hseq hmerge :=
    ⟨h.merge κ.1 p skb p' skb' hp.1 hskb.1 hseq hmerge, h'.merge κ.2 p skb p' skb' hp.2 hskb.2 hseq hmerge⟩
  fresh pkt b flush linear hC hparse hwhy := by
    obtain ⟨κ, hκ⟩ := h.fresh pkt b flush linear hC hparse hwhy
    obtain ⟨κ', hκ'⟩ := h'.fresh pkt b flush linear hC hparse hwhy
    exact ⟨(κ, κ'), hκ, hκ'⟩
  join κ pkt b flush linear f p segs hC hparse hsegs hp hmatch hnot :=
    ⟨h.join κ.1 pkt b flush linear f p segs hC hparse hsegs hp.1 hmatch hnot,
      h'.join κ.2 pkt b flush linear f p segs hC hparse hsegs hp.2 hmatch hnot⟩

/-- Every segment that went up had `Q` for some value of the parameter. -/
def UpsHeld {K : Type} (Q : K → Skb → Prop) (up : List (Up GsoEnd)) : Prop :=
  ∀ u ∈ up, u.via = .normal ∧ u.freed = false ∨ ∃ κ, UpFrom (Q κ) u

/-- The held buffers of a flow have `Q` for one value of the parameter, and every segment that went up had it. -/
structure AllHeld {K : Type} (Q : K → Skb → Prop) (l : Lists) : Prop where
  flows : ∀ f ∈ l.flows, ∃ κ, Bodies (Q κ) f.segs
  up : UpsHeld Q l.up

section

variable {K : Type} {C : Packet → Prop} {Q : K → Skb → Prop} {κ : K} {n : Option SkbId} {k : SkbId} {b : Skb}
  {tr : Track} {pre : List Segment} {p2 : Segment} {rest : List Segment} {inSeq seq2 : U32} {w : Walked}
  {l l' : Lists} {pkt : Packet} {us : List (Up GsoEnd)} {A B : List (Flow GsoEnd OfoExt)}

theorem UpsHeld.release {xs : List Segment} (hup : UpsHeld Q tr.up) (h : Bodies (Q κ) xs) :
    UpsHeld Q (tr.release xs).up :=
  Track.release_upFrom (P := Q κ) (fun _ hu => Or.inr ⟨κ, hu⟩) h hup

theorem UpsHeld.append (hup : UpsHeld Q l.up) (hus : ∀ u ∈ us, UpFrom (Q κ) u) : UpsHeld Q (l.up ++ us) := by
  intro u hu
  rcases List.mem_append.1 hu with hu | hu
  · exact hup u hu
  · exact Or.inr ⟨κ, hus u hu⟩

theorem UpsHeld.normal (hup : UpsHeld Q us) : UpsHeld Q (us ++ [Parsed.up k b]) := by
  intro u hu
  rcases List.mem_append.1 hu with hu | hu
  · exact hup u hu
  · rw [List.mem_singleton.1 hu]
    exact Or.inl ⟨rfl, rfl⟩

theorem UpsHeld.of_mem {u : Up GsoEnd} (hup : UpsHeld Q us) (hu : u ∈ us) (hvia : u.via ≠ .normal) :
    ∃ κ b, Q κ b ∧ u.body = b.complete := by
  obtain ⟨κ, b, hb, hbody, -⟩ := (hup u hu).resolve_left fun h => hvia h.1
  exact ⟨κ, b, hb, hbody⟩

/-- What the walk leaves, held and gone up. -/
def WalkHeld (Q : K → Skb → Prop) (κ : K) (w : Walked) : Prop := Bodies (Q κ) w.segs ∧ UpsHeld Q w.track.up

theorem behind_held {R : Track → Prop} (hQ : HeldRule C Q) (hR : ∀ tr xs, Bodies (Q κ) xs → R tr → R (tr.release xs))
    (hw : Behind n b tr pre p2 rest inSeq seq2 w) (hend : p2.body.seqEnd = b.seqEnd) (htr : R tr)
    (hpre : Bodies (Q κ) pre) (hp2 : Q κ p2.body) (hrest : Bodies (Q κ) rest) :
    Bodies (Q κ) w.segs ∧ R w.track := by
  cases hw with
  | stay => exact ⟨bodies_append.2 ⟨hpre, bodies_cons.2 ⟨hp2, hrest⟩⟩, htr⟩
  | release hin hne hwhy =>
    exact ⟨bodies_setHeadNext.2 hrest, hR _ _ (bodies_append.2 ⟨hpre, bodies_cons.2 ⟨hp2, bodies_nil⟩⟩) htr⟩
  | bridge hps hseq hmerge =>
    rw [hps] at hrest
    obtain ⟨hp3, hps⟩ := bodies_cons.1 hrest
    have hb3 := hQ.merge κ _ _ _ _ hp2 hp3 (hend.trans hseq) hmerge
    exact ⟨bodies_append.2 ⟨hpre, bodies_cons.2 ⟨hb3, hps⟩⟩, htr⟩
  | bridgeRelease hps hseq hmerge hin hpsh hne =>
    rw [hps] at hrest
    obtain ⟨hp3, hps⟩ := bodies_cons.1 hrest
    have hb3 := hQ.merge κ _ _ _ _ hp2 hp3 (hend.trans hseq) hmerge
    exact ⟨bodies_setHeadNext.2 hps, hR _ _ (bodies_append.2 ⟨hpre, bodies_cons.2 ⟨hb3, bodies_nil⟩⟩) htr⟩

theorem turn_held {R : Track → Prop} (hQ : HeldRule C Q) (hR : ∀ tr xs, Bodies (Q κ) xs → R tr → R (tr.release xs))
    (hw : Turn n k b p2 rest pre inSeq tr (.inl w)) (hb : Q κ b) (htr : R tr) (hpre : Bodies (Q κ) pre)
    (hp2 : Q κ p2.body) (hrest : Bodies (Q κ) rest) : Bodies (Q κ) w.segs ∧ R w.track := by
  have hall : Bodies (Q κ) (pre ++ p2 :: rest) := bodies_append.2 ⟨hpre, bodies_cons.2 ⟨hp2, hrest⟩⟩
  have hfront : Bodies (Q κ) (pre ++ [p2]) := bodies_append.2 ⟨hpre, bodies_cons.2 ⟨hp2, bodies_nil⟩⟩
  cases hw with
  | drop hseq hwhy => exact ⟨hall, htr⟩
  | dropRelease hin hwhy => exact ⟨bodies_setHeadNext.2 (bodies_cons.2 ⟨hp2, hrest⟩), hR _ _ hpre htr⟩
  | dropReleaseTo hnot hseq hin hmerge hne hinval hwhy => exact ⟨bodies_setHeadNext.2 hrest, hR _ _ hfront htr⟩
  | insert hseq =>
    refine ⟨bodies_append.2 ⟨hpre, bodies_cons.2 ⟨?_, bodies_cons.2 ⟨hp2, hrest⟩⟩⟩, htr⟩
    rw [behind_body]
    exact hb
  | mergeFront hnot hseq hmerge =>
    exact ⟨bodies_append.2 ⟨hpre, bodies_cons.2 ⟨hQ.merge κ _ _ _ _ hb hp2 hseq hmerge, hrest⟩⟩, htr⟩
  | append hnil hnot hseq =>
    exact ⟨bodies_append.2 ⟨hpre, bodies_cons.2 ⟨hp2, bodies_cons.2 ⟨hb, bodies_nil⟩⟩⟩, htr⟩
  | appendRelease hnil hnot hseq hin hmerge hne hpsh =>
    exact ⟨bodies_cons.2 ⟨hb, bodies_nil⟩, hR _ _ hfront htr⟩
  | merge hnot hseq hmerge hw =>
    have hb2 := hQ.merge κ _ _ _ _ hp2 hb hseq.symm hmerge
    refine behind_held hQ hR hw ?_ htr hpre hb2 hrest
    obtain ⟨-, -, -, -, frags, rfl⟩ := skbGroMerge_merged hmerge
    simp only [Body.seqEnd, Body.append, hseq]
    bv_omega

/-- The walk keeps what every release keeps. -/
theorem walkSegs_keeps {R : Track → Prop} (hQ : HeldRule C Q)
    (hR : ∀ tr xs, Bodies (Q κ) xs → R tr → R (tr.release xs)) {segs : List Segment} (hb : Q κ b) (htr : R tr)
    (hsegs : Bodies (Q κ) segs) (h : walkSegs n k b segs [] inSeq tr = .ok w) : Bodies (Q κ) w.segs ∧ R w.track := by
  refine walkSegs_induct (I := fun post pre _ tr => Bodies (Q κ) post ∧ Bodies (Q κ) pre ∧ R tr)
    (P := fun w => Bodies (Q κ) w.segs ∧ R w.track) ?_ ?_ ?_ ⟨hsegs, bodies_nil, htr⟩ h
  · rintro pre inSeq tr ⟨-, hpre, htr⟩
    exact ⟨hpre, htr⟩
  · rintro p2 rest pre inSeq tr w ⟨hpost, hpre, htr⟩ hturn
    obtain ⟨hp2, hrest⟩ := bodies_cons.1 hpost
    exact turn_held hQ hR hturn hb htr hpre (by rwa [behind_body]) hrest
  · rintro p2 rest pre inSeq tr pre' tr' ⟨hpost, hpre, htr⟩ hturn
    obtain ⟨hp2, hrest⟩ := bodies_cons.1 hpost
    have hfront : Bodies (Q κ) (pre ++ [behind n pre p2]) :=
      bodies_append.2 ⟨hpre, bodies_cons.2 ⟨by rwa [behind_body], bodies_nil⟩⟩
    cases hturn with
    | pass hne hnot hseq => exact ⟨hrest, hfront, htr⟩
    | passRelease hne hnot hseq hin hmerge hinval => exact ⟨hrest, bodies_nil, hR _ _ hfront htr⟩

theorem walkSegs_held (hQ : HeldRule C Q) {segs : List Segment} (hb : Q κ b) (hup : UpsHeld Q tr.up)
    (hsegs : Bodies (Q κ) segs) (h : walkSegs n k b segs [] inSeq tr = .ok w) : WalkHeld Q κ w :=
  walkSegs_keeps (R := fun tr => UpsHeld Q tr.up) hQ (fun _ _ hxs hup => hup.release hxs) hb hup hsegs h

/-- The flow between `A` and `B` is replaced. -/
theorem AllHeld.replace {f g : Flow GsoEnd OfoExt} (h : AllHeld Q l) (hflows : l.flows = A ++ f :: B)
    (hflows' : l'.flows = A ++ g :: B) (hg : ∃ κ, Bodies (Q κ) g.segs) (hup : UpsHeld Q l'.up) : AllHeld Q l' := by
  refine ⟨fun f' hf' => ?_, hup⟩
  rw [hflows'] at hf'
  rcases List.mem_append.1 hf' with hf' | hf'
  · exact h.flows f' (hflows ▸ List.mem_append_left _ hf')
  · rcases List.mem_cons.1 hf' with rfl | hf'
    · exact hg
    · exact h.flows f' (hflows ▸ List.mem_append_right _ (List.mem_cons_of_mem _ hf'))

theorem walkedLists_held {f : Flow GsoEnd OfoExt} (hQ : HeldRule C Q) (h : AllHeld Q l)
    (hflows : l.flows = A ++ f :: B) (hw : WalkHeld Q κ w) : AllHeld Q (walkedLists l k b A B f.q w) := by
  obtain ⟨hsegs, hup⟩ := hw
  unfold walkedLists
  cases w.fate with
  | held => exact h.replace hflows rfl ⟨κ, hsegs.pull (hQ.pull κ)⟩ hup
  | merged => exact h.replace hflows rfl ⟨κ, hsegs⟩ hup
  | normal => exact h.replace hflows rfl ⟨κ, hsegs⟩ hup.normal

theorem newFlow_held {x : FreeQueue OfoExt} {rest : List (FreeQueue OfoExt)} {timestamp : U64} (hQ : HeldRule C Q)
    (hC : C pkt) (hold : Holdable l pkt b x rest) : ∃ κ, Bodies (Q κ) (newFlow x k b timestamp).segs := by
  obtain ⟨flush, linear, hparse, hwhy⟩ := hold.parse
  obtain ⟨κ, hκ⟩ := hQ.fresh pkt b flush linear hC hparse hwhy
  exact ⟨κ, bodies_cons.2 ⟨hQ.pull κ _ hκ, bodies_nil⟩⟩

theorem Arrival.held (hQ : HeldRule C Q) (hC : C pkt) (h : AllHeld Q l) (hne : ∀ f ∈ l.flows, f.segs ≠ [])
    (harrival : Arrival l pkt l') : AllHeld Q l' := by
  cases harrival with
  | other hparse => exact ⟨h.flows, h.up.normal⟩
  | unheld hwhy hqueue => exact ⟨h.flows, h.up.normal⟩
  | late hold hlate => exact ⟨h.flows, h.up.normal⟩
  | fresh hold hlate hfull =>
    exact ⟨List.forall_mem_cons.2 ⟨newFlow_held hQ hC hold, h.flows⟩, h.up⟩
  | @evict b x rest P g hold hlate hflows hfull =>
    have hmem : ∀ f ∈ P ++ [g], ∃ κ, Bodies (Q κ) f.segs := hflows ▸ h.flows
    obtain ⟨κ, hg⟩ := hmem g (List.mem_append_right _ (List.mem_singleton_self g))
    refine ⟨List.forall_mem_cons.2 ⟨newFlow_held hQ hC hold, fun f hf => hmem f (List.mem_append_left _ hf)⟩, ?_⟩
    exact h.up.append (completeFlow_upFrom false 0 0 (l.clock.ktime 1) g.dat (bodies_setHeadNext.2 hg)).1
  | @drop b flush linear A B f hfound hwhy =>
    have hflows := (splitFlow_some hfound.split).1
    obtain ⟨κ, hf⟩ := h.flows f (hflows ▸ List.mem_append_right _ (List.mem_cons_self ..))
    exact h.replace hflows rfl ⟨κ, bodies_setHeadNext.2 hf⟩ h.up.normal
  | @walked b flush linear A B f w hfound hwhy hwalk =>
    obtain ⟨hflows, hmatch, -⟩ := splitFlow_some hfound.split
    have hmem : f ∈ l.flows := hflows ▸ List.mem_append_right _ (List.mem_cons_self ..)
    obtain ⟨κ, hf⟩ := h.flows f hmem
    obtain ⟨hnot, -⟩ := Bool.or_eq_false_iff.1 hwhy
    obtain ⟨p, segs, hsegs⟩ := List.exists_cons_of_ne_nil (hne f hmem)
    have hb : Q κ (walker b) :=
      hQ.join κ pkt b flush linear f p segs hC hfound.parse hsegs ((bodies_cons.1 (hsegs ▸ hf)).1) hmatch hnot
    have hw := walkSegs_held hQ hb (show UpsHeld Q (Track.up ⟨walkDat f.dat b, l.clock, l.up⟩) from h.up) hf hwalk
    exact walkedLists_held (l := { l with nskb := l.nskb + 1 }) hQ ⟨h.flows, h.up⟩ hflows hw

theorem flushLists_held {flushOld : Bool} {groOfoTimeout groInseqTimeout : U64} (h : AllHeld Q l) :
    AllHeld Q (flushLists l flushOld groOfoTimeout groInseqTimeout) := by
  have hfold : ∀ (fs : List (Flow GsoEnd OfoExt)) (l : Lists), (∀ f ∈ fs, ∃ κ, Bodies (Q κ) f.segs) → AllHeld Q l →
      AllHeld Q (fs.foldr (flushFlow flushOld groOfoTimeout groInseqTimeout) l) := by
    intro fs l hfs hl
    induction fs with
    | nil => exact hl
    | cons f fs ih =>
      obtain ⟨⟨κ, hf⟩, hfs⟩ := List.forall_mem_cons.1 hfs
      have hrest := ih hfs
      rw [List.foldr_cons]
      generalize fs.foldr (flushFlow flushOld groOfoTimeout groInseqTimeout) l = m at hrest ⊢
      have hflow := completeFlow_upFrom flushOld groOfoTimeout groInseqTimeout (m.clock.ktime 0) f.dat
        (bodies_setHeadNext (n := (heads m.flows).head?).2 hf)
      unfold flushFlow
      simp only
      split
      · exact ⟨hrest.flows, hrest.up.append hflow.1⟩
      · exact ⟨List.forall_mem_cons.2 ⟨⟨κ, hflow.2⟩, hrest.flows⟩, hrest.up.append hflow.1⟩
  exact hfold _ _ h.flows ⟨fun f hf => absurd hf List.not_mem_nil, h.up⟩

/-- The packet of a call has `C`. -/
def Call.Meets (C : Packet → Prop) : Call → Prop
  | .receive pkt _ => C pkt
  | _ => True

theorem stepLists_held {c : Call} (hQ : HeldRule C Q) (hC : c.Meets C) (h : AllHeld Q l)
    (hne : ∀ f ∈ l.flows, f.segs ≠ []) (hstep : stepLists l c = .ok l') : AllHeld Q l' := by
  cases c with
  | receive pkt ktime =>
    exact Arrival.held (l := { l with clock := { l.clock with ktime := ktime } }) hQ hC ⟨h.flows, h.up⟩ hne
      (receiveLists_ok hstep)
  | flush flushOld groOfoTimeout groInseqTimeout ktime =>
    cases hstep
    exact flushLists_held (l := { l with clock := { l.clock with ktime := ktime } }) ⟨h.flows, h.up⟩
  | clean ktime =>
    cases hstep
    exact ⟨h.flows, h.up⟩

/-- **The rule.**  In every run whose packets have `C`, all held buffers have `Q`, and the ones that went up had it. -/
theorem run_allHeld (hQ : HeldRule C Q) {mem s : Mem} {cs : List Call} (hC : ∀ c ∈ cs, c.Meets C)
    (hrun : run mem cs = .ok s) : ∃ l, Rep s l ∧ AllHeld Q l := by
  have hinit : ∃ l, Rep (netifNapiAdd mem) l ∧ AllHeld Q l :=
    ⟨_, netifNapiAdd_rep mem, fun f hf => absurd hf List.not_mem_nil, fun u hu => absurd hu List.not_mem_nil⟩
  refine runFrom_mem_invariant (I := fun s => ∃ l, Rep s l ∧ AllHeld Q l) ?_ hinit hrun
  rintro s c s' hc ⟨l, hrep, hl⟩ hstep
  have hagree := step_spec s l c hrep
  rw [hstep] at hagree
  obtain ⟨l', hl', hrep'⟩ := hagree.exists_ok
  exact ⟨l', hrep', stepLists_held hQ (hC c hc) hl (fun f hf => (hrep.links.flows f hf).ne) hl'⟩

theorem Call.meets_true (c : Call) : c.Meets fun _ => True := by
  cases c <;> trivial

/-- The rule, read off the state. -/
theorem run_heldBodies (hQ : HeldRule C Q) {mem s : Mem} {cs : List Call} (hC : ∀ c ∈ cs, c.Meets C)
    (hrun : run mem cs = .ok s) :
    (∀ f ∈ s.view.flows, ∃ κ, ∀ x ∈ f.segs, Q κ x.body) ∧
      ∀ u ∈ s.up, u.via ≠ .normal → ∃ κ b, Q κ b ∧ u.body = b.complete := by
  obtain ⟨l, hrep, hl⟩ := run_allHeld hQ hC hrun
  constructor
  · intro f hf
    rw [hrep.view_eq] at hf
    obtain ⟨g, hg, rfl⟩ := List.mem_map.1 hf
    obtain ⟨κ, hbodies⟩ := hl.flows g hg
    refine ⟨κ, fun x hx => ?_⟩
    obtain ⟨y, hy, rfl⟩ := List.mem_map.1 hx
    exact hbodies y hy
  · intro u hu hvia
    rw [hrep.links.up] at hu
    exact hl.up.of_mem hu hvia

end

end PacketReordering.Linux41
