import PacketReordering.Linux318.NewFlow

/-!
# `linux-3.18.5`: `dev_gro_receive` on the lists

* `flushWhole_spec` — the flow that `tcp_gro_receive` returned goes up;
* `receiveFound_spec` — a packet of a held flow;
* `inetMatch_spec` — the bits of the entries of `gro_list`;
* `devGroReceive_spec` — `dev_gro_receive` over the memory is `receiveLists`.
-/

namespace PacketReordering.Linux318

open Lib Gro

variable {env : Env} {s t u : Mem} {l : Lists} {A B : List (Flow Stamp OfoExt)} {q : OfoId} {d : Dat}
  {segs : List Segment} {k : SkbId} {b : Skb}

/-! ### The flow goes up -/

/-- What `dev_gro_complete` of the segments `ids` does to the buffers. -/
structure Dropped (t u : Mem) (ids out : List SkbId) : Prop where
  body : u.body = t.body
  sameFlow : u.sameFlow = t.sameFlow
  flush : u.flush = t.flush
  queue : u.outOfOrderQueue = t.outOfOrderQueue
  nskb : u.nskb = t.nskb
  gone : ∀ i, i ∈ u.gone ↔ i ∈ ids ∨ i ∈ t.gone
  next : ∀ i ∉ out, u.next i = t.next i

/-- The flow to which `headRef A` points goes up. -/
theorem flushWhole_spec [GroComplete Stamp] (h : Focus t l A B q d segs) (hbound : A.length + (B.length + 1) ≤ maxGroSkbs) :
    ∃ u, flushWhole t (headRef A) = .ok u ∧
      Rep u { dropFlow l q d (setHeadNext none segs) with flows := A ++ B } ∧
      Dropped t u (segIds segs) (allIds (A ++ ⟨q, d, segs⟩ :: B)) := by
  obtain ⟨x, xs, hx⟩ := List.exists_cons_of_ne_nil h.holds.ne
  have hx : segs = x :: xs := hx
  have hread := readHead_headRef h.links.chain
  rw [heads_cons (f := ⟨q, d, segs⟩) hx, List.head?_cons] at hread
  have hnext : t.next x.id = (heads B).head? := by
    have hchain := h.links.chain
    rw [heads_append, heads_cons (f := ⟨q, d, segs⟩) hx] at hchain
    obtain ⟨m, -, rfl, hchain⟩ := chain_append.1 hchain
    exact hchain.head_eq
  obtain ⟨nx, list, heq, hother, hcompleting, hdone⟩ := h.links.takeOut (f := ⟨q, d, segs⟩) hx
  have hcons : setHeadNext none segs = { x with next := none } :: xs := by rw [hx, setHeadNext]
  rw [show setHeadNext none (⟨q, d, segs⟩ : Flow Stamp OfoExt).segs = _ from hcons] at hcompleting
  have hrun := devGroComplete_spec 0 hcompleting h.links.clock
  rw [← hcons, if_pos (completeFlow_all ..)] at hrun
  obtain ⟨v, hv, hrun⟩ := hrun
  have hshort := (Shortened.flow 0 (l.clock.ktime 0) ⟨q, d, segs⟩ none).setDat
    (agedDat (completeFlow 0 (l.clock.ktime 0) d (setHeadNext none segs)).1 (l.clock.jiffies 0))
  obtain ⟨hlinks, hcount⟩ := hdone v _ _ hv hshort
  refine ⟨{ v.pushQueue q with groCount := (v.pushQueue q).groCount - 1 }, ?_, ⟨?_, ?_, ?_⟩, ?_⟩
  · rw [flushWhole, hread]
    have hrun' : devGroComplete { t with next := nx, groList := list } x.id 0 = _ := hrun
    simp only [touch_eq (h.seg_live (by simp [hx] : x ∈ segs)), hnext]
    rw [heq, hrun']
    rfl
  · exact hlinks.setControl ..
  · simp only [hcount, h.count, List.length_append, ← Nat.add_assoc, BitVec.ofNat_add]
    exact BitVec.add_sub_cancel _ _
  · simp only [List.length_append]
    omega
  · have hids := hshort.ids
    rw [completeFlow_all, segIds_nil, List.append_nil] at hids
    have hpush := pushQueue_eq (s := v) (q := q)
    have hrel := hv.released
    rw [hpush]
    refine ⟨hrel.body, hrel.sameFlow, hrel.flush, hrel.queue, hv.frame.nskb, fun i => ?_, fun i hi => ?_⟩
    · rw [show segIds segs = _ from hids]
      exact hrel.gone i
    · refine (congrFun hrel.next i).trans (hother i fun hm => hi (mem_allIds_of_mem_heads hm))

/-! ### After the walk -/

/-- The packet goes up as it is, past the queue `q` of its flow. -/
theorem normalFound_spec (h : Rep t { l with flows := A ++ ⟨q, d, segs⟩ :: B })
    (hk : Loose t (A ++ ⟨q, d, segs⟩ :: B) k b) (hq : t.outOfOrderQueue k = some q) :
    Rep (receiveNormal t k)
      { l with flows := A ++ ⟨q, normalDat d b, segs⟩ :: B, up := l.up ++ [Parsed.up k b] } := by
  have hclock : t.clock = l.clock := h.links.clock
  have hdat : t.ofo q = d := (h.links.flows ⟨q, d, segs⟩ (by simp)).rep.dat
  rw [receiveNormal_some hq hk.live, hk.body, hk.next, hdat, ← hclock]
  exact pastHeld_spec h hk (normalDat d b) t.clock

/-- The packet goes up as it is once its flow has gone up. -/
theorem normalDropped_spec {x : FreeQueue OfoExt} {rest : List (FreeQueue OfoExt)}
    (h : Rep t { l with free := x :: rest }) (hk : Loose t l.flows k b) (hq : t.outOfOrderQueue k = some x.q) :
    Rep (receiveNormal t k)
      { l with free := ⟨x.q, normalDat x.dat b⟩ :: rest, up := l.up ++ [Parsed.up k b] } := by
  have hdat : t.ofo x.q = x.dat := h.links.free.dat x (by simp)
  have hset : Rep (t.setOfo x.q (normalDat x.dat b)) { l with free := [] ++ ⟨x.q, normalDat x.dat b⟩ :: rest } :=
    Rep.setFree (P := []) (x := x) (y := ⟨x.q, normalDat x.dat b⟩) h rfl (fun _ _ => ⟨rfl, rfl⟩)
  have hgo := Received.goUp (k := k) (b := b) ⟨hset, hk.lt, hk.live, hk.mem, hk.body, hk.next⟩
  have hbody : t.body k = b := hk.body
  simp only [receiveNormal, hq, hdat, hbody]
  rw [← normalDat]
  simp only [Napi.setOfo, hbody] at hgo ⊢
  exact hgo

/-- `dev_gro_receive` after the walk. -/
theorem ends_spec [GroComplete Stamp] {w : Walked} (whole : Bool)
    (hends : Ends (tracked l w.track) A B q k b t w.track.dat w.segs w.fate) (hout : k ∉ allIds (A ++ B))
    (hbound : A.length + (B.length + 1) ≤ maxGroSkbs) :
    Agree Rep (receiveEnd t k (if whole then some (headRef A) else none)) (.ok (endLists l k b A B q w whole)) := by
  obtain ⟨hfocus, hset⟩ := hends
  have hrep := hfocus.rep hbound
  have hseg : k ∈ allIds (A ++ ⟨q, w.track.dat, w.segs⟩ :: B) → k ∈ segIds w.segs := by
    intro hmem
    simp only [allIds_append, allIds_cons, List.mem_append] at hmem hout
    rcases hmem with hA | hq | hB
    · exact absurd (Or.inl hA) hout
    · exact hq
    · exact absurd (Or.inr hB) hout
  have hall : k ∈ segIds w.segs → k ∈ allIds (A ++ ⟨q, w.track.dat, w.segs⟩ :: B) := by
    intro hm
    simp [Flow.ids, hm]
  unfold receiveEnd endLists
  cases whole with
  | false =>
    simp only [Bool.false_eq_true, if_false]
    cases hfate : w.fate with
    | held =>
      rw [hfate] at hset
      obtain ⟨hmem, hsame, hfree⟩ := hset
      have hlive : k ∉ t.gone := (hfocus.links.live k hmem).2
      rw [if_pos hsame, touch_eq hlive, if_neg (not_not.2 hfree)]
      exact pullHeld_spec hrep (hseg hmem)
    | merged =>
      rw [hfate] at hset
      rw [if_pos hset.sameFlow, touch_eq hset.live, if_pos hset.free]
      exact freeMerged_spec hrep hset.lt hset.mem hset.live
    | normal =>
      rw [hfate] at hset
      obtain ⟨harr, hflush⟩ := hset
      have hsome : ¬((t.body k).isTcp && (t.outOfOrderQueue k).isNone) = true := by rw [harr.queue]; simp
      simp only [harr.sameFlow, Bool.false_eq_true, if_false, hflush, if_true]
      rw [receiveFlush, if_neg hsome]
      exact normalFound_spec hrep harr.toLoose harr.queue
  | true =>
    obtain ⟨u, hu, hrepu, hdrop⟩ := flushWhole_spec hfocus hbound
    simp only [if_true, hu]
    cases hfate : w.fate with
    | held =>
      rw [hfate] at hset
      obtain ⟨hmem, hsame, hfree⟩ := hset
      have hgone : k ∈ u.gone := (hdrop.gone k).2 (Or.inl (hseg hmem))
      have hfree' : ((u.touch k).body k).free = .no := by
        have hbody : (u.touch k).body = u.body := by simp [Napi.touch, hgone]
        rw [hbody, hdrop.body]
        exact hfree
      rw [if_pos hsame, if_neg (not_not.2 hfree')]
      exact pullGone_spec hrepu hout hgone _
    | merged =>
      rw [hfate] at hset
      have hnot : k ∉ segIds w.segs := fun hm => hset.mem (hall hm)
      have hlive : k ∉ u.gone := fun hg => ((hdrop.gone k).1 hg).elim hnot hset.live
      have hfree : (u.body k).free ≠ .no := by
        rw [hdrop.body]
        exact hset.free
      rw [if_pos hset.sameFlow, touch_eq hlive, if_pos hfree]
      exact freeMerged_spec hrepu (hdrop.nskb.symm ▸ hset.lt) hout hlive
    | normal =>
      rw [hfate] at hset
      obtain ⟨harr, hflush⟩ := hset
      have hnot : k ∉ segIds w.segs := fun hm => harr.mem (hall hm)
      have hlive : k ∉ u.gone := fun hg => ((hdrop.gone k).1 hg).elim hnot harr.live
      have hqueue : u.outOfOrderQueue k = some q := by rw [hdrop.queue]; exact harr.queue
      have hsome : ¬((u.body k).isTcp && (u.outOfOrderQueue k).isNone) = true := by rw [hqueue]; simp
      have hflush' : u.flush k = true := by rw [hdrop.flush]; exact hflush
      simp only [harr.sameFlow, Bool.false_eq_true, if_false, hflush', if_true]
      rw [receiveFlush, if_neg hsome]
      let r := completeFlow 0 (l.clock.ktime 0) w.track.dat (setHeadNext none w.segs)
      refine normalDropped_spec (x := ⟨q, agedDat r.1 (l.clock.jiffies 0)⟩)
        (l := { dropFlow (tracked l w.track) q w.track.dat (setHeadNext none w.segs) with flows := A ++ B }) hrepu
        ⟨hdrop.nskb.symm ▸ harr.lt, hlive, hout, ?_, ?_⟩ hqueue
      · rw [hdrop.body]
        exact harr.body
      · rw [hdrop.next k harr.mem]
        exact harr.next

/-! ### A packet of a held flow -/

section

variable {f : Flow Stamp OfoExt} {x : Segment} {xs : List Segment}

/-- The memory when the packet `k` has got the queue of its flow `f`. -/
structure Joined (s : Mem) (l : Lists) (A B : List (Flow Stamp OfoExt)) (f : Flow Stamp OfoExt) (k : SkbId) (b : Skb) :
    Prop where
  received : Received s l k b
  flows : l.flows = A ++ f :: B
  sameFlow : s.sameFlow k = false
  queue : s.outOfOrderQueue k = some f.q

theorem Joined.focus (h : Joined s l A B f k b) :
    Focus s l A B f.q f.dat (setHeadNext (heads B).head? f.segs) ∧
      Arriving s (A ++ ⟨f.q, f.dat, setHeadNext (heads B).head? f.segs⟩ :: B) f.q k b := by
  have hk := h.received.loose
  refine ⟨h.received.rep.focus h.flows, ⟨hk.lt, hk.live, ?_, hk.body, hk.next⟩, h.sameFlow, h.queue⟩
  have hmem := hk.mem
  rw [h.flows] at hmem
  simpa [Flow.ids] using hmem

theorem Joined.stamp (h : Joined s l A B f k b) :
    Joined ((s.setBody k (stampWalk l.clock b)).tickJiffies.tickKtime)
      { l with clock := l.clock.tickJiffies.tickKtime } A B f k (stampWalk l.clock b) := by
  have hset := (h.received.setBody (stampWalk l.clock b)).setClock l.clock.tickJiffies.tickKtime
  have heq : (s.setBody k (stampWalk l.clock b)).tickJiffies.tickKtime =
      { s.setBody k (stampWalk l.clock b) with clock := l.clock.tickJiffies.tickKtime } := by
    rw [Napi.setBody, touch_eq h.received.loose.live, ← h.received.rep.links.clock]
    rfl
  refine ⟨heq ▸ hset, h.flows, ?_, ?_⟩
  · rw [Napi.setBody, touch_eq h.received.loose.live]
    exact h.sameFlow
  · rw [Napi.setBody, touch_eq h.received.loose.live]
    exact h.queue

/-- `tcp_gro_receive` from flush point 1 on, and `dev_gro_receive` after it. -/
theorem receiveInQueue_spec [GroComplete Stamp] (mss : U32) (flush : Bool) (h : Joined s l A B f k b) (hx : f.segs = x :: xs)
    (hfree : b.free = .no) :
    let stay : Walked := ⟨⟨f.dat, l.up⟩, setHeadNext (heads B).head? (x :: xs), .normal, .head⟩
    Agree Rep
      (match receiveInQueue s f.q k b.seq b.len b.tcp.flagWord mss flush (headRef A) x.id with
        | .error e => .error e
        | .ok (t, pp) => receiveEnd t k pp)
      (if flush then .ok (endLists l k b A B f.q stay true)
      else if before b.seq f.dat.seqNext then .ok (endLists l k b A B f.q stay false)
      else
        let c := stampWalk l.clock b
        match walkSegs (heads B).head? k c (x :: xs) [] f.dat.seqNext ⟨f.dat, l.up⟩ with
        | .error e => .error e
        | .ok w =>
          .ok (endLists { l with clock := l.clock.tickJiffies.tickKtime } k c A B f.q w (w.flushes c mss))) := by
  intro stay
  have hbound := h.received.rep.bound
  have hout := h.received.loose.mem
  rw [h.flows] at hbound hout
  simp only [List.length_append, List.length_cons] at hbound
  have hout : k ∉ allIds (A ++ B) := by
    simp only [allIds_append, allIds_cons, List.mem_append] at hout ⊢
    tauto
  obtain ⟨hfocus, harr⟩ := h.focus
  have hdat : s.ofo f.q = f.dat := hfocus.holds.rep.dat
  rw [hx] at hfocus harr
  have hends : Ends (tracked l stay.track) A B f.q k b (s.setFlush k) stay.track.dat stay.segs stay.fate :=
    ends_drop hfocus harr
  rw [receiveInQueue, hdat]
  cases flush with
  | true => exact ends_spec true hends hout hbound
  | false =>
    simp only [Bool.false_eq_true, if_false]
    by_cases hbefore : before b.seq f.dat.seqNext = true
    · rw [if_pos hbefore, if_pos hbefore]
      exact ends_spec false hends hout hbound
    · rw [if_neg hbefore, if_neg hbefore]
      have hstamp := h.stamp
      have hclock := h.received.rep.links.clock
      have hbody := h.received.loose.body
      simp only [hclock, hbody]
      rw [← stampWalk]
      obtain ⟨hfocus, harr⟩ := hstamp.focus
      rw [hx] at hfocus harr
      revert hfocus harr
      generalize (s.setBody k (stampWalk l.clock b)).tickJiffies.tickKtime = t
      intro hfocus harr
      have hfirst : t.ofoNext f.q = some x.id := hfocus.holds.next
      have hnext : t.next x.id = (heads B).head? := hfocus.next _ (List.mem_cons_self ..)
      have hdat : t.ofo f.q = f.dat := hfocus.holds.rep.dat
      have hlen := hfocus.length_le
      rw [setHeadNext, List.length_cons] at hlen
      simp only [hfirst, hnext, hdat]
      have hwalk : Agree (EndsWith { l with clock := l.clock.tickJiffies.tickKtime } A B f.q k (stampWalk l.clock b))
          (walk f.q k b.seq b.len b.tcp.flagWord (headRef A) (heads B).head? t.nskb x.id f.dat.seqNext t)
          (walkSegs (heads B).head? k (stampWalk l.clock b) (x :: xs) [] f.dat.seqNext ⟨f.dat, l.up⟩) :=
        walk_spec hfocus harr hfree (Nat.le_of_lt hlen)
      revert hwalk
      generalize walk f.q k b.seq b.len b.tcp.flagWord (headRef A) (heads B).head? t.nskb x.id f.dat.seqNext t = r
      generalize walkSegs (heads B).head? k (stampWalk l.clock b) (x :: xs) [] f.dat.seqNext ⟨f.dat, l.up⟩ = w
      intro hwalk
      cases r with
      | error err =>
        cases w with
        | error err' => exact hwalk
        | ok w => exact hwalk.elim
      | ok r =>
        cases w with
        | error err' => exact hwalk.elim
        | ok w =>
          obtain ⟨u, exit⟩ := r
          obtain ⟨hends, rfl⟩ := hwalk
          simp only [Walked.flushes]
          cases hexit : w.exit with
          | head => exact ends_spec true hends hout hbound
          | null => exact ends_spec false hends hout hbound
          | final =>
            by_cases hshort : b.len < mss
            · have hlists : decide ((stampWalk l.clock b).len < mss) = true := decide_eq_true hshort
              simp only [if_pos hshort, hlists]
              exact ends_spec true hends.setFlush hout hbound
            · have hlists : decide ((stampWalk l.clock b).len < mss) = false := decide_eq_false hshort
              simp only [if_neg hshort, hlists]
              exact ends_spec false hends hout hbound

/-- The packet `k` belongs to the flow `f`; `i` is the packet as `inet_gro_receive` left it. -/
theorem receiveFound_spec [GroComplete Stamp] {i : Skb} (h : Received s l k b) (hflows : l.flows = A ++ f :: B)
    (hx : f.segs = x :: xs)
    (hsame : s.sameFlow k = false) (hfree : b.free = .no) (hflush : s.flush x.id = env.flush i x.body) :
    Agree Rep
      (match tcpGroReceiveFound s k (headRef A) x.id with
        | .error e => .error e
        | .ok (t, pp) => receiveEnd t k pp)
      (receiveFoundLists env l k i b A f B) := by
  have hf := h.rep.links.flows f (by simp [hflows])
  have hlinks : Links s { l with flows := A ++ f :: B } s.groList := hflows ▸ h.rep.links
  have hqueue : s.outOfOrderQueue x.id = some f.q := hf.rep.queue x (by simp [hx])
  have hxbody : s.body x.id = x.body := hf.rep.body x (by simp [hx])
  have hxlive : x.id ∉ s.gone := (hlinks.ids_live (by simp [Flow.ids, hx])).2
  -- the memory when the packet has its queue
  have hjoined : Joined (examined s k { b with gsoSize := x.body.gsoSize } (some f.q) s.flush s.sameFlow) l A B f k
      { b with gsoSize := x.body.gsoSize } :=
    ⟨h.examined { b with gsoSize := x.body.gsoSize } (some f.q) s.flush s.sameFlow, hflows, hsame,
      Function.update_self ..⟩
  have hspec := receiveInQueue_spec (tcpSkbMss x.body) (notHeld env i b x.body) hjoined hx hfree
  rw [tcpGroReceiveFound, receiveFoundLists, hx]
  simp only [touch_eq hxlive, h.loose.body, hqueue, hxbody, hflush, ← notHeld.eq_def]
  rw [Napi.setBody, touch_eq (by exact h.loose.live)]
  exact hspec

end

/-! ### The checks of the headers -/

/-- The loop of `inet_gro_receive` compares the packet with the first segment of every flow. -/
theorem inetMatch_spec (b : Skb) {is : List SkbId} {st : Option SkbId} {fuel : ℕ}
    (h : Chain s.next st is none) (hnd : is.Nodup) (hlive : ∀ i ∈ is, i ∉ s.gone) (hfuel : is.length ≤ fuel) :
    ∃ fl sf, inetMatch env b fuel st s = .ok { s with flush := fl, sameFlow := sf } ∧
      (∀ i ∈ is, sf i = (s.sameFlow i && env.sameFlow b (s.body i)) ∧ fl i = (s.flush i || env.flush b (s.body i))) ∧
      ∀ i ∉ is, fl i = s.flush i ∧ sf i = s.sameFlow i := by
  induction is generalizing s st fuel with
  | nil =>
    obtain rfl : st = none := h
    refine ⟨s.flush, s.sameFlow, ?_, by simp, fun _ _ => ⟨rfl, rfl⟩⟩
    rw [inetMatch.eq_def]
  | cons p is ih =>
    obtain ⟨rfl, hnext⟩ := h
    obtain ⟨hp, hnd⟩ := List.nodup_cons.1 hnd
    obtain ⟨fuel, rfl⟩ := Nat.exists_eq_add_of_le' (Nat.le_trans (by simp : 1 ≤ (p :: is).length) hfuel)
    obtain ⟨fl, sf, hrun, hin, hout⟩ := @ih { s with
      sameFlow := Function.update s.sameFlow p (s.sameFlow p && env.sameFlow b (s.body p))
      flush := Function.update s.flush p (s.flush p || env.flush b (s.body p)) } (s.next p) fuel hnext hnd
      (fun i hi => hlive i (List.mem_cons_of_mem _ hi)) (by simpa using hfuel)
    refine ⟨fl, sf, ?_, fun i hi => ?_, fun i hi => ?_⟩
    · rw [inetMatch.eq_def]
      simp only [touch_eq (hlive p (List.mem_cons_self ..))]
      exact hrun
    · rcases List.mem_cons.1 hi with rfl | hi
      · obtain ⟨hfli, hsfi⟩ := hout i hp
        rw [hfli, hsfi]
        exact ⟨Function.update_self .., Function.update_self ..⟩
      · have hne : i ≠ p := fun he => hp (he ▸ hi)
        have hi' := hin i hi
        simp only [Function.update_of_ne hne] at hi'
        exact hi'
    · rw [List.mem_cons, not_or] at hi
      obtain ⟨hfli, hsfi⟩ := hout i hi.2
      simp only [Function.update_of_ne hi.1] at hfli hsfi
      exact ⟨hfli, hsfi⟩

/-! ### `tcp_gro_receive` and `dev_gro_receive` -/

/-- The memory when the headers up to IP have been looked at. -/
structure Checked (env : Env) (s : Mem) (l : Lists) (k : SkbId) (b : Skb) (flush : Bool) : Prop where
  received : Received s l k b
  sameFlow : s.sameFlow k = false
  flushed : s.flush k = flush
  free : b.free = .no
  heads : ∀ f ∈ l.flows, ∀ x ∈ f.segs.head?,
    s.sameFlow x.id = (decide (x.body.link = b.link) && env.sameFlow b x.body) ∧ s.flush x.id = env.flush b x.body

/-- A packet that is not of TCP, or that nobody looked at. -/
theorem receiveOther_spec [GroComplete Stamp] (h : Received s l k b) (hq : s.outOfOrderQueue k = none)
    (htcp : b.isTcp = false)
    (hsame : s.sameFlow k = false) (hflush : s.flush k = true) :
    Agree Rep (receiveEnd s k none) (.ok { l with up := l.up ++ [Parsed.up k b] }) := by
  have hnot : ¬(b.isTcp && (s.outOfOrderQueue k).isNone) = true := by rw [htcp]; simp
  simp only [receiveEnd, hsame, Bool.false_eq_true, if_false, hflush, if_true]
  rw [receiveFlush, h.loose.body, if_neg hnot]
  exact receiveNormal_none h hq

/-- A TCP packet of no held flow. -/
theorem receiveMissed_spec [GroComplete Stamp] (h : Received s l k b) (htcp : b.isTcp = true)
    (hq : s.outOfOrderQueue k = none)
    (hsame : s.sameFlow k = false) (hlen : s.flush k = false → b.len = BitVec.ofNat 32 b.groLen) :
    Agree Rep (receiveEnd s k none) (if s.flush k then receiveFlushLists l k b else receiveNewLists l k b) := by
  simp only [receiveEnd, hsame, Bool.false_eq_true, if_false]
  by_cases hflush : s.flush k = true
  · rw [if_pos hflush, if_pos hflush]
    exact receiveFlush_spec h htcp hq
  · rw [if_neg hflush, if_neg hflush]
    exact receiveNew_spec h htcp (hlen (by simpa using hflush))

theorem sameFlow_of_ip {b c : Skb} (h : c.ip = b.ip) (p : Skb) : env.sameFlow c p = env.sameFlow b p := by
  rw [Bool.eq_iff_iff, env.sameFlow_iff, env.sameFlow_iff, h]

theorem tcpGroReceive_spec [GroComplete Stamp] {flush : Bool} (h : Checked env s l k b flush) :
    Agree Rep
      (match tcpGroReceive s k with
        | .error e => .error e
        | .ok (t, pp) => receiveEnd t k pp)
      (match { b with isTcp := true }.tcpHeader with
        | (b', false) => receiveFlushLists l k b'
        | (b', true) => receiveTcpLists env l k b b' flush) := by
  have hk := h.received.loose
  have hkept := Body.tcpHeader_sameHeaders ({ b with isTcp := true } : Skb)
  have hok : ∀ c, ({ b with isTcp := true } : Skb).tcpHeader = (c, true) → c.len = BitVec.ofNat 32 c.groLen :=
    fun c hc => (Body.tcpHeader_ok hc).2.1
  rw [tcpGroReceive]
  simp only [hk.body]
  revert hkept hok
  generalize ({ b with isTcp := true } : Skb).tcpHeader = r
  obtain ⟨c, ok⟩ := r
  intro hkept hok
  have htcp : c.isTcp = true := hkept.isTcp
  have hlink : c.link = b.link := hkept.link
  have hip : c.ip = b.ip := hkept.ip
  have hfree : c.free = .no := hkept.free.trans h.free
  have hset : Napi.setBody { s with outOfOrderQueue := Function.update s.outOfOrderQueue k none } k c =
      examined s k c none s.flush s.sameFlow := by
    rw [Napi.setBody, touch_eq (by exact hk.live), Gro.examined]
  have hflush : ∀ sf, (examined s k c none s.flush sf).setFlush k =
      examined s k c none (Function.update s.flush k true) sf := by
    intro sf
    rw [Napi.setFlush, touch_eq (by exact hk.live)]
    rfl
  have hqueue : ∀ fl sf, (examined s k c none fl sf).outOfOrderQueue k = none := fun _ _ => Function.update_self ..
  have hon : ∀ sf, (examined s k c none (Function.update s.flush k true) sf).flush k = true :=
    fun _ => Function.update_self ..
  have hkheads : k ∉ Gro.heads l.flows := fun hm => hk.mem (mem_allIds_of_mem_heads hm)
  cases ok with
  | false =>
    have hmissed := receiveMissed_spec (h.received.examined c none (Function.update s.flush k true) s.sameFlow) htcp
      (hqueue _ _) h.sameFlow
    rw [if_pos (hon _)] at hmissed
    simp only [hset, hflush]
    exact hmissed (by simp [hon])
  | true =>
    have hlen := hok c rfl
    have hlinks := (h.received.examined c none s.flush s.sameFlow).rep.links
    have hm : ∀ f ∈ l.flows, ∀ i, f.ids.head? = some i →
        ((examined s k c none s.flush s.sameFlow).sameFlow i &&
          c.tcp.ports == ((examined s k c none s.flush s.sameFlow).body i).tcp.ports) = sameFlowAs env c f := by
      intro f hf i hi
      obtain ⟨x, xs, hx⟩ := List.exists_cons_of_ne_nil (hlinks.flows f hf).ne
      obtain rfl : x.id = i := by simpa [Flow.ids, hx] using hi
      have hbody := (hlinks.flows f hf).rep.body x (by simp [hx])
      have hsame : (examined s k c none s.flush s.sameFlow).sameFlow x.id = _ := (h.heads f hf x (by simp [hx])).1
      rw [hbody, hsame, sameFlowAs, hx, hlink]
      simp only [sameFlow_of_ip hip]
    have hfuel : l.flows.length ≤ s.nskb := hlinks.flows_length_le
    have hsearch := findSameFlow_spec hlinks hm hfuel
    simp only [hset]
    rw [receiveTcpLists]
    cases hsplit : splitFlow (sameFlowAs env c) l.flows with
    | none =>
      rw [hsplit] at hsearch
      obtain ⟨sf, hrun, hother⟩ := hsearch
      have hsf : sf k = false := (hother k hkheads).trans h.sameFlow
      have hmissed := fun fl => receiveMissed_spec (h.received.examined c none fl sf) htcp (hqueue _ _) hsf fun _ => hlen
      simp only [hrun]
      by_cases hshort : c.len < 1
      · have hend := hmissed (Function.update s.flush k true)
        rw [if_pos (hon _), ← hflush] at hend
        simp only [if_pos hshort, decide_eq_true hshort, Bool.or_true, if_true]
        exact hend
      · have hend := hmissed s.flush
        have hsame : (examined s k c none s.flush sf).flush k = flush := h.flushed
        rw [hsame] at hend
        simp only [if_neg hshort, decide_eq_false hshort, Bool.or_false]
        exact hend
    | some r =>
      obtain ⟨A, f, B⟩ := r
      rw [hsplit] at hsearch
      obtain ⟨sf, p, hrun, hhead, hother⟩ := hsearch
      have hsf : sf k = false := (hother k hkheads).trans h.sameFlow
      obtain ⟨hflows, -, -⟩ := splitFlow_some hsplit
      obtain ⟨x, xs, hx⟩ := List.exists_cons_of_ne_nil (hlinks.flows f (by simp [hflows])).ne
      obtain rfl : x.id = p := by simpa [Flow.ids, hx] using hhead
      have hflushx := (h.heads f (by simp [hflows]) x (by simp [hx])).2
      simp only [hrun]
      exact receiveFound_spec (h.received.examined c none s.flush sf) hflows hx hsf hfree hflushx

/-- `tcp4_gro_receive` and `dev_gro_receive` after it. -/
theorem tcp4GroReceive_spec [GroComplete Stamp] {flush : Bool} (h : Checked env s l k b flush)
    (hq : s.outOfOrderQueue k = none)
    (htcp : b.isTcp = false) :
    Agree Rep
      (match tcp4GroReceive s k with
        | .error e => .error e
        | .ok (t, pp) => receiveEnd t k pp)
      (if !flush && b.badTcpCsum then .ok { l with up := l.up ++ [Parsed.up k b] }
      else
        match { b with isTcp := true }.tcpHeader with
        | (b', false) => receiveFlushLists l k b'
        | (b', true) => receiveTcpLists env l k b b' flush) := by
  have hk := h.received.loose
  rw [tcp4GroReceive, h.flushed, hk.body]
  by_cases hbad : (!flush && b.badTcpCsum) = true
  · rw [if_pos hbad, if_pos hbad]
    have hset : Napi.setFlush s k = examined s k b none (Function.update s.flush k true) s.sameFlow := by
      rw [Napi.setFlush, touch_eq hk.live, Gro.examined, ← hk.body, ← hq]
      rw [Function.update_eq_self, Function.update_eq_self]
    rw [hset]
    exact receiveOther_spec (h.received.examined ..) (Function.update_self ..) htcp h.sameFlow (Function.update_self ..)
  · rw [if_neg hbad, if_neg hbad]
    exact tcpGroReceive_spec h

/-- `inet_gro_receive` and `dev_gro_receive` after it. -/
theorem inetGroReceive_spec [GroComplete Stamp] {fl sf : SkbId → Bool} (h : Received (examined s k b none fl sf) l k b)
    (hsf : sf k = false) (hfl : fl k = false) (htcp : b.isTcp = false) (hfree : b.free = .no)
    (hheads : ∀ f ∈ l.flows, ∀ x ∈ f.segs.head?, fl x.id = false ∧ sf x.id = decide (x.body.link = b.link)) :
    Agree Rep
      (match inetGroReceive env (examined s k b none fl sf) k with
        | .error e => .error e
        | .ok (t, pp) => receiveEnd t k pp)
      (match env.header b with
        | (b, none) => .ok { l with up := l.up ++ [Parsed.up k b] }
        | (b, some flush) =>
          if !flush && b.badTcpCsum then .ok { l with up := l.up ++ [Parsed.up k b] }
          else
            match { b with isTcp := true }.tcpHeader with
            | (b', false) => receiveFlushLists l k b'
            | (b', true) => receiveTcpLists env l k b b' flush) := by
  have hkept := env.header_same b
  rw [inetGroReceive, h.loose.body]
  revert hkept
  generalize env.header b = r
  obtain ⟨c, o⟩ := r
  intro hkept
  have hset : (examined s k b none fl sf).setBody k c = examined s k c none fl sf := by
    rw [Napi.setBody, touch_eq h.loose.live]
    simp only [Gro.examined, Function.update_idem]
  have hall : ∀ fl' sf', Received (examined s k c none fl' sf') l k c := by
    intro fl' sf'
    have hc := h.examined c none fl' sf'
    rwa [examined_examined] at hc
  have hqueue : ∀ fl' sf', (examined s k c none fl' sf').outOfOrderQueue k = none := fun _ _ => Function.update_self ..
  have htcpc : c.isTcp = false := hkept.isTcp.trans htcp
  cases o with
  | none =>
    have hflush : (examined s k c none fl sf).setFlush k = examined s k c none (Function.update fl k true) sf := by
      rw [Napi.setFlush, touch_eq (hall fl sf).loose.live]
      rfl
    simp only [hset, hflush]
    exact receiveOther_spec (hall ..) (hqueue ..) htcpc hsf (Function.update_self ..)
  | some flush =>
    have hlinks := (hall fl sf).rep.links
    have hkheads : k ∉ heads l.flows := fun hm => h.loose.mem (mem_allIds_of_mem_heads hm)
    obtain ⟨fl', sf', hrun, hin, hout⟩ := @inetMatch_spec env _ c _ _ _ hlinks.chain
      ((heads_sublist _).nodup hlinks.nodup) (fun i hi => (hlinks.live i (mem_allIds_of_mem_heads hi)).2)
      hlinks.heads_length_le
    obtain ⟨hflk, hsfk⟩ := hout k hkheads
    have hrun' : inetMatch env c (examined s k b none fl sf).nskb (examined s k b none fl sf).groList
        (examined s k c none fl sf) = .ok (examined s k c none fl' sf') := hrun
    simp only [hset, hrun']
    refine tcp4GroReceive_spec ⟨hall (Function.update fl' k (fl' k || flush)) sf', hsfk.trans hsf, ?_, ?_, ?_⟩ (hqueue ..)
      htcpc
    · have hfl' : fl' k = false := hflk.trans hfl
      show Function.update fl' k (fl' k || flush) k = flush
      rw [Function.update_self, hfl', Bool.false_or]
    · exact hkept.free.trans hfree
    · intro f hf x hx
      obtain ⟨xs, hxs⟩ := List.head?_eq_some_iff.1 hx
      have hmem : x.id ∈ heads l.flows := List.mem_filterMap.2 ⟨f, hf, by simp [Flow.ids, hxs]⟩
      have hne : x.id ≠ k := fun he => hkheads (he ▸ hmem)
      have hbody := (hlinks.flows f hf).rep.body x (by simp [hxs])
      obtain ⟨hflx, hsfx⟩ := hheads f hf x hx
      obtain ⟨hsame, hflush⟩ := hin x.id hmem
      have hlink : c.link = b.link := hkept.link
      rw [hbody] at hsame hflush
      refine ⟨?_, ?_⟩
      · refine hsame.trans ?_
        rw [hlink, ← hsfx]
        rfl
      · refine (Function.update_of_ne hne _ _).trans (hflush.trans ?_)
        have hfl' : (examined s k c none fl sf).flush x.id = false := hflx
        rw [hfl', Bool.false_or]

/-- **`dev_gro_receive` over the memory is `receiveLists`.** -/
theorem devGroReceive_spec [GroComplete Stamp] (h : Rep s l) (pkt : Packet) :
    Agree Rep (devGroReceive env s pkt) (receiveLists env l pkt) := by
  have hnew := arrive_spec h
  have hnskb := h.links.nskb
  rw [receiveLists, ← hnskb, devGroReceive, Packet.parse]
  rw [← hnskb] at hnew
  revert hnew
  generalize ({ l with nskb := s.nskb + 1 } : Lists) = l'
  have hexam : ({ s with
      nskb := s.nskb + 1
      next := Function.update s.next s.nskb none
      outOfOrderQueue := Function.update s.outOfOrderQueue s.nskb none
      body := Function.update s.body s.nskb { pkt.body with parts := [pkt.body.part] } } : Mem) =
      examined { s with nskb := s.nskb + 1, next := Function.update s.next s.nskb none } s.nskb
        { pkt.body with parts := [pkt.body.part] } none s.flush s.sameFlow := rfl
  simp only [hexam]
  clear hexam
  obtain ⟨t, ht⟩ : ∃ t : Mem, t = { s with nskb := s.nskb + 1, next := Function.update s.next s.nskb none } := ⟨_, rfl⟩
  have htnskb : s.nskb + 1 = t.nskb := by rw [ht]
  have htlist : s.groList = t.groList := by rw [ht]
  rw [← ht, htnskb, htlist]
  clear ht htnskb htlist
  generalize s.nskb = k
  intro hnew
  have hall : ∀ b fl sf, Received (examined t k b none fl sf) l' k b := fun b fl sf => hnew.examined b none fl sf
  have hother : ∀ b fl sf, Agree Rep (.ok (receiveNormal (examined t k b none fl sf) k))
      (.ok { l' with up := l'.up ++ [Parsed.up k b] } : Except Fault Lists) :=
    fun b fl sf => receiveNormal_none (hall b fl sf) (Function.update_self ..)
  by_cases hoff : (!pkt.featuresGro || pkt.isGso || pkt.hasFragList || pkt.csumBad) = true
  · have hoff' : (!pkt.featuresGro || pkt.isGso || pkt.hasFragList || pkt.csumBad || !pkt.isIp) = true := by
      rw [hoff, Bool.true_or]
    rw [if_pos hoff, if_pos hoff']
    exact hother _ _ _
  · rw [if_neg hoff]
    rw [Bool.not_eq_true] at hoff
    have hlinks := (hall { pkt.body with parts := [pkt.body.part] } s.flush s.sameFlow).rep.links
    obtain ⟨fl, sf, hrun, hin, -⟩ := groListPrepare_spec pkt.body.link hlinks.chain
      (fun i hi => (hlinks.live i (mem_allIds_of_mem_heads hi)).2) hlinks.heads_length_le
    have hrun' : (examined t k { pkt.body with parts := [pkt.body.part] } none s.flush s.sameFlow).groListPrepare pkt.body.link t.nskb
        t.groList = .ok (examined t k { pkt.body with parts := [pkt.body.part] } none fl sf) := hrun
    simp only [hrun', hoff, Bool.false_or]
    by_cases hip : (!pkt.isIp) = true
    · rw [if_pos hip, if_pos hip]
      exact hother _ _ _
    · rw [if_neg hip, if_neg hip]
      have hstate : ({ examined t k { pkt.body with parts := [pkt.body.part] } none fl sf with
          sameFlow := Function.update (examined t k { pkt.body with parts := [pkt.body.part] } none fl sf).sameFlow k false
          flush := Function.update (examined t k { pkt.body with parts := [pkt.body.part] } none fl sf).flush k false
          body := Function.update (examined t k { pkt.body with parts := [pkt.body.part] } none fl sf).body k
            { (examined t k { pkt.body with parts := [pkt.body.part] } none fl sf).body k with
              free := .no, isTcp := false } } : Mem) =
          examined t k { pkt.body with parts := [pkt.body.part], free := .no, isTcp := false } none
            (Function.update fl k false) (Function.update sf k false) := by
        simp only [Gro.examined, Function.update_self, Function.update_idem]
      rw [hstate]
      have hkheads : k ∉ heads l'.flows := fun hm => hnew.loose.mem (mem_allIds_of_mem_heads hm)
      have hspec := @inetGroReceive_spec env _ _ _ _ _ _ _ (hall { pkt.body with parts := [pkt.body.part], free := .no, isTcp := false }
        (Function.update fl k false) (Function.update sf k false)) (Function.update_self ..) (Function.update_self ..) rfl
        rfl ?_
      · revert hspec
        generalize env.header { pkt.body with parts := [pkt.body.part], free := .no, isTcp := false } = r
        obtain ⟨c, _ | flush⟩ := r
        · exact fun hspec => hspec
        · intro hspec
          by_cases hbad : (!flush && c.badTcpCsum) = true
          · simp only [hbad, if_true] at hspec ⊢
            exact hspec
          · simp only [if_neg hbad] at hspec ⊢
            revert hspec
            generalize ({ c with isTcp := true } : Skb).tcpHeader = r
            obtain ⟨d, _ | _⟩ := r
            · exact fun hspec => hspec
            · exact fun hspec => hspec
      · intro f hf x hx
        obtain ⟨xs, hxs⟩ := List.head?_eq_some_iff.1 hx
        have hmem : x.id ∈ heads l'.flows := List.mem_filterMap.2 ⟨f, hf, by simp [Flow.ids, hxs]⟩
        have hne : x.id ≠ k := fun he => hkheads (he ▸ hmem)
        have hbody := (hlinks.flows f hf).rep.body x (by simp [hxs])
        obtain ⟨hflx, hsfx⟩ := hin x.id hmem
        rw [hbody] at hsfx
        exact ⟨(Function.update_of_ne hne _ _).trans hflx, (Function.update_of_ne hne _ _).trans hsfx⟩

end PacketReordering.Linux318
