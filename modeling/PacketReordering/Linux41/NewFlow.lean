import PacketReordering.Gro.Arrive
import PacketReordering.Linux41.Flush
import PacketReordering.Linux41.Walk

/-!
# `linux-4.1`: a packet of no held flow

* `receiveNormal_none`, `receiveNormal_some` — what the way `normal` does to the memory;
* `receiveFlush_spec` — a packet that has to be flushed;
* `receiveHeld_spec`, `receiveNew_spec` — a packet that becomes a flow.
-/

namespace PacketReordering.Linux41

open Lib Gro

variable {s t : Mem} {l : Lists} {A B : List (Flow GsoEnd OfoExt)} {q : OfoId} {tr : Track} {x : Segment} {k : SkbId}
  {b : Skb}

/-! ### The way `normal` -/

theorem receiveNormal_none (hq : s.outOfOrderQueue k = none) (hk : k ∉ s.gone) :
    receiveNormal s k = { s with
      body := Function.update s.body k (s.body k).pull
      up := s.up ++ [⟨k, s.next k, (s.body k).pull, .normal, false⟩]
      gone := k :: s.gone } := by
  simp [receiveNormal, hq, Napi.setBody, Napi.netifReceive, Napi.touch, hk]

theorem receiveNormal_some (hq : s.outOfOrderQueue k = some q) (hk : k ∉ s.gone) :
    receiveNormal s k = { s with
      ofo := Function.update s.ofo q (normalDat (s.ofo q) s.clock (s.body k)).1
      clock := (normalDat (s.ofo q) s.clock (s.body k)).2
      body := Function.update s.body k (s.body k).pull
      up := s.up ++ [⟨k, s.next k, (s.body k).pull, .normal, false⟩]
      gone := k :: s.gone } := by
  by_cases hseq : (s.ofo q).seqNext = maxSeq (s.ofo q).seqNext (s.body k).seqEnd
  · have hnot : ¬(s.ofo q).seqNext ≠ maxSeq (s.ofo q).seqNext (s.body k).seqEnd := fun h => h hseq
    simp only [receiveNormal, normalDat, hq, if_neg hnot, Napi.setBody, Napi.netifReceive, touch_eq hk,
      Function.update_self, Function.update_eq_self]
    rw [touch_eq (by exact hk)]
  · simp only [receiveNormal, normalDat, hq, if_pos (show (s.ofo q).seqNext ≠ _ from hseq), Napi.setBody,
      Napi.netifReceive, Napi.tickKtime, Napi.setOfo]
    rw [touch_eq (by exact hk)]
    simp only [Function.update_self]
    rw [touch_eq (by exact hk)]

/-- The packet goes up without a queue. -/
theorem receiveNormal_spec (h : Received s l k b) (hq : s.outOfOrderQueue k = none) :
    Rep (receiveNormal s k) { l with up := l.up ++ [Parsed.up k b] } := by
  simp only [receiveNormal, hq]
  exact h.goUp

/-! ### A packet of no held flow -/

/-- `napi_get_tcp_ofo_queue` finds a queue object. -/
theorem getQueue_spec (h : Received s l k b) :
    ∃ x rest t, findFree (fitsHash b.tcpHash) resetOfo l.free = some (x, rest) ∧ Gro.Found s t l.free x rest ∧
      napiGetTcpOfoQueue s k = .ok (x.q, t) ∧ x.q ∉ l.flows.map Flow.q := by
  rw [napiGetTcpOfoQueue, h.loose.body]
  exact h.findQueue (fitsHash b.tcpHash) resetOfo

/-- The packet goes up as it is, and the queue object `x` comes first among the free ones with the data `d`. -/
theorem requeue_spec {y : FreeQueue OfoExt} {rest : List (FreeQueue OfoExt)} (h : Received s l k b)
    (hfound : Gro.Found s t l.free y rest) (hq : y.q ∉ l.flows.map Flow.q) (d : Dat) (clock : Clock) :
    Rep (receiveNormal ((taken t k y.q clock d).pushQueue y.q) k)
      { l with
        free := ⟨y.q, (normalDat d clock b).1⟩ :: rest
        clock := (normalDat d clock b).2
        up := l.up ++ [Parsed.up k b] } := by
  have hrep := h.requeue hfound hq (normalDat d clock b).1 d (normalDat d clock b).2 clock
  obtain ⟨-, qlen, skbNum, hother, rfl⟩ := hfound
  have hk := h.loose.live
  rw [receiveNormal_some (q := y.q) (by simp [taken, pushQueue_eq, unlinkQueue_eq, Napi.setOfo])
    (by simpa [taken, pushQueue_eq, unlinkQueue_eq, Napi.setOfo] using hk)]
  simp only [taken, pushQueue_eq, unlinkQueue_eq, Napi.setOfo, h.loose.body, Function.update_self, Function.update_idem]
    at hrep ⊢
  exact hrep

/-- A TCP packet of no held flow that has to be flushed. -/
theorem receiveFlush_spec (h : Received s l k b) (htcp : b.isTcp = true) (hq : s.outOfOrderQueue k = none) :
    Agree Rep (receiveFlush s k) (receiveFlushLists l k b) := by
  obtain ⟨x, rest, t, hfind, hfound, ht, hxq⟩ := getQueue_spec h
  rw [receiveFlush, receiveFlushLists, hfind, ht, h.loose.body, htcp, hq]
  have hnew := requeue_spec h hfound hxq
    (flushDat x.dat b (l.clock.ktime 0)) l.clock.tickKtime
  obtain ⟨-, qlen, skbNum, -, rfl⟩ := hfound
  have hclock := h.rep.links.clock
  have hbody := h.loose.body
  simp only [Option.isNone_none, Bool.and_self, if_true]
  simp only [taken, unlinkQueue_eq, Napi.tickKtime, Napi.setOfo, Function.update_self, Function.update_idem, hclock, hbody]
    at hnew ⊢
  exact hnew

/-! ### The first packet of a flow -/

theorem completeFlow_all (groOfoTimeout groInseqTimeout timestamp : U64) (d : Dat) (segs : List Segment) :
    (completeFlow false groOfoTimeout groInseqTimeout timestamp d segs).2.2 = [] := by
  cases segs with
  | nil => rfl
  | cons x segs =>
    simp only [completeFlow, Bool.not_false, Bool.true_or, if_true]
    split <;> exact completeSegs_all ..

/-- There is one flow too many, and the oldest one goes up. -/
theorem dropOldest_spec {f g : Flow GsoEnd OfoExt} {P : List (Flow GsoEnd OfoExt)}
    (h : Links s { l with flows := f :: (P ++ [g]) } s.groList) {x : Segment} {xs : List Segment}
    (hf : f.segs = x :: xs) :
    let r := completeFlow false 0 0 (l.clock.ktime 0) g.dat (setHeadNext none g.segs)
    ∃ pp n t, s.findOldest s.nskb none x.id = .ok (some pp, n) ∧
      (devGroComplete { (s.writeHead none pp).touch n with
        next := Function.update (s.writeHead none pp).next n none } n false 0 0).map Prod.snd = .ok t ∧
      Links t { l with
        flows := f :: P, free := ⟨g.q, r.1⟩ :: l.free, clock := l.clock.tickKtime, up := l.up ++ r.2.1 } t.groList ∧
      t.groCount = s.groCount := by
  intro r
  obtain ⟨pp, m, nx, list, hold, hm, heq, hcompleting, hdone⟩ := h.dropOldest hf
  obtain ⟨y, ys, hg⟩ := List.exists_cons_of_ne_nil (h.flows g (by simp)).ne
  obtain rfl : y.id = m := by simpa [Flow.ids, hg] using hm
  have hcons : setHeadNext none g.segs = { y with next := none } :: ys := by rw [hg, setHeadNext]
  rw [hcons] at hcompleting
  obtain ⟨u, hu, hrun⟩ := devGroComplete_spec false 0 0 hcompleting h.clock
  rw [← hcons] at hu hrun
  have hrest : (completeFlow false 0 0 (l.clock.ktime 0) g.dat (setHeadNext none g.segs)).2.2 = [] :=
    completeFlow_all ..
  refine ⟨pp, y.id, u.pushQueue g.q, hold, ?_, hdone u _ _ hu (Shortened.flow false 0 0 (l.clock.ktime 0) g none)⟩
  have hrun' : devGroComplete { s with next := nx, groList := list } y.id false 0 0 = _ := hrun
  rw [heq, hrun', completeResult, if_pos hrest]
  rfl

/-- The packet `k` becomes a flow of its own. -/
theorem receiveHeld_spec {d : Dat} (hk : k ∉ s.gone) (hbound : l.flows.length ≤ maxGroSkbs)
    (hcount : s.groCount = BitVec.ofNat 32 l.flows.length)
    (hb : { s.body k with gsoSize := BitVec.ofNat 16 (s.body k).groLen } = b)
    (h : Links { s with
        cbPrev := Function.update s.cbPrev k none
        cbNext := Function.update s.cbNext k none
        next := Function.update s.next k s.groList
        groList := some k
        body := Function.update s.body k b } { l with flows := ⟨q, d, [⟨k, none, b⟩]⟩ :: l.flows } (some k)) :
    Agree Rep (receiveHeld s k) (receiveHeldLists l ⟨q, d, [⟨k, none, b.pull⟩]⟩) := by
  have hu : Napi.setBody { s with
        cbPrev := Function.update s.cbPrev k none
        cbNext := Function.update s.cbNext k none
        next := Function.update s.next k s.groList
        groList := some k } k b = { s with
        cbPrev := Function.update s.cbPrev k none
        cbNext := Function.update s.cbNext k none
        next := Function.update s.next k s.groList
        groList := some k
        body := Function.update s.body k b } := by
    rw [Napi.setBody, touch_eq (by exact hk)]
  rw [receiveHeld, hb, hu, receiveHeldLists, flushOldest]
  revert h
  generalize hv : ({ s with
        cbPrev := Function.update s.cbPrev k none
        cbNext := Function.update s.cbNext k none
        next := Function.update s.next k s.groList
        groList := some k
        body := Function.update s.body k b } : Mem) = u
  intro h
  have hcountu : u.groCount = s.groCount := by rw [← hv]
  have hlist : u.groList = some k := by rw [← hv]
  rw [← hlist] at h
  by_cases hfull : l.flows.length ≥ maxGroSkbs
  · have hlen : l.flows.length = maxGroSkbs := Nat.le_antisymm hbound hfull
    obtain ⟨P, g, hP⟩ := List.eq_nil_or_concat' l.flows |>.resolve_left (fun hnil => by simp [hnil, maxGroSkbs] at hlen)
    have hPlen : P.length + 1 = maxGroSkbs := by simpa [hP] using hlen
    have hge : u.groCount ≥ BitVec.ofNat 32 maxGroSkbs := by
      rw [hcountu, hcount, hlen]
      exact BitVec.le_refl _
    rw [if_pos hge, if_pos hfull, hP]
    simp only [List.getLast?_append_cons, List.dropLast_concat]
    rw [hP] at h
    obtain ⟨pp, n, t, hold, hrun, ht, hcountt⟩ := dropOldest_spec h (rfl : (⟨q, d, [⟨k, none, b⟩]⟩ : Flow GsoEnd OfoExt).segs = [⟨k, none, b⟩])
    rw [hold]
    simp only [hrun]
    refine pullFirst_spec (l := { l with free := _ :: l.free, clock := _, up := _ }) ht ?_ (Nat.le_of_eq hPlen)
    rw [hcountt, hcountu, hcount, hlen, hPlen]
  · have hlt : ¬u.groCount ≥ BitVec.ofNat 32 maxGroSkbs := by
      rw [hcountu, hcount]
      intro hge
      have hle := BitVec.le_def.1 hge
      simp only [BitVec.toNat_ofNat, maxGroSkbs] at hle hfull
      omega
    rw [if_neg hlt, if_neg hfull]
    have hlinks : Links ({ u with groCount := u.groCount + 1 } : Mem)
        { l with flows := ⟨q, d, [⟨k, none, b⟩]⟩ :: l.flows } u.groList := h.setControl ..
    refine pullFirst_spec hlinks ?_ (Nat.lt_of_not_le hfull)
    simp only [hcountu, hcount, BitVec.ofNat_add]
    rfl

/-- A TCP packet of no held flow that does not have to be flushed. -/
theorem receiveNew_spec (h : Received s l k b) (htcp : b.isTcp = true) (hlen : b.len = BitVec.ofNat 32 b.groLen) :
    Agree Rep (receiveNew s k) (receiveNewLists l k b) := by
  rw [receiveNew, receiveNewLists, h.loose.body]
  have h' := h.setBody { b with count := 1 }
  have htcp' : ({ b with count := 1 } : Skb).isTcp = true := htcp
  have hlen' : ({ b with count := 1 } : Skb).len = BitVec.ofNat 32 ({ b with count := 1 } : Skb).groLen := hlen
  revert h' htcp' hlen'
  generalize ({ b with count := 1 } : Skb) = c
  generalize s.setBody k c = v
  intro h' htcp' hlen'
  obtain ⟨x, rest, t, hfind, hfound, ht, hxq⟩ := getQueue_spec h'
  simp only [h'.loose.body, ht, hfind]
  rw [if_pos htcp']
  have hrequeue := requeue_spec h' hfound hxq
  have hinsert d clock := h'.insert hfound d clock { c with gsoSize := BitVec.ofNat 16 c.groLen }
  obtain ⟨-, qlen, skbNum, hother, rfl⟩ := hfound
  have hclock := h'.rep.links.clock
  have hbody := h'.loose.body
  simp only [taken, unlinkQueue_eq, Napi.tickKtime, Napi.setOfo, Function.update_self, Function.update_idem, hclock, hbody]
    at hrequeue hinsert ⊢
  rw [takenDat]
  generalize (if x.dat.hash = 0#32 then
    clearFlushed (assign x.dat c.seq) else x.dat) = d
  by_cases hbefore : before c.seq d.seqNext = true
  · rw [if_pos hbefore, if_pos hbefore]
    exact hrequeue _ _
  · rw [if_neg hbefore, if_neg hbefore]
    apply receiveHeld_spec (l := { l with free := rest, clock := l.clock.tickKtime })
    · exact h'.loose.live
    · exact h'.rep.bound
    · exact h'.rep.count
    · rw [hbody]
    · exact hinsert _ _ hlen'

end PacketReordering.Linux41
