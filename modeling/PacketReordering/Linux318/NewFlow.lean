import PacketReordering.Gro.Arrive
import PacketReordering.Linux318.Flush
import PacketReordering.Linux318.Walk

/-!
# `linux-3.18.5`: a packet of no held flow

* `receiveNormal_some`, `receiveNormal_none` — the way `normal`, with a queue and without one;
* `receiveFlush_spec` — a packet that has to be flushed;
* `receiveHeld_spec`, `receiveNew_spec` — a packet that becomes a flow.
-/

namespace PacketReordering.Linux318

open Lib Gro

variable {s t : Mem} {l : Lists} {A B : List (Flow Stamp OfoExt)} {q : OfoId} {k : SkbId} {b : Skb}

/-! ### The way `normal` -/

theorem receiveNormal_some (hq : s.outOfOrderQueue k = some q) (hk : k ∉ s.gone) :
    receiveNormal s k = { s with
      ofo := Function.update s.ofo q (normalDat (s.ofo q) (s.body k))
      body := Function.update s.body k (s.body k).pull
      up := s.up ++ [⟨k, s.next k, (s.body k).pull, .normal, false⟩]
      gone := k :: s.gone } := by
  simp only [receiveNormal, hq, Napi.setOfo]
  exact pullNormal_eq (s := { s with ofo := _ }) hk

/-- The packet goes up without a queue. -/
theorem receiveNormal_none (h : Received s l k b) (hq : s.outOfOrderQueue k = none) :
    Rep (receiveNormal s k) { l with up := l.up ++ [Parsed.up k b] } := by
  simp only [receiveNormal, hq]
  exact h.goUp

/-! ### A packet that has to be flushed -/

/-- `napi_get_tcp_ofo_queue` finds a queue object. -/
theorem getQueue_spec (h : Received s l k b) :
    ∃ x rest t, findFree (fun hash => hash == b.tcpHash) resetOfo l.free = some (x, rest) ∧ Gro.Found s t l.free x rest ∧
      napiGetTcpOfoQueue s k = .ok (x.q, t) ∧ x.q ∉ l.flows.map Flow.q := by
  rw [napiGetTcpOfoQueue, h.loose.body]
  exact h.findQueue (fun hash => hash == b.tcpHash) resetOfo

/-- The packet goes up as it is, and the queue object `x` comes first among the free ones with the data `d`. -/
theorem requeue_spec {x : FreeQueue OfoExt} {rest : List (FreeQueue OfoExt)} (h : Received s l k b)
    (hfound : Gro.Found s t l.free x rest) (hq : x.q ∉ l.flows.map Flow.q) (d : Dat) (clock : Clock) :
    Rep (receiveNormal ((taken t k x.q clock d).pushQueue x.q) k)
      { l with free := ⟨x.q, normalDat d b⟩ :: rest, clock := clock, up := l.up ++ [Parsed.up k b] } := by
  have hrep := h.requeue hfound hq (normalDat d b) d clock clock
  obtain ⟨-, qlen, skbNum, hother, rfl⟩ := hfound
  have hk := h.loose.live
  rw [receiveNormal_some (q := x.q) (by simp [taken, pushQueue_eq, unlinkQueue_eq, Napi.setOfo])
    (by simpa [taken, pushQueue_eq, unlinkQueue_eq, Napi.setOfo] using hk)]
  simp only [taken, pushQueue_eq, unlinkQueue_eq, Napi.setOfo, h.loose.body, Function.update_self, Function.update_idem]
    at hrep ⊢
  exact hrep

/-- A TCP packet of no held flow that has to be flushed. -/
theorem receiveFlush_spec (h : Received s l k b) (htcp : b.isTcp = true) (hq : s.outOfOrderQueue k = none) :
    Agree Rep (receiveFlush s k) (receiveFlushLists l k b) := by
  obtain ⟨x, rest, t, hfind, hfound, ht, hxq⟩ := getQueue_spec h
  rw [receiveFlush, receiveFlushLists, hfind, ht, h.loose.body, htcp, hq]
  have hnew := requeue_spec h hfound hxq
    (agedDat { assign x.dat b.seq l.up.length with hash := b.tcpHash } (l.clock.jiffies 0)) l.clock.tickJiffies
  obtain ⟨-, qlen, skbNum, -, rfl⟩ := hfound
  have hclock := h.rep.links.clock
  have hup := h.rep.links.up
  have hbody := h.loose.body
  simp only [Option.isNone_none, Bool.and_self, if_true]
  simp only [taken, unlinkQueue_eq, Napi.tickJiffies, Napi.setOfo, Function.update_self, Function.update_idem, hclock,
    hup, hbody] at hnew ⊢
  exact hnew

/-! ### The first packet of a flow -/

/-- There is one flow too many, and the oldest one goes up. -/
theorem dropOldest_spec [GroComplete Stamp] {f g : Flow Stamp OfoExt} {P : List (Flow Stamp OfoExt)}
    (h : Links s { l with flows := f :: (P ++ [g]) } s.groList) {x : Segment} {xs : List Segment}
    (hf : f.segs = x :: xs) :
    ∃ pp n t, s.findOldest s.nskb none x.id = .ok (some pp, n) ∧
      (devGroComplete { (s.writeHead none pp).touch n with
        next := Function.update (s.writeHead none pp).next n none } n 0).map Prod.snd = .ok t ∧
      Links t { dropFlow l g.q g.dat (setHeadNext none g.segs) with flows := f :: P } t.groList ∧
      t.groCount = s.groCount := by
  obtain ⟨pp, m, nx, list, hold, hm, heq, hcompleting, hdone⟩ := h.dropOldest hf
  obtain ⟨y, ys, hg⟩ := List.exists_cons_of_ne_nil (h.flows g (by simp)).ne
  obtain rfl : y.id = m := by simpa [Flow.ids, hg] using hm
  have hcons : setHeadNext none g.segs = { y with next := none } :: ys := by rw [hg, setHeadNext]
  rw [hcons] at hcompleting
  have hrun := devGroComplete_spec 0 hcompleting h.clock
  rw [← hcons, if_pos (completeFlow_all ..)] at hrun
  obtain ⟨u, hu, hrun⟩ := hrun
  refine ⟨pp, y.id, u.pushQueue g.q, hold, ?_,
    hdone u _ _ hu ((Shortened.flow 0 (l.clock.ktime 0) g none).setDat _)⟩
  have hrun' : devGroComplete { s with next := nx, groList := list } y.id 0 = _ := hrun
  rw [heq, hrun']
  rfl

/-- The packet `k` becomes a flow of its own. -/
theorem receiveHeld_spec [GroComplete Stamp] {d : Dat} (hk : k ∉ s.gone) (hbound : l.flows.length ≤ maxGroSkbs)
    (hcount : s.groCount = BitVec.ofNat 32 l.flows.length)
    (hb : { s.body k with gsoSize := BitVec.ofNat 16 (s.body k).groLen } = b)
    (h : Links { s with
        cbPrev := Function.update s.cbPrev k none
        cbNext := Function.update s.cbNext k none
        next := Function.update s.next k s.groList
        groList := some k
        body := Function.update s.body k b } { l with flows := ⟨q, d, [⟨k, none, b⟩]⟩ :: l.flows } (some k)) :
    Agree Rep (receiveHeld s k) (receiveHeldLists l ⟨q, d, [⟨k, none, b.pull⟩]⟩) := by
  have hu : Napi.setBody { s with
        cbPrev := Function.update s.cbPrev k none
        cbNext := Function.update s.cbNext k none
        next := Function.update s.next k s.groList
        groList := some k } k b = { s with
        cbPrev := Function.update s.cbPrev k none
        cbNext := Function.update s.cbNext k none
        next := Function.update s.next k s.groList
        groList := some k
        body := Function.update s.body k b } := by
    rw [Napi.setBody, touch_eq (by exact hk)]
  rw [receiveHeld, hb, hu, receiveHeldLists, flushOldest]
  revert h
  generalize hv : ({ s with
        cbPrev := Function.update s.cbPrev k none
        cbNext := Function.update s.cbNext k none
        next := Function.update s.next k s.groList
        groList := some k
        body := Function.update s.body k b } : Mem) = u
  intro h
  have hcountu : u.groCount = s.groCount := by rw [← hv]
  have hlist : u.groList = some k := by rw [← hv]
  rw [← hlist] at h
  by_cases hfull : l.flows.length ≥ maxGroSkbs
  · have hlen : l.flows.length = maxGroSkbs := Nat.le_antisymm hbound hfull
    obtain ⟨P, g, hP⟩ := List.eq_nil_or_concat' l.flows |>.resolve_left (fun hnil => by simp [hnil, maxGroSkbs] at hlen)
    have hPlen : P.length + 1 = maxGroSkbs := by simpa [hP] using hlen
    have hge : u.groCount ≥ BitVec.ofNat 32 maxGroSkbs := by
      rw [hcountu, hcount, hlen]
      exact BitVec.le_refl _
    rw [if_pos hge, if_pos hfull, hP]
    simp only [List.getLast?_append_cons, List.dropLast_concat]
    rw [hP] at h
    have hfirst : (⟨q, d, [⟨k, none, b⟩]⟩ : Flow Stamp OfoExt).segs = [⟨k, none, b⟩] := rfl
    obtain ⟨pp, n, t, hold, hrun, ht, hcountt⟩ := dropOldest_spec h hfirst
    rw [hold]
    simp only [hrun]
    refine pullFirst_spec (l := { dropFlow l g.q g.dat (setHeadNext none g.segs) with flows := _ }) ht ?_ (Nat.le_of_eq hPlen)
    rw [hcountt, hcountu, hcount, hlen, hPlen]
  · have hlt : ¬u.groCount ≥ BitVec.ofNat 32 maxGroSkbs := by
      rw [hcountu, hcount]
      intro hge
      have hle := BitVec.le_def.1 hge
      simp only [BitVec.toNat_ofNat, maxGroSkbs] at hle hfull
      omega
    rw [if_neg hlt, if_neg hfull]
    have hlinks : Links ({ u with groCount := u.groCount + 1 } : Mem)
        { l with flows := ⟨q, d, [⟨k, none, b⟩]⟩ :: l.flows } u.groList := h.setControl ..
    refine pullFirst_spec hlinks ?_ (Nat.lt_of_not_le hfull)
    simp only [hcountu, hcount, BitVec.ofNat_add]
    rfl

/-- A TCP packet of no held flow that does not have to be flushed. -/
theorem receiveNew_spec [GroComplete Stamp] (h : Received s l k b) (htcp : b.isTcp = true)
    (hlen : b.len = BitVec.ofNat 32 b.groLen) :
    Agree Rep (receiveNew s k) (receiveNewLists l k b) := by
  have hclock := h.rep.links.clock
  have hk := h.loose.live
  rw [receiveNew, receiveNewLists, h.loose.body, hclock, ← stampNew.eq_def]
  have h' := (h.setBody (stampNew l.clock b)).setClock l.clock.tickJiffies.tickKtime
  have htcp' : (stampNew l.clock b).isTcp = true := htcp
  have hlen' : (stampNew l.clock b).len = BitVec.ofNat 32 (stampNew l.clock b).groLen := hlen
  have hv : (s.setBody k (stampNew l.clock b)).tickJiffies.tickKtime =
      { s.setBody k (stampNew l.clock b) with clock := l.clock.tickJiffies.tickKtime } := by
    have hclock' : (s.setBody k (stampNew l.clock b)).clock = l.clock := by
      rw [Napi.setBody, touch_eq hk]
      exact hclock
    rw [← hclock']
    rfl
  rw [hv]
  revert h' htcp' hlen'
  generalize stampNew l.clock b = c
  generalize ({ s.setBody k c with clock := l.clock.tickJiffies.tickKtime } : Mem) = v
  generalize ({ l with clock := l.clock.tickJiffies.tickKtime } : Lists) = m
  intro h' htcp' hlen'
  obtain ⟨x, rest, t, hfind, hfound, ht, hxq⟩ := getQueue_spec h'
  have hrequeue := requeue_spec h' hfound hxq
  have hinsert d clock := h'.insert hfound d clock { c with gsoSize := BitVec.ofNat 16 c.groLen }
  have hclock := h'.rep.links.clock
  have hup := h'.rep.links.up
  have hbody := h'.loose.body
  simp only [hbody, ht, hfind, if_pos htcp']
  obtain ⟨-, qlen, skbNum, hother, rfl⟩ := hfound
  simp only [taken, unlinkQueue_eq, Napi.tickJiffies, Napi.setOfo, Function.update_self, Function.update_idem, hclock, hup,
    hbody] at hrequeue hinsert ⊢
  generalize assign x.dat c.seq m.up.length = d
  by_cases hbefore : before c.seq d.seqNext = true
  · rw [if_pos hbefore, if_pos hbefore]
    exact hrequeue (agedDat d (m.clock.jiffies 0)) m.clock.tickJiffies
  · rw [if_neg hbefore, if_neg hbefore]
    apply receiveHeld_spec (l := { m with free := rest })
    · exact h'.loose.live
    · exact h'.rep.bound
    · exact h'.rep.count
    · rw [hbody]
    · have hlinks := hinsert { d with hash := c.tcpHash } m.clock hlen'
      rw [← hclock] at hlinks ⊢
      exact hlinks

end PacketReordering.Linux318
