import PacketReordering.Linux41.Arrivals
import PacketReordering.Linux41.NewFlow

/-!
# `linux-4.1`: `dev_gro_receive` on the lists

* `receiveFound_spec` — a packet of a held flow;
* `inetMatch_spec` — the checks of the headers;
* `devGroReceive_spec` — `dev_gro_receive` over the memory is `receiveLists`.
-/

namespace PacketReordering.Linux41

open Lib Gro

variable {s t : Mem} {l : Lists} {A B : List (Flow GsoEnd OfoExt)} {q : OfoId} {tr : Track} {d : Dat}
  {segs : List Segment} {k : SkbId} {b : Skb}

/-! ### Where a queue object is looked for -/

/-- `u` has the free queue objects of `s`. -/
structure SameFree (s u : Mem) : Prop where
  first : u.outOfOrderQueueList = s.outOfOrderQueueList
  last : u.outOfOrderQueueLast = s.outOfOrderQueueLast
  next : u.nextQueue = s.nextQueue
  prev : u.prevQueue = s.prevQueue
  dat : u.ofo = s.ofo

/-- `receiveEnd` calls `napi_get_tcp_ofo_queue` for the packet `k`. -/
structure Seeks (t : Mem) (k : SkbId) : Prop where
  sameFlow : t.sameFlow k = false
  isTcp : (t.body k).isTcp = true
  queue : t.flush k = true → t.outOfOrderQueue k = none

/-- The callbacks return `x` for the packet `k`, and in the end it is `r` on the lists.  If a queue object is looked for, the
free ones are those of `s`. -/
def Returns (s : Mem) (k : SkbId) (x : Except Fault Mem) (r : Except Fault Lists) : Prop :=
  Agree Rep (x.bind fun t => receiveEnd t k) r ∧ ∀ t, x = .ok t → Seeks t k → SameFree s t

theorem examined_sameFree {o : Option OfoId} {fl sf : SkbId → Bool} : SameFree s (examined s k b o fl sf) :=
  ⟨rfl, rfl, rfl, rfl, rfl⟩

theorem SameFree.trans {u : Mem} (h : SameFree s t) (h' : SameFree t u) : SameFree s u :=
  ⟨h'.first.trans h.first, h'.last.trans h.last, h'.next.trans h.next, h'.prev.trans h.prev, h'.dat.trans h.dat⟩

theorem Returns.of_sameFree {x : Except Fault Mem} {r : Except Fault Lists} (h : Returns t k x r) (hst : SameFree s t) :
    Returns s k x r :=
  ⟨h.1, fun u hu hseeks => hst.trans (h.2 u hu hseeks)⟩

theorem Returns.ok {r : Except Fault Lists} (h : Agree Rep (receiveEnd t k) r) (hseeks : Seeks t k → SameFree s t) :
    Returns s k (.ok t) r := by
  refine ⟨h, fun u hu => ?_⟩
  cases hu
  exact hseeks

/-! ### After the walk -/

/-- The packet goes up as it is, past the queue `q` of its flow. -/
theorem normalFound_spec (h : Rep t { l with flows := A ++ ⟨q, d, segs⟩ :: B })
    (hk : Loose t (A ++ ⟨q, d, segs⟩ :: B) k b) (hq : t.outOfOrderQueue k = some q) :
    Rep (receiveNormal t k) { l with
      flows := A ++ ⟨q, (normalDat d l.clock b).1, segs⟩ :: B
      clock := (normalDat d l.clock b).2
      up := l.up ++ [Parsed.up k b] } := by
  have hclock := h.links.clock
  have hdat : t.ofo q = d := (h.links.flows ⟨q, d, segs⟩ (by simp)).rep.dat
  rw [receiveNormal_some hq hk.live, hk.body, hk.next, hclock, hdat]
  exact pastHeld_spec h hk (normalDat d l.clock b).1 (normalDat d l.clock b).2

/-- `dev_gro_receive` after the walk. -/
theorem ends_spec {w : Walked} (hends : EndsWith l A B q k b t w) (hout : k ∉ allIds (A ++ B))
    (hbound : A.length + (B.length + 1) ≤ maxGroSkbs) :
    Agree Rep (receiveEnd t k)
      (let l := { l with clock := w.track.clock, up := w.track.up }
       match w.fate with
       | .held => .ok { l with flows := A ++ ⟨q, w.track.dat, w.segs.map (pullSeg k)⟩ :: B }
       | .merged => .ok { l with flows := A ++ ⟨q, w.track.dat, w.segs⟩ :: B }
       | .normal =>
         let r := normalDat w.track.dat l.clock b
         .ok { l with
           flows := A ++ ⟨q, r.1, w.segs⟩ :: B, clock := r.2, up := l.up ++ [Parsed.up k b] }) := by
  obtain ⟨hfocus, hset⟩ := hends
  have hrep := hfocus.rep hbound
  rw [receiveEnd]
  cases hfate : w.fate with
  | held =>
    rw [hfate] at hset
    obtain ⟨hmem, hsame, hfree⟩ := hset
    have hseg : k ∈ segIds w.segs := by
      simp only [allIds_append, allIds_cons, List.mem_append] at hmem hout
      rcases hmem with hA | hq | hB
      · exact absurd (Or.inl hA) hout
      · exact hq
      · exact absurd (Or.inr hB) hout
    rw [if_pos hsame, if_neg (not_not.2 hfree)]
    exact pullHeld_spec hrep hseg
  | merged =>
    rw [hfate] at hset
    rw [if_pos hset.sameFlow, if_pos hset.free]
    exact freeMerged_spec hrep hset.lt hset.mem hset.live
  | normal =>
    rw [hfate] at hset
    obtain ⟨harr, hflush⟩ := hset
    have hsame : ¬t.sameFlow k = true := by rw [harr.sameFlow]; simp
    have hsome : ¬((t.body k).isTcp && (t.outOfOrderQueue k).isNone) = true := by rw [harr.queue]; simp
    rw [if_neg hsame, if_pos hflush, receiveFlush, if_neg hsome]
    exact normalFound_spec hrep harr.toLoose harr.queue

/-- A packet that the walk has dealt with needs no queue object. -/
theorem not_seeks_ends {w : Walked} (hends : EndsWith l A B q k b t w) : ¬Seeks t k := by
  intro hseeks
  obtain ⟨-, hset⟩ := hends
  cases hfate : w.fate with
  | held =>
    rw [hfate] at hset
    obtain ⟨-, hsame, -⟩ := hset
    exact Bool.false_ne_true (hseeks.sameFlow.symm.trans hsame)
  | merged =>
    rw [hfate] at hset
    exact Bool.false_ne_true (hseeks.sameFlow.symm.trans hset.sameFlow)
  | normal =>
    rw [hfate] at hset
    obtain ⟨harr, hflush⟩ := hset
    have hnone := hseeks.queue hflush
    rw [harr.queue] at hnone
    cases hnone

/-! ### A packet of a held flow -/

/-- `tcp_gro_receive` from flush point 1 on, and `dev_gro_receive` after it. -/
theorem receiveInQueue_spec {x : Segment} {xs : List Segment} (flush : Bool)
    (h : Focus s l A B q d ({ x with next := (heads B).head? } :: xs))
    (hk : Arriving s (A ++ ⟨q, d, { x with next := (heads B).head? } :: xs⟩ :: B) q k b) (hfree : b.free = .no)
    (hout : k ∉ allIds (A ++ B)) (hbound : A.length + (B.length + 1) ≤ maxGroSkbs) :
    let normal (l : Lists) (d : Dat) (segs : List Segment) : Lists :=
      let r := normalDat d l.clock b
      { l with flows := A ++ ⟨q, r.1, segs⟩ :: B, clock := r.2, up := l.up ++ [Parsed.up k b] }
    Returns s k (receiveInQueue s q k b.seq b.len b.tcp.flagWord flush (headRef A) x.id)
      (if flush || before b.seq d.seqNext && d.ext.flushed.value then
        .ok (normal l (if flush then d else readFlushed d) ({ x with next := (heads B).head? } :: xs))
      else
        let d := if before b.seq d.seqNext then (readFlushed d).setSeqNext b.seq else d
        match walkSegs (heads B).head? k b (x :: xs) [] d.seqNext ⟨d, l.clock, l.up⟩ with
        | .error e => .error e
        | .ok w =>
          let l := { l with clock := w.track.clock, up := w.track.up }
          match w.fate with
          | .held => .ok { l with flows := A ++ ⟨q, w.track.dat, w.segs.map (pullSeg k)⟩ :: B }
          | .merged => .ok { l with flows := A ++ ⟨q, w.track.dat, w.segs⟩ :: B }
          | .normal => .ok (normal l w.track.dat w.segs)) := by
  intro normal
  have hdat : s.ofo q = d := h.holds.rep.dat
  -- the packet is not held, with the data `e` of the queue
  have hdrop : ∀ {t : Mem} {e : Dat}, Focus t l A B q e ({ x with next := (heads B).head? } :: xs) →
      Arriving t (A ++ ⟨q, e, { x with next := (heads B).head? } :: xs⟩ :: B) q k b →
      Returns s k (.ok (t.setFlush k)) (.ok (normal l e ({ x with next := (heads B).head? } :: xs))) := by
    intro t e ht hkt
    have hends : EndsWith l A B q k b (t.setFlush k)
        ⟨⟨e, l.clock, l.up⟩, { x with next := (heads B).head? } :: xs, .normal⟩ := ends_drop ht hkt
    exact Returns.ok (ends_spec hends hout hbound) fun hseeks => absurd hseeks (not_seeks_ends hends)
  rw [receiveInQueue, hdat]
  cases flush with
  | true => exact hdrop h hk
  | false =>
    simp only [Bool.false_eq_true, if_false, Bool.false_or]
    by_cases hflushed : (before b.seq d.seqNext && d.ext.flushed.value) = true
    · rw [if_pos hflushed, if_pos hflushed]
      exact hdrop (h.setDat (readFlushed d)) (hk.setDat (readFlushed d))
    · rw [if_neg hflushed, if_neg hflushed]
      obtain ⟨e, he⟩ : ∃ e, e = if before b.seq d.seqNext then (readFlushed d).setSeqNext b.seq else d := ⟨_, rfl⟩
      have hset : (if before b.seq d.seqNext then s.setOfo q ((readFlushed d).setSeqNext b.seq) else s) = s.setOfo q e := by
        rw [he]
        split
        · rfl
        · rw [Napi.setOfo, ← hdat, Function.update_eq_self]
      rw [hset, ← he]
      have hfocus := h.setDat e
      have harr := hk.setDat e
      revert hfocus harr
      generalize s.setOfo q e = t
      intro hfocus harr
      have hfirst : t.ofoNext q = some x.id := hfocus.holds.next
      have hnext : t.next x.id = (heads B).head? := hfocus.next _ (List.mem_cons_self ..)
      have hdate : t.ofo q = e := hfocus.holds.rep.dat
      have hlen := hfocus.length_le
      rw [List.length_cons] at hlen
      simp only [hfirst, hnext, hdate]
      have hwalk : Agree (EndsWith l A B q k b)
          (walk q k b.seq b.len b.tcp.flagWord (headRef A) (heads B).head? t.nskb x.id e.seqNext t)
          (walkSegs (heads B).head? k b (x :: xs) [] e.seqNext ⟨e, l.clock, l.up⟩) :=
        walk_spec hfocus harr hfree (Nat.le_of_lt hlen)
      revert hwalk
      generalize walk q k b.seq b.len b.tcp.flagWord (headRef A) (heads B).head? t.nskb x.id e.seqNext t = r
      generalize walkSegs (heads B).head? k b (x :: xs) [] e.seqNext ⟨e, l.clock, l.up⟩ = w
      intro hwalk
      cases r with
      | error err =>
        cases w with
        | error err' => exact ⟨hwalk, fun u hu => by cases hu⟩
        | ok w => exact hwalk.elim
      | ok u =>
        cases w with
        | error err' => exact hwalk.elim
        | ok w => exact Returns.ok (ends_spec hwalk hout hbound) fun hseeks => absurd hseeks (not_seeks_ends hwalk)

/-- The packet `k` belongs to the flow `f`. -/
theorem receiveFound_spec {f : Flow GsoEnd OfoExt} {x : Segment} {xs : List Segment} {off : ℕ} {flush : Bool}
    (h : Received s l k b) (hflows : l.flows = A ++ f :: B) (hx : f.segs = x :: xs) (hsame : s.sameFlow k = false)
    (hfree : b.free = .no) (hflush : s.flush x.id = (ttlOrDfDiffer b.ip x.body.ip || flush)) :
    Returns s k (tcpGroReceiveFound s k off (headRef A) x.id)
      (receiveFoundLists l k b flush (decide (off < b.headlen)) A f B) := by
  have hqueue : s.outOfOrderQueue x.id = some f.q := (h.rep.links.flows f (by simp [hflows])).rep.queue x (by simp [hx])
  have hbound := h.rep.bound
  have hout := h.loose.mem
  rw [hflows] at hbound hout
  simp only [List.length_append, List.length_cons] at hbound
  -- the memory when the packet has its queue
  have h' := h.examined { b with gsoSize := b.len.setWidth 16 } (some f.q) s.flush s.sameFlow
  have hfocus := h'.rep.focus hflows
  have harr : Arriving (examined s k { b with gsoSize := b.len.setWidth 16 } (some f.q) s.flush s.sameFlow)
      (A ++ ⟨f.q, f.dat, setHeadNext (heads B).head? f.segs⟩ :: B) f.q k { b with gsoSize := b.len.setWidth 16 } := by
    refine ⟨⟨h'.loose.lt, h'.loose.live, ?_, h'.loose.body, h'.loose.next⟩, hsame, Function.update_self ..⟩
    simpa [Flow.ids] using hout
  rw [hx, setHeadNext] at hfocus harr
  have hspec := receiveInQueue_spec
    (ttlOrDfDiffer b.ip x.body.ip || flush || hasFlag b.tcp.flagWord flushFlags || decide (off < b.headlen))
    hfocus harr hfree (by simp only [allIds_append, allIds_cons, List.mem_append] at hout ⊢; tauto) hbound
  rw [tcpGroReceiveFound, receiveFoundLists, h.loose.body, hqueue, hflush, hx]
  simp only [Napi.setBody]
  rw [touch_eq (by exact h.loose.live)]
  exact hspec.of_sameFree ⟨rfl, rfl, rfl, rfl, rfl⟩

/-! ### The checks of the headers -/

theorem inetMatch_some (s : Mem) (iph : IpHdr) (flush : Bool) (fuel : ℕ) (p : SkbId) (hp : p ∉ s.gone) :
    ∃ fl sf, inetMatch iph flush fuel (some p) s =
        (match fuel with
          | 0 => .error .diverges
          | fuel + 1 => inetMatch iph flush fuel (s.next p) { s with flush := fl, sameFlow := sf }) ∧
      (∀ i ≠ p, fl i = s.flush i ∧ sf i = s.sameFlow i) ∧ sf p = (s.sameFlow p && sameAddresses iph (s.body p).ip) ∧
      (sf p = true → fl p = (s.flush p || ttlOrDfDiffer iph (s.body p).ip || flush)) := by
  by_cases hsame : s.sameFlow p = true
  · by_cases haddr : sameAddresses iph (s.body p).ip = true
    · refine ⟨Function.update s.flush p (s.flush p || ttlOrDfDiffer iph (s.body p).ip || flush), s.sameFlow, ?_, ?_, ?_,
        fun _ => Function.update_self ..⟩
      · cases fuel <;> simp only [inetMatch, touch_eq hp, hsame, haddr, Bool.not_true, Bool.false_eq_true, if_false]
      · exact fun i hi => ⟨Function.update_of_ne hi _ _, rfl⟩
      · rw [hsame, haddr]
        rfl
    · rw [Bool.not_eq_true] at haddr
      refine ⟨s.flush, Function.update s.sameFlow p false, ?_, ?_, ?_, ?_⟩
      · cases fuel <;>
        simp only [inetMatch, touch_eq hp, hsame, haddr, Bool.not_true, Bool.not_false, Bool.false_eq_true, if_false, if_true]
      · exact fun i hi => ⟨rfl, Function.update_of_ne hi _ _⟩
      · rw [hsame, haddr]
        exact Function.update_self ..
      · intro h
        rw [Function.update_self] at h
        cases h
  · rw [Bool.not_eq_true] at hsame
    refine ⟨s.flush, s.sameFlow, ?_, fun _ _ => ⟨rfl, rfl⟩, ?_, ?_⟩
    · cases fuel <;> simp only [inetMatch, touch_eq hp, hsame, Bool.not_false, if_true]
    · rw [hsame]
      rfl
    · intro h
      rw [hsame] at h
      cases h

/-- The loop of `inet_gro_receive` compares the packet with the first segment of every flow. -/
theorem inetMatch_spec (iph : IpHdr) (flush : Bool) {is : List SkbId} {st : Option SkbId} {fuel : ℕ}
    (h : Chain s.next st is none) (hnd : is.Nodup) (hlive : ∀ i ∈ is, i ∉ s.gone) (hfuel : is.length ≤ fuel) :
    ∃ fl sf, inetMatch iph flush fuel st s = .ok { s with flush := fl, sameFlow := sf } ∧
      (∀ i ∈ is, sf i = (s.sameFlow i && sameAddresses iph (s.body i).ip) ∧
        (sf i = true → fl i = (s.flush i || ttlOrDfDiffer iph (s.body i).ip || flush))) ∧
      ∀ i ∉ is, fl i = s.flush i ∧ sf i = s.sameFlow i := by
  induction is generalizing s st fuel with
  | nil =>
    obtain rfl : st = none := h
    refine ⟨s.flush, s.sameFlow, ?_, by simp, fun _ _ => ⟨rfl, rfl⟩⟩
    rw [inetMatch.eq_def]
  | cons p is ih =>
    obtain ⟨rfl, hnext⟩ := h
    obtain ⟨hp, hnd⟩ := List.nodup_cons.1 hnd
    obtain ⟨fuel, rfl⟩ := Nat.exists_eq_add_of_le' (Nat.le_trans (by simp : 1 ≤ (p :: is).length) hfuel)
    obtain ⟨fl₁, sf₁, hone, hother, hsf, hfl⟩ := inetMatch_some s iph flush (fuel + 1) p (hlive p (by simp))
    obtain ⟨fl, sf, hrun, hin, hout⟩ := @ih { s with flush := fl₁, sameFlow := sf₁ } (s.next p) fuel hnext hnd
      (fun i hi => hlive i (List.mem_cons_of_mem _ hi)) (by simpa using hfuel)
    refine ⟨fl, sf, hone.trans hrun, fun i hi => ?_, fun i hi => ?_⟩
    · rcases List.mem_cons.1 hi with rfl | hi
      · obtain ⟨hfli, hsfi⟩ := hout i hp
        rw [hfli, hsfi]
        exact ⟨hsf, hfl⟩
      · have hne : i ≠ p := fun he => hp (he ▸ hi)
        obtain ⟨hfli, hsfi⟩ := hother i hne
        have hi' := hin i hi
        simp only [hfli, hsfi] at hi'
        exact hi'
    · rw [List.mem_cons, not_or] at hi
      obtain ⟨hfli, hsfi⟩ := hout i hi.2
      exact ⟨hfli.trans (hother i hi.1).1, hsfi.trans (hother i hi.1).2⟩

/-! ### `tcp_gro_receive` and `dev_gro_receive` -/

/-- The memory when the headers up to IP have been looked at. -/
structure Checked (s : Mem) (l : Lists) (k : SkbId) (b : Skb) (flush : Bool) : Prop where
  received : Received s l k b
  sameFlow : s.sameFlow k = false
  flushed : s.flush k = flush
  free : b.free = .no
  heads : ∀ f ∈ l.flows, ∀ x ∈ f.segs.head?,
    s.sameFlow x.id = (decide (x.body.link = b.link) && sameAddresses b.ip x.body.ip) ∧
      (s.sameFlow x.id = true → s.flush x.id = (ttlOrDfDiffer b.ip x.body.ip || flush))

/-- A packet that is not of TCP, or that nobody looked at. -/
theorem receiveOther_spec (h : Received s l k b) (hq : s.outOfOrderQueue k = none) (htcp : b.isTcp = false)
    (hsame : s.sameFlow k = false) (hflush : s.flush k = true) :
    Returns t k (.ok s) (.ok { l with up := l.up ++ [Parsed.up k b] }) := by
  refine Returns.ok ?_ fun hseeks => absurd hseeks.isTcp (by rw [h.loose.body, htcp]; exact Bool.false_ne_true)
  have hnot : ¬(b.isTcp && (s.outOfOrderQueue k).isNone) = true := by rw [htcp]; simp
  rw [receiveEnd, if_neg (by rw [hsame]; simp), if_pos hflush, receiveFlush, h.loose.body, if_neg hnot]
  exact receiveNormal_spec h hq

/-- A TCP packet of no held flow. -/
theorem receiveMissed_spec (h : Received s l k b) (htcp : b.isTcp = true) (hq : s.outOfOrderQueue k = none)
    (hsame : s.sameFlow k = false) (hfree : SameFree t s) (hlen : s.flush k = false → b.len = BitVec.ofNat 32 b.groLen) :
    Returns t k (.ok s) (if s.flush k then receiveFlushLists l k b else receiveNewLists l k b) := by
  refine Returns.ok ?_ fun _ => hfree
  rw [receiveEnd, if_neg (by rw [hsame]; simp)]
  by_cases hflush : s.flush k = true
  · rw [if_pos hflush, if_pos hflush]
    exact receiveFlush_spec h htcp hq
  · rw [if_neg hflush, if_neg hflush]
    exact receiveNew_spec h htcp (hlen (by simpa using hflush))

theorem tcpGroReceive_spec {flush : Bool} (h : Checked s l k b flush) :
    Returns s k (tcpGroReceive s k)
      (match { b with isTcp := true }.tcpHeader with
        | (b, false) => receiveFlushLists l k b
        | (b', true) => receiveTcpLists l k b' flush (decide (b.dataOffset < b'.headlen))) := by
  have hk := h.received.loose
  have hkept := Body.tcpHeader_sameHeaders ({ b with isTcp := true } : Skb)
  have hok : ∀ c, ({ b with isTcp := true } : Skb).tcpHeader = (c, true) → c.len = BitVec.ofNat 32 c.groLen :=
    fun c hc => (Body.tcpHeader_ok hc).2.1
  rw [tcpGroReceive]
  simp only [hk.body]
  revert hkept hok
  generalize ({ b with isTcp := true } : Skb).tcpHeader = r
  obtain ⟨c, ok⟩ := r
  intro hkept hok
  have htcp : c.isTcp = true := hkept.isTcp
  have hlink : c.link = b.link := hkept.link
  have hip : c.ip = b.ip := hkept.ip
  have hfree : c.free = .no := hkept.free.trans h.free
  have hset : Napi.setBody { s with outOfOrderQueue := Function.update s.outOfOrderQueue k none } k c =
      examined s k c none s.flush s.sameFlow := by
    rw [Napi.setBody, touch_eq (by exact hk.live), Gro.examined]
  have hflush : ∀ sf, (examined s k c none s.flush sf).setFlush k =
      examined s k c none (Function.update s.flush k true) sf := by
    intro sf
    rw [Napi.setFlush, touch_eq (by exact hk.live)]
    rfl
  have hqueue : ∀ fl sf, (examined s k c none fl sf).outOfOrderQueue k = none := fun _ _ => Function.update_self ..
  have hkheads : k ∉ heads l.flows := fun hm => hk.mem (mem_allIds_of_mem_heads hm)
  cases ok with
  | false =>
    have hmissed := receiveMissed_spec (h.received.examined c none (Function.update s.flush k true) s.sameFlow) htcp
      (hqueue _ _) h.sameFlow examined_sameFree
    have hon : (examined s k c none (Function.update s.flush k true) s.sameFlow).flush k = true := Function.update_self ..
    rw [if_pos hon] at hmissed
    simp only [hset, hflush]
    exact hmissed (by simp [hon])
  | true =>
    have hlen := hok c rfl
    have hc := h.received.examined c none s.flush s.sameFlow
    have hlinks := hc.rep.links
    have hm : ∀ f ∈ l.flows, ∀ i, f.ids.head? = some i →
        ((examined s k c none s.flush s.sameFlow).sameFlow i &&
          c.tcp.ports == ((examined s k c none s.flush s.sameFlow).body i).tcp.ports) = sameFlowAs c f := by
      intro f hf i hi
      obtain ⟨x, xs, hx⟩ := List.exists_cons_of_ne_nil (hlinks.flows f hf).ne
      obtain rfl : x.id = i := by simpa [Flow.ids, hx] using hi
      have hbody := (hlinks.flows f hf).rep.body x (by simp [hx])
      have hsame : (examined s k c none s.flush s.sameFlow).sameFlow x.id = _ := (h.heads f hf x (by simp [hx])).1
      rw [hbody, hsame, sameFlowAs, hx, hlink, hip]
    have hfuel : l.flows.length ≤ s.nskb := hlinks.flows_length_le
    have hsearch := findSameFlow_spec hlinks hm hfuel
    simp only [hset]
    rw [receiveTcpLists]
    cases hsplit : splitFlow (sameFlowAs c) l.flows with
    | none =>
      rw [hsplit] at hsearch
      obtain ⟨sf, hrun, hother⟩ := hsearch
      have hsf : sf k = false := (hother k hkheads).trans h.sameFlow
      have hmissed := fun fl => receiveMissed_spec (h.received.examined c none fl sf) htcp (hqueue _ _) hsf
        examined_sameFree fun _ => hlen
      simp only [hrun]
      by_cases hcond : (decide (c.groLen < 1) || hasFlag c.tcp.flagWord flushFlags || decide (b.dataOffset < c.headlen)) = true
      · have hlists : (flush || decide (c.groLen < 1) || hasFlag c.tcp.flagWord flushFlags ||
            decide (b.dataOffset < c.headlen)) = true := by
          simp only [Bool.or_eq_true] at hcond ⊢
          tauto
        have hend := hmissed (Function.update s.flush k true)
        have hon : (examined s k c none (Function.update s.flush k true) sf).flush k = true := Function.update_self ..
        rw [if_pos hon] at hend
        rw [if_pos hcond, if_pos hlists]
        simp only [← hflush] at hend
        exact hend
      · have hlists : (flush || decide (c.groLen < 1) || hasFlag c.tcp.flagWord flushFlags ||
            decide (b.dataOffset < c.headlen)) = flush := by
          rw [Bool.not_eq_true] at hcond
          rw [Bool.or_assoc, Bool.or_assoc, ← Bool.or_assoc (decide (c.groLen < 1)), hcond, Bool.or_false]
        have hend := hmissed s.flush
        have hsame : (examined s k c none s.flush sf).flush k = flush := h.flushed
        rw [hsame] at hend
        rw [if_neg hcond, hlists]
        exact hend
    | some r =>
      obtain ⟨A, f, B⟩ := r
      rw [hsplit] at hsearch
      obtain ⟨sf, p, hrun, hhead, hother⟩ := hsearch
      have hsf : sf k = false := (hother k hkheads).trans h.sameFlow
      obtain ⟨hflows, hf, -⟩ := splitFlow_some hsplit
      obtain ⟨x, xs, hx⟩ := List.exists_cons_of_ne_nil (hlinks.flows f (by simp [hflows])).ne
      obtain rfl : x.id = p := by simpa [Flow.ids, hx] using hhead
      obtain ⟨hsamex, hflushx⟩ := h.heads f (by simp [hflows]) x (by simp [hx])
      simp only [hrun]
      refine (receiveFound_spec (h.received.examined c none s.flush sf) hflows hx hsf hfree ?_).of_sameFree examined_sameFree
      rw [hip]
      refine hflushx ?_
      rw [sameFlowAs, hx, hlink, hip] at hf
      rw [hsamex]
      simp only [Bool.and_eq_true] at hf ⊢
      exact hf.1

/-- `tcp4_gro_receive` and `dev_gro_receive` after it. -/
theorem tcp4GroReceive_spec {flush : Bool} (h : Checked s l k b flush) (hq : s.outOfOrderQueue k = none)
    (htcp : b.isTcp = false) :
    Returns s k (tcp4GroReceive s k)
      (if !flush && b.badTcpCsum then .ok { l with up := l.up ++ [Parsed.up k b] }
      else
        match { b with isTcp := true }.tcpHeader with
        | (b, false) => receiveFlushLists l k b
        | (b', true) => receiveTcpLists l k b' flush (decide (b.dataOffset < b'.headlen))) := by
  have hk := h.received.loose
  rw [tcp4GroReceive, h.flushed, hk.body]
  by_cases hbad : (!flush && b.badTcpCsum) = true
  · rw [if_pos hbad, if_pos hbad]
    have hset : Napi.setFlush s k = examined s k b none (Function.update s.flush k true) s.sameFlow := by
      rw [Napi.setFlush, touch_eq hk.live, Gro.examined, ← hk.body, ← hq]
      rw [Function.update_eq_self, Function.update_eq_self]
    rw [hset]
    exact receiveOther_spec (h.received.examined ..) (Function.update_self ..) htcp h.sameFlow (Function.update_self ..)
  · rw [if_neg hbad, if_neg hbad]
    exact tcpGroReceive_spec h

/-- `inet_gro_receive` and `dev_gro_receive` after it. -/
theorem inetGroReceive_spec {fl sf : SkbId → Bool} (h : Received (examined s k b none fl sf) l k b)
    (hsf : sf k = false) (hfl : fl k = false) (htcp : b.isTcp = false) (hfree : b.free = .no)
    (hheads : ∀ f ∈ l.flows, ∀ x ∈ f.segs.head?, fl x.id = false ∧ sf x.id = decide (x.body.link = b.link)) :
    Returns s k (inetGroReceive (examined s k b none fl sf) k)
      (match inetHeader b with
        | (b, none) => .ok { l with up := l.up ++ [Parsed.up k b] }
        | (b, some flush) =>
          if !flush && b.badTcpCsum then .ok { l with up := l.up ++ [Parsed.up k b] }
          else
            match { b with isTcp := true }.tcpHeader with
            | (b, false) => receiveFlushLists l k b
            | (b', true) => receiveTcpLists l k b' flush (decide (b.dataOffset < b'.headlen))) := by
  have hkept := inetHeader_sameHeaders b
  rw [inetGroReceive, h.loose.body]
  revert hkept
  generalize inetHeader b = r
  obtain ⟨c, o⟩ := r
  intro hkept
  have hset : (examined s k b none fl sf).setBody k c = examined s k c none fl sf := by
    rw [Napi.setBody, touch_eq h.loose.live]
    simp only [Gro.examined, Function.update_idem]
  have hall : ∀ fl' sf', Received (examined s k c none fl' sf') l k c := by
    intro fl' sf'
    have hc := h.examined c none fl' sf'
    rwa [examined_examined] at hc
  have hqueue : ∀ fl' sf', (examined s k c none fl' sf').outOfOrderQueue k = none := fun _ _ => Function.update_self ..
  have htcpc : c.isTcp = false := hkept.isTcp.trans htcp
  cases o with
  | none =>
    have hflush : (examined s k c none fl sf).setFlush k = examined s k c none (Function.update fl k true) sf := by
      rw [Napi.setFlush, touch_eq (hall fl sf).loose.live]
      rfl
    simp only [hset, hflush]
    exact receiveOther_spec (hall ..) (hqueue ..) htcpc hsf (Function.update_self ..)
  | some flush =>
    have hlinks := (hall fl sf).rep.links
    have hkheads : k ∉ heads l.flows := fun hm => h.loose.mem (mem_allIds_of_mem_heads hm)
    obtain ⟨fl', sf', hrun, hin, hout⟩ := inetMatch_spec c.ip flush hlinks.chain
      ((heads_sublist _).nodup hlinks.nodup) (fun i hi => (hlinks.live i (mem_allIds_of_mem_heads hi)).2)
      hlinks.heads_length_le
    obtain ⟨hflk, hsfk⟩ := hout k hkheads
    have hrun' : inetMatch c.ip flush (examined s k b none fl sf).nskb (examined s k b none fl sf).groList
        (examined s k c none fl sf) = .ok (examined s k c none fl' sf') := hrun
    simp only [hset, hrun']
    refine (tcp4GroReceive_spec ⟨hall (Function.update fl' k (fl' k || flush)) sf', hsfk.trans hsf, ?_, ?_, ?_⟩ (hqueue ..)
      htcpc).of_sameFree examined_sameFree
    · have hfl' : fl' k = false := hflk.trans hfl
      show Function.update fl' k (fl' k || flush) k = flush
      rw [Function.update_self, hfl', Bool.false_or]
    · exact hkept.free.trans hfree
    · intro f hf x hx
      obtain ⟨xs, hxs⟩ := List.head?_eq_some_iff.1 hx
      have hmem : x.id ∈ heads l.flows := List.mem_filterMap.2 ⟨f, hf, by simp [Flow.ids, hxs]⟩
      have hne : x.id ≠ k := fun he => hkheads (he ▸ hmem)
      have hbody := (hlinks.flows f hf).rep.body x (by simp [hxs])
      obtain ⟨hflx, hsfx⟩ := hheads f hf x hx
      obtain ⟨hsame, hflush⟩ := hin x.id hmem
      have hlink : c.link = b.link := hkept.link
      rw [hbody] at hsame hflush
      refine ⟨?_, fun h => ?_⟩
      · refine hsame.trans ?_
        rw [hlink, ← hsfx]
        rfl
      · refine (Function.update_of_ne hne _ _).trans ((hflush h).trans ?_)
        have hfl' : (examined s k c none fl sf).flush x.id = false := hflx
        rw [hfl', Bool.false_or]

/-- `dev_gro_receive` comes to `y`, and on the lists to `r`: it does not look at the packet `k`, or the callbacks, called in
the memory `v`, return `x`. -/
inductive ComesTo (s : Mem) (k : SkbId) (y : Except Fault Mem) (r : Except Fault Lists) : Prop
  | normal {t : Mem} (hy : y = .ok (receiveNormal t k)) (hend : Agree Rep y r)
  | returns {v : Mem} {x : Except Fault Mem} (hx : inetGroReceive v k = x) (hy : y = x.bind fun t => receiveEnd t k)
    (hend : Returns s k x r)

theorem devGroReceive_comesTo (h : Rep s l) (pkt : Packet) :
    ComesTo s s.nskb (devGroReceive s pkt) (receiveLists l pkt) := by
  have hnew := arrive_spec h
  have hnskb := h.links.nskb
  rw [receiveLists, ← hnskb, devGroReceive, Packet.parse]
  rw [← hnskb] at hnew
  revert hnew
  generalize ({ l with nskb := s.nskb + 1 } : Lists) = l'
  have hexam : ({ s with
      nskb := s.nskb + 1
      next := Function.update s.next s.nskb none
      outOfOrderQueue := Function.update s.outOfOrderQueue s.nskb none
      body := Function.update s.body s.nskb { pkt.body with parts := [pkt.body.part] } } : Mem) =
      examined { s with nskb := s.nskb + 1, next := Function.update s.next s.nskb none } s.nskb
        { pkt.body with parts := [pkt.body.part] } none s.flush s.sameFlow := rfl
  simp only [hexam]
  clear hexam
  obtain ⟨t, ht⟩ : ∃ t : Mem, t = { s with nskb := s.nskb + 1, next := Function.update s.next s.nskb none } := ⟨_, rfl⟩
  have htnskb : s.nskb + 1 = t.nskb := by rw [ht]
  have htlist : s.groList = t.groList := by rw [ht]
  have hfree : SameFree s t := by
    rw [ht]
    exact ⟨rfl, rfl, rfl, rfl, rfl⟩
  rw [← ht, htnskb, htlist]
  clear ht htnskb htlist
  generalize s.nskb = k
  intro hnew
  have hall : ∀ b fl sf, Received (examined t k b none fl sf) l' k b := fun b fl sf => hnew.examined b none fl sf
  have hother : ∀ b fl sf, ComesTo s k (.ok (receiveNormal (examined t k b none fl sf) k))
      (.ok { l' with up := l'.up ++ [Parsed.up k b] }) :=
    fun b fl sf => ComesTo.normal rfl (receiveNormal_spec (hall b fl sf) (Function.update_self ..))
  by_cases hoff : (!pkt.featuresGro || pkt.isGso || pkt.hasFragList || pkt.csumBad) = true
  · have hoff' : (!pkt.featuresGro || pkt.isGso || pkt.hasFragList || pkt.csumBad || !pkt.isIp) = true := by
      rw [hoff, Bool.true_or]
    rw [if_pos hoff, if_pos hoff']
    exact hother _ _ _
  · rw [if_neg hoff]
    rw [Bool.not_eq_true] at hoff
    have hlinks := (hall { pkt.body with parts := [pkt.body.part] } s.flush s.sameFlow).rep.links
    obtain ⟨fl, sf, hrun, hin, -⟩ := groListPrepare_spec pkt.body.link hlinks.chain
      (fun i hi => (hlinks.live i (mem_allIds_of_mem_heads hi)).2) hlinks.heads_length_le
    have hrun' : (examined t k { pkt.body with parts := [pkt.body.part] } none s.flush s.sameFlow).groListPrepare pkt.body.link t.nskb
        t.groList = .ok (examined t k { pkt.body with parts := [pkt.body.part] } none fl sf) := hrun
    simp only [hrun', hoff, Bool.false_or]
    by_cases hip : (!pkt.isIp) = true
    · rw [if_pos hip, if_pos hip]
      exact hother _ _ _
    · rw [if_neg hip, if_neg hip]
      have hstate : ({ examined t k { pkt.body with parts := [pkt.body.part] } none fl sf with
          sameFlow := Function.update (examined t k { pkt.body with parts := [pkt.body.part] } none fl sf).sameFlow k false
          flush := Function.update (examined t k { pkt.body with parts := [pkt.body.part] } none fl sf).flush k false
          body := Function.update (examined t k { pkt.body with parts := [pkt.body.part] } none fl sf).body k
            { (examined t k { pkt.body with parts := [pkt.body.part] } none fl sf).body k with
              free := .no, isTcp := false, ext := false } } : Mem) =
          examined t k { pkt.body with parts := [pkt.body.part], free := .no, isTcp := false, ext := false } none
            (Function.update fl k false) (Function.update sf k false) := by
        simp only [Gro.examined, Function.update_self, Function.update_idem]
      rw [hstate]
      have hkheads : k ∉ heads l'.flows := fun hm => hnew.loose.mem (mem_allIds_of_mem_heads hm)
      have hspec := inetGroReceive_spec (hall { pkt.body with parts := [pkt.body.part], free := .no, isTcp := false, ext := false }
        (Function.update fl k false) (Function.update sf k false)) (Function.update_self ..) (Function.update_self ..) rfl
        rfl ?_
      · have hspec := hspec.of_sameFree hfree
        revert hspec
        generalize hx : inetGroReceive _ k = x
        intro hspec
        refine ComesTo.returns hx (by cases x <;> rfl) ?_
        revert hspec
        generalize inetHeader { pkt.body with parts := [pkt.body.part], free := .no, isTcp := false, ext := false } = r
        obtain ⟨c, _ | flush⟩ := r
        · exact fun hspec => hspec
        · intro hspec
          by_cases hbad : (!flush && c.badTcpCsum) = true
          · simp only [hbad, if_true] at hspec ⊢
            exact hspec
          · simp only [if_neg hbad] at hspec ⊢
            revert hspec
            generalize ({ c with isTcp := true } : Skb).tcpHeader = r
            obtain ⟨d, _ | _⟩ := r
            · exact fun hspec => hspec
            · exact fun hspec => hspec
      · intro f hf x hx
        obtain ⟨xs, hxs⟩ := List.head?_eq_some_iff.1 hx
        have hmem : x.id ∈ heads l'.flows := List.mem_filterMap.2 ⟨f, hf, by simp [Flow.ids, hxs]⟩
        have hne : x.id ≠ k := fun he => hkheads (he ▸ hmem)
        have hbody := (hlinks.flows f hf).rep.body x (by simp [hxs])
        obtain ⟨hflx, hsfx⟩ := hin x.id hmem
        rw [hbody] at hsfx
        exact ⟨(Function.update_of_ne hne _ _).trans hflx, (Function.update_of_ne hne _ _).trans hsfx⟩

/-- **`dev_gro_receive` over the memory is `receiveLists`.** -/
theorem devGroReceive_spec (h : Rep s l) (pkt : Packet) : Agree Rep (devGroReceive s pkt) (receiveLists l pkt) := by
  cases devGroReceive_comesTo h pkt with
  | normal hy hend => exact hend
  | returns _ hy hend =>
    rw [hy]
    exact hend.1

end PacketReordering.Linux41
