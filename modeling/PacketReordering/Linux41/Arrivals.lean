import PacketReordering.Linux41.Lists
import PacketReordering.Linux41.Turns

/-!
# `linux-4.1`: what an arriving packet can do

* `Packet.plain` — a TCP packet as a driver hands it in;
* `parse_tcp` — the control block of a packet whose TCP header was found;
* `Arrival`, `receiveLists_ok` — the ways in which `dev_gro_receive` can end;
* `Walks` — the packet comes to the walk along the queue of its flow.
-/

namespace PacketReordering.Linux41

open Gro

variable {l l' : Lists} {pkt : Packet} {k : SkbId} {b : Skb} {A B : List (Flow GsoEnd OfoExt)}
  {f : Flow GsoEnd OfoExt} {flush linear : Bool}

/-- A TCP packet over IPv4 without options, in one page fragment. -/
def Packet.plain (uid : ℕ) (saddr ports seq : U32) (len : ℕ) (flags : U32) : Packet where
  featuresGro := true
  isGso := false
  hasFragList := false
  csumBad := false
  isIp := true
  body := { (default : Skb) with
    uid := uid
    ip := ⟨0x45, 0, BitVec.ofNat 16 (40 + len), ipDf, 64, ipprotoTcp, saddr, 0, false⟩
    tcp := ⟨ports, seq, 0, 0x50000000 ||| flags, []⟩
    frags := [⟨uid, 0, 40 + len⟩]
    frag0Len := 40 + len }
  dataOffset_eq := rfl
  frag0_eq := Or.inr ⟨rfl, rfl⟩

/-! ### The control block -/

/-- What holds of a packet whose TCP header was found. -/
structure Headed (pkt : Packet) (b : Skb) : Prop where
  uid : b.uid = pkt.body.uid
  link : b.link = pkt.body.link
  ip : b.ip = pkt.body.ip
  tcp : b.tcp = pkt.body.tcp
  seq : b.seq = b.tcp.seq
  len : b.len = BitVec.ofNat 32 b.groLen
  tcpHash : b.tcpHash = b.tcp.ports
  count : b.count = 1
  parts : b.parts = [{ b.part with isTcp := true }]
  free : b.free = .no
  isTcp : b.isTcp = true
  ext : b.ext = false

theorem inetHeader_sameHeaders (b : Skb) : b.SameHeaders (inetHeader b).1 := by
  unfold inetHeader
  cases hc : b.groHeader (b.dataOffset + 20) with
  | none => exact Body.SameHeaders.refl b
  | some c =>
    have hbc := Body.groHeader_sameHeaders hc
    simp only
    split
    · exact hbc
    · exact hbc.trans ⟨rfl, rfl, rfl, rfl, rfl, rfl, rfl, fun h => h⟩

theorem parse_tcp (h : pkt.parse = .tcp b flush linear) : Headed pkt b := by
  unfold Packet.parse at h
  split at h
  · cases h
  · simp only at h
    split at h
    · cases h
    · rename_i c fl hinet
      have hc := inetHeader_sameHeaders { pkt.body with parts := [pkt.body.part], free := .no, isTcp := false, ext := false }
      rw [hinet] at hc
      split at h
      · cases h
      · split at h
        · cases h
        · rename_i d htcp
          cases h
          obtain ⟨hseq, hlen, hhash, hcount, hparts, -, -⟩ := Body.tcpHeader_ok htcp
          have hd := Body.tcpHeader_sameHeaders { c with isTcp := true }
          rw [htcp] at hd
          exact ⟨hd.uid.trans hc.uid, hd.link.trans hc.link, hd.ip.trans hc.ip, hd.tcp.trans hc.tcp, hseq, hlen, hhash,
            hcount, hparts, hd.free.trans hc.free, hd.isTcp, hd.ext.trans hc.ext⟩

/-! ### The ways through `dev_gro_receive` -/

/-- The flow whose only segment is the packet `k`. -/
def newFlow (x : FreeQueue OfoExt) (k : SkbId) (b : Skb) (timestamp : U64) : Flow GsoEnd OfoExt :=
  ⟨x.q, { takenDat x.dat b timestamp with hash := b.tcpHash },
    [⟨k, none, ({ b with gsoSize := BitVec.ofNat 16 b.groLen } : Skb).pull⟩]⟩

/-- The packet as the walk along the queue sees it. -/
def walker (b : Skb) : Skb := { b with gsoSize := b.len.setWidth 16 }

/-- Flush point 1: the packet is not to be held. -/
def notHeld (f : Flow GsoEnd OfoExt) (b : Skb) (flush linear : Bool) : Bool :=
  f.segs.head?.any (fun p => ttlOrDfDiffer b.ip p.body.ip) || flush || hasFlag b.tcp.flagWord flushFlags || linear

/-- Flush point 2: the packet comes after its successors went up. -/
def isLate (d : Dat) (b : Skb) : Bool := before b.seq d.seqNext && d.ext.flushed.value

/-- The data of the queue when the packet is not held: at flush point 2 `flushed` has been read. -/
def dropDat (f : Flow GsoEnd OfoExt) (b : Skb) (flush linear : Bool) : Dat :=
  if notHeld f b flush linear then f.dat else readFlushed f.dat

/-- The data of the queue when the walk begins. -/
def walkDat (d : Dat) (b : Skb) : Dat := if before b.seq d.seqNext then (readFlushed d).setSeqNext b.seq else d

/-- The packet `k` of the flow `⟨q, d, segs⟩` goes up as it is. -/
def normalLists (l : Lists) (k : SkbId) (b : Skb) (A B : List (Flow GsoEnd OfoExt)) (q : OfoId) (d : Dat)
    (segs : List Segment) : Lists :=
  { l with
    flows := A ++ ⟨q, (normalDat d l.clock (walker b)).1, segs⟩ :: B
    clock := (normalDat d l.clock (walker b)).2
    up := l.up ++ [Parsed.up k (walker b)] }

/-- The flow when the walk of the packet `k` has come to `w`. -/
def walkedFlow (k : SkbId) (b : Skb) (q : OfoId) (w : Walked) : Flow GsoEnd OfoExt :=
  match w.fate with
  | .held => ⟨q, w.track.dat, w.segs.map (pullSeg k)⟩
  | .merged => ⟨q, w.track.dat, w.segs⟩
  | .normal => ⟨q, (normalDat w.track.dat w.track.clock (walker b)).1, w.segs⟩

/-- The lists when the walk has come to `w`. -/
def walkedLists (l : Lists) (k : SkbId) (b : Skb) (A B : List (Flow GsoEnd OfoExt)) (q : OfoId) (w : Walked) : Lists :=
  let l := { l with clock := w.track.clock, up := w.track.up }
  match w.fate with
  | .held => { l with flows := A ++ ⟨q, w.track.dat, w.segs.map (pullSeg k)⟩ :: B }
  | .merged => { l with flows := A ++ ⟨q, w.track.dat, w.segs⟩ :: B }
  | .normal => normalLists l k b A B q w.track.dat w.segs

/-- The packet `b`, of no held flow, may not be held either: its header is damaged, or it is empty, or flush point 1. -/
inductive Unheld (l : Lists) (pkt : Packet) (b : Skb) : Prop
  | badHeader (hparse : pkt.parse = .badHeader b)
  | tcp {flush linear : Bool} (hparse : pkt.parse = .tcp b flush linear)
      (hsplit : splitFlow (sameFlowAs b) l.flows = none)
      (hwhy : (flush || decide (b.groLen < 1) || hasFlag b.tcp.flagWord flushFlags || linear) = true)

/-- The packet `b`, of no held flow, may be held; `x` is the queue object it gets. -/
structure Holdable (l : Lists) (pkt : Packet) (b : Skb) (x : FreeQueue OfoExt) (rest : List (FreeQueue OfoExt)) : Prop where
  parse : ∃ flush linear, pkt.parse = .tcp b flush linear ∧
    (flush || decide (b.groLen < 1) || hasFlag b.tcp.flagWord flushFlags || linear) = false
  split : splitFlow (sameFlowAs b) l.flows = none
  queue : findFree (fitsHash b.tcpHash) resetOfo l.free = some (x, rest)

/-- The packet `b` is of the held flow `f`. -/
structure Found (l : Lists) (pkt : Packet) (b : Skb) (flush linear : Bool) (A : List (Flow GsoEnd OfoExt))
    (f : Flow GsoEnd OfoExt) (B : List (Flow GsoEnd OfoExt)) : Prop where
  parse : pkt.parse = .tcp b flush linear
  split : splitFlow (sameFlowAs b) l.flows = some (A, f, B)

/-- What becomes of the packet `pkt`, the buffer `l.nskb`. -/
inductive Arrival (l : Lists) (pkt : Packet) : Lists → Prop
  | other {b : Skb} (hparse : pkt.parse = .other b) :
    Arrival l pkt { l with nskb := l.nskb + 1, up := l.up ++ [Parsed.up l.nskb b] }
  | unheld {b : Skb} {x : FreeQueue OfoExt} {rest : List (FreeQueue OfoExt)} (hwhy : Unheld l pkt b)
      (hqueue : findFree (fitsHash b.tcpHash) resetOfo l.free = some (x, rest)) :
    Arrival l pkt { l with
      nskb := l.nskb + 1
      free := ⟨x.q, (normalDat (flushDat x.dat b (l.clock.ktime 0)) l.clock.tickKtime b).1⟩ :: rest
      clock := (normalDat (flushDat x.dat b (l.clock.ktime 0)) l.clock.tickKtime b).2
      up := l.up ++ [Parsed.up l.nskb b] }
  | late {b : Skb} {x : FreeQueue OfoExt} {rest : List (FreeQueue OfoExt)} (hold : Holdable l pkt b x rest)
      (hlate : before b.seq (takenDat x.dat b (l.clock.ktime 0)).seqNext = true) :
    Arrival l pkt { l with
      nskb := l.nskb + 1
      free := ⟨x.q, (normalDat (takenDat x.dat b (l.clock.ktime 0)) l.clock.tickKtime b).1⟩ :: rest
      clock := (normalDat (takenDat x.dat b (l.clock.ktime 0)) l.clock.tickKtime b).2
      up := l.up ++ [Parsed.up l.nskb b] }
  | fresh {b : Skb} {x : FreeQueue OfoExt} {rest : List (FreeQueue OfoExt)} (hold : Holdable l pkt b x rest)
      (hlate : before b.seq (takenDat x.dat b (l.clock.ktime 0)).seqNext = false) (hfull : l.flows.length < maxGroSkbs) :
    Arrival l pkt { l with
      nskb := l.nskb + 1
      flows := newFlow x l.nskb b (l.clock.ktime 0) :: l.flows
      free := rest
      clock := l.clock.tickKtime }
  | evict {b : Skb} {x : FreeQueue OfoExt} {rest : List (FreeQueue OfoExt)} {P : List (Flow GsoEnd OfoExt)}
      {g : Flow GsoEnd OfoExt} (hold : Holdable l pkt b x rest)
      (hlate : before b.seq (takenDat x.dat b (l.clock.ktime 0)).seqNext = false) (hflows : l.flows = P ++ [g])
      (hfull : maxGroSkbs ≤ l.flows.length) :
    Arrival l pkt { l with
      nskb := l.nskb + 1
      flows := newFlow x l.nskb b (l.clock.ktime 0) :: P
      free := ⟨g.q, (completeFlow false 0 0 (l.clock.ktime 1) g.dat (setHeadNext none g.segs)).1⟩ :: rest
      clock := l.clock.tickKtime.tickKtime
      up := l.up ++ (completeFlow false 0 0 (l.clock.ktime 1) g.dat (setHeadNext none g.segs)).2.1 }
  | drop {b : Skb} {flush linear : Bool} {A B : List (Flow GsoEnd OfoExt)} {f : Flow GsoEnd OfoExt}
      (hfound : Found l pkt b flush linear A f B)
      (hwhy : (notHeld f b flush linear || isLate f.dat b) = true) :
    Arrival l pkt
      (normalLists { l with nskb := l.nskb + 1 } l.nskb b A B f.q (dropDat f b flush linear)
        (setHeadNext (heads B).head? f.segs))
  | walked {b : Skb} {flush linear : Bool} {A B : List (Flow GsoEnd OfoExt)} {f : Flow GsoEnd OfoExt} {w : Walked}
      (hfound : Found l pkt b flush linear A f B)
      (hwhy : (notHeld f b flush linear || isLate f.dat b) = false)
      (hwalk : walkSegs (heads B).head? l.nskb (walker b) f.segs [] (walkDat f.dat b).seqNext
        ⟨walkDat f.dat b, l.clock, l.up⟩ = .ok w) :
    Arrival l pkt (walkedLists { l with nskb := l.nskb + 1 } l.nskb b A B f.q w)

theorem Parsed.up_pull_eq {c : Skb} (h : c.count = 1) : ({ c with count := 1 } : Skb) = c := by
  cases c
  simp only at h
  rw [h]

theorem receiveFoundLists_ok (hfound : Found l pkt b flush linear A f B)
    (h : receiveFoundLists { l with nskb := l.nskb + 1 } l.nskb b flush linear A f B = .ok l') : Arrival l pkt l' := by
  unfold receiveFoundLists at h
  simp only at h
  split at h
  · rename_i hwhy
    cases h
    exact Arrival.drop hfound hwhy
  · rename_i hwhy
    split at h
    · cases h
    · rename_i w hwalk
      have harrival := Arrival.walked hfound (Bool.eq_false_iff.2 hwhy) hwalk
      unfold walkedLists at harrival
      cases hfate : w.fate with
      | held | merged | normal =>
        rw [hfate] at h harrival
        cases h
        exact harrival

theorem receiveNewLists_ok (hparse : pkt.parse = .tcp b flush linear)
    (hwhy : (flush || decide (b.groLen < 1) || hasFlag b.tcp.flagWord flushFlags || linear) = false)
    (hsplit : splitFlow (sameFlowAs b) l.flows = none)
    (h : receiveNewLists { l with nskb := l.nskb + 1 } l.nskb b = .ok l') : Arrival l pkt l' := by
  unfold receiveNewLists at h
  rw [Parsed.up_pull_eq (parse_tcp hparse).count] at h
  simp only at h
  split at h
  · cases h
  · rename_i x rest hqueue
    have hold : Holdable l pkt b x rest := ⟨⟨flush, linear, hparse, hwhy⟩, hsplit, hqueue⟩
    split at h
    · rename_i hlate
      cases h
      exact Arrival.late hold hlate
    · rename_i hlate
      rw [Bool.not_eq_true] at hlate
      unfold receiveHeldLists at h
      simp only at h
      split at h
      · rename_i hfull
        split at h
        · cases h
        · rename_i g hlast
          obtain ⟨P, hP⟩ := List.getLast?_eq_some_iff.1 hlast
          cases h
          rw [hP, List.dropLast_concat]
          exact Arrival.evict hold hlate hP hfull
      · rename_i hfull
        cases h
        exact Arrival.fresh hold hlate (Nat.lt_of_not_le hfull)

/-- **There are no other ways.** -/
theorem receiveLists_ok (h : receiveLists l pkt = .ok l') : Arrival l pkt l' := by
  have hunheld : ∀ {b : Skb}, Unheld l pkt b →
      receiveFlushLists { l with nskb := l.nskb + 1 } l.nskb b = .ok l' → Arrival l pkt l' := by
    intro b hwhy h
    unfold receiveFlushLists at h
    split at h
    · cases h
    · rename_i x rest hqueue
      cases h
      exact Arrival.unheld hwhy hqueue
  unfold receiveLists at h
  simp only at h
  split at h
  · rename_i b hparse
    cases h
    exact Arrival.other hparse
  · rename_i b hparse
    exact hunheld (Unheld.badHeader hparse) h
  · rename_i b flush linear hparse
    unfold receiveTcpLists at h
    split at h
    · rename_i A f B hsplit
      exact receiveFoundLists_ok ⟨hparse, hsplit⟩ h
    · rename_i hsplit
      split at h
      · rename_i hwhy
        exact hunheld (Unheld.tcp hparse hsplit hwhy) h
      · rename_i hwhy
        exact receiveNewLists_ok hparse (Bool.eq_false_iff.2 hwhy) hsplit h

theorem before_ne {x y : U32} (h : before x y = true) : x ≠ y := by
  rintro rfl
  rw [before_self] at h
  cases h

/-- The step `normal` of `dev_gro_receive` moves `seq_next` forwards only. -/
theorem normalDat_dat (d : Dat) (clock : Clock) (b : Skb) :
    (normalDat d clock b).1 =
      if before d.seqNext b.seqEnd then { d with seqNext := b.seqEnd, ext := d.ext.setFlushed (clock.ktime 0) }
      else d := by
  by_cases hbefore : before d.seqNext b.seqEnd = true
  · simp only [normalDat, maxSeq, if_pos hbefore, if_pos (before_ne hbefore)]
  · simp only [normalDat, maxSeq, if_neg hbefore, ne_eq, not_true, if_false]

theorem normalDat_dat_hash (d : Dat) (clock : Clock) (b : Skb) : (normalDat d clock b).1.hash = d.hash := by
  rw [normalDat_dat]
  split <;> rfl

@[simp] theorem dropDat_hash : (dropDat f b flush linear).hash = f.dat.hash := by
  unfold dropDat
  split <;> rfl

/-! ### The checks do not look at `skb->next` -/

theorem sameFlowAs_erase : sameFlowAs b f.erase = sameFlowAs b f := by
  obtain ⟨q, d, segs⟩ := f
  cases segs <;> rfl

theorem notHeld_erase : notHeld f.erase b flush linear = notHeld f b flush linear := by
  obtain ⟨q, d, segs⟩ := f
  cases segs <;> rfl

/-! ### What an arrival does to the held flows -/

theorem walkedLists_flows {q : OfoId} {w : Walked} :
    (walkedLists l k b A B q w).flows = A ++ walkedFlow k b q w :: B := by
  unfold walkedLists walkedFlow
  cases w.fate <;> rfl

/-- The property `R` of flows is kept when `pkt` arrives. -/
structure FlowRule (l : Lists) (pkt : Packet) (R : Flow GsoEnd OfoExt → Prop) : Prop where
  fresh : ∀ b x rest, Holdable l pkt b x rest → R (newFlow x l.nskb b (l.clock.ktime 0))
  drop : ∀ b flush linear A f B, Found l pkt b flush linear A f B → R f →
    R ⟨f.q, (normalDat (dropDat f b flush linear) l.clock (walker b)).1, setHeadNext (heads B).head? f.segs⟩
  walked : ∀ b flush linear A f B w, Found l pkt b flush linear A f B →
    (notHeld f b flush linear || isLate f.dat b) = false →
    walkSegs (heads B).head? l.nskb (walker b) f.segs [] (walkDat f.dat b).seqNext
      ⟨walkDat f.dat b, l.clock, l.up⟩ = .ok w → R f → R (walkedFlow l.nskb b f.q w)

theorem forall_mem_replace {P : Flow GsoEnd OfoExt → Prop} {fs : List (Flow GsoEnd OfoExt)} {g : Flow GsoEnd OfoExt}
    (hfs : fs = A ++ f :: B) (h : ∀ f' ∈ fs, P f') (hg : P g) : ∀ f' ∈ A ++ g :: B, P f' := by
  rw [hfs, List.forall_mem_append, List.forall_mem_cons] at h
  rw [List.forall_mem_append, List.forall_mem_cons]
  exact ⟨h.1, hg, h.2.2⟩

theorem Arrival.forall_flows {R : Flow GsoEnd OfoExt → Prop} (hR : FlowRule l pkt R) (h : ∀ f ∈ l.flows, R f)
    (harrival : Arrival l pkt l') : ∀ f ∈ l'.flows, R f := by
  cases harrival with
  | other hparse => exact h
  | unheld hwhy hqueue => exact h
  | late hold hlate => exact h
  | fresh hold hlate hfull => exact List.forall_mem_cons.2 ⟨hR.fresh _ _ _ hold, h⟩
  | evict hold hlate hflows hfull =>
    rw [hflows] at h
    exact List.forall_mem_cons.2 ⟨hR.fresh _ _ _ hold, fun f hf => h f (List.mem_append_left _ hf)⟩
  | @drop b flush linear A B f hfound hwhy =>
    have hflows := (splitFlow_some hfound.split).1
    exact forall_mem_replace hflows h (hR.drop _ _ _ _ _ _ hfound (h f (hflows ▸ by simp)))
  | @walked b flush linear A B f w hfound hwhy hwalk =>
    have hflows := (splitFlow_some hfound.split).1
    rw [walkedLists_flows]
    exact forall_mem_replace hflows h (hR.walked _ _ _ _ _ _ _ hfound hwhy hwalk (h f (hflows ▸ by simp)))

/-- A property that every flow keeps when `dev_gro_complete` releases some of it is kept by `napi_gro_flush`. -/
theorem flushLists_forall_flows {R : Flow GsoEnd OfoExt → Prop} (flushOld : Bool) (groOfoTimeout groInseqTimeout : U64)
    (hcomplete : ∀ f n timestamp r, completeFlow flushOld groOfoTimeout groInseqTimeout timestamp f.dat
      (setHeadNext n f.segs) = r → R f → R ⟨f.q, r.1, r.2.2⟩) (h : ∀ f ∈ l.flows, R f) :
    ∀ f ∈ (flushLists l flushOld groOfoTimeout groInseqTimeout).flows, R f := by
  have hfold : ∀ (fs : List (Flow GsoEnd OfoExt)) (l : Lists), (∀ f ∈ fs, R f) → (∀ f ∈ l.flows, R f) →
      ∀ f ∈ (fs.foldr (flushFlow flushOld groOfoTimeout groInseqTimeout) l).flows, R f := by
    intro fs l hfs hl
    induction fs with
    | nil => exact hl
    | cons f fs ih =>
      obtain ⟨hf, hfs⟩ := List.forall_mem_cons.1 hfs
      have hrest := ih hfs
      rw [List.foldr_cons, flushFlow]
      simp only
      split
      · exact hrest
      · exact List.forall_mem_cons.2 ⟨hcomplete f _ _ _ rfl hf, hrest⟩
  exact hfold _ _ h fun f hf => absurd hf List.not_mem_nil

end PacketReordering.Linux41
