import PacketReordering.Linux41.Conservation

/-!
# `linux-4.1`: the read-side critical sections

`dev_gro_receive` and `inet_gro_receive` look their offloads up between `rcu_read_lock` and `rcu_read_unlock`.  The
functions here are those of `Linux41.Defs`, for any table of transport offloads, and count the two calls.

* `inetGroReceiveRcu`, `devGroReceiveRcu`, `stepRcu` — the functions;
* `stepRcu_step` — with the table of this kernel they do what those of `Linux41.Defs` do;
* `delegates` — `inet_gro_receive` comes to the transport callback;
* `rcu_balanced` — this is where the lock is kept;
* `not_rcu_balanced_plain` — it is for every TCP packet.
-/

namespace PacketReordering.Linux41

open Lib Gro

/-- The calls of `rcu_read_lock()` and `rcu_read_unlock()`. -/
structure Rcu where
  locks : ℕ
  unlocks : ℕ

namespace Rcu

def readLock (r : Rcu) : Rcu := { r with locks := r.locks + 1 }

def readUnlock (r : Rcu) : Rcu := { r with unlocks := r.unlocks + 1 }

/-- How deep the read-side critical sections are nested. -/
def depth (r : Rcu) : ℤ := r.locks - r.unlocks

variable {r : Rcu}

@[simp] theorem depth_readLock : r.readLock.depth = r.depth + 1 := by
  simp only [depth, readLock, Nat.cast_add, Nat.cast_one]
  omega

@[simp] theorem depth_readUnlock : r.readUnlock.depth = r.depth - 1 := by
  simp only [depth, readUnlock, Nat.cast_add, Nat.cast_one]
  omega

end Rcu

/-! ### The functions -/

/-- `inet_gro_complete` -/
def inetGroCompleteRcu (r : Rcu) : Rcu := r.readLock.readUnlock

/-- `napi_gro_complete`, through which a buffer went up unless it went up as it was received. -/
def napiGroCompleteRcu (u : Up GsoEnd) (r : Rcu) : Rcu :=
  if u.via = .normal ∨ u.body.count = 1 then r else (inetGroCompleteRcu r.readLock).readUnlock

/-- The calls for the buffers that went up between `s` and `s'`. -/
def completions (s s' : Mem) (r : Rcu) : Rcu := (s'.up.drop s.up.length).foldl (fun r u => napiGroCompleteRcu u r) r

/-- A `gro_receive` callback. -/
abbrev GroReceive := Mem → SkbId → Rcu → Except Fault (Mem × Rcu)

/-- The function calls `rcu_read_unlock` as often as `rcu_read_lock`. -/
def Balanced (f : GroReceive) : Prop := ∀ s skb r s' r', f s skb r = .ok (s', r') → r'.depth = r.depth

/-- A `struct net_offload`, whose callback may be missing. -/
structure NetOffload where
  groReceive : Option GroReceive
  balanced : ∀ f, groReceive = some f → Balanced f

/-- `inet_gro_receive`, with the table `inet_offloads`. -/
def inetGroReceiveRcu (inetOffloads : U8 → Option NetOffload) (s : Mem) (skb : SkbId) (r : Rcu) :
    Except Fault (Mem × Rcu) :=
  match (s.body skb).groHeader ((s.body skb).dataOffset + 20) with
  | none => .ok ((s.setBody skb (s.body skb)).setFlush skb, r)
  | some b =>
    let r := r.readLock
    let outUnlock : Except Fault (Mem × Rcu) := .ok ((s.setBody skb b).setFlush skb, r.readUnlock)
    match (inetOffloads b.ip.protocol).bind NetOffload.groReceive with
    | none => outUnlock
    | some groReceive =>
      if b.ip.verIhl ≠ 0x45 then outUnlock
      else if b.ip.badCsum then outUnlock
      else
        let flush := (b.ip.totLen ^^^ BitVec.ofNat 16 b.groLen) ||| (b.ip.fragOff &&& ~~~ipDf) != 0
        let b := { b with dataOffset := b.dataOffset + 20 }
        match inetMatch b.ip flush s.nskb s.groList (s.setBody skb b) with
        | .error f => .error f
        | .ok s =>
          -- the result is returned without `rcu_read_unlock()`
          groReceive { s with flush := Function.update s.flush skb (s.flush skb || flush) } skb r

/-- `dev_gro_receive` -/
def devGroReceiveRcu (inetOffloads : U8 → Option NetOffload) (s : Mem) (pkt : Packet) (r : Rcu) :
    Except Fault (Mem × Rcu) :=
  let skb := s.nskb
  let s := { s with
    nskb := s.nskb + 1
    next := Function.update s.next skb none
    outOfOrderQueue := Function.update s.outOfOrderQueue skb none
    body := Function.update s.body skb { pkt.body with parts := [pkt.body.part] } }
  if !pkt.featuresGro || pkt.isGso || pkt.hasFragList || pkt.csumBad then .ok (receiveNormal s skb, r)
  else
    match s.groListPrepare pkt.body.link s.nskb s.groList with
    | .error f => .error f
    | .ok s =>
      let r := r.readLock
      if !pkt.isIp then .ok (receiveNormal s skb, r.readUnlock)
      else
        let s := { s with
          sameFlow := Function.update s.sameFlow skb false
          flush := Function.update s.flush skb false
          body := Function.update s.body skb { s.body skb with free := .no, isTcp := false, ext := false } }
        match inetGroReceiveRcu inetOffloads s skb r with
        | .error f => .error f
        | .ok (s, r) => (receiveEnd s skb).map fun s' => (s', completions s s' r.readUnlock)

/-- One call. -/
def stepRcu (inetOffloads : U8 → Option NetOffload) (x : Mem × Rcu) (c : Call) : Except Fault (Mem × Rcu) :=
  let s := { x.1 with clock := { x.1.clock with ktime := c.ktime } }
  match c with
  | .receive pkt _ => devGroReceiveRcu inetOffloads s pkt x.2
  | .flush flushOld groOfoTimeout groInseqTimeout _ =>
    (napiGroFlush s flushOld groOfoTimeout groInseqTimeout).map fun s' => (s', completions s s' x.2)
  | .clean _ => (napiCleanTcpOfoQueue s).map fun s' => (s', x.2)

/-- `tcp4_gro_receive` -/
def tcp4GroReceiveRcu : GroReceive := fun s skb r => (tcp4GroReceive s skb).map fun s' => (s', completions s s' r)

/-- `inet_gro_receive` comes to the transport callback. -/
def delegated (inetOffloads : U8 → Option NetOffload) (b : Skb) : Bool :=
  match b.groHeader (b.dataOffset + 20) with
  | none => false
  | some b =>
    ((inetOffloads b.ip.protocol).bind NetOffload.groReceive).isSome && b.ip.verIhl == 0x45 && !b.ip.badCsum

/-- `dev_gro_receive` comes to `inet_gro_receive`, and that to the transport callback. -/
def delegates (inetOffloads : U8 → Option NetOffload) : Call → Bool
  | .receive pkt _ =>
    pkt.featuresGro && !pkt.isGso && !pkt.hasFragList && !pkt.csumBad && pkt.isIp && delegated inetOffloads pkt.body
  | _ => false

/-! ### Completion callbacks are balanced -/

section

variable {inetOffloads : U8 → Option NetOffload} {s s' : Mem} {skb : SkbId} {r r' : Rcu} {b c : Skb} {pkt : Packet}

@[simp] theorem depth_napiGroComplete (u : Up GsoEnd) : (napiGroCompleteRcu u r).depth = r.depth := by
  unfold napiGroCompleteRcu inetGroCompleteRcu
  split
  · rfl
  · simp

@[simp] theorem depth_completions : (completions s s' r).depth = r.depth := by
  have hfold : ∀ (us : List (Up GsoEnd)) (r : Rcu), (us.foldl (fun r u => napiGroCompleteRcu u r) r).depth = r.depth := by
    intro us
    induction us with
    | nil => exact fun r => rfl
    | cons u us ih =>
      intro r
      rw [List.foldl_cons, ih, depth_napiGroComplete]
  exact hfold _ r

theorem tcp4GroReceive_balanced : Balanced tcp4GroReceiveRcu := by
  intro s skb r s' r' h
  unfold tcp4GroReceiveRcu at h
  cases hs : tcp4GroReceive s skb with
  | error e =>
    rw [hs] at h
    cases h
  | ok t =>
    rw [hs] at h
    cases h
    exact depth_completions

/-- `tcpv4_offload` -/
def tcpv4Offload : NetOffload where
  groReceive := some tcp4GroReceiveRcu
  balanced f hf := by
    cases hf
    exact tcp4GroReceive_balanced

/-- The table of this kernel. -/
def inetOffloads41 (proto : U8) : Option NetOffload := if proto = ipprotoTcp then some tcpv4Offload else none

/-! ### The exits of `inet_gro_receive` -/

theorem inetGroReceiveRcu_out (hb : (s.body skb).groHeader ((s.body skb).dataOffset + 20) = none) :
    inetGroReceiveRcu inetOffloads s skb r = .ok ((s.setBody skb (s.body skb)).setFlush skb, r) := by
  simp only [inetGroReceiveRcu, hb]

theorem inetGroReceiveRcu_unlock (hb : (s.body skb).groHeader ((s.body skb).dataOffset + 20) = some b)
    (hwhy : (inetOffloads b.ip.protocol).bind NetOffload.groReceive = none ∨ b.ip.verIhl ≠ 0x45 ∨ b.ip.badCsum = true) :
    inetGroReceiveRcu inetOffloads s skb r = .ok ((s.setBody skb b).setFlush skb, r.readLock.readUnlock) := by
  simp only [inetGroReceiveRcu, hb]
  split
  · rfl
  · rename_i f hf
    rw [hf] at hwhy
    rcases hwhy with hwhy | hihl | hcsum
    · cases hwhy
    · rw [if_pos hihl]
    · rw [if_pos hcsum, ite_self]

theorem inetGroReceiveRcu_delegate {f : GroReceive}
    (hb : (s.body skb).groHeader ((s.body skb).dataOffset + 20) = some b)
    (hf : (inetOffloads b.ip.protocol).bind NetOffload.groReceive = some f) (hihl : b.ip.verIhl = 0x45)
    (hcsum : b.ip.badCsum = false) (hc : c = { b with dataOffset := b.dataOffset + 20 }) {flush : Bool}
    (hflush : flush = ((b.ip.totLen ^^^ BitVec.ofNat 16 b.groLen) ||| (b.ip.fragOff &&& ~~~ipDf) != 0)) :
    inetGroReceiveRcu inetOffloads s skb r =
      match inetMatch b.ip flush s.nskb s.groList (s.setBody skb c) with
      | .error e => .error e
      | .ok s => f { s with flush := Function.update s.flush skb (s.flush skb || flush) } skb r.readLock := by
  subst hc hflush
  simp only [inetGroReceiveRcu, hb, hf]
  rw [if_neg (by simp [hihl]), if_neg (by simp [hcsum])]

/-- **The depth of the read-side critical sections after `inet_gro_receive`.** -/
theorem inetGroReceiveRcu_depth (h : inetGroReceiveRcu inetOffloads s skb r = .ok (s', r')) :
    r'.depth = r.depth + if delegated inetOffloads (s.body skb) then 1 else 0 := by
  cases hb : (s.body skb).groHeader ((s.body skb).dataOffset + 20) with
  | none =>
    rw [inetGroReceiveRcu_out hb] at h
    cases h
    simp [delegated, hb]
  | some b =>
    rcases Option.eq_none_or_eq_some ((inetOffloads b.ip.protocol).bind NetOffload.groReceive) with hf | ⟨f, hf⟩
    · rw [inetGroReceiveRcu_unlock hb (Or.inl hf)] at h
      cases h
      simp [delegated, hb, hf]
    · by_cases hwhy : b.ip.verIhl ≠ 0x45 ∨ b.ip.badCsum = true
      · rw [inetGroReceiveRcu_unlock hb (Or.inr hwhy)] at h
        cases h
        rcases hwhy with hihl | hcsum
        · simp only [delegated, hb, hf, beq_false_of_ne hihl]
          simp
        · simp [delegated, hb, hcsum]
      · obtain ⟨hihl, hcsum⟩ := not_or.1 hwhy
        rw [not_not] at hihl
        rw [Bool.not_eq_true] at hcsum
        rw [inetGroReceiveRcu_delegate hb hf hihl hcsum rfl rfl] at h
        split at h
        · cases h
        · obtain ⟨offload, -, hcallback⟩ := Option.bind_eq_some_iff.1 hf
          rw [offload.balanced f hcallback _ _ _ _ _ h]
          simp [delegated, hb, hf, hihl, hcsum]

/-! ### The calls are those of the kernel -/

theorem inetGroReceiveRcu_fst : (inetGroReceiveRcu inetOffloads41 s skb r).map Prod.fst = inetGroReceive s skb := by
  unfold inetGroReceive inetHeader
  cases hb : (s.body skb).groHeader ((s.body skb).dataOffset + 20) with
  | none =>
    rw [inetGroReceiveRcu_out hb]
    rfl
  | some b =>
    by_cases hwhy : b.ip.protocol ≠ ipprotoTcp ∨ b.ip.verIhl ≠ 0x45 ∨ b.ip.badCsum = true
    · have hexit : (inetOffloads41 b.ip.protocol).bind NetOffload.groReceive = none ∨ b.ip.verIhl ≠ 0x45 ∨
          b.ip.badCsum = true := by
        refine hwhy.imp_left fun hproto => ?_
        rw [inetOffloads41, if_neg hproto]
        rfl
      rw [inetGroReceiveRcu_unlock hb hexit]
      have hcheck : (decide (b.ip.protocol ≠ ipprotoTcp) || decide (b.ip.verIhl ≠ 0x45) || b.ip.badCsum) = true := by
        rcases hwhy with hproto | hihl | hcsum
        · rw [decide_eq_true hproto, Bool.true_or, Bool.true_or]
        · rw [decide_eq_true hihl, Bool.or_true, Bool.true_or]
        · rw [hcsum, Bool.or_true]
      simp only [if_pos hcheck]
      rfl
    · simp only [not_or, not_not, Bool.not_eq_true] at hwhy
      obtain ⟨hproto, hihl, hcsum⟩ := hwhy
      have hf : (inetOffloads41 b.ip.protocol).bind NetOffload.groReceive = some tcp4GroReceiveRcu := by
        rw [inetOffloads41, if_pos hproto]
        rfl
      have hcheck : (decide (b.ip.protocol ≠ ipprotoTcp) || decide (b.ip.verIhl ≠ 0x45) || b.ip.badCsum) = false := by
        simp [hproto, hihl, hcsum]
      rw [inetGroReceiveRcu_delegate hb hf hihl hcsum rfl rfl]
      simp only [hcheck, Bool.false_eq_true, if_false]
      generalize inetMatch _ _ _ _ _ = found
      cases found with
      | error e => rfl
      | ok t =>
        unfold tcp4GroReceiveRcu
        simp only
        cases tcp4GroReceive _ skb <;> rfl

theorem devGroReceiveRcu_fst : (devGroReceiveRcu inetOffloads41 s pkt r).map Prod.fst = devGroReceive s pkt := by
  unfold devGroReceiveRcu devGroReceive
  simp only
  split
  · rfl
  · generalize Napi.groListPrepare _ _ _ _ = prepared
    cases prepared with
    | error e => rfl
    | ok t =>
      simp only
      split
      · rfl
      · rw [← inetGroReceiveRcu_fst (r := r.readLock)]
        generalize inetGroReceiveRcu _ _ _ _ = received
        cases received with
        | error e => rfl
        | ok x =>
          simp only [Except.map]
          cases receiveEnd x.1 s.nskb <;> rfl

/-- **With the table of this kernel a call is the call of the kernel.** -/
theorem stepRcu_step (x : Mem × Rcu) (c : Call) : (stepRcu inetOffloads41 x c).map Prod.fst = step x.1 c := by
  cases c with
  | receive pkt ktime => exact devGroReceiveRcu_fst
  | flush flushOld groOfoTimeout groInseqTimeout ktime =>
    unfold stepRcu step
    simp only
    cases napiGroFlush _ flushOld groOfoTimeout groInseqTimeout <;> rfl
  | clean ktime =>
    unfold stepRcu step
    simp only
    cases napiCleanTcpOfoQueue _ <;> rfl

/-! ### Calls and runs -/

theorem groListPrepare_body {link : LinkHdr} {fuel : ℕ} {p : Option SkbId} {s s' : Mem}
    (h : s.groListPrepare link fuel p = .ok s') : s'.body = s.body := by
  induction fuel generalizing p s with
  | zero =>
    cases p with
    | none =>
      cases h
      rfl
    | some p => cases h
  | succ fuel ih =>
    cases p with
    | none =>
      cases h
      rfl
    | some p =>
      rw [Napi.groListPrepare] at h
      have hbody := ih h
      exact hbody

/-- The check does not look at what `dev_gro_receive` writes before it. -/
theorem delegated_prepared : delegated inetOffloads
    { b with parts := [b.part], free := .no, isTcp := false, ext := false } = delegated inetOffloads b := by
  have hlen : ({ b with parts := [b.part], free := .no, isTcp := false, ext := false } : Skb).skbLen = b.skbLen := rfl
  unfold delegated Body.groHeader Body.pskbMayPull
  rw [hlen]
  by_cases hfast : b.frag0Len < b.dataOffset + 20
  · simp only [if_pos hfast]
    by_cases hlinear : b.dataOffset + 20 ≤ b.headlen
    · simp only [if_pos hlinear, Option.map_some]
    · by_cases hpull : b.dataOffset + 20 ≤ b.skbLen
      · simp only [if_neg hlinear, if_pos hpull, Option.map_some]
      · simp only [if_neg hlinear, if_neg hpull, Option.map_none]
  · simp only [if_neg hfast]

theorem devGroReceiveRcu_depth {ktime : ℕ → U64} (h : devGroReceiveRcu inetOffloads s pkt r = .ok (s', r')) :
    r'.depth = r.depth + if delegates inetOffloads (.receive pkt ktime) then 1 else 0 := by
  unfold devGroReceiveRcu at h
  simp only at h
  split at h
  · rename_i hwhy
    cases h
    have hnot : delegates inetOffloads (.receive pkt ktime) = false := by
      simp only [Bool.or_eq_true, Bool.not_eq_true'] at hwhy
      rcases hwhy with ((hfeatures | hgso) | hlist) | hcsum
      · simp [delegates, hfeatures]
      · simp [delegates, hgso]
      · simp [delegates, hlist]
      · simp [delegates, hcsum]
    simp [hnot]
  · rename_i hwhy
    simp only [Bool.or_eq_true, Bool.not_eq_true', not_or, Bool.not_eq_false, Bool.not_eq_true] at hwhy
    obtain ⟨⟨⟨hfeatures, hgso⟩, hlist⟩, hcsum⟩ := hwhy
    split at h
    · cases h
    · rename_i t ht
      have hbody := groListPrepare_body ht
      split at h
      · rename_i hip
        cases h
        have hnot : delegates inetOffloads (.receive pkt ktime) = false := by
          rw [Bool.not_eq_true'] at hip
          simp [delegates, hip]
        simp [hnot]
      · rename_i hip
        split at h
        · cases h
        · rename_i u r₁ hinet
          cases hend : receiveEnd u s.nskb with
          | error e =>
            rw [hend] at h
            cases h
          | ok v =>
            rw [hend] at h
            cases h
            have hdepth := inetGroReceiveRcu_depth hinet
            simp only [Function.update_self, hbody] at hdepth
            rw [delegated_prepared, Rcu.depth_readLock] at hdepth
            rw [depth_completions, Rcu.depth_readUnlock, hdepth]
            have hcall : delegates inetOffloads (.receive pkt ktime) = delegated inetOffloads pkt.body := by
              rw [Bool.not_eq_true', Bool.not_eq_false] at hip
              simp [delegates, hfeatures, hgso, hlist, hcsum, hip]
            rw [hcall]
            omega

theorem stepRcu_depth {x y : Mem × Rcu} {c : Call} (h : stepRcu inetOffloads x c = .ok y) :
    y.2.depth = x.2.depth + if delegates inetOffloads c then 1 else 0 := by
  cases c with
  | receive pkt ktime => exact devGroReceiveRcu_depth h
  | flush flushOld groOfoTimeout groInseqTimeout ktime =>
    obtain ⟨t, -, rfl⟩ := map_ok h
    simp [delegates]
  | clean ktime =>
    obtain ⟨t, -, rfl⟩ := map_ok h
    simp [delegates]

/-- **The depth after a run** is the depth before it and one more for each packet that came to its transport callback. -/
theorem runRcu_depth {x y : Mem × Rcu} {cs : List Call} (h : runFrom (stepRcu inetOffloads) x cs = .ok y) :
    y.2.depth = x.2.depth + cs.countP (delegates inetOffloads) := by
  refine runFrom_invariant (I := fun y past => y.2.depth = x.2.depth + past.countP (delegates inetOffloads)) ?_ ?_ h
  · intro y c y' past hy hstep
    rw [stepRcu_depth hstep, hy, List.countP_append, List.countP_singleton]
    split <;> simp [add_assoc]
  · simp

end

/-- **Every call of `inet_gro_receive` unlocks as often as it locks, and every run of calls leaves the depth of the
read-side critical sections as it was, exactly if no packet comes to its transport callback.** -/
theorem rcu_balanced (inetOffloads : U8 → Option NetOffload) :
    (∀ s skb r s' r', inetGroReceiveRcu inetOffloads s skb r = .ok (s', r') →
      (r'.depth = r.depth ↔ delegated inetOffloads (s.body skb) = false)) ∧
    ∀ x cs y, runFrom (stepRcu inetOffloads) x cs = .ok y →
      (y.2.depth = x.2.depth ↔ ∀ c ∈ cs, delegates inetOffloads c = false) := by
  constructor
  · intro s skb r s' r' h
    rw [inetGroReceiveRcu_depth h]
    cases delegated inetOffloads (s.body skb) <;> simp
  · intro x cs y h
    rw [runRcu_depth h, add_eq_left, Nat.cast_eq_zero, List.countP_eq_zero]
    simp

/-- A TCP packet with options in its IP header. -/
def Packet.ipOptions : Packet :=
  { Packet.plain 0 1 7 100 10 0 with
    body := { (Packet.plain 0 1 7 100 10 0).body with ip := ⟨0x46, 0, 50, ipDf, 64, ipprotoTcp, 1, 0, false⟩ }
    dataOffset_eq := rfl
    frag0_eq := Or.inr ⟨rfl, rfl⟩ }

/-- `inet_gro_receive` turns the packet away before it comes to the transport callback. -/
theorem rcu_balanced_ipOptions :
    ∃ y, runFrom (stepRcu inetOffloads41) (netifNapiAdd default, ⟨0, 0⟩) [.receive .ipOptions fun _ => 0] = .ok y ∧
      y.2.locks = 2 ∧ y.2.depth = 0 := by
  have hend : (runFrom (stepRcu inetOffloads41) (netifNapiAdd default, ⟨0, 0⟩)
      [.receive .ipOptions fun _ => 0]).map (fun y => y.2.locks) = .ok 2 := by decide +kernel
  have hnot : ∀ c ∈ [Call.receive .ipOptions fun _ => 0], delegates inetOffloads41 c = false := by
    intro c hc
    rw [List.mem_singleton.1 hc]
    decide +kernel
  cases hrun : runFrom (stepRcu inetOffloads41) (netifNapiAdd default, ⟨0, 0⟩) [.receive .ipOptions fun _ => 0] with
  | error e =>
    rw [hrun] at hend
    cases hend
  | ok y =>
    rw [hrun] at hend
    have hlocks : y.2.locks = 2 := by simpa [Except.map] using hend
    exact ⟨y, rfl, hlocks, ((rcu_balanced inetOffloads41).2 _ _ _ hrun).2 hnot⟩

/-- One TCP packet, and the read-side critical section is not left. -/
theorem not_rcu_balanced_plain :
    ¬ ∀ (inetOffloads : U8 → Option NetOffload) (x y : Mem × Rcu) (cs : List Call),
      runFrom (stepRcu inetOffloads) x cs = .ok y → y.2.depth = x.2.depth := by
  intro h
  have hend : (runFrom (stepRcu inetOffloads41) (netifNapiAdd default, ⟨0, 0⟩)
      [.receive (.plain 0 1 7 100 10 0) fun _ => 0]).map (fun y => y.2.depth) = .ok 1 := by decide +kernel
  cases hrun : runFrom (stepRcu inetOffloads41) (netifNapiAdd default, ⟨0, 0⟩)
      [.receive (.plain 0 1 7 100 10 0) fun _ => 0] with
  | error e =>
    rw [hrun] at hend
    cases hend
  | ok y =>
    rw [hrun] at hend
    simp only [Except.map, Except.ok.injEq, h _ _ _ _ hrun] at hend
    exact absurd hend (by decide)

end PacketReordering.Linux41
