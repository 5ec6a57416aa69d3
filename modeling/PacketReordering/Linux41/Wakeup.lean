import PacketReordering.Linux41.Arrivals
import PacketReordering.Linux41.Step

/-!
# `linux-4.1`: held packets and the next poll

The life of a NAPI instance around receive offload: `NAPI_STATE_SCHED`, `NAPI_STATE_DISABLE`, the timer of the instance
and who has it, for `napi_schedule`, `napi_poll`, `napi_complete_done`, `napi_watchdog`, `napi_disable` and
`napi_enable`.  A call that others may interrupt, or wait for, is cut into the actions between which they can.

* `Instance`, `Action`, `act` — the machine;
* `Awake` — what holds between the actions as long as none strands the held packets;
* `act_awake`, `run_awake` — its step and run lemmas.
-/

namespace PacketReordering.Linux41

open Lib Gro

/-! ### The machine -/

/-- Who works on the instance. -/
inductive Phase
  /-- nobody, or a softirq that has it on its poll list -/
  | idle
  /-- `n->poll(n, weight)` -/
  | polling
  /-- `napi_complete_done`, after the flushes and `hrtimer_start` -/
  | completing
  /-- between `napi_disable` and `napi_enable` -/
  | disabled
  deriving DecidableEq, Repr

/-- A `struct napi_struct`: `sched` and `disable` are bits of its state, `timer` says whether its timer is armed. -/
structure Instance where
  mem : Mem
  sched : Bool
  disable : Bool
  timer : Bool
  onPollList : Bool
  groFlushTimeout : U64
  phase : Phase

/-- The instance after `netif_napi_add`. -/
def Instance.init (mem : Mem) : Instance where
  mem := netifNapiAdd mem
  sched := true
  disable := false
  timer := false
  onPollList := false
  groFlushTimeout := 0
  phase := .disabled

/-- The time-outs and the readings of the clock that a call of `napi_gro_flush` gets. -/
structure Flush where
  groOfoTimeout : U64
  groInseqTimeout : U64
  ktime : ℕ → U64

inductive Action
  /-- `dev->gro_flush_timeout` is set -/
  | setTimeout (groFlushTimeout : U64)
  /-- `napi_schedule` by the driver -/
  | schedule
  /-- the start of `napi_poll` -/
  | poll (ktime : ℕ → U64)
  /-- the driver hands in a packet -/
  | receive (pkt : Packet) (ktime : ℕ → U64)
  /-- `napi_complete_done` up to `hrtimer_start` -/
  | complete (pending flush : Flush)
  /-- the rest of `napi_complete_done` -/
  | clearSched
  /-- the end of `napi_poll` when the driver has used up its weight -/
  | exhaust (pending flush : Flush)
  /-- the timer expires: `napi_watchdog` -/
  | expire
  /-- `napi_disable` up to its loop -/
  | disable
  /-- the rest of `napi_disable`, once `test_and_set_bit` has got the instance -/
  | acquire
  /-- `napi_enable` -/
  | enable

inductive Stop
  | fault (f : Fault)
  /-- the action is not possible in the state -/
  | notEnabled
  deriving DecidableEq, Repr

namespace Instance

variable (s : Instance)

/-- A call into receive offload. -/
def call (c : Call) : Except Stop Instance :=
  match step s.mem c with
  | .ok mem => .ok { s with mem := mem }
  | .error f => .error (.fault f)

def groFlush (flushOld : Bool) (f : Flush) : Except Stop Instance :=
  s.call (.flush flushOld f.groOfoTimeout f.groInseqTimeout f.ktime)

/-- `napi_schedule` -/
def napiSchedule : Instance := if s.disable || s.sched then s else { s with sched := true, onPollList := true }

/-- `napi_complete_done` up to `hrtimer_start`. -/
def completeDone (pending flush : Flush) : Except Stop Instance :=
  match if s.disable then s.groFlush false pending else .ok s with
  | .error e => .error e
  | .ok s =>
    if s.groFlushTimeout ≠ 0 then
      (s.groFlush true flush).map fun s => { s with timer := s.timer || s.mem.groList.isSome, phase := .completing }
    else (s.groFlush false flush).map fun s => { s with phase := .completing }

/-- `napi_watchdog` -/
def watchdog : Instance :=
  let s := { s with timer := false }
  if s.mem.groList.isSome then s.napiSchedule else s

end Instance

/-- One action. -/
def act (s : Instance) (a : Action) : Except Stop Instance :=
  match a, s.phase with
  | .setTimeout t, _ => .ok { s with groFlushTimeout := t }
  | .schedule, _ => .ok s.napiSchedule
  | .poll ktime, .idle =>
    if s.onPollList then { s with onPollList := false, phase := .polling }.call (.clean ktime) else .error .notEnabled
  | .receive pkt ktime, .polling => s.call (.receive pkt ktime)
  | .complete pending flush, .polling => s.completeDone pending flush
  | .clearSched, .completing => .ok { s with sched := false, phase := .idle }
  | .exhaust pending flush, .polling =>
    if s.disable then s.completeDone pending flush
    else
      match if s.mem.groList.isSome then s.groFlush true flush else .ok s with
      | .error e => .error e
      | .ok s => .ok { s with onPollList := true, phase := .idle }
  | .expire, _ => if s.timer then .ok s.watchdog else .error .notEnabled
  | .disable, phase => if s.disable || phase = .disabled then .error .notEnabled else .ok { s with disable := true }
  | .acquire, .idle =>
    if s.disable && !s.sched then .ok { s with sched := true, timer := false, disable := false, phase := .disabled }
    else .error .notEnabled
  | .enable, .disabled => .ok { s with sched := false, phase := .idle }
  | _, _ => .error .notEnabled

/-! ### What `napi_gro_flush` leaves -/

/-- `napi_gro_flush(napi, false)` leaves nothing. -/
theorem flushLists_false (l : Lists) (groOfoTimeout groInseqTimeout : U64) :
    (flushLists l false groOfoTimeout groInseqTimeout).flows = [] := by
  have hfold : ∀ (fs : List (Flow GsoEnd OfoExt)) (l : Lists), l.flows = [] →
      (fs.foldr (flushFlow false groOfoTimeout groInseqTimeout) l).flows = [] := by
    intro fs l hl
    induction fs with
    | nil => exact hl
    | cons f fs ih =>
      rw [List.foldr_cons, flushFlow]
      simp only [completeFlow_all, List.isEmpty_nil, if_true]
      exact ih
  exact hfold _ _ rfl

namespace Instance

variable {s s' : Instance}

theorem call_ok {l : Lists} {c : Call} (h : Rep s.mem l) (hcall : s.call c = .ok s') :
    ∃ mem l', s' = { s with mem := mem } ∧ stepLists l c = .ok l' ∧ Rep mem l' := by
  unfold call at hcall
  have hagree := step_spec s.mem l c h
  split at hcall
  · rename_i mem hstep
    cases hcall
    rw [hstep] at hagree
    obtain ⟨l', hl', hrep⟩ := hagree.exists_ok
    exact ⟨mem, l', rfl, hl', hrep⟩
  · cases hcall

theorem groFlush_ok {flushOld : Bool} {f : Flush} (h : ∃ l, Rep s.mem l) (hflush : s.groFlush flushOld f = .ok s') :
    ∃ mem, s' = { s with mem := mem } ∧ (∃ l, Rep mem l) ∧ (flushOld = false → mem.groList = none) := by
  obtain ⟨l, h⟩ := h
  obtain ⟨mem, l', rfl, hl', hrep⟩ := call_ok h hflush
  refine ⟨mem, rfl, ⟨l', hrep⟩, ?_⟩
  rintro rfl
  cases hl'
  rw [hrep.links.start_eq, flushLists_false]
  rfl

/-- What `napi_complete_done` leaves on `gro_list` is covered by the timer. -/
theorem completeDone_ok {pending flush : Flush} (h : ∃ l, Rep s.mem l) (hdone : s.completeDone pending flush = .ok s') :
    ∃ mem timer, s' = { s with mem := mem, timer := timer, phase := .completing } ∧ (∃ l, Rep mem l) ∧
      (mem.groList ≠ none → timer = true) := by
  unfold completeDone at hdone
  -- after the flush for a pending `napi_disable`
  obtain ⟨mem, hmem, hfirst⟩ : ∃ mem, (∃ l, Rep mem l) ∧
      ∀ t, (if s.disable = true then s.groFlush false pending else .ok s) = .ok t → t = { s with mem := mem } := by
    by_cases hpending : s.disable = true
    · rw [if_pos hpending] at hdone ⊢
      cases hflush : s.groFlush false pending with
      | error e =>
        rw [hflush] at hdone
        cases hdone
      | ok t =>
        obtain ⟨mem, rfl, hrep, -⟩ := groFlush_ok h hflush
        refine ⟨mem, hrep, ?_⟩
        rintro u ⟨⟩
        rfl
    · rw [if_neg hpending]
      refine ⟨s.mem, h, ?_⟩
      rintro u ⟨⟩
      rfl
  split at hdone
  · cases hdone
  · rename_i t ht
    obtain rfl := hfirst t ht
    split at hdone
    · cases hflush : groFlush { s with mem := mem } true flush with
      | error e =>
        rw [hflush] at hdone
        cases hdone
      | ok u =>
        rw [hflush] at hdone
        cases hdone
        obtain ⟨mem', rfl, hrep, -⟩ := groFlush_ok hmem hflush
        refine ⟨mem', _, rfl, hrep, fun hlist => ?_⟩
        rw [Option.isSome_iff_ne_none.2 hlist, Bool.or_true]
    · cases hflush : groFlush { s with mem := mem } false flush with
      | error e =>
        rw [hflush] at hdone
        cases hdone
      | ok u =>
        rw [hflush] at hdone
        cases hdone
        obtain ⟨mem', rfl, hrep, hempty⟩ := groFlush_ok hmem hflush
        exact ⟨mem', _, rfl, hrep, fun hlist => absurd (hempty rfl) hlist⟩

end Instance

/-! ### The invariant -/

/-- The held packets will be polled for: whoever works on the instance will see to them, or it is scheduled, or the timer
is armed. -/
structure Awake (s : Instance) : Prop where
  rep : ∃ l, Rep s.mem l
  pollList : s.onPollList = true → s.sched = true ∧ s.phase = .idle
  owned : s.phase ≠ .idle → s.sched = true
  completing : s.phase = .completing → s.mem.groList ≠ none → s.timer = true
  disabled : s.phase = .disabled → s.disable = false
  idle : s.phase = .idle → s.disable = false → s.mem.groList ≠ none → s.sched = true ∨ s.timer = true

/-- The action strands nothing: the timer does not expire between `hrtimer_start` and the end of `napi_complete_done`,
where `napi_schedule` finds `NAPI_STATE_SCHED` still set, and nothing is held when `napi_enable` is called. -/
def strandless (s : Instance) : Action → Bool
  | .expire => s.phase != .completing || s.mem.groList.isNone
  | .enable => s.mem.groList.isNone
  | _ => true

theorem Awake.init (mem : Mem) : Awake (Instance.init mem) where
  rep := ⟨_, netifNapiAdd_rep mem⟩
  pollList h := absurd h (by simp [Instance.init])
  owned _ := rfl
  completing h := absurd h (by simp [Instance.init])
  disabled _ := rfl
  idle h := absurd h (by simp [Instance.init])

section

variable {s s' : Instance}

theorem Awake.napiSchedule (h : Awake s) : Awake s.napiSchedule := by
  unfold Instance.napiSchedule
  split
  · exact h
  · rename_i hfree
    obtain ⟨-, hsched⟩ : s.disable = false ∧ s.sched = false := by simpa using hfree
    have hidle : s.phase = .idle := by_contra fun hne => by simp [h.owned hne] at hsched
    exact ⟨h.rep, fun _ => ⟨rfl, hidle⟩, fun _ => rfl, h.completing, h.disabled, fun _ _ _ => Or.inl rfl⟩

theorem Awake.call {c : Call} (h : Awake s) (hphase : s.phase = .polling) (hcall : s.call c = .ok s') : Awake s' := by
  obtain ⟨l, hl⟩ := h.rep
  obtain ⟨mem, l', rfl, -, hrep⟩ := Instance.call_ok hl hcall
  exact ⟨⟨l', hrep⟩, h.pollList, h.owned, fun hc => absurd (hphase.symm.trans hc) (by decide), h.disabled,
    fun hi => absurd (hphase.symm.trans hi) (by decide)⟩

theorem Awake.completeDone {pending flush : Flush} (h : Awake s) (hphase : s.phase = .polling)
    (hdone : s.completeDone pending flush = .ok s') : Awake s' := by
  obtain ⟨mem, timer, rfl, hrep, htimer⟩ := Instance.completeDone_ok h.rep hdone
  have hsched := h.owned (by rw [hphase]; decide)
  exact ⟨hrep, fun hl => absurd (h.pollList hl).2 (by rw [hphase]; decide), fun _ => hsched, fun _ => htimer,
    fun hd => absurd hd (by simp), fun hi => absurd hi (by simp)⟩

theorem Awake.expire (h : Awake s) (hwindow : s.phase = .completing → s.mem.groList = none) : Awake s.watchdog := by
  unfold Instance.watchdog
  simp only
  split
  · -- the watchdog schedules the instance, unless it is scheduled or about to be disabled
    rename_i hlist
    have hlist' := Option.isSome_iff_ne_none.1 hlist
    unfold Instance.napiSchedule
    simp only
    split
    · rename_i hbusy
      refine ⟨h.rep, h.pollList, h.owned, fun hc => absurd (hwindow hc) hlist', h.disabled, fun hi hd _ => ?_⟩
      rw [hd, Bool.false_or] at hbusy
      exact Or.inl hbusy
    · rename_i hfree
      obtain ⟨-, hsched⟩ : s.disable = false ∧ s.sched = false := by simpa using hfree
      have hidle : s.phase = .idle := by_contra fun hne => by simp [h.owned hne] at hsched
      exact ⟨h.rep, fun _ => ⟨rfl, hidle⟩, fun _ => rfl, fun hc => absurd (hidle.symm.trans hc) (by decide), h.disabled,
        fun _ _ _ => Or.inl rfl⟩
  · rename_i hlist
    have hnone : s.mem.groList = none := by simpa using hlist
    exact ⟨h.rep, h.pollList, h.owned, fun _ hne => absurd hnone hne, h.disabled, fun _ _ hne => absurd hnone hne⟩

/-- **An action that strands nothing keeps the held packets awake.** -/
theorem act_awake {a : Action} (h : Awake s) (hcond : strandless s a = true) (hact : act s a = .ok s') : Awake s' := by
  cases a with
  | setTimeout t =>
    cases hact
    exact ⟨h.rep, h.pollList, h.owned, h.completing, h.disabled, h.idle⟩
  | schedule =>
    cases hact
    exact h.napiSchedule
  | poll ktime =>
    cases hphase : s.phase <;> simp only [act, hphase] at hact
    case idle =>
      split at hact
      · rename_i hlist
        have hsched := (h.pollList hlist).1
        refine Awake.call ?_ rfl hact
        exact ⟨h.rep, fun hl => absurd hl (by simp), fun _ => hsched, fun hc => absurd hc (by simp),
          fun hd => absurd hd (by simp), fun hi => absurd hi (by simp)⟩
      · cases hact
    all_goals cases hact
  | receive pkt ktime =>
    cases hphase : s.phase <;> simp only [act, hphase] at hact
    case polling => exact h.call hphase hact
    all_goals cases hact
  | complete pending flush =>
    cases hphase : s.phase <;> simp only [act, hphase] at hact
    case polling => exact h.completeDone hphase hact
    all_goals cases hact
  | clearSched =>
    cases hphase : s.phase <;> simp only [act, hphase] at hact
    case completing =>
      cases hact
      exact ⟨h.rep, fun hl => absurd (h.pollList hl).2 (by rw [hphase]; decide), fun hne => absurd rfl hne,
        fun hc => absurd hc (by simp), fun hd => absurd hd (by simp), fun _ _ hne => Or.inr (h.completing hphase hne)⟩
    all_goals cases hact
  | exhaust pending flush =>
    cases hphase : s.phase <;> simp only [act, hphase] at hact
    case polling =>
      have hsched := h.owned (by rw [hphase]; decide)
      split at hact
      · exact h.completeDone hphase hact
      · split at hact
        · cases hact
        · rename_i t ht
          cases hact
          obtain ⟨mem, hmem, rfl⟩ : ∃ mem, (∃ l, Rep mem l) ∧ t = { s with mem := mem } := by
            split at ht
            · obtain ⟨mem, hs, hrep, -⟩ := Instance.groFlush_ok h.rep ht
              exact ⟨mem, hrep, hs⟩
            · cases ht
              exact ⟨s.mem, h.rep, rfl⟩
          exact ⟨hmem, fun _ => ⟨hsched, rfl⟩, fun hne => absurd rfl hne, fun hc => absurd hc (by simp),
            fun hd => absurd hd (by simp), fun _ _ _ => Or.inl hsched⟩
    all_goals cases hact
  | expire =>
    simp only [act] at hact
    split at hact
    · cases hact
      refine h.expire fun hc => ?_
      simpa [strandless, hc] using hcond
    · cases hact
  | disable =>
    simp only [act] at hact
    split at hact
    · cases hact
    · rename_i hfree
      cases hact
      have hne : s.phase ≠ .disabled := fun hd => hfree (by simp [hd])
      exact ⟨h.rep, h.pollList, h.owned, h.completing, fun hd => absurd hd hne, fun _ hd => absurd hd (by simp)⟩
  | acquire =>
    cases hphase : s.phase <;> simp only [act, hphase] at hact
    case idle =>
      split at hact
      · rename_i hfree
        obtain ⟨-, hsched⟩ : s.disable = true ∧ s.sched = false := by simpa using hfree
        cases hact
        exact ⟨h.rep, fun hl => absurd (h.pollList hl).1 (by simp [hsched]), fun _ => rfl, fun hc => absurd hc (by simp),
          fun _ => rfl, fun hi => absurd hi (by simp)⟩
      · cases hact
    all_goals cases hact
  | enable =>
    cases hphase : s.phase <;> simp only [act, hphase] at hact
    case disabled =>
      cases hact
      exact ⟨h.rep, fun hl => absurd (h.pollList hl).2 (by rw [hphase]; decide), fun hne => absurd rfl hne,
        fun hc => absurd hc (by simp), fun hd => absurd hd (by simp), fun _ _ hne => absurd (Option.isNone_iff_eq_none.1 hcond) hne⟩
    all_goals cases hact

end

/-- **Held packets have a wake-up** in every run whose actions strand nothing, unless nobody works on the instance and
`napi_disable` is about to take it. -/
theorem run_awake {mem : Mem} {as : List Action} {s : Instance}
    (hsteps : Steps act (fun s a => strandless s a = true) (Instance.init mem) as)
    (hrun : runFrom act (Instance.init mem) as = .ok s) (hcall : s.phase = .idle → s.disable = false)
    (hlist : s.mem.groList ≠ none) : s.sched = true ∨ s.timer = true := by
  have hawake : Awake s :=
    Steps.always (I := Awake) (fun s a s' h hcond hact => act_awake h hcond hact) (Awake.init mem) hsteps hrun
  by_cases hidle : s.phase = .idle
  · exact hawake.idle hidle (hcall hidle) hlist
  · exact Or.inl (hawake.owned hidle)

/-- A poll that receives one packet, with `gro_flush_timeout` set. -/
def onePoll : List Action :=
  [.enable, .setTimeout 1000, .schedule, .poll fun _ => 0, .receive (Packet.plain 0 1 7 100 10 0) fun _ => 0,
    .complete ⟨0, 0, fun _ => 0⟩ ⟨1000, 1000, fun _ => 0⟩, .clearSched]

theorem run_awake_onePoll :
    ∃ s, runFrom act (Instance.init default) onePoll = .ok s ∧ s.mem.groList ≠ none ∧ (s.sched = true ∨ s.timer = true) := by
  have hend : (runFrom act (Instance.init default) onePoll).map (fun s => (s.phase, s.disable, s.mem.groList)) =
      .ok (.idle, false, some 0) := by decide +kernel
  cases hrun : runFrom act (Instance.init default) onePoll with
  | error e =>
    rw [hrun] at hend
    cases hend
  | ok s =>
    rw [hrun] at hend
    obtain ⟨hidle, hcall, hlist⟩ : s.phase = .idle ∧ s.disable = false ∧ s.mem.groList = some 0 := by
      simpa [Except.map] using hend
    have hne : s.mem.groList ≠ none := by simp [hlist]
    exact ⟨s, rfl, hne, run_awake (by decide +kernel) hrun (fun _ => hcall) hne⟩

/-- `napi_disable` and `napi_enable` after that poll strand the packet. -/
theorem not_awake_disable :
    ¬ ∀ (mem : Mem) (as : List Action) (s : Instance), runFrom act (Instance.init mem) as = .ok s → s.phase = .idle →
      s.disable = false → s.mem.groList ≠ none → s.sched = true ∨ s.timer = true := by
  intro h
  have hend : (runFrom act (Instance.init default) (onePoll ++ [.disable, .acquire, .enable])).map
      (fun s => (s.phase, s.disable, s.mem.groList, s.sched, s.timer)) = .ok (.idle, false, some 0, false, false) := by
    decide +kernel
  cases hrun : runFrom act (Instance.init default) (onePoll ++ [.disable, .acquire, .enable]) with
  | error e =>
    rw [hrun] at hend
    cases hend
  | ok s =>
    rw [hrun] at hend
    obtain ⟨hidle, hcall, hlist, hsched, htimer⟩ : s.phase = .idle ∧ s.disable = false ∧ s.mem.groList = some 0 ∧
        s.sched = false ∧ s.timer = false := by simpa [Except.map] using hend
    rcases h default _ s hrun hidle hcall (by simp [hlist]) with hs | ht
    · exact absurd hs (by simp [hsched])
    · exact absurd ht (by simp [htimer])

end PacketReordering.Linux41
