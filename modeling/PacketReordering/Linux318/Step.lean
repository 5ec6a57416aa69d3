import PacketReordering.Linux318.Receive

/-!
# `linux-3.18.5`: runs on the lists

* `napiCleanTcpOfoQueue_spec` — `napi_clean_tcp_ofo_queue` over the memory is `cleanLists`;
* `netifNapiAdd_rep` — the lists at the start;
* `step_spec`, `run_spec` — a call and a run over the memory and on the lists.
-/

namespace PacketReordering.Linux318

open Lib Gro

variable {env : Env} {s t : Mem} {l : Lists}

/-! ### `napi_clean_tcp_ofo_queue` -/

theorem cleanQueue_q {hz now : U64} {x : FreeQueue OfoExt} : (cleanQueue hz now x).q = x.q := by
  unfold cleanQueue
  split <;> rfl

theorem cleanFrom_some (hz : U64) (fuel : ℕ) (q : OfoId) (s : Mem) :
    cleanFrom hz fuel (some q) s =
      match fuel with
      | 0 => .error .diverges
      | fuel + 1 => cleanFrom hz fuel (s.nextQueue q) { s.tickJiffies with
          ofo := Function.update s.ofo q (cleanQueue hz (s.clock.jiffies 0) ⟨q, s.ofo q⟩).dat } := by
  cases fuel with
  | zero => rfl
  | succ fuel =>
    -- the memory behind the test
    obtain ⟨t, ht⟩ : ∃ t, t = if hz < s.clock.jiffies 0 - (s.ofo q).ext.age then
        s.tickJiffies.setOfo q { s.ofo q with hash := 0, ext := { (s.ofo q).ext with age := 0 } } else s.tickJiffies := ⟨_, rfl⟩
    have hrun : cleanFrom hz (fuel + 1) (some q) s = cleanFrom hz fuel (t.nextQueue q) t := by
      rw [ht]
      rfl
    rw [hrun, ht]
    unfold cleanQueue
    by_cases hold : hz < s.clock.jiffies 0 - (s.ofo q).ext.age
    · rw [if_pos hold, if_pos hold]
      rfl
    · rw [if_neg hold, if_neg hold, Function.update_eq_self]
      rfl

theorem cleanFrom_spec {P rest : List (FreeQueue OfoExt)} {fuel : ℕ} (hz : U64)
    (h : Rep s { l with free := P ++ rest }) (hfuel : rest.length ≤ fuel) :
    ∃ t, cleanFrom hz fuel (rest.map FreeQueue.q).head? s = .ok t ∧
      Rep t { l with free := P ++ (cleanQueues hz rest l.clock).1, clock := (cleanQueues hz rest l.clock).2 } := by
  induction rest generalizing s l P fuel with
  | nil =>
    refine ⟨s, ?_, h⟩
    rw [cleanFrom.eq_def]
    rfl
  | cons x rest ih =>
    obtain ⟨fuel, rfl⟩ := Nat.exists_eq_add_of_le' (Nat.le_trans (by simp : 1 ≤ (x :: rest).length) hfuel)
    have hdat : s.ofo x.q = x.dat := h.links.free.dat x (by simp)
    have hclock : s.clock = l.clock := h.links.clock
    have hnext : s.nextQueue x.q = (rest.map FreeQueue.q).head? := by
      have hdll := h.links.free.dll
      simp only [List.map_append, List.map_cons, dll_append, dll_cons] at hdll
      simpa using hdll.2.2.1
    have hset := (Rep.setFree (y := cleanQueue hz (l.clock.jiffies 0) x) h cleanQueue_q (fun _ _ => ⟨rfl, rfl⟩)).setClock
      l.clock.tickJiffies
    rw [← List.singleton_append, ← List.append_assoc] at hset
    obtain ⟨t, ht, hrep⟩ := @ih _ { l with clock := l.clock.tickJiffies } _ fuel hset (by simpa using hfuel)
    refine ⟨t, ?_, ?_⟩
    · rw [List.map_cons, List.head?_cons, cleanFrom_some]
      simp only [hnext, hdat, hclock, Napi.tickJiffies]
      exact ht
    · rwa [List.append_assoc] at hrep

theorem napiCleanTcpOfoQueue_spec (hz : U64) (h : Rep s l) :
    ∃ t, napiCleanTcpOfoQueue hz s = .ok t ∧ Rep t (cleanLists hz l) := by
  have hfree : Rep s { l with free := [] ++ l.free } := h
  obtain ⟨t, ht, hrep⟩ := cleanFrom_spec hz hfree h.free_length_le
  refine ⟨t, ?_, hrep⟩
  rw [napiCleanTcpOfoQueue, h.links.free.first]
  exact ht

/-! ### Runs -/

/-- Nothing is held after `netif_napi_add`, whatever was in the memory. -/
theorem netifNapiAdd_rep (mem : Mem) : Rep (netifNapiAdd mem) (initLists mem) := by
  rw [netifNapiAdd, addQueues_last _ rfl]
  obtain ⟨hfree, -, hlist, hcount, hnskb, hclock, hup, hgone, hstray⟩ := addQueues_spec resetOfo
    (s := { mem with
      groCount := 0, groList := none, outOfOrderQueueList := none, outOfOrderQueueLast := none, nskb := 0, up := []
      gone := [], stray := [] }) (maxGroSkbs + 1) rfl rfl
  refine ⟨⟨?_, by simp [initLists], hfree, by simp [initLists, allIds], by simp [initLists, allIds], ?_, ?_, hnskb, hclock,
    hup, hstray⟩, hcount, Nat.zero_le _⟩
  · rw [hlist]
    rfl
  · rw [hgone]
    exact fun i hi => absurd hi List.not_mem_nil
  · simp only [initLists, List.map_nil, List.nil_append, List.map_map, Function.comp_def, List.map_id']
    exact List.reverse_perm _

/-- **A call over the memory is the call on the lists.** -/
theorem step_spec (env : Env) (s : Mem) (l : Lists) (c : Call) (h : Rep s l) :
    Agree Rep (step env s c) (stepLists env l c) := by
  let _ := env.groComplete
  have hclock := h.setClock c.clock
  unfold step stepLists
  cases c with
  | receive pkt clock => exact devGroReceive_spec hclock pkt
  | flush flushOld clock =>
    obtain ⟨t, ht, hrep⟩ := napiGroFlush_spec hclock flushOld
    simp only [ht]
    exact hrep
  | clean clock =>
    obtain ⟨t, ht, hrep⟩ := napiCleanTcpOfoQueue_spec env.hz hclock
    simp only [ht]
    exact hrep

/-- **A run over the memory is the run on the lists.** -/
theorem run_spec (env : Env) (mem : Mem) (cs : List Call) :
    Agree Rep (run env mem cs) (runFrom (stepLists env) (initLists mem) cs) :=
  Agree.run (step_spec env) (netifNapiAdd_rep mem)

end PacketReordering.Linux318
