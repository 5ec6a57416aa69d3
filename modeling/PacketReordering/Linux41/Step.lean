import PacketReordering.Linux41.Receive

/-!
# `linux-4.1`: runs on the lists

* `napiCleanTcpOfoQueue_spec` — `napi_clean_tcp_ofo_queue` over the memory is `cleanLists`;
* `netifNapiAdd_rep` — the lists at the start;
* `step_spec`, `run_spec` — a call and a run over the memory and on the lists.
-/

namespace PacketReordering.Linux41

open Lib Gro

variable {s t : Mem} {l : Lists}

/-! ### `napi_clean_tcp_ofo_queue` -/

theorem cleanQueue_q {timestamp : U64} {x : FreeQueue OfoExt} : (cleanQueue timestamp x).q = x.q := by
  unfold cleanQueue
  split <;> rfl

theorem cleanFrom_some (timestamp : U64) (fuel : ℕ) (q : OfoId) (s : Mem) :
    ∃ qlen skbNum, (∀ r ≠ q, qlen r = s.qlen r ∧ skbNum r = s.skbNum r) ∧
      cleanFrom timestamp fuel (some q) s =
        match fuel with
        | 0 => .error .diverges
        | fuel + 1 => cleanFrom timestamp fuel (s.nextQueue q) { s with
            ofo := Function.update s.ofo q (cleanQueue timestamp ⟨q, s.ofo q⟩).dat, qlen := qlen, skbNum := skbNum } := by
  by_cases hold : 100000000 < timestamp - (s.ofo q).ext.timestamp
  · refine ⟨Function.update s.qlen q 0, Function.update s.skbNum q 0, ?_, ?_⟩
    · exact fun r hr => ⟨Function.update_of_ne hr _ _, Function.update_of_ne hr _ _⟩
    · cases fuel <;> simp only [cleanFrom, cleanQueue, if_pos hold]
  · refine ⟨s.qlen, s.skbNum, fun _ _ => ⟨rfl, rfl⟩, ?_⟩
    cases fuel <;> simp only [cleanFrom, cleanQueue, if_neg hold, Function.update_eq_self]

theorem cleanFrom_spec {P rest : List (FreeQueue OfoExt)} {fuel : ℕ} (timestamp : U64)
    (h : Rep s { l with free := P ++ rest }) (hfuel : rest.length ≤ fuel) :
    ∃ t, cleanFrom timestamp fuel (rest.map FreeQueue.q).head? s = .ok t ∧
      Rep t { l with free := P ++ rest.map (cleanQueue timestamp) } := by
  induction rest generalizing s P fuel with
  | nil =>
    refine ⟨s, ?_, h⟩
    rw [cleanFrom.eq_def]
    rfl
  | cons x rest ih =>
    obtain ⟨fuel, rfl⟩ := Nat.exists_eq_add_of_le' (Nat.le_trans (by simp : 1 ≤ (x :: rest).length) hfuel)
    obtain ⟨qlen, skbNum, hother, hrun⟩ := cleanFrom_some timestamp (fuel + 1) x.q s
    have hdat : s.ofo x.q = x.dat := h.links.free.dat x (by simp)
    have hnext : s.nextQueue x.q = (rest.map FreeQueue.q).head? := by
      have hdll := h.links.free.dll
      simp only [List.map_append, List.map_cons, dll_append, dll_cons] at hdll
      simpa using hdll.2.2.1
    have hset := Rep.setFree (y := cleanQueue timestamp x) h cleanQueue_q hother
    rw [← List.singleton_append, ← List.append_assoc] at hset
    obtain ⟨t, ht, hrep⟩ := ih hset (by simpa using hfuel)
    rw [hnext, hdat] at hrun
    refine ⟨t, hrun.trans ht, ?_⟩
    rwa [List.append_assoc] at hrep

theorem napiCleanTcpOfoQueue_spec (h : Rep s l) : ∃ t, napiCleanTcpOfoQueue s = .ok t ∧ Rep t (cleanLists l) := by
  have hlinks := h.links
  have htick : Rep s.tickKtime { l with free := [] ++ l.free, clock := s.clock.tickKtime } := h.setClock _
  obtain ⟨t, ht, hrep⟩ := cleanFrom_spec (l := { l with clock := s.clock.tickKtime }) (P := []) (s.clock.ktime 0) htick
    h.free_length_le
  refine ⟨t, ?_, ?_⟩
  · rw [napiCleanTcpOfoQueue, hlinks.free.first]
    exact ht
  · rw [cleanLists, ← hlinks.clock]
    exact hrep

/-! ### Runs -/

/-- Nothing is held after `netif_napi_add`, whatever was in the memory. -/
theorem netifNapiAdd_rep (mem : Mem) : Rep (netifNapiAdd mem) (initLists mem) := by
  rw [netifNapiAdd, addQueues_last _ rfl]
  obtain ⟨hfree, -, hlist, hcount, hnskb, hclock, hup, hgone, hstray⟩ := addQueues_spec
    (fun d : Dat => { hash := 0, seqNext := 0, ext := ⟨0, d.ext.flushed.renew⟩ })
    (s := { mem with
      groCount := 0, groList := none, outOfOrderQueueList := none, outOfOrderQueueLast := none, nskb := 0, up := []
      gone := [], stray := [] }) (maxGroSkbs + 1) rfl rfl
  refine ⟨⟨?_, by simp [initLists], hfree, by simp [initLists, allIds], by simp [initLists, allIds], ?_, ?_, hnskb, hclock,
    hup, hstray⟩, hcount, Nat.zero_le _⟩
  · rw [hlist]
    rfl
  · rw [hgone]
    exact fun i hi => absurd hi List.not_mem_nil
  · simp only [initLists, List.map_nil, List.nil_append, List.map_map, Function.comp_def, List.map_id']
    exact List.reverse_perm _

/-- **A call over the memory is the call on the lists.** -/
theorem step_spec (s : Mem) (l : Lists) (c : Call) (h : Rep s l) : Agree Rep (step s c) (stepLists l c) := by
  have hclock := h.setClock { s.clock with ktime := c.ktime }
  unfold step stepLists
  rw [← h.links.clock]
  cases c with
  | receive pkt ktime => exact devGroReceive_spec hclock pkt
  | flush flushOld groOfoTimeout groInseqTimeout ktime =>
    obtain ⟨t, ht, hrep⟩ := napiGroFlush_spec hclock flushOld groOfoTimeout groInseqTimeout
    simp only [ht]
    exact hrep
  | clean ktime =>
    obtain ⟨t, ht, hrep⟩ := napiCleanTcpOfoQueue_spec hclock
    simp only [ht]
    exact hrep

/-- **A run over the memory is the run on the lists.** -/
theorem run_spec (mem : Mem) (cs : List Call) : Agree Rep (run mem cs) (runFrom stepLists (initLists mem) cs) :=
  Agree.run step_spec (netifNapiAdd_rep mem)

end PacketReordering.Linux41
