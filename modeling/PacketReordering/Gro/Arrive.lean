import PacketReordering.Gro.GroList
import PacketReordering.Gro.Walk

/-!
# A packet in the hands of `dev_gro_receive`

* `Received` — the packet is in no queue; `arrive_spec` — the driver has handed it in;
* `Received.examined` — the functions that look at it leave the lists as they were;
* `Received.goUp`, `pastHeld_spec`, `freeMerged_spec`, `pullHeld_spec`, `pullGone_spec` — the ends of `dev_gro_receive`;
* `Received.findQueue`, `Received.requeue`, `Received.insert` — the packet gets a queue object;
* `Rep.setFree` — the data of a free queue are written.
-/

namespace PacketReordering.Gro

open Lib

variable {γ δ : Type} {s t : Napi γ δ} {l : Queues γ δ} {A B : List (Flow γ δ)} {q : OfoId} {d : OfoDat δ}
  {segs : List (Seg γ)} {k : SkbId} {b : Body γ}

/-- The packet `k` is in the hands of `dev_gro_receive` and in no queue. -/
structure Received (s : Napi γ δ) (l : Queues γ δ) (k : SkbId) (b : Body γ) : Prop where
  rep : Rep s l
  loose : Loose s l.flows k b

theorem Received.ids_ne (h : Received s l k b) : ∀ i ∈ allIds l.flows, i ∉ [k] := by
  intro i hi hmem
  obtain rfl : i = k := by simpa using hmem
  exact h.loose.mem hi

/-- The driver hands in a buffer. -/
theorem arrive_spec (h : Rep s l) :
    Received { s with nskb := s.nskb + 1, next := Function.update s.next s.nskb none } { l with nskb := l.nskb + 1 } s.nskb
      (s.body s.nskb) := by
  have hlinks := h.links
  have hnew : ∀ i ∈ allIds l.flows, i ≠ s.nskb := fun i hi => Nat.ne_of_lt (hlinks.live i hi).1
  refine ⟨⟨?_, h.count, h.bound⟩, Nat.lt_succ_self _, fun hg => Nat.lt_irrefl _ (hlinks.gone _ hg), fun hm => ?_, rfl,
    Function.update_self ..⟩
  · apply hlinks.frame [] (q := maxGroSkbs + 1) ?_ (fun _ _ => List.not_mem_nil) hlinks.notMem_queues
    · exact fun i hi => Function.update_of_ne (hnew i hi) _ _
    · exact fun i hi => (hlinks.live i hi).2
    · exact Nat.le_succ _
    · exact fun i hi => Nat.lt_succ_of_lt (hlinks.gone i hi)
    · exact hlinks.free.of_eq rfl rfl rfl rfl fun _ _ => rfl
    · exact List.Perm.refl _
    · rfl
    · exact congrArg (· + 1) hlinks.nskb
    · exact hlinks.clock
    · exact hlinks.up
    · exact hlinks.stray
    · constructor <;> intros <;> rfl
  · exact hnew _ hm rfl

/-! ### The packet is looked at -/

/-- The memory `s` while `dev_gro_receive` and the functions it calls look at the packet `k`. -/
def examined (s : Napi γ δ) (k : SkbId) (b : Body γ) (o : Option OfoId) (flush sameFlow : SkbId → Bool) : Napi γ δ :=
  { s with
    body := Function.update s.body k b
    outOfOrderQueue := Function.update s.outOfOrderQueue k o
    flush := flush
    sameFlow := sameFlow }

theorem examined_examined (b b' : Body γ) (o o' : Option OfoId) (fl fl' sf sf' : SkbId → Bool) :
    examined (examined s k b o fl sf) k b' o' fl' sf' = examined s k b' o' fl' sf' := by
  simp only [Gro.examined, Function.update_idem]

theorem Received.examined (h : Received s l k b) (b' : Body γ) (o : Option OfoId) (fl sf : SkbId → Bool) :
    Received (examined s k b' o fl sf) l k b' := by
  have hlinks := h.rep.links
  refine ⟨⟨?_, h.rep.count, h.rep.bound⟩, h.loose.lt, h.loose.live, h.loose.mem, Function.update_self .., h.loose.next⟩
  apply hlinks.frame _ (q := maxGroSkbs + 1) ?_ h.ids_ne hlinks.notMem_queues
  · exact fun _ _ => rfl
  · exact fun i hi => (hlinks.live i hi).2
  · exact Nat.le_refl _
  · exact hlinks.gone
  · exact hlinks.free.of_eq rfl rfl rfl rfl fun _ _ => rfl
  · exact List.Perm.refl _
  · rfl
  · exact hlinks.nskb
  · exact hlinks.clock
  · exact hlinks.up
  · exact hlinks.stray
  · constructor <;> simp +contextual [Gro.examined]

theorem Received.setBody (h : Received s l k b) (b' : Body γ) : Received (s.setBody k b') l k b' := by
  have hsame := h.examined b' (s.outOfOrderQueue k) s.flush s.sameFlow
  rw [Gro.examined, Function.update_eq_self] at hsame
  rw [Napi.setBody, touch_eq h.loose.live]
  exact hsame

theorem Received.setClock (h : Received s l k b) (clock : Clock) :
    Received { s with clock := clock } { l with clock := clock } k b :=
  ⟨h.rep.setClock clock, h.loose.lt, h.loose.live, h.loose.mem, h.loose.body, h.loose.next⟩

/-! ### The packet goes up, or into a segment -/

theorem pullNormal_eq (hk : k ∉ s.gone) :
    (s.setBody k (s.body k).pull).netifReceive k ((s.setBody k (s.body k).pull).body k) .normal = { s with
      body := Function.update s.body k (s.body k).pull
      up := s.up ++ [⟨k, s.next k, (s.body k).pull, .normal, false⟩]
      gone := k :: s.gone } := by
  simp [Napi.setBody, Napi.netifReceive, Napi.touch, hk]

/-- The packet goes up as it is. -/
theorem Received.goUp (h : Received s l k b) :
    Rep ((s.setBody k (s.body k).pull).netifReceive k ((s.setBody k (s.body k).pull).body k) .normal)
      { l with up := l.up ++ [⟨k, none, b.pull, .normal, false⟩] } := by
  rw [pullNormal_eq h.loose.live, h.loose.body, h.loose.next]
  have hlinks := h.rep.links
  refine ⟨?_, h.rep.count, h.rep.bound⟩
  apply hlinks.frame _ (q := maxGroSkbs + 1) ?_ h.ids_ne hlinks.notMem_queues
  · exact fun _ _ => rfl
  · intro i hi hg
    rcases List.mem_cons.1 hg with rfl | hg
    · exact h.loose.mem hi
    · exact (hlinks.live i hi).2 hg
  · exact Nat.le_refl _
  · exact hlinks.gone_cons h.loose.lt
  · exact hlinks.free.of_eq rfl rfl rfl rfl fun _ _ => rfl
  · exact List.Perm.refl _
  · rfl
  · exact hlinks.nskb
  · exact hlinks.clock
  · exact congrArg (· ++ [_]) hlinks.up
  · exact hlinks.stray
  · constructor <;> simp +contextual

/-- The packet goes up as it is, past the queue `q` of its flow. -/
theorem pastHeld_spec (h : Rep t { l with flows := A ++ ⟨q, d, segs⟩ :: B }) (hk : Loose t (A ++ ⟨q, d, segs⟩ :: B) k b)
    (d' : OfoDat δ) (clock : Clock) :
    Rep { t with
        ofo := Function.update t.ofo q d'
        clock := clock
        body := Function.update t.body k b.pull
        up := t.up ++ [⟨k, none, b.pull, .normal, false⟩]
        gone := k :: t.gone }
      { l with flows := A ++ ⟨q, d', segs⟩ :: B, clock := clock, up := l.up ++ [⟨k, none, b.pull, .normal, false⟩] } := by
  have hlinks := h.links
  have hf := hlinks.flows ⟨q, d, segs⟩ (by simp)
  have hrep := hf.rep
  have hknot : ∀ i ∈ segIds segs, i ≠ k := by
    rintro i hi rfl
    exact hk.mem (by simp [Flow.ids, hi])
  have hbound := h.bound
  have hcount := h.count
  simp only [List.length_append, List.length_cons] at hbound hcount
  refine ⟨?_, by simpa using hcount, by simpa using hbound⟩
  apply hlinks.update ⟨q, d', segs⟩
  · show Frame _ _ (k :: segIds segs) q
    constructor <;> simp +contextual
  · intro g hg i hi hm
    rcases List.mem_cons.1 hm with rfl | hm
    · refine hk.mem (List.mem_flatMap.2 ⟨g, ?_, hi⟩)
      simp only [List.mem_append, List.mem_cons] at hg ⊢
      tauto
    · exact hlinks.other_ids hg hi hm
  · exact List.forall_mem_cons.2 ⟨hk.lt, fun i hi => (hlinks.ids_live hi).1⟩
  · exact fun _ _ _ _ => rfl
  · rfl
  · refine ⟨hf.ne, ⟨hrep.dll, ?_, hrep.queue, hrep.qlen, hrep.skbNum, Function.update_self ..⟩, hf.next, hf.prev, hf.stale⟩
    exact fun y hy => (Function.update_of_ne (hknot _ (mem_segIds hy)) _ _).trans (hrep.body y hy)
  · rw [heads_append, heads_cons_eq]
    have hchain := hlinks.chain
    rwa [heads_append, heads_cons_eq] at hchain
  · exact hlinks.ids_nodup
  · exact fun i hi => List.mem_cons_of_mem _ hi
  · intro i hi
    obtain ⟨hlt, hlive⟩ := hlinks.ids_live hi
    refine ⟨hlt, fun hg => ?_⟩
    rcases List.mem_cons.1 hg with rfl | hg
    · exact hknot _ hi rfl
    · exact hlive hg
  · rfl
  · rfl
  · rfl
  · rfl
  · exact congrArg (· ++ [_]) hlinks.up
  · exact hlinks.stray

/-- The buffer `k` is in no queue, so it does not matter that it is freed. -/
theorem freeMerged_spec (h : Rep t l) (hlt : k < t.nskb) (hmem : k ∉ allIds l.flows) (hk : k ∉ t.gone) : Rep (t.skbGroFree k) l := by
  rw [Napi.skbGroFree, touch_eq hk]
  have hlinks := h.links
  refine ⟨?_, h.count, h.bound⟩
  apply hlinks.frame [] (q := maxGroSkbs + 1) ?_ (fun _ _ => List.not_mem_nil) hlinks.notMem_queues
  · exact fun _ _ => rfl
  · intro i hi hg
    rcases List.mem_cons.1 hg with rfl | hg
    · exact hmem hi
    · exact (hlinks.live i hi).2 hg
  · exact Nat.le_refl _
  · exact hlinks.gone_cons hlt
  · exact hlinks.free.of_eq rfl rfl rfl rfl fun _ _ => rfl
  · exact List.Perm.refl _
  · rfl
  · exact hlinks.nskb
  · exact hlinks.clock
  · exact hlinks.up
  · exact hlinks.stray
  · constructor <;> intros <;> rfl

/-- The step `pull` for a buffer that has gone. -/
theorem pullGone_spec (h : Rep t l) (hmem : k ∉ allIds l.flows) (hk : k ∈ t.gone) (b : Body γ) :
    Rep ((t.touch k).setBody k b) { l with stray := l.stray ++ [k, k] } := by
  have heq : (t.touch k).setBody k b =
      { t with body := Function.update t.body k b, stray := t.stray ++ [k, k] } := by
    simp [Napi.setBody, Napi.touch, hk]
  rw [heq]
  have hlinks := h.links
  have hids : ∀ i ∈ allIds l.flows, i ∉ [k] := by
    intro i hi hm
    obtain rfl : i = k := by simpa using hm
    exact hmem hi
  refine ⟨?_, h.count, h.bound⟩
  apply hlinks.frame [k] (q := maxGroSkbs + 1) ?_ hids hlinks.notMem_queues
  · exact fun _ _ => rfl
  · exact fun i hi => (hlinks.live i hi).2
  · exact Nat.le_refl _
  · exact hlinks.gone
  · exact hlinks.free.of_eq rfl rfl rfl rfl fun _ _ => rfl
  · exact List.Perm.refl _
  · rfl
  · exact hlinks.nskb
  · exact hlinks.clock
  · exact hlinks.up
  · exact congrArg (· ++ [k, k]) hlinks.stray
  · constructor <;> simp +contextual

/-- The step `pull` for the segment `k` of the queue `q`. -/
theorem pullHeld_spec (h : Rep t { l with flows := A ++ ⟨q, d, segs⟩ :: B }) (hmem : k ∈ segIds segs) :
    Rep (t.setBody k (t.body k).pull) { l with flows := A ++ ⟨q, d, segs.map (pullSeg k)⟩ :: B } := by
  obtain ⟨x, hx, rfl⟩ := List.mem_map.1 hmem
  obtain ⟨pre, post, rfl⟩ := List.append_of_mem hx
  have hlinks := h.links
  have hbody : t.body x.id = x.body := (hlinks.flows ⟨q, d, pre ++ x :: post⟩ (by simp)).rep.body x hx
  have hlive : x.id ∉ t.gone := (hlinks.ids_live (mem_segIds hx)).2
  rw [map_pullSeg hlinks.ids_nodup, hbody]
  have hset := hlinks.setBody (b := x.body.pull) pull_len
  have hlist : (t.setBody x.id x.body.pull).groList = t.groList := by rw [Napi.setBody, touch_eq hlive]
  have hcount : (t.setBody x.id x.body.pull).groCount = t.groCount := by rw [Napi.setBody, touch_eq hlive]
  refine ⟨hlist ▸ hset, ?_, ?_⟩
  · rw [hcount, h.count]
    simp
  · have hbound := h.bound
    simpa using hbound

/-- The step `pull` for the first segment of the first flow. -/
theorem pullFirst_spec {F : List (Flow γ δ)}
    (h : Links t { l with flows := ⟨q, d, [⟨k, none, b⟩]⟩ :: F } t.groList)
    (hcount : t.groCount = BitVec.ofNat 32 (F.length + 1)) (hbound : F.length + 1 ≤ maxGroSkbs) :
    Rep (t.setBody k (t.body k).pull) { l with flows := ⟨q, d, [⟨k, none, b.pull⟩]⟩ :: F } := by
  have hbody : t.body k = b := (h.flows _ (List.mem_cons_self ..)).rep.body ⟨k, none, b⟩ (by simp)
  have hlive : k ∉ t.gone := (h.live k (by simp [Flow.ids])).2
  have hsplit : Links t { l with flows := [] ++ ⟨q, d, [] ++ ⟨k, none, b⟩ :: []⟩ :: F } t.groList := h
  have hlinks := hsplit.setBody (b := b.pull) pull_len
  rw [hbody]
  refine ⟨?_, ?_, hbound⟩
  · have hlist : (t.setBody k b.pull).groList = t.groList := by rw [Napi.setBody, touch_eq hlive]
    rw [hlist]
    exact hlinks
  · rw [Napi.setBody, touch_eq hlive]
    exact hcount

/-! ### A packet of no held flow -/

section

variable {x : FreeQueue δ} {rest : List (FreeQueue δ)}

/-- `napi_get_tcp_ofo_queue` finds a queue object. -/
theorem Received.findQueue (h : Received s l k b) (fits : U32 → Bool) (reset : OfoDat δ → OfoDat δ) :
    ∃ x rest t, findFree fits reset l.free = some (x, rest) ∧ Found s t l.free x rest ∧
      s.findQueue fits reset (maxGroSkbs + 1) s.outOfOrderQueueList none = .ok (x.q, t) ∧ x.q ∉ l.flows.map Flow.q := by
  obtain ⟨x, rest, t, hfind, hfound, ht⟩ := h.rep.links.free.findQueue fits reset h.rep.free_ne_nil
    h.rep.free_length_le
  refine ⟨x, rest, t, hfind, hfound, ht, fun hq => ?_⟩
  have hmem : x.q ∈ l.free.map FreeQueue.q := hfound.perm.subset (List.mem_cons_self ..)
  exact (List.nodup_append.1 h.rep.links.queues_nodup).2.2 x.q hq x.q hmem rfl

/-- The memory when the packet `k` has got the queue `q` and the queue has left the list of free ones. -/
def taken (t : Napi γ δ) (k : SkbId) (q : OfoId) (clock : Clock) (d : OfoDat δ) : Napi γ δ :=
  { ({ t with outOfOrderQueue := Function.update t.outOfOrderQueue k (some q) } : Napi γ δ).unlinkQueue q with
    clock := clock }.setOfo q d

/-- The packet goes up as it is, and the queue object `x` comes first among the free ones with the data `d`. -/
theorem Received.requeue (h : Received s l k b) (hfound : Found s t l.free x rest) (hq : x.q ∉ l.flows.map Flow.q)
    (d d' : OfoDat δ) (clock clock' : Clock) :
    let u := (taken t k x.q clock' d').pushQueue x.q
    Rep { u with
        ofo := Function.update u.ofo x.q d
        clock := clock
        body := Function.update u.body k b.pull
        up := u.up ++ [⟨k, u.next k, b.pull, .normal, false⟩]
        gone := k :: u.gone }
      { l with free := ⟨x.q, d⟩ :: rest, clock := clock, up := l.up ++ [⟨k, none, b.pull, .normal, false⟩] } := by
  intro u
  have hlinks := h.rep.links
  have hfree := hfound.requeue hlinks.free hlinks.free_nodup d
  have hperm := hfound.perm
  obtain ⟨-, qlen, skbNum, hother, rfl⟩ := hfound
  simp only [u, taken, pushQueue_eq, unlinkQueue_eq, Napi.setOfo, h.loose.next, Function.update_idem] at hfree ⊢
  clear u
  refine ⟨?_, h.rep.count, h.rep.bound⟩
  apply hlinks.frame _ (q := x.q) ?_ h.ids_ne hq
  · exact fun _ _ => rfl
  · intro i hi hg
    rcases List.mem_cons.1 hg with rfl | hg
    · exact h.loose.mem hi
    · exact (hlinks.live i hi).2 hg
  · exact Nat.le_refl _
  · exact hlinks.gone_cons h.loose.lt
  · exact hfree.of_eq rfl rfl rfl rfl fun _ _ => rfl
  · exact hperm
  · rfl
  · exact hlinks.nskb
  · rfl
  · exact congrArg (· ++ [_]) hlinks.up
  · exact hlinks.stray
  · constructor <;> simp +contextual [hother]

/-- The packet `k` is the first segment of the queue `x`, which leaves the list of free ones. -/
theorem Received.insert (h : Received s l k b) (hfound : Found s t l.free x rest) (d : OfoDat δ) (clock : Clock)
    (b' : Body γ) (hlen : b'.len = BitVec.ofNat 32 b.groLen) :
    let u := taken t k x.q clock d
    Links { u with
        ofoNext := Function.update u.ofoNext x.q (some k)
        ofoPrev := Function.update u.ofoPrev x.q (some k)
        qlen := Function.update u.qlen x.q (BitVec.ofNat 32 b.groLen)
        skbNum := Function.update u.skbNum x.q 1
        cbPrev := Function.update u.cbPrev k none
        cbNext := Function.update u.cbNext k none
        next := Function.update u.next k u.groList
        groList := some k
        body := Function.update u.body k b' }
      { l with flows := ⟨x.q, d, [⟨k, none, b'⟩]⟩ :: l.flows, free := rest, clock := clock } (some k) := by
  intro u
  have hlinks := h.rep.links
  have hfree := hfound.unlink hlinks.free hlinks.free_nodup
  have hperm := hfound.perm
  have hk := h.loose
  have hne : ∀ y ∈ rest, y.q ≠ x.q := by
    intro y hy he
    have hnd := hperm.nodup_iff.2 hlinks.free_nodup
    exact (List.nodup_cons.1 hnd).1 (he ▸ List.mem_map_of_mem hy)
  obtain ⟨-, qlen, skbNum, hother, rfl⟩ := hfound
  have hkne : ∀ i ∈ allIds l.flows, i ≠ k := fun i hi he => hk.mem (he ▸ hi)
  simp only [u, taken, unlinkQueue_eq, Napi.setOfo, Function.update_idem] at hfree ⊢
  clear u
  apply hlinks.insert (f := ⟨x.q, d, [⟨k, none, b'⟩]⟩) ?_ h.ids_ne
  · exact fun i hi => Function.update_of_ne (hkne i hi) _ _
  · exact fun i hi => (hlinks.live i hi).2
  · exact Nat.le_refl _
  · exact hlinks.gone
  · refine ⟨by simp, ⟨?_, ?_, ?_, ?_, ?_, ?_⟩, ?_, ?_, by simp⟩
    · simp
    · simp
    · simp
    · simp [totalLen, hlen]
    · simp
    · simp
    · simp [Flow.ids]
    · simp [Flow.ids]
  · simp [Flow.ids]
  · simp [Flow.ids]
  · intro i hi
    obtain rfl : i = k := by simpa [Flow.ids] using hi
    exact ⟨hk.lt, hk.live⟩
  · rw [heads_mk]
    refine ⟨rfl, ?_⟩
    have hnext : Function.update s.next k s.groList k = s.groList := Function.update_self ..
    show Chain (Function.update s.next k s.groList) (Function.update s.next k s.groList k) (heads l.flows) none
    rw [hnext]
    exact hlinks.chain.congr fun i hi => Function.update_of_ne (hkne i (mem_allIds_of_mem_heads hi)) _ _
  · exact hfree.of_eq rfl rfl rfl rfl fun y hy => by simp [hne y hy]
  · exact hperm
  · rfl
  · exact hlinks.nskb
  · rfl
  · exact hlinks.up
  · exact hlinks.stray
  · constructor <;> simp +contextual [hother]

end

/-! ### The data of a queue -/

/-- The data of the free queue `x` are written. -/
theorem Rep.setFree {P rest : List (FreeQueue δ)} {x y : FreeQueue δ} (h : Rep s { l with free := P ++ x :: rest })
    (hq : y.q = x.q) {qlen skbNum : OfoId → U32} (hother : ∀ r ≠ x.q, qlen r = s.qlen r ∧ skbNum r = s.skbNum r) :
    Rep { s with ofo := Function.update s.ofo x.q y.dat, qlen := qlen, skbNum := skbNum }
      { l with free := P ++ y :: rest } := by
  have hlinks := h.links
  have hids : (P ++ y :: rest).map FreeQueue.q = (P ++ x :: rest).map FreeQueue.q := by simp [hq]
  have hnot : x.q ∉ l.flows.map Flow.q := by
    intro hm
    have hnd := hlinks.queues_nodup
    exact (List.nodup_append.1 hnd).2.2 x.q hm x.q (List.mem_map_of_mem (by simp)) rfl
  refine ⟨?_, h.count, h.bound⟩
  apply hlinks.frame [] (q := x.q) ?_ (fun _ _ => List.not_mem_nil) hnot
  · exact fun _ _ => rfl
  · exact fun i hi => (hlinks.live i hi).2
  · exact Nat.le_refl _
  · exact hlinks.gone
  · exact hlinks.free.setDat hlinks.free_nodup hq.symm rfl rfl rfl rfl (by rw [hq])
  · rw [hids]
  · rfl
  · exact hlinks.nskb
  · exact hlinks.clock
  · exact hlinks.up
  · exact hlinks.stray
  · constructor <;> simp +contextual [hother]

end PacketReordering.Gro
