import PacketReordering.Gro.Bodies
import PacketReordering.Gro.Conservation

/-!
# The data of one flow, in the order in which it goes up

* `Body.data`, `segsData`, `upsData` — the packets with payload and with given ports, in the order of the payload;
* `flushSegs_data`, `completeSegs_data` — a release keeps that order;
* `laneOf`, `Sole` — the held segments with given ports, when at most one flow has these;
* `Queues.data` — what went up and then what is held;
* `Sole.data_shorten` — a release from one flow keeps it.
-/

namespace PacketReordering.Gro

variable {γ δ : Type} {h : U32}

/-- A packet with payload and with the ports `h`, at which `tcp_gro_receive` has looked. -/
def Part.isData (h : U32) (c : Part) : Bool := c.isTcp && c.ports == h && c.len != 0

/-- The packets with payload and with the ports `h` in a buffer. -/
def Body.data (h : U32) (b : Body γ) : List Part := b.parts.filter (Part.isData h)

def segsData (h : U32) (segs : List (Seg γ)) : List Part := segs.flatMap fun x => x.body.data h

def upsData (h : U32) (us : List (Up γ)) : List Part := us.flatMap fun u => u.body.data h

section

variable {b : Body γ} {x : Seg γ} {xs ys : List (Seg γ)} {u : Up γ} {us vs : List (Up γ)}

@[simp] theorem segsData_nil : segsData h ([] : List (Seg γ)) = [] := rfl

@[simp] theorem segsData_cons : segsData h (x :: xs) = x.body.data h ++ segsData h xs := List.flatMap_cons

@[simp] theorem segsData_append : segsData h (xs ++ ys) = segsData h xs ++ segsData h ys := List.flatMap_append

theorem segsData_eq : segsData h xs = (xs.map Seg.body).flatMap (Body.data h) := (List.flatMap_map ..).symm

/-- Only the buffers count. -/
theorem segsData_congr (hsame : xs.map Seg.body = ys.map Seg.body) : segsData h xs = segsData h ys := by
  rw [segsData_eq, segsData_eq, hsame]

@[simp] theorem segsData_setHeadNext {n : Option SkbId} : segsData h (setHeadNext n xs) = segsData h xs := by
  cases xs <;> rfl

@[simp] theorem pull_data : b.pull.data h = b.data h := by rw [Body.data, pull_parts, Body.data]

@[simp] theorem complete_data : b.complete.data h = b.data h := by rw [Body.data, complete_parts, Body.data]

@[simp] theorem behind_data {n : Option SkbId} : (behind n xs x).body.data h = x.body.data h := by
  unfold behind
  split <;> rfl

@[simp] theorem segsData_pullSeg {k : SkbId} : segsData h (xs.map (pullSeg k)) = segsData h xs := by
  induction xs with
  | nil => rfl
  | cons x xs ih =>
    rw [List.map_cons, segsData_cons, segsData_cons, ih]
    unfold pullSeg
    split
    · rw [pull_data]
    · rfl

@[simp] theorem upsData_nil : upsData h ([] : List (Up γ)) = [] := rfl

@[simp] theorem upsData_append : upsData h (us ++ vs) = upsData h us ++ upsData h vs := List.flatMap_append

theorem received_data (us : List (Up γ)) : (upsData h (received us)).Sublist (upsData h us) :=
  List.Sublist.flatMap List.filter_sublist _

theorem upsData_singleton : upsData h [u] = u.body.data h := List.flatMap_singleton ..

/-- What has no data adds none. -/
theorem segsData_eq_nil (hxs : ∀ x ∈ xs, x.body.data h = []) : segsData h xs = [] := List.flatMap_eq_nil_iff.2 hxs

theorem flushSegs_data [GroComplete γ] (d : OfoDat δ) : upsData h (flushSegs d xs).2 = segsData h xs := by
  induction xs generalizing d with
  | nil => rfl
  | cons x xs ih =>
    rw [flushSegs, segsData_cons, ← ih, ← complete_data]
    rfl

theorem completeSegs_data [GroComplete γ] (cond : OfoDat δ → SkbId → Body γ → Bool) (d : OfoDat δ) :
    upsData h (completeSegs cond d xs).2.1 ++ segsData h (completeSegs cond d xs).2.2 = segsData h xs := by
  induction xs generalizing d with
  | nil => rfl
  | cons x xs ih =>
    rw [completeSegs]
    split
    · rw [segsData_cons, ← ih, ← List.append_assoc, ← complete_data]
      rfl
    · rfl

end

/-! ### The flow with given ports -/

/-- A segment of the flow has the ports `h`. -/
def Flow.hasPorts (h : U32) (f : Flow γ δ) : Bool := f.segs.any fun x => x.body.tcp.ports == h

/-- At most one flow has the ports `h`. -/
def Sole (h : U32) (fs : List (Flow γ δ)) : Prop := (fs.filter (Flow.hasPorts h)).length ≤ 1

/-- The held segments of the flow with the ports `h`. -/
def laneOf (h : U32) (fs : List (Flow γ δ)) : List (Seg γ) := (fs.filter (Flow.hasPorts h)).flatMap Flow.segs

/-- The data with the ports `h`: what went up, then what is held. -/
def Queues.data (h : U32) (l : Queues γ δ) : List Part := upsData h l.up ++ segsData h (laneOf h l.flows)

section

variable {f g : Flow γ δ} {A B fs gs : List (Flow γ δ)}

@[simp] theorem laneOf_nil : laneOf h ([] : List (Flow γ δ)) = [] := rfl

theorem laneOf_cons : laneOf h (f :: fs) = (if f.hasPorts h then f.segs else []) ++ laneOf h fs := by
  unfold laneOf
  rw [List.filter_cons]
  split
  · exact List.flatMap_cons
  · rfl

theorem laneOf_append : laneOf h (fs ++ gs) = laneOf h fs ++ laneOf h gs := by
  unfold laneOf
  rw [List.filter_append, List.flatMap_append]

theorem laneOf_ne_nil (hf : f ∈ fs) (hports : f.hasPorts h = true) : laneOf h fs ≠ [] := by
  obtain ⟨x, hx, -⟩ := List.any_eq_true.1 hports
  exact List.ne_nil_of_mem (List.mem_flatMap.2 ⟨f, List.mem_filter.2 ⟨hf, hports⟩, hx⟩)

theorem laneOf_erase : laneOf h (fs.map Flow.erase) = (laneOf h fs).map Seg.erase := by
  induction fs with
  | nil => rfl
  | cons f fs ih =>
    have hports : f.erase.hasPorts h = f.hasPorts h := by
      unfold Flow.hasPorts Flow.erase
      rw [List.any_map]
      rfl
    rw [List.map_cons, laneOf_cons, laneOf_cons, ih, hports, List.map_append]
    split <;> rfl

theorem data_erase {l : Queues γ δ} : l.erase.data h = l.data h := by
  have hbodies : ((laneOf h l.flows).map Seg.erase).map Seg.body = (laneOf h l.flows).map Seg.body := List.map_map
  rw [Queues.data, Queues.data, Queues.erase, laneOf_erase, segsData_congr hbodies]

/-- The flows beside the one with the ports. -/
theorem Sole.others (hsole : Sole h (A ++ f :: B)) (hf : f.hasPorts h = true) :
    A.filter (Flow.hasPorts h) = [] ∧ B.filter (Flow.hasPorts h) = [] := by
  unfold Sole at hsole
  rw [List.filter_append, List.filter_cons_of_pos hf, List.length_append, List.length_cons] at hsole
  exact ⟨List.eq_nil_of_length_eq_zero (by omega), List.eq_nil_of_length_eq_zero (by omega)⟩

theorem Sole.laneOf_eq (hsole : Sole h (A ++ f :: B)) (hf : f.hasPorts h = true) : laneOf h (A ++ f :: B) = f.segs := by
  obtain ⟨hA, hB⟩ := hsole.others hf
  unfold laneOf
  rw [List.filter_append, List.filter_cons_of_pos hf, hA, hB]
  simp

/-- The packets in the buffer have its ports, which are `κ`. -/
def Body.Ported (κ : U32) (b : Body γ) : Prop := b.tcp.ports = κ ∧ ∀ c ∈ b.parts, c.ports = κ

theorem Body.Ported.data_eq_nil {κ : U32} {b : Body γ} (hb : b.Ported κ) (hne : κ ≠ h) : b.data h = [] := by
  rw [Body.data, List.filter_eq_nil_iff]
  intro c hc
  simp [Part.isData, hb.2 c hc, hne]

theorem segsData_of_ported {κ : U32} {xs : List (Seg γ)} (hxs : Bodies (Body.Ported κ) xs) (hne : κ ≠ h) :
    segsData h xs = [] :=
  segsData_eq_nil fun x hx => (hxs x hx).data_eq_nil hne

theorem hasPorts_iff {κ : U32} (hf : Bodies (Body.Ported κ) f.segs) : f.hasPorts h = true ↔ κ = h ∧ f.segs ≠ [] := by
  unfold Flow.hasPorts
  rw [List.any_eq_true]
  constructor
  · rintro ⟨x, hx, hports⟩
    exact ⟨(hf x hx).1.symm.trans (by simpa using hports), List.ne_nil_of_mem hx⟩
  · rintro ⟨rfl, hne⟩
    obtain ⟨x, hx⟩ := List.exists_mem_of_ne_nil _ hne
    exact ⟨x, hx, by simpa using (hf x hx).1⟩

/-- A flow that is in the place of another one may lose the ports but not get them. -/
theorem Sole.replace (hsole : Sole h (A ++ f :: B)) (hg : g.hasPorts h = true → f.hasPorts h = true) :
    Sole h (A ++ g :: B) := by
  unfold Sole at hsole ⊢
  rw [List.filter_append, List.length_append] at hsole ⊢
  cases hgports : g.hasPorts h with
  | true =>
    rw [List.filter_cons_of_pos (hg hgports), List.length_cons] at hsole
    rwa [List.filter_cons_of_pos hgports, List.length_cons]
  | false =>
    rw [List.filter_cons_of_neg (by simp [hgports])]
    have hle := (List.sublist_cons_self f B).filter (Flow.hasPorts h)
    have hlength := hle.length_le
    omega

theorem Sole.sublist (hsole : Sole h gs) (hsub : fs.Sublist gs) : Sole h fs :=
  Nat.le_trans (hsub.filter _).length_le hsole

/-- A new flow has other ports, or is the first one with these. -/
theorem Sole.cons (hsole : Sole h fs) (hf : f.hasPorts h = true → fs.filter (Flow.hasPorts h) = []) : Sole h (f :: fs) := by
  unfold Sole at hsole ⊢
  rw [List.filter_cons]
  split
  · rename_i hports
    rw [hf hports]
    exact Nat.le_refl 1
  · exact hsole

/-- Another flow is in the place of the one with the ports. -/
theorem Sole.laneOf_replace (hsole : Sole h (A ++ f :: B)) (hf : f.hasPorts h = true) (hg : Bodies (Body.Ported h) g.segs) :
    laneOf h (A ++ g :: B) = g.segs := by
  obtain ⟨hA, hB⟩ := hsole.others hf
  unfold laneOf
  rw [List.filter_append, List.filter_cons, hA, hB]
  split
  · simp
  · rename_i hports
    have hnil : g.segs = [] := by
      by_contra hne
      exact hports ((hasPorts_iff hg).2 ⟨rfl, hne⟩)
    rw [hnil]
    rfl

/-- The segments of the flow `f` go up in part, and `g` is what is left of it. -/
theorem Sole.data_shorten {κ : U32} {us : List (Up γ)} (hsole : Sole h (A ++ f :: B)) (hf : Bodies (Body.Ported κ) f.segs)
    (hg : Bodies (Body.Ported κ) g.segs) (hdata : upsData h us ++ segsData h g.segs = segsData h f.segs) :
    upsData h us ++ segsData h (laneOf h (A ++ g :: B)) = segsData h (laneOf h (A ++ f :: B)) := by
  by_cases hports : f.hasPorts h = true
  · obtain ⟨rfl, -⟩ := (hasPorts_iff hf).1 hports
    rw [hsole.laneOf_replace hports hg, hsole.laneOf_eq hports, hdata]
  · have hnone : segsData h f.segs = [] := by
      by_cases hne : κ = h
      · have hnil : f.segs = [] := by
          by_contra hnil
          exact hports ((hasPorts_iff hf).2 ⟨hne, hnil⟩)
        rw [hnil]
        rfl
      · exact segsData_of_ported hf hne
    rw [hnone, List.append_eq_nil_iff] at hdata
    obtain ⟨hus, hgnil⟩ := hdata
    have hlane : ∀ e : Flow γ δ, segsData h e.segs = [] →
        segsData h (laneOf h (A ++ e :: B)) = segsData h (laneOf h A) ++ segsData h (laneOf h B) := by
      intro e he
      rw [laneOf_append, laneOf_cons, segsData_append, segsData_append]
      split
      · rw [he, List.nil_append]
      · rfl
    rw [hus, hlane g hgnil, hlane f hnone, List.nil_append]

/-- A flow without segments has no ports. -/
theorem filter_hasPorts_empty (hf : f.segs = []) :
    (A ++ f :: B).filter (Flow.hasPorts h) = (A ++ B).filter (Flow.hasPorts h) := by
  have hports : f.hasPorts h = false := by
    rw [Flow.hasPorts, hf]
    rfl
  rw [List.filter_append, List.filter_append, List.filter_cons_of_neg (by simp [hports])]

/-- The flow `g` is in the place of the flow `f` with the same ports. -/
theorem Sole.move {κ : U32} (hsole : Sole h (A ++ f :: B)) (hf : Bodies (Body.Ported κ) f.segs)
    (hg : Bodies (Body.Ported κ) g.segs) (hne : f.segs ≠ []) :
    Sole h (A ++ g :: B) ∧ (κ = h → laneOf h (A ++ f :: B) = f.segs ∧ laneOf h (A ++ g :: B) = g.segs) ∧
      (κ ≠ h → laneOf h (A ++ g :: B) = laneOf h (A ++ f :: B)) := by
  have hports : g.hasPorts h = true → f.hasPorts h = true := fun hgports =>
    (hasPorts_iff hf).2 ⟨((hasPorts_iff hg).1 hgports).1, hne⟩
  refine ⟨hsole.replace hports, ?_, fun hκ => ?_⟩
  · rintro rfl
    have hfports : f.hasPorts κ = true := (hasPorts_iff hf).2 ⟨rfl, hne⟩
    exact ⟨hsole.laneOf_eq hfports, hsole.laneOf_replace hfports hg⟩
  · have hfports : ¬ f.hasPorts h = true := fun he => hκ ((hasPorts_iff hf).1 he).1
    have hgports : ¬ g.hasPorts h = true := fun he => hfports (hports he)
    rw [laneOf_append, laneOf_cons, if_neg hgports, laneOf_append, laneOf_cons, if_neg hfports]

end

end PacketReordering.Gro
