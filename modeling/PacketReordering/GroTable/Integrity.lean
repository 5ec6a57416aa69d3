import PacketReordering.GroTable.Defs
import Mathlib.Data.List.Perm.Subperm
import Mathlib.Data.List.Range

/-!
# `linux-4.1-gro_table`: integrity of the flow table

* `Shape` — which entries each list holds;
* `FlowKey` — what tells the flows apart;
* `Integrity` — every entry that has a flow is where its hash and its phase want it, and no two have the same flow;
* `groGetFlowEntry_spec`, `groEvictAndInitFlowEntry_spec` — the two functions;
* `run_obtained` — any sequence of packets.
-/

namespace PacketReordering.GroTable

open Lib

/-! ### The lists of the table -/

/-- The entries of the lists, from their heads on. -/
structure Shape where
  bucket : Fin groTableSize → List EntryId
  active : List EntryId
  inactive : List EntryId
  lossRecovery : List EntryId

namespace Shape

/-- All entries. -/
def entries (sh : Shape) : List EntryId := sh.inactive ++ sh.active ++ sh.lossRecovery

/-- The cells of a list. -/
def cells (sh : Shape) : ListHead → List ListHead
  | .groTable i => (sh.bucket i).map .groTableList
  | .activeList => sh.active.map .flowManagementList
  | .inactiveList => sh.inactive.map .flowManagementList
  | .lossRecoveryList => sh.lossRecovery.map .flowManagementList
  | _ => []

/-- The entry that goes when there is a new flow: the last of the first list that is not empty. -/
def oldest (sh : Shape) : Option EntryId :=
  sh.inactive.getLast?.or (sh.active.getLast?.or sh.lossRecovery.getLast?)

/-- A list without the entry `e`. -/
def without (e : EntryId) (xs : List EntryId) : List EntryId := xs.filter (· ≠ e)

/-- The entry `e` is in no bucket. -/
def outOfBucket (sh : Shape) (e : EntryId) : Shape := { sh with bucket := fun i => without e (sh.bucket i) }

/-- The entry `e` is in no management list. -/
def outOfManagement (sh : Shape) (e : EntryId) : Shape :=
  { sh with
    active := without e sh.active, inactive := without e sh.inactive, lossRecovery := without e sh.lossRecovery }

/-- The entry `e` comes first in the bucket `i`. -/
def intoBucket (sh : Shape) (e : EntryId) (i : Fin groTableSize) : Shape :=
  { sh with bucket := Function.update sh.bucket i (e :: sh.bucket i) }

/-- The entry `e` comes first in `active_list`. -/
def intoActive (sh : Shape) (e : EntryId) : Shape := { sh with active := e :: sh.active }

/-- The entry `e` goes to the bucket `i` and to `active_list`. -/
def moved (sh : Shape) (e : EntryId) (i : Fin groTableSize) : Shape :=
  (((sh.outOfBucket e).outOfManagement e).intoBucket e i).intoActive e

theorem cells_intoBucket (sh : Shape) (e : EntryId) (i : Fin groTableSize) :
    (sh.intoBucket e i).cells =
      Function.update sh.cells (.groTable i) (.groTableList e :: sh.cells (.groTable i)) := by
  funext g
  cases g with
  | groTable j => by_cases hj : j = i <;> simp [cells, intoBucket, hj]
  | _ => rfl

theorem cells_intoActive (sh : Shape) (e : EntryId) :
    (sh.intoActive e).cells = Function.update sh.cells .activeList (.flowManagementList e :: sh.cells .activeList) := by
  funext g
  cases g <;> rfl

theorem mem_bucket_intoBucket {sh : Shape} {e e' : EntryId} {i j : Fin groTableSize} :
    e' ∈ (sh.intoBucket e i).bucket j ↔ j = i ∧ e' = e ∨ e' ∈ sh.bucket j := by
  by_cases hj : j = i
  · subst hj
    simp [intoBucket]
  · simp [intoBucket, hj]

end Shape

/-- The lists of `napi_struct`. -/
def IsHead : ListHead → Prop
  | .groTableList _ => False
  | .flowManagementList _ => False
  | _ => True

theorem isHead_groTable (i : Fin groTableSize) : IsHead (.groTable i) := trivial

/-! ### Flows -/

structure FlowKey where
  hash : U32
  dev : Dev
  vlanTci : U16
  macHeader : MacHeader
  src : U32
  dst : U32
  srcPort : U16
  dstPort : U16

def FlowEntry.key (d : FlowEntry) : FlowKey :=
  ⟨d.hash, d.dev, d.vlanTci, d.macHeader, d.ipSrc, d.ipDst, d.tcpSrc, d.tcpDst⟩

def Skb.key (b : Skb) : FlowKey := ⟨b.hash, b.dev, b.vlanTci, b.macHeader, b.saddr, b.daddr, b.source, b.dest⟩

theorem sameFlow_iff {d : FlowEntry} {b : Skb} : sameFlow d b = true ↔ d.key = b.key := by
  simp only [sameFlow, FlowEntry.key, Skb.key, Bool.and_eq_true, beq_iff_eq, FlowKey.mk.injEq, and_assoc]

/-- The entry was given to a flow. -/
def FlowEntry.Assigned (d : FlowEntry) : Prop := d.phase ≠ .void

/-- **The flow table is intact.** -/
structure Integrity (s : Napi) (sh : Shape) : Prop where
  rings : Rings s.links IsHead sh.cells
  bound : ∀ e ∈ sh.entries, e < s.entries
  /-- every entry is in one of the management lists, once -/
  managed : sh.entries.Nodup
  /-- an entry with a flow is in the bucket of its hash, and in no other one -/
  bucket : ∀ e ∈ sh.entries, (s.entry e).Assigned → ∀ i, e ∈ sh.bucket i ↔ i = bucketOf (s.entry e).hash
  assigned : ∀ i, ∀ e ∈ sh.bucket i, e ∈ sh.entries ∧ (s.entry e).Assigned
  /-- the cell of an entry without a flow is initialised -/
  unassigned : ∀ e ∈ sh.entries, ¬(s.entry e).Assigned → Alone s.links (.groTableList e)
  keys : ∀ e₁ ∈ sh.entries, ∀ e₂ ∈ sh.entries, (s.entry e₁).Assigned → (s.entry e₂).Assigned →
    (s.entry e₁).key = (s.entry e₂).key → e₁ = e₂

/-! ### `gro_get_flow_entry` -/

section

variable {s t : Napi} {sh : Shape} {b : Skb} {e : EntryId} {i : Fin groTableSize} {p : Packet}

theorem findFlowEntry_spec {head : ListHead} (hhead : IsHead head) {pre post : List EntryId} {fuel : ℕ}
    (hring : Ring s.links head ((pre ++ post).map .groTableList)) (hfuel : post.length ≤ fuel) :
    findFlowEntry s b head fuel ((post.map ListHead.groTableList).headD head) =
      .ok (post.find? fun e => sameFlow (s.entry e) b) := by
  induction post generalizing pre fuel with
  | nil =>
    rw [findFlowEntry.eq_def]
    exact if_pos rfl
  | cons e post ih =>
    have hne : ListHead.groTableList e ≠ head := by
      rintro rfl
      exact hhead
    obtain ⟨fuel, rfl⟩ := Nat.exists_eq_add_of_le' (Nat.le_trans (by simp : 1 ≤ (e :: post).length) hfuel)
    rw [findFlowEntry.eq_def, List.map_cons, List.headD_cons, List.find?_cons]
    simp only [if_neg hne]
    cases hsame : sameFlow (s.entry e) b with
    | true => simp
    | false =>
      have hnext : s.links.next (.groTableList e) = (post.map ListHead.groTableList).headD head := by
        rw [List.map_append, List.map_cons] at hring
        exact hring.next
      simp only [Bool.false_eq_true, if_false, hnext]
      have hring' : Ring s.links head (((pre ++ [e]) ++ post).map .groTableList) := by
        rwa [List.append_assoc, List.singleton_append]
      exact ih hring' (by simpa using hfuel)

theorem Integrity.bucket_nodup (h : Integrity s sh) (i : Fin groTableSize) : (sh.bucket i).Nodup :=
  (h.rings.nodup (.groTable i) trivial).of_map _

theorem Integrity.bucket_length_le (h : Integrity s sh) (i : Fin groTableSize) : (sh.bucket i).length ≤ s.entries := by
  have hsub : sh.bucket i ⊆ List.range s.entries := fun e he => List.mem_range.2 (h.bound e (h.assigned i e he).1)
  have hlen := (List.subperm_of_subset (h.bucket_nodup i) hsub).length_le
  rwa [List.length_range] at hlen

/-- The bucket of the packet's hash is searched. -/
theorem groGetFlowEntry_eq (h : Integrity s sh) (b : Skb) :
    groGetFlowEntry s b = .ok ((sh.bucket (bucketOf b.hash)).find? fun e => sameFlow (s.entry e) b) := by
  have hring : Ring s.links (.groTable (bucketOf b.hash)) (sh.cells (.groTable (bucketOf b.hash))) :=
    h.rings.ring _ trivial
  rw [groGetFlowEntry, hring.next_head]
  exact @findFlowEntry_spec s b (.groTable (bucketOf b.hash)) trivial [] _ _ hring (h.bucket_length_le _)

/-- **A flow that is not in the bucket of its hash is not in the table.** -/
theorem groGetFlowEntry_spec (h : Integrity s sh) (b : Skb) :
    (∃ e ∈ sh.entries, (s.entry e).Assigned ∧ (s.entry e).key = b.key ∧ groGetFlowEntry s b = .ok (some e)) ∨
      (∀ e ∈ sh.entries, (s.entry e).Assigned → (s.entry e).key ≠ b.key) ∧ groGetFlowEntry s b = .ok none := by
  rw [groGetFlowEntry_eq h]
  cases hfind : (sh.bucket (bucketOf b.hash)).find? fun e => sameFlow (s.entry e) b with
  | some e =>
    obtain ⟨hentry, hassigned⟩ := h.assigned _ e (List.mem_of_find?_eq_some hfind)
    have hsame : sameFlow (s.entry e) b = true := by simpa using List.find?_some hfind
    exact Or.inl ⟨e, hentry, hassigned, sameFlow_iff.1 hsame, rfl⟩
  | none =>
    refine Or.inr ⟨fun e hentry hassigned hkey => ?_, rfl⟩
    have hhash : (s.entry e).hash = b.hash := congrArg FlowKey.hash hkey
    have hmem : e ∈ sh.bucket (bucketOf b.hash) := (h.bucket e hentry hassigned _).2 (by rw [hhash])
    exact List.find?_eq_none.1 hfind e hmem (sameFlow_iff.2 hkey)

/-! ### `gro_evict_and_init_flow_entry` -/

theorem getLastD_map {xs : List EntryId} (f : EntryId → ListHead) (d : ListHead) (hne : xs ≠ []) :
    ∃ e, xs.getLast? = some e ∧ (xs.map f).getLastD d = f e := by
  rcases List.eq_nil_or_concat' xs with rfl | ⟨as, a, rfl⟩
  · exact absurd rfl hne
  · refine ⟨a, List.getLast?_concat, ?_⟩
    rw [List.map_append, List.map_singleton, List.getLastD_concat]

/-- A management list that is not empty has a last entry. -/
theorem Integrity.last (h : Integrity s sh) (head : ListHead) (hhead : IsHead head) {xs : List EntryId}
    (hcells : sh.cells head = xs.map .flowManagementList) :
    listEmpty head s.links = xs.isEmpty ∧
      ∀ e, xs.getLast? = some e → managementEntry (s.links.prev head) = .ok e := by
  have hring := h.rings.ring head hhead
  have hnot := h.rings.notHead head head hhead hhead
  constructor
  · rw [hring.listEmpty_eq hnot, hcells, List.isEmpty_map]
  · intro e he
    obtain ⟨e', he', hlast⟩ := getLastD_map .flowManagementList head
      (List.ne_nil_of_mem (List.mem_of_getLast? he))
    rw [hring.prev_head, hcells, hlast, Option.some_inj.1 (he'.symm.trans he)]
    rfl

theorem evictedEntry_spec (h : Integrity s sh) (he : sh.oldest = some e) : evictedEntry s = .ok e := by
  obtain ⟨hinactive, hlastI⟩ := h.last .inactiveList trivial rfl
  obtain ⟨hactive, hlastA⟩ := h.last .activeList trivial rfl
  obtain ⟨-, hlastL⟩ := h.last .lossRecoveryList trivial rfl
  unfold evictedEntry
  rw [hinactive, hactive]
  unfold Shape.oldest at he
  by_cases hI : sh.inactive = []
  · rw [hI, List.getLast?_nil, Option.none_or] at he
    by_cases hA : sh.active = []
    · rw [hA, List.getLast?_nil, Option.none_or] at he
      simp only [hI, hA, List.isEmpty_nil, Bool.not_true, Bool.false_eq_true, if_false]
      exact hlastL e he
    · rw [List.getLast?_eq_some_getLast hA, Option.some_or] at he
      simp only [hI, List.isEmpty_nil, Bool.not_true, Bool.false_eq_true, if_false]
      rw [if_pos (by simpa using hA)]
      exact hlastA e (by rw [List.getLast?_eq_some_getLast hA, he])
  · rw [List.getLast?_eq_some_getLast hI, Option.some_or] at he
    rw [if_pos (by simpa using hI)]
    exact hlastI e (by rw [List.getLast?_eq_some_getLast hI, he])

open Shape (without)

theorem without_middle {xs ys : List EntryId} (hnd : (xs ++ e :: ys).Nodup) : without e (xs ++ e :: ys) = xs ++ ys := by
  have hout : e ∉ xs ++ ys := (List.nodup_cons.1 (List.nodup_middle.1 hnd)).1
  rw [without, List.filter_append, List.filter_cons_of_neg (by simp), ← List.filter_append, List.filter_eq_self]
  exact fun x hx => by simpa using ne_of_mem_of_not_mem hx hout

theorem without_eq_self {xs : List EntryId} (he : e ∉ xs) : without e xs = xs := by
  rw [without, List.filter_eq_self]
  exact fun x hx => by simpa using ne_of_mem_of_not_mem hx he

theorem mem_without {xs : List EntryId} {x : EntryId} : x ∈ without e xs ↔ x ∈ xs ∧ x ≠ e := by
  simp [without, List.mem_filter]

/-- A cell of the bucket lists is in one exactly if its entry is. -/
theorem groTableList_mem_cells {g : ListHead} (hg : IsHead g) :
    ListHead.groTableList e ∈ g :: sh.cells g ↔ ∃ i, g = .groTable i ∧ e ∈ sh.bucket i := by
  cases g <;> simp_all [IsHead, Shape.cells]

theorem flowManagementList_mem_cells {g : ListHead} (hg : IsHead g) :
    ListHead.flowManagementList e ∈ g :: sh.cells g ↔
      g = .inactiveList ∧ e ∈ sh.inactive ∨ g = .activeList ∧ e ∈ sh.active ∨
        g = .lossRecoveryList ∧ e ∈ sh.lossRecovery := by
  cases g <;> simp_all [IsHead, Shape.cells]

/-- `list_del_init(flow_entry->gro_table_list)`: without a flow the entry is in no bucket. -/
theorem Integrity.outOfBucket (h : Integrity s sh) (he : e ∈ sh.entries) :
    Rings (listDelInit (.groTableList e) s.links) IsHead (sh.outOfBucket e).cells ∧
      ∀ a, (∀ g, IsHead g → a ∉ g :: sh.cells g) → Alone s.links a → Alone (listDelInit (.groTableList e) s.links) a := by
  by_cases hassigned : (s.entry e).Assigned
  · have hbucket := h.bucket e he hassigned
    obtain ⟨xs, ys, hxs⟩ := List.append_of_mem ((hbucket _).2 rfl)
    have hcells : sh.cells (.groTable (bucketOf (s.entry e).hash)) =
        xs.map .groTableList ++ .groTableList e :: ys.map .groTableList := by
      rw [Shape.cells, hxs, List.map_append, List.map_cons]
    have hmem : ListHead.groTableList e ∈ sh.cells (.groTable (bucketOf (s.entry e).hash)) := by
      rw [hcells]
      simp
    refine ⟨?_, fun a ha halone => h.rings.alone_listDelInit (isHead_groTable _) hmem ha halone⟩
    have hshape : (sh.outOfBucket e).cells = Function.update sh.cells (.groTable (bucketOf (s.entry e).hash))
        (xs.map .groTableList ++ ys.map .groTableList) := by
      funext g
      rcases eq_or_ne g (.groTable (bucketOf (s.entry e).hash)) with rfl | hne
      · rw [Function.update_self, ← List.map_append, ← without_middle (hxs ▸ h.bucket_nodup _), ← hxs]
        rfl
      · rw [Function.update_of_ne hne]
        cases g with
        | groTable i =>
          have hnot : e ∉ sh.bucket i := fun hm => hne (by rw [(hbucket i).1 hm])
          simp only [Shape.cells, Shape.outOfBucket, without_eq_self hnot]
        | _ => rfl
    rw [hshape]
    exact (h.rings.listDelInit (isHead_groTable _) hcells).1
  · have hno : ∀ i, e ∉ sh.bucket i := fun i hm => hassigned (h.assigned i e hm).2
    have hshape : (sh.outOfBucket e).cells = sh.cells := by
      funext g
      cases g with
      | groTable i => simp only [Shape.cells, Shape.outOfBucket, without_eq_self (hno i)]
      | _ => rfl
    rw [(h.unassigned e he hassigned).listDelInit, hshape]
    exact ⟨h.rings, fun a _ halone => halone⟩

/-- The three cases of `outOfManagement`. -/
theorem outOfManagement_of_split {l : Links ListHead} (hr : Rings l IsHead sh.cells) (head : ListHead)
    (hhead : IsHead head) (xs ys : List EntryId)
    (hcells : sh.cells head = xs.map .flowManagementList ++ .flowManagementList e :: ys.map .flowManagementList)
    (hshape : (sh.outOfManagement e).cells =
      Function.update sh.cells head (xs.map .flowManagementList ++ ys.map .flowManagementList)) :
    Rings (listDelInit (.flowManagementList e) l) IsHead (sh.outOfManagement e).cells ∧
      ∀ a, (∀ g, IsHead g → a ∉ g :: sh.cells g) → Alone l a → Alone (listDelInit (.flowManagementList e) l) a := by
  have hmem : ListHead.flowManagementList e ∈ sh.cells head := by
    rw [hcells]
    simp
  rw [hshape]
  exact ⟨(hr.listDelInit hhead hcells).1, fun a ha halone => hr.alone_listDelInit hhead hmem ha halone⟩

/-- `list_del_init(flow_entry->flow_management_list)` -/
theorem outOfManagement {l : Links ListHead} (hr : Rings l IsHead sh.cells) (hnd : sh.entries.Nodup)
    (he : e ∈ sh.entries) :
    Rings (listDelInit (.flowManagementList e) l) IsHead (sh.outOfManagement e).cells ∧
      ∀ a, (∀ g, IsHead g → a ∉ g :: sh.cells g) → Alone l a → Alone (listDelInit (.flowManagementList e) l) a := by
  obtain ⟨hleft, hL, hdisjointL⟩ := List.nodup_append'.1 hnd
  obtain ⟨hI, hA, hdisjointA⟩ := List.nodup_append'.1 hleft
  have hsplit : ∀ xs : List EntryId, xs.Nodup → e ∈ xs → ∃ ys zs, without e xs = ys ++ zs ∧ xs = ys ++ e :: zs := by
    intro xs hxs hmem
    obtain ⟨ys, zs, rfl⟩ := List.append_of_mem hmem
    exact ⟨ys, zs, without_middle hxs, rfl⟩
  rcases List.mem_append.1 he with he | he
  · rcases List.mem_append.1 he with he | he
    · have hnotA : e ∉ sh.active := hdisjointA he
      have hnotL : e ∉ sh.lossRecovery := hdisjointL (List.mem_append_left _ he)
      obtain ⟨ys, zs, hfilter, hxs⟩ := hsplit _ hI he
      refine outOfManagement_of_split hr .inactiveList trivial ys zs ?_ (funext fun g => ?_)
      · rw [Shape.cells, hxs, List.map_append, List.map_cons]
      · cases g <;> simp [Shape.cells, Shape.outOfManagement, without_eq_self, hnotA, hnotL, hfilter]
    · have hnotI : e ∉ sh.inactive := fun hI => hdisjointA hI he
      have hnotL : e ∉ sh.lossRecovery := hdisjointL (List.mem_append_right _ he)
      obtain ⟨ys, zs, hfilter, hxs⟩ := hsplit _ hA he
      refine outOfManagement_of_split hr .activeList trivial ys zs ?_ (funext fun g => ?_)
      · rw [Shape.cells, hxs, List.map_append, List.map_cons]
      · cases g <;> simp [Shape.cells, Shape.outOfManagement, without_eq_self, hnotI, hnotL, hfilter]
  · have hnot : e ∉ sh.inactive ++ sh.active := fun hm => hdisjointL hm he
    obtain ⟨hnotI, hnotA⟩ := not_or.1 (mt List.mem_append.2 hnot)
    obtain ⟨ys, zs, hfilter, hxs⟩ := hsplit _ hL he
    refine outOfManagement_of_split hr .lossRecoveryList trivial ys zs ?_ (funext fun g => ?_)
    · rw [Shape.cells, hxs, List.map_append, List.map_cons]
    · cases g <;> simp [Shape.cells, Shape.outOfManagement, without_eq_self, hnotI, hnotA, hfilter]

/-- **List management.** -/
theorem relist_spec (h : Integrity s sh) (he : e ∈ sh.entries) (i : Fin groTableSize) :
    Rings (relist e (.groTable i) s.links) IsHead (sh.moved e i).cells ∧
      ∀ e' ≠ e, (∀ j, e' ∉ sh.bucket j) → Alone s.links (.groTableList e') →
        Alone (relist e (.groTable i) s.links) (.groTableList e') := by
  have hactive : IsHead .activeList := trivial
  obtain ⟨hr₁, halone₁⟩ := h.outOfBucket he
  obtain ⟨hr₂, halone₂⟩ := outOfManagement hr₁ (show (sh.outOfBucket e).entries.Nodup from h.managed) he
  have hout₂ : ∀ g, IsHead g → ListHead.groTableList e ∉ g :: ((sh.outOfBucket e).outOfManagement e).cells g := by
    intro g hg hmem
    obtain ⟨j, -, hj⟩ := (groTableList_mem_cells hg).1 hmem
    exact (mem_without.1 hj).2 rfl
  have hr₃ := hr₂.listAdd (isHead_groTable i) hout₂
  rw [← Shape.cells_intoBucket] at hr₃
  have hout₃ : ∀ g, IsHead g →
      ListHead.flowManagementList e ∉ g :: (((sh.outOfBucket e).outOfManagement e).intoBucket e i).cells g := by
    intro g hg hmem
    rcases (flowManagementList_mem_cells hg).1 hmem with ⟨-, hm⟩ | ⟨-, hm⟩ | ⟨-, hm⟩ <;> exact (mem_without.1 hm).2 rfl
  have hr₄ := hr₃.listAdd hactive hout₃
  rw [← Shape.cells_intoActive] at hr₄
  refine ⟨hr₄, fun e' hne hno halone => ?_⟩
  have hnot : ∀ sh' : Shape, (∀ j, e' ∉ sh'.bucket j) → ∀ g, IsHead g → ListHead.groTableList e' ∉ g :: sh'.cells g := by
    intro sh' hno g hg hmem
    obtain ⟨j, -, hj⟩ := (groTableList_mem_cells hg).1 hmem
    exact hno j hj
  have hno₁ : ∀ j, e' ∉ (sh.outOfBucket e).bucket j := fun j hm => hno j (mem_without.1 hm).1
  have hno₃ : ∀ j, e' ∉ (((sh.outOfBucket e).outOfManagement e).intoBucket e i).bucket j := by
    intro j hm
    rcases Shape.mem_bucket_intoBucket.1 hm with ⟨-, he'⟩ | hm
    · exact hne he'
    · exact hno₁ j hm
  have h₁ := halone₁ _ (hnot sh hno) halone
  have h₂ := halone₂ _ (hnot (sh.outOfBucket e) hno₁) h₁
  have hcell : ListHead.groTableList e' ≠ .groTableList e := by simpa using hne
  have h₃ := hr₂.alone_listAdd (isHead_groTable i) (hnot ((sh.outOfBucket e).outOfManagement e) hno₁) hcell h₂
  exact hr₃.alone_listAdd hactive (hnot _ hno₃) (by simp) h₃

/-- Where the entries are when `e` has moved. -/
theorem mem_bucket_moved {e' : EntryId} {j : Fin groTableSize} :
    e' ∈ (sh.moved e i).bucket j ↔ j = i ∧ e' = e ∨ e' ∈ sh.bucket j ∧ e' ≠ e :=
  Shape.mem_bucket_intoBucket.trans (or_congr_right mem_without)

theorem entries_moved_perm (hnd : sh.entries.Nodup) (he : e ∈ sh.entries) : (sh.moved e i).entries.Perm sh.entries := by
  have hwithout : without e sh.entries = without e sh.inactive ++ without e sh.active ++ without e sh.lossRecovery := by
    simp only [without, Shape.entries, List.filter_append]
  have hfront : (sh.moved e i).entries.Perm (e :: without e sh.entries) := by
    have hmiddle : (without e sh.inactive ++ e :: without e sh.active).Perm
        (e :: (without e sh.inactive ++ without e sh.active)) := List.perm_middle
    rw [hwithout]
    exact hmiddle.append_right _
  refine hfront.trans ?_
  obtain ⟨xs, ys, hxs⟩ := List.append_of_mem he
  rw [hxs, without_middle (hxs ▸ hnd)]
  exact List.perm_middle.symm

/-- The entry is given to another flow. -/
theorem Integrity.reassign (h : Integrity s sh) (he : e ∈ sh.entries)
    (hlinks : t.links = relist e (.groTable (bucketOf (t.entry e).hash)) s.links) (hentries : t.entries = s.entries)
    (hother : ∀ e' ≠ e, t.entry e' = s.entry e') (hassigned : (t.entry e).Assigned)
    (hnew : ∀ e' ∈ sh.entries, (s.entry e').Assigned → (s.entry e').key ≠ (t.entry e).key) :
    Integrity t (sh.moved e (bucketOf (t.entry e).hash)) := by
  obtain ⟨hrings, halone⟩ := relist_spec h he (bucketOf (t.entry e).hash)
  have hperm := @entries_moved_perm sh e (bucketOf (t.entry e).hash) h.managed he
  constructor
  · rw [hlinks]
    exact hrings
  · rw [hentries]
    exact fun e' he' => h.bound e' (hperm.subset he')
  · exact hperm.nodup_iff.2 h.managed
  · intro e' he' hassigned' j
    rw [mem_bucket_moved]
    rcases eq_or_ne e' e with rfl | hne
    · simp
    · rw [hother e' hne] at hassigned' ⊢
      simp [hne, h.bucket e' (hperm.subset he') hassigned' j]
  · intro j e' he'
    rcases mem_bucket_moved.1 he' with ⟨-, rfl⟩ | ⟨hmem, hne⟩
    · exact ⟨hperm.symm.subset he, hassigned⟩
    · obtain ⟨hentry, hassigned'⟩ := h.assigned j e' hmem
      rw [hother e' hne]
      exact ⟨hperm.symm.subset hentry, hassigned'⟩
  · intro e' he' hnot
    have hne : e' ≠ e := by
      rintro rfl
      exact hnot hassigned
    rw [hother e' hne] at hnot
    rw [hlinks]
    exact halone e' hne (fun j hm => hnot (h.assigned j e' hm).2) (h.unassigned e' (hperm.subset he') hnot)
  · intro e₁ he₁ e₂ he₂ h₁ h₂ hkey
    rcases eq_or_ne e₁ e with rfl | hne₁
    · rcases eq_or_ne e₂ e₁ with rfl | hne₂
      · rfl
      · rw [hother e₂ hne₂] at h₂ hkey
        exact absurd hkey.symm (hnew e₂ (hperm.subset he₂) h₂)
    · rw [hother e₁ hne₁] at h₁ hkey
      rcases eq_or_ne e₂ e with rfl | hne₂
      · exact absurd hkey (hnew e₁ (hperm.subset he₁) h₁)
      · rw [hother e₂ hne₂] at h₂ hkey
        exact h.keys e₁ (hperm.subset he₁) e₂ (hperm.subset he₂) h₁ h₂ hkey

/-- The queue goes up in its order, and nothing else changes but the buffers in it. -/
structure Cleared (s : Napi) (e : EntryId) (q : List SkbId) (t : Napi) : Prop where
  links : t.links = s.links
  entries : t.entries = s.entries
  entry : t.entry = Function.update s.entry e { s.entry e with outOfOrderQueue := [] }
  up : t.up = s.up ++ q

theorem clearOutOfOrderQueue_spec (e : EntryId) (q : List SkbId) (s : Napi) (hq : (s.entry e).outOfOrderQueue = q) :
    Cleared s e q (clearOutOfOrderQueue e q s) := by
  induction q generalizing s with
  | nil =>
    have hself : { s.entry e with outOfOrderQueue := [] } = s.entry e := by rw [← hq]
    refine ⟨rfl, rfl, ?_, (List.append_nil _).symm⟩
    rw [hself, Function.update_eq_self]
    rfl
  | cons k q ih =>
    have hrest := ih (groFlushSkb (s.setEntry e { s.entry e with outOfOrderQueue := q }) k)
      (by simp [groFlushSkb, Napi.setEntry])
    refine ⟨hrest.links, hrest.entries, hrest.entry.trans ?_, hrest.up.trans ?_⟩
    · simp [groFlushSkb, Napi.setEntry]
    · simp [groFlushSkb, Napi.setEntry]

/-- What a packet finds and leaves: the entry `e` of its flow. -/
structure Obtained (s : Napi) (sh : Shape) (p : Packet) (e : EntryId) (t : Napi) (sh' : Shape) : Prop where
  integrity : Integrity t sh'
  /-- the set of entries is the same -/
  entries : sh'.entries.Perm sh.entries
  mem : e ∈ sh.entries
  /-- the entry has the packet's key -/
  assigned : (t.entry e).Assigned
  key : (t.entry e).key = p.skb.key
  /-- every other entry keeps what it has, its queue included, and stays in its lists -/
  other : ∀ e' ≠ e, t.entry e' = s.entry e'
  bucket : ∀ e' ≠ e, ∀ i, e' ∈ sh'.bucket i ↔ e' ∈ sh.bucket i
  active : ∀ e' ≠ e, e' ∈ sh'.active ↔ e' ∈ sh.active
  inactive : ∀ e' ≠ e, e' ∈ sh'.inactive ↔ e' ∈ sh.inactive
  lossRecovery : ∀ e' ≠ e, e' ∈ sh'.lossRecovery ↔ e' ∈ sh.lossRecovery
  /-- the flow was in the table, and nothing happens; or it was not, and the entry is the oldest one, whose queue goes up
  from its first buffer to its last one -/
  how : ((s.entry e).Assigned ∧ (s.entry e).key = p.skb.key ∧ t = s ∧ sh' = sh) ∨
    ((∀ e' ∈ sh.entries, (s.entry e').Assigned → (s.entry e').key ≠ p.skb.key) ∧ sh.oldest = some e ∧
      t.up = s.up ++ (s.entry e).outOfOrderQueue ∧ (t.entry e).outOfOrderQueue = [])

theorem Shape.oldest_mem (he : sh.oldest = some e) : e ∈ sh.entries := by
  rw [Shape.oldest, Option.or_eq_some_iff, Option.or_eq_some_iff] at he
  unfold Shape.entries
  rcases he with he | ⟨-, he | ⟨-, he⟩⟩ <;> simp [List.mem_of_getLast? he]

theorem Shape.exists_oldest (hne : sh.entries ≠ []) : ∃ e, sh.oldest = some e := by
  unfold Shape.oldest
  rcases List.eq_nil_or_concat' sh.inactive with hI | ⟨xs, x, hI⟩
  · rcases List.eq_nil_or_concat' sh.active with hA | ⟨xs, x, hA⟩
    · rcases List.eq_nil_or_concat' sh.lossRecovery with hL | ⟨xs, x, hL⟩
      · exact absurd (by rw [Shape.entries, hI, hA, hL]; rfl) hne
      · exact ⟨x, by simp [hI, hA, hL]⟩
    · exact ⟨x, by simp [hI, hA]⟩
  · exact ⟨x, by simp [hI]⟩

theorem groEvictAndInitFlowEntry_spec (h : Integrity s sh) (he : sh.oldest = some e) (p : Packet)
    (hnew : ∀ e' ∈ sh.entries, (s.entry e').Assigned → (s.entry e').key ≠ p.skb.key) :
    ∃ t, groEvictAndInitFlowEntry s p.skb p.ktime = .ok (e, t) ∧
      Obtained s sh p e t (sh.moved e (bucketOf p.skb.hash)) := by
  have hmem := Shape.oldest_mem he
  have hclear := clearOutOfOrderQueue_spec e (s.entry e).outOfOrderQueue
    { s with links := relist e (.groTable (bucketOf p.skb.hash)) s.links } rfl
  unfold groEvictAndInitFlowEntry
  rw [evictedEntry_spec h he]
  simp only
  revert hclear
  generalize clearOutOfOrderQueue e (s.entry e).outOfOrderQueue
    { s with links := relist e (.groTable (bucketOf p.skb.hash)) s.links } = u
  intro hclear
  refine ⟨_, rfl, ?_⟩
  have hentry : (u.setEntry e (initEntry (u.entry e) p.skb p.ktime)).entry e =
      initEntry { s.entry e with outOfOrderQueue := [] } p.skb p.ktime := by
    simp [Napi.setEntry, hclear.entry]
  have hother : ∀ e' ≠ e, (u.setEntry e (initEntry (u.entry e) p.skb p.ktime)).entry e' = s.entry e' := by
    intro e' hne
    simp [Napi.setEntry, hclear.entry, hne]
  have hkey : ((u.setEntry e (initEntry (u.entry e) p.skb p.ktime)).entry e).key = p.skb.key := by
    rw [hentry]
    rfl
  have hassigned : ((u.setEntry e (initEntry (u.entry e) p.skb p.ktime)).entry e).Assigned := by
    rw [hentry]
    exact fun hvoid => Phase.noConfusion hvoid
  have hhash : ((u.setEntry e (initEntry (u.entry e) p.skb p.ktime)).entry e).hash = p.skb.hash := congrArg FlowKey.hash hkey
  have hintegrity := h.reassign (t := u.setEntry e (initEntry (u.entry e) p.skb p.ktime)) hmem
    (by rw [hhash]; exact hclear.links) hclear.entries hother hassigned (by rw [hkey]; exact hnew)
  rw [hhash] at hintegrity
  refine ⟨hintegrity, entries_moved_perm h.managed hmem, hmem, hassigned, hkey, hother, ?_, ?_, ?_, ?_, Or.inr ?_⟩
  · intro e' hne i
    simp [mem_bucket_moved, hne]
  · intro e' hne
    simp [Shape.moved, Shape.intoActive, Shape.intoBucket, Shape.outOfManagement, Shape.outOfBucket, mem_without, hne]
  · intro e' hne
    simp [Shape.moved, Shape.intoActive, Shape.intoBucket, Shape.outOfManagement, Shape.outOfBucket, mem_without, hne]
  · intro e' hne
    simp [Shape.moved, Shape.intoActive, Shape.intoBucket, Shape.outOfManagement, Shape.outOfBucket, mem_without, hne]
  · refine ⟨hnew, he, hclear.up, ?_⟩
    rw [hentry]
    rfl

/-! ### Any sequence of packets -/

/-- A packet comes to its entry. -/
theorem getFlowEntry_spec (h : Integrity s sh) (hne : sh.entries ≠ []) (p : Packet) :
    ∃ e t sh', getFlowEntry s p = .ok (e, t) ∧ Obtained s sh p e t sh' := by
  unfold getFlowEntry
  rcases groGetFlowEntry_spec h p.skb with ⟨e, hmem, hassigned, hkey, hfind⟩ | ⟨hnew, hfind⟩
  · rw [hfind]
    refine ⟨e, s, sh, rfl, h, List.Perm.refl _, hmem, hassigned, hkey, fun _ _ => rfl, ?_, ?_, ?_, ?_, Or.inl ?_⟩
    · exact fun _ _ _ => Iff.rfl
    · exact fun _ _ => Iff.rfl
    · exact fun _ _ => Iff.rfl
    · exact fun _ _ => Iff.rfl
    · exact ⟨hassigned, hkey, rfl, rfl⟩
  · rw [hfind]
    obtain ⟨e, he⟩ := Shape.exists_oldest hne
    obtain ⟨t, hevict, hobtained⟩ := groEvictAndInitFlowEntry_spec h he p hnew
    exact ⟨e, t, _, hevict, hobtained⟩

/-- **Flow table integrity.**  From an intact table with an entry any sequence of packets leads to an intact table with
the same entries, in which the next packet finds the entry of its flow. -/
theorem run_obtained (h : Integrity s sh) (hne : sh.entries ≠ []) (ps : List Packet) :
    ∃ t sh', runFrom step s ps = .ok t ∧ Integrity t sh' ∧ sh'.entries.Perm sh.entries ∧
      ∀ p, ∃ e u sh'', getFlowEntry t p = .ok (e, u) ∧ Obtained t sh' p e u sh'' := by
  induction ps generalizing s sh with
  | nil => exact ⟨s, sh, rfl, h, List.Perm.refl _, getFlowEntry_spec h hne⟩
  | cons p ps ih =>
    obtain ⟨e, s', sh', hget, hobtained⟩ := getFlowEntry_spec h hne p
    have hstep : step s p = .ok s' := by
      rw [step, hget]
      rfl
    have hne' : sh'.entries ≠ [] := by
      intro hnil
      have hperm := hobtained.entries
      rw [hnil] at hperm
      exact hne hperm.symm.eq_nil
    obtain ⟨t, sh'', hrun, hintegrity, hperm, hnext⟩ := ih hobtained.integrity hne'
    exact ⟨t, sh'', (runFrom_cons_ok hstep).trans hrun, hintegrity, hperm.trans hobtained.entries, hnext⟩

end

/-- Two entries without a flow, in `inactive_list`. -/
def twoEntries : Napi where
  links := listAdd (.flowManagementList 0) .inactiveList (listAdd (.flowManagementList 1) .inactiveList ⟨id, id⟩)
  entries := 2
  entry _ := ⟨0, 0, 0, Vector.replicate ethHlen 0, 0, 0, 0, 0, 0, 0, .void, []⟩
  skb _ := ⟨0, 0, 0, Vector.replicate ethHlen 0, 0, 0, 0, 0, 0, 1, false, 0, 0, false, false, false⟩
  up := []

theorem twoEntries_integrity : Integrity twoEntries ⟨fun _ => [], [], [0, 1], []⟩ := by
  have hinactive : IsHead .inactiveList := trivial
  have hempty : Rings (⟨id, id⟩ : Links ListHead) IsHead (⟨fun _ => [], [], [], []⟩ : Shape).cells := by
    have hnil : ∀ g, (⟨fun _ => [], [], [], []⟩ : Shape).cells g = [] := fun g => by cases g <;> rfl
    constructor
    · intro g _
      rw [hnil]
      exact List.isChain_pair.2 ⟨rfl, rfl⟩
    · intro g _
      rw [hnil]
      exact List.nodup_nil
    · intro g g' _ _ _
      rw [hnil]
      exact List.disjoint_nil_left _
    · intro g g' _ _
      rw [hnil]
      exact List.not_mem_nil
  have hone : Rings (listAdd (.flowManagementList 1) .inactiveList ⟨id, id⟩) IsHead
      (⟨fun _ => [], [], [1], []⟩ : Shape).cells := by
    have hshape : (⟨fun _ => [], [], [1], []⟩ : Shape).cells =
        Function.update (⟨fun _ => [], [], [], []⟩ : Shape).cells .inactiveList [.flowManagementList 1] := by
      funext g
      cases g <;> rfl
    rw [hshape]
    exact hempty.listAdd hinactive fun g hg hmem => by simpa using (flowManagementList_mem_cells hg).1 hmem
  have htwo : Rings twoEntries.links IsHead (⟨fun _ => [], [], [0, 1], []⟩ : Shape).cells := by
    have hshape : (⟨fun _ => [], [], [0, 1], []⟩ : Shape).cells =
        Function.update (⟨fun _ => [], [], [1], []⟩ : Shape).cells .inactiveList
          [.flowManagementList 0, .flowManagementList 1] := by
      funext g
      cases g <;> rfl
    rw [hshape]
    exact hone.listAdd hinactive fun g hg hmem => by simpa using (flowManagementList_mem_cells hg).1 hmem
  have hvoid : ∀ e, ¬(twoEntries.entry e).Assigned := fun e h => h rfl
  refine ⟨htwo, by decide, by decide, fun e _ h => absurd h (hvoid e), fun i e he => absurd he List.not_mem_nil, ?_,
    fun e _ _ _ h => absurd h (hvoid e)⟩
  intro e _ _
  constructor <;> simp [twoEntries, listAdd_next, listAdd_prev]

/-- A packet of the flow with these ports. -/
def packetOf (hash : U32) (source : U16) (seq : U32) : Packet :=
  ⟨⟨hash, 0, 0, Vector.replicate ethHlen 0, 1, 2, source, 80, seq, 1, false, 0, 0, false, false, false⟩, 5⟩

/-- Three flows for two entries. -/
theorem run_obtained_threeFlows :
    ∃ t sh', runFrom step twoEntries [packetOf 3 1 100, packetOf 35 2 100, packetOf 3 1 200, packetOf 4 3 100] = .ok t ∧
      Integrity t sh' := by
  obtain ⟨t, sh', hrun, hintegrity, -⟩ := run_obtained twoEntries_integrity (by decide)
    [packetOf 3 1 100, packetOf 35 2 100, packetOf 3 1 200, packetOf 4 3 100]
  exact ⟨t, sh', hrun, hintegrity⟩

end PacketReordering.GroTable
