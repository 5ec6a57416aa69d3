import Mathlib.Tactic.Common

/-!
# Fields that should be written before they are read

An object is handed out again and again, and what was in its fields stays there.  Beside its value, such a field keeps
what happened to it since the object was last handed out; the program itself has the value only.

* `Tracked.renew`, `Tracked.write`, `Tracked.read` — what may happen to a field;
* `Tracked.Sound` — it was not read before it was written;
* `Tracked.Ready` — and it is written, so that it may be read.
-/

namespace PacketReordering.Lib

/-- A field of an object: what is in it, whether it was `written` since the object was handed out, and whether it was
read before that, so that what was read was `stale`. -/
structure Tracked (α : Type) where
  value : α
  written : Bool
  stale : Bool
  deriving DecidableEq, Repr, Inhabited

namespace Tracked

variable {α : Type} {x : Tracked α} {v : α}

/-- The object is handed out.  Nothing is written. -/
def renew (x : Tracked α) : Tracked α := ⟨x.value, false, false⟩

def write (x : Tracked α) (v : α) : Tracked α := ⟨v, true, x.stale⟩

/-- The field when its value has been read. -/
def read (x : Tracked α) : Tracked α := { x with stale := x.stale || !x.written }

@[simp] theorem value_write : (x.write v).value = v := rfl

/-- What was read was not stale. -/
def Sound (x : Tracked α) : Prop := x.stale = false

structure Ready (x : Tracked α) : Prop where
  written : x.written = true
  sound : x.Sound

instance : Decidable x.Sound := inferInstanceAs (Decidable (x.stale = false))

instance : Decidable x.Ready := decidable_of_iff (x.written = true ∧ x.Sound) ⟨fun h => ⟨h.1, h.2⟩, fun h => ⟨h.1, h.2⟩⟩

theorem sound_renew : x.renew.Sound := rfl

theorem Sound.write (h : x.Sound) : (x.write v).Ready := ⟨rfl, h⟩

/-- Reading a field that is ready leaves no mark. -/
theorem Ready.read_eq (h : x.Ready) : x.read = x := by
  obtain ⟨value, written, stale⟩ := x
  obtain ⟨rfl, rfl⟩ := h
  rfl

end Tracked

end PacketReordering.Lib
