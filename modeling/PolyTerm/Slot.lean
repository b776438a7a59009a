import Mathlib.Data.List.Basic

/-!
# A slot and the queue behind it

One item has the slot, the others wait. An item that arrives takes the slot
if it is empty, whether or not others wait; `promote` gives an empty slot to
the first that waits.
-/

structure Slot (α : Type*) where
  current : Option α
  waiting : List α

namespace Slot

variable {α β : Type*}

def empty : Slot α := ⟨none, []⟩

def enqueue (s : Slot α) (x : α) : Slot α :=
  match s.current with
  | none => { s with current := some x }
  | some _ => { s with waiting := s.waiting ++ [x] }

def promote (s : Slot α) : Slot α :=
  match s.current, s.waiting with
  | none, x :: rest => ⟨some x, rest⟩
  | _, _ => s

/-- The item in the slot is taken out. -/
def vacate (s : Slot α) : Slot α := { s with current := none }

/-- All items, the one in the slot first. -/
def items (s : Slot α) : List α := s.current.toList ++ s.waiting

def map (f : α → β) (s : Slot α) : Slot β := ⟨s.current.map f, s.waiting.map f⟩

@[simp] theorem items_empty : (empty : Slot α).items = [] := rfl

@[simp] theorem items_promote (s : Slot α) : s.promote.items = s.items := by
  unfold promote
  split
  · rename_i x rest hcurrent hwaiting
    simp [items, hcurrent, hwaiting]
  · rfl

/-- An item that finds an empty slot goes before those that wait. -/
theorem items_enqueue (s : Slot α) (x : α) :
    (s.enqueue x).items = if s.current.isSome then s.items ++ [x] else x :: s.waiting := by
  unfold enqueue items
  cases s.current <;> rfl

/-- Once something is promoted the slot is empty only with nobody waiting. -/
theorem promote_none {s : Slot α} (h : s.promote.current = none) : s.items = [] := by
  unfold promote at h
  split at h
  · cases h
  · rename_i hnot
    cases hwaiting : s.waiting with
    | nil => simp [items, h, hwaiting]
    | cons x rest => exact absurd hwaiting (hnot x rest h)

theorem items_current {s : Slot α} {x : α} (h : s.current = some x) :
    s.items = x :: s.waiting := by
  simp [items, h]

@[simp] theorem items_vacate (s : Slot α) : s.vacate.items = s.waiting := rfl

/-! ## Changing the items -/

@[simp] theorem map_current (f : α → β) (s : Slot α) : (s.map f).current = s.current.map f := rfl

theorem map_enqueue (f : α → β) (s : Slot α) (x : α) :
    (s.enqueue x).map f = (s.map f).enqueue (f x) := by
  obtain ⟨current, waiting⟩ := s
  cases current <;> simp [enqueue, map]

theorem map_promote (f : α → β) (s : Slot α) : s.promote.map f = (s.map f).promote := by
  obtain ⟨current, waiting⟩ := s
  cases current <;> cases waiting <;> rfl

end Slot
