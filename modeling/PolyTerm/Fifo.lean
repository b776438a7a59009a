import Mathlib.Data.List.Basic

/-!
# Bounded first-in first-out channels

A channel is its capacity and the items accepted and not yet received, oldest
first; the bound is part of the type. `trySend` never blocks: it refuses when
the channel is full or its receiver is gone. `recv` takes the oldest item.
`Extends` says what any number of sends can do to a channel.
-/

structure Fifo (α : Type*) where
  capacity : Nat
  queue : List α
  /-- the receiver was dropped -/
  closed : Bool
  bounded : queue.length ≤ capacity

namespace Fifo

variable {α : Type*}

inductive TrySendError where
  | full
  | closed
deriving DecidableEq, Repr

def empty (capacity : Nat) : Fifo α := ⟨capacity, [], false, Nat.zero_le _⟩

/-- Accept `x` if there is room. -/
def trySend (c : Fifo α) (x : α) : Except TrySendError (Fifo α) :=
  if c.closed then .error .closed
  else if h : c.queue.length < c.capacity then
    .ok { c with queue := c.queue ++ [x], bounded := by rw [List.length_append]; exact h }
  else .error .full

/-- Whether a send would be accepted. -/
def room (c : Fifo α) : Bool := !c.closed && decide (c.queue.length < c.capacity)

/-- Take the oldest item. -/
def recv (c : Fifo α) : Option (α × Fifo α) :=
  match h : c.queue with
  | [] => none
  | x :: rest =>
      have hrest : rest.length ≤ c.capacity := by
        have hall := c.bounded
        rw [h, List.length_cons] at hall
        omega
      some (x, { c with queue := rest, bounded := hrest })

/-- Drop the receiver, and with it whatever is still queued. -/
def close (c : Fifo α) : Fifo α :=
  { c with queue := [], closed := true, bounded := Nat.zero_le _ }

@[simp] theorem empty_queue (n : Nat) : (empty n : Fifo α).queue = [] := rfl

@[simp] theorem empty_closed (n : Nat) : (empty n : Fifo α).closed = false := rfl

@[simp] theorem close_queue (c : Fifo α) : c.close.queue = [] := rfl

@[simp] theorem close_closed (c : Fifo α) : c.close.closed = true := rfl

/-- What an accepted send does. -/
theorem trySend_ok {c d : Fifo α} {x : α} (h : c.trySend x = .ok d) :
    d.queue = c.queue ++ [x] ∧ d.closed = false := by
  unfold trySend at h
  split at h
  · cases h
  · rename_i hclosed
    split at h
    · obtain rfl := Except.ok.inj h
      exact ⟨rfl, by simpa using hclosed⟩
    · cases h

/-- A send whose result is ignored. -/
theorem getD_trySend_queue (c : Fifo α) (x : α) :
    ((c.trySend x).toOption.getD c).queue = if c.room then c.queue ++ [x] else c.queue := by
  unfold trySend room
  cases c.closed with
  | true => rfl
  | false =>
      by_cases h : c.queue.length < c.capacity
      · simp [h, Except.toOption]
      · simp [h, Except.toOption]

/-- What a receive does. -/
theorem recv_some {c d : Fifo α} {x : α} (h : c.recv = some (x, d)) :
    c.queue = x :: d.queue ∧ d.closed = c.closed := by
  unfold recv at h
  split at h
  · cases h
  · rename_i y rest hq
    obtain ⟨rfl, rfl⟩ := Prod.mk.injEq .. |>.mp (Option.some.inj h)
    exact ⟨hq, rfl⟩

theorem recv_eq_none {c : Fifo α} : c.recv = none ↔ c.queue = [] := by
  unfold recv
  split <;> simp_all

theorem recv_of_head {c : Fifo α} {x : α} (h : c.queue.head? = some x) :
    ∃ d, c.recv = some (x, d) := by
  obtain ⟨capacity, queue, closed, bounded⟩ := c
  cases queue with
  | nil => cases h
  | cons y rest =>
      obtain rfl := Option.some.inj h
      exact ⟨_, rfl⟩

/-! ## The capacity -/

theorem trySend_capacity {c d : Fifo α} {x : α} (h : c.trySend x = .ok d) :
    d.capacity = c.capacity := by
  unfold trySend at h
  split at h
  · cases h
  · split at h
    · exact Except.ok.inj h ▸ rfl
    · cases h

theorem recv_capacity {c d : Fifo α} {x : α} (h : c.recv = some (x, d)) :
    d.capacity = c.capacity := by
  unfold recv at h
  split at h
  · cases h
  · obtain ⟨-, rfl⟩ := Prod.mk.injEq .. |>.mp (Option.some.inj h)
    rfl

theorem getD_trySend_capacity (c : Fifo α) (x : α) :
    ((c.trySend x).toOption.getD c).capacity = c.capacity := by
  cases hsend : c.trySend x with
  | ok d => exact trySend_capacity hsend
  | error e => rfl

@[simp] theorem close_capacity (c : Fifo α) : c.close.capacity = c.capacity := rfl

theorem trySend_ne_closed {c : Fifo α} {x : α} (h : c.closed = false) :
    c.trySend x ≠ .error .closed := by
  unfold trySend
  rw [if_neg (by rw [h]; exact Bool.false_ne_true)]
  split <;> exact nofun

/-- A full channel has room for one more once one item is taken. -/
theorem trySend_full {c : Fifo α} {x : α} (h : c.trySend x = .error .full)
    (hpos : 0 < c.capacity) : ∃ y d, c.recv = some (y, d) ∧ ∃ e, d.trySend x = .ok e := by
  unfold trySend at h
  split at h
  · cases h
  · rename_i hclosed
    split at h
    · cases h
    · rename_i hfull
      obtain ⟨capacity, queue, closed, hbound⟩ := c
      cases queue with
      | nil => exact absurd hpos hfull
      | cons y rest =>
          have hroom : rest.length < capacity := hbound
          have hopen : closed = false := by simpa using hclosed
          refine ⟨y, ⟨capacity, rest, closed, Nat.le_of_lt hroom⟩, rfl, ?_⟩
          simp [trySend, hopen, hroom]

/-! ## Changing the items -/

variable {β : Type*}

def map (f : α → β) (c : Fifo α) : Fifo β :=
  ⟨c.capacity, c.queue.map f, c.closed, by rw [List.length_map]; exact c.bounded⟩

@[simp] theorem map_queue (f : α → β) (c : Fifo α) : (c.map f).queue = c.queue.map f := rfl

@[simp] theorem map_room (f : α → β) (c : Fifo α) : (c.map f).room = c.room := by
  simp [room, map]

/-- A channel does not look at its items. -/
theorem map_trySend (f : α → β) (c : Fifo α) (x : α) :
    (c.map f).trySend (f x) = (c.trySend x).map (map f) := by
  unfold trySend
  by_cases hclosed : c.closed = true
  · simp [map, hclosed, Except.map]
  · by_cases hroom : c.queue.length < c.capacity
    · simp [map, hclosed, hroom, Except.map]
    · simp [map, hclosed, hroom, Except.map]

theorem map_recv (f : α → β) (c : Fifo α) :
    (c.map f).recv = c.recv.map (Prod.map f (map f)) := by
  obtain ⟨capacity, queue, closed, bounded⟩ := c
  cases queue <;> rfl

/-! ## Sending over and over -/

/-- `d` is `c` after some sends: whatever was accepted stands behind what was
there, and a channel without a receiver accepts nothing. -/
def Extends (c d : Fifo α) : Prop :=
  d.closed = c.closed ∧ ∃ xs, d.queue = c.queue ++ xs ∧ (c.closed = true → xs = [])

theorem Extends.refl (c : Fifo α) : Extends c c :=
  ⟨rfl, [], (List.append_nil _).symm, fun _ => rfl⟩

theorem Extends.trans {c d e : Fifo α} (h : Extends c d) (h' : Extends d e) : Extends c e := by
  obtain ⟨hcd, xs, hxs, hnil⟩ := h
  obtain ⟨hde, ys, hys, hnil'⟩ := h'
  refine ⟨hde.trans hcd, xs ++ ys, by rw [hys, hxs, List.append_assoc], fun hc => ?_⟩
  rw [hnil hc, hnil' (hcd.trans hc), List.append_nil]

theorem extends_trySend {c d : Fifo α} {x : α} (h : c.trySend x = .ok d) : Extends c d := by
  have hopen : c.closed = false := by
    unfold trySend at h
    split at h
    · cases h
    · rename_i hclosed
      simpa using hclosed
  obtain ⟨hqueue, hclosed⟩ := trySend_ok h
  refine ⟨hclosed.trans hopen.symm, [x], hqueue, fun hc => ?_⟩
  rw [hopen] at hc
  cases hc

end Fifo
