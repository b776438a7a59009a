import PolyTerm.Fifo

/-!
# Tasks between two channels

A relay takes the oldest item of one channel and sends it to the next, one item
at a time; it waits when there is nothing to take and when there is no room, so
a reader that is slow is felt at the far end. It ends when there is nothing
left to take and never will be, and when nobody receives what it sends.
-/

inductive Relay (α : Type*) where
  | receiving
  | sending (x : α)
  | ended
deriving DecidableEq, Repr

namespace Relay

variable {α : Type*} {r r' : Relay α} {c c' : Fifo α}

/-- The item in its hand. -/
def held : Relay α → List α
  | .sending x => [x]
  | _ => []

def isEnded : Relay α → Bool
  | .ended => true
  | _ => false

/-- Take an item. With nothing queued it ends once nobody sends (`gone`), and
drops its receiver. -/
def take (r : Relay α) (c : Fifo α) (gone : Bool) : Option (Relay α × Fifo α) :=
  match r with
  | .receiving =>
      match c.recv with
      | some (x, c) => some (.sending x, c)
      | none => if gone then some (.ended, c.close) else none
  | _ => none

/-- Send the item on. It ends when nobody receives. -/
def give (r : Relay α) (c : Fifo α) : Option (Relay α × Fifo α) :=
  match r with
  | .sending x =>
      match c.trySend x with
      | .ok c => some (.receiving, c)
      | .error .full => none
      | .error .closed => some (.ended, c)
  | _ => none

@[simp] theorem held_receiving : (receiving : Relay α).held = [] := rfl

@[simp] theorem held_sending (x : α) : (sending x).held = [x] := rfl

@[simp] theorem held_ended : (ended : Relay α).held = [] := rfl

@[simp] theorem isEnded_receiving : (receiving : Relay α).isEnded = false := rfl

@[simp] theorem isEnded_sending (x : α) : (sending x).isEnded = false := rfl

@[simp] theorem isEnded_ended : (ended : Relay α).isEnded = true := rfl

theorem isEnded_iff : r.isEnded = true ↔ r = .ended := by
  cases r <;> simp

theorem held_length_le (r : Relay α) : r.held.length ≤ 1 := by
  cases r <;> simp

/-! ## What a move does -/

/-- A relay that takes has taken the oldest item, or found that there is none and
will be none. -/
theorem take_cases {gone : Bool} (h : r.take c gone = some (r', c')) :
    r = .receiving ∧
      ((∃ x, r' = .sending x ∧ c.recv = some (x, c')) ∨
        (r' = .ended ∧ c.queue = [] ∧ gone = true ∧ c' = c.close)) := by
  unfold take at h
  split at h
  · refine ⟨rfl, ?_⟩
    split at h
    · rename_i x d hrecv
      obtain ⟨rfl, rfl⟩ := Prod.mk.injEq .. |>.mp (Option.some.inj h)
      exact .inl ⟨x, rfl, hrecv⟩
    · rename_i hrecv
      obtain ⟨hgone, heq⟩ := Option.ite_none_right_eq_some.mp h
      obtain ⟨rfl, rfl⟩ := Prod.mk.injEq .. |>.mp (Option.some.inj heq)
      exact .inr ⟨rfl, Fifo.recv_eq_none.mp hrecv, hgone, rfl⟩
  · cases h

/-- A relay that gives has sent its item, or found that nobody takes it. -/
theorem give_cases (h : r.give c = some (r', c')) :
    ∃ x, r = .sending x ∧
      ((r' = .receiving ∧ c.trySend x = .ok c') ∨
        (r' = .ended ∧ c.closed = true ∧ c' = c)) := by
  unfold give at h
  split at h
  · rename_i x
    refine ⟨x, rfl, ?_⟩
    split at h
    · rename_i d hsend
      obtain ⟨rfl, rfl⟩ := Prod.mk.injEq .. |>.mp (Option.some.inj h)
      exact .inl ⟨rfl, hsend⟩
    · cases h
    · rename_i hclosed
      obtain ⟨rfl, rfl⟩ := Prod.mk.injEq .. |>.mp (Option.some.inj h)
      refine .inr ⟨rfl, ?_, rfl⟩
      by_contra hopen
      exact Fifo.trySend_ne_closed (by simpa using hopen) hclosed
  · cases h

/-! ## Its source -/

/-- A relay drops the receiver of its source when it ends, and it ends only once
nobody receives what it sends (`shut`) or nobody sends what it takes (`gone`). -/
structure Serves (gone : Bool) (c : Fifo α) (r : Relay α) (shut : Bool) : Prop where
  closed : c.closed = r.isEnded
  empty : c.closed = true → c.queue = []
  ended : r = .ended → shut = true ∨ gone = true

namespace Serves

variable {gone gone' shut shut' : Bool} {x : α}

theorem fresh (capacity : Nat) : Serves gone (.empty capacity) (receiving : Relay α) shut :=
  ⟨rfl, nofun, nofun⟩

theorem mono (h : Serves gone c r shut) (hgone : gone = true → gone' = true)
    (hshut : shut = true → shut' = true) : Serves gone' c r shut' :=
  ⟨h.closed, h.empty, fun hended => (h.ended hended).imp hshut hgone⟩

theorem sent (h : Serves gone c r shut) (hsend : c.trySend x = .ok c') : Serves gone c' r shut := by
  have hopen : c.closed = false := by
    by_contra hne
    have hclosed : c.closed = true := by simpa using hne
    simp [Fifo.trySend, hclosed] at hsend
  obtain ⟨-, hopen'⟩ := Fifo.trySend_ok hsend
  refine ⟨hopen'.trans (hopen.symm.trans h.closed), fun hclosed => ?_, h.ended⟩
  rw [hopen'] at hclosed
  cases hclosed

theorem took (h : Serves gone c .receiving shut) (hrecv : c.recv = some (x, c')) :
    Serves gone c' (.sending x) shut := by
  obtain ⟨-, hsame⟩ := Fifo.recv_some hrecv
  have hopen : c'.closed = false := hsame.trans h.closed
  exact ⟨hopen, fun hclosed => absurd (hopen.symm.trans hclosed) nofun, nofun⟩

theorem gave (h : Serves gone c (.sending x) shut) : Serves gone c .receiving shut :=
  ⟨h.closed, h.empty, nofun⟩

theorem hungUp (hover : shut = true ∨ gone = true) : Serves gone c.close .ended shut :=
  ⟨rfl, fun _ => rfl, fun _ => hover⟩

end Serves

/-! ## When it can move -/

/-- A relay with something to take takes it. -/
theorem take_some (gone : Bool) (hne : c.queue ≠ []) :
    ∃ x d, (receiving : Relay α).take c gone = some (.sending x, d) ∧ c.queue = x :: d.queue := by
  cases hrecv : c.recv with
  | none => exact absurd (Fifo.recv_eq_none.mp hrecv) hne
  | some r => exact ⟨r.1, r.2, by simp [take, hrecv], (Fifo.recv_some hrecv).1⟩

/-- One with nothing to take ends when nobody sends. -/
theorem take_ends (hempty : c.queue = []) :
    (receiving : Relay α).take c true = some (.ended, c.close) := by
  simp [take, Fifo.recv_eq_none.mpr hempty]

/-- One with room ahead gives. -/
theorem give_some {x : α} (hopen : c.closed = false) (hroom : c.queue.length < c.capacity) :
    ∃ d, (sending x).give c = some (.receiving, d) ∧ c.trySend x = .ok d := by
  obtain ⟨d, hsend⟩ : ∃ d, c.trySend x = .ok d := by
    simp [Fifo.trySend, hopen, hroom]
  exact ⟨d, by simp [give, hsend], hsend⟩

/-- A relay only waits to give while the channel is full. -/
theorem give_waits {x : α} (h : (sending x).give c = none) :
    c.closed = false ∧ c.capacity ≤ c.queue.length := by
  unfold give at h
  dsimp only at h
  split at h
  · cases h
  · rename_i hfull
    unfold Fifo.trySend at hfull
    split at hfull
    · cases hfull
    · rename_i hclosed
      split at hfull
      · cases hfull
      · rename_i hroom
        exact ⟨by simpa using hclosed, Nat.not_lt.mp hroom⟩
  · cases h

/-- One whose item nobody takes ends. -/
theorem give_ends {x : α} (h : c.closed = true) : (sending x).give c = some (.ended, c) := by
  simp [give, Fifo.trySend, h]

/-! ## How much is left to do -/

/-- The turns left to a relay to which nothing comes any more. -/
def rank : Relay α → Nat
  | .receiving => 2
  | .sending _ => 1
  | .ended => 0

/-- The same where an item that is sent is gone, whoever receives. -/
def drainRank : Relay α → Nat
  | .receiving => 1
  | .sending _ => 2
  | .ended => 0

@[simp] theorem rank_receiving : (receiving : Relay α).rank = 2 := rfl

@[simp] theorem rank_sending (x : α) : (sending x).rank = 1 := rfl

@[simp] theorem rank_ended : (ended : Relay α).rank = 0 := rfl

@[simp] theorem drainRank_receiving : (receiving : Relay α).drainRank = 1 := rfl

@[simp] theorem drainRank_sending (x : α) : (sending x).drainRank = 2 := rfl

@[simp] theorem drainRank_ended : (ended : Relay α).drainRank = 0 := rfl

theorem rank_le (r : Relay α) : r.rank ≤ 2 := by
  cases r <;> simp

theorem drainRank_le (r : Relay α) : r.drainRank ≤ 2 := by
  cases r <;> simp

end Relay

namespace Fifo

variable {α : Type*} {c d : Fifo α} {x : α}

/-- The sends that do not wait, of a channel that is received. -/
def free (c : Fifo α) : Nat := if c.closed then 0 else c.capacity - c.queue.length

theorem free_le (c : Fifo α) : c.free ≤ c.capacity := by
  unfold free
  split <;> omega

@[simp] theorem free_close (c : Fifo α) : c.close.free = 0 := rfl

theorem free_trySend (h : c.trySend x = .ok d) : d.free + 1 = c.free := by
  obtain ⟨hqueue, hopen⟩ := trySend_ok h
  have hbound := d.bounded
  have hcapacity := trySend_capacity h
  have hclosed : c.closed = false := by
    by_contra hne
    simp [trySend, eq_true_of_ne_false hne] at h
  rw [hqueue, List.length_append, List.length_singleton] at hbound
  simp only [free, hopen, hclosed, hqueue, List.length_append, List.length_singleton,
    Bool.false_eq_true, if_false]
  omega

theorem free_recv (h : c.recv = some (x, d)) : d.free ≤ c.free + 1 := by
  obtain ⟨hqueue, hsame⟩ := recv_some h
  unfold free
  rw [hsame, recv_capacity h, hqueue, List.length_cons]
  split <;> omega

end Fifo
