import PolyTerm.Fifo

/-!
# A bounded channel with a bounded backlog behind it

A sender that must not block keeps what a full channel refuses in a backlog,
flushes it into the channel when it can, and discards, marking that it did,
once the backlog is full too. While anything is in the backlog, `send` goes
there; `sendNow` is for items that may be lost instead and never waits.

`content` is what the receiver has yet to get, in the order it will get it.
For each operation there is one lemma that says what it does to `content`.
-/

structure Backlog (α : Type*) where
  channel : Fifo α
  pending : List α
  cap : Nat
  /-- an item was discarded, and the backlog has not been emptied since -/
  dropping : Bool
  bounded : pending.length ≤ cap

namespace Backlog

variable {α β : Type*}

def empty (capacity cap : Nat) : Backlog α := ⟨.empty capacity, [], cap, false, Nat.zero_le _⟩

def content (b : Backlog α) : List α := b.channel.queue ++ b.pending

/-! ## The operations -/

/-- Put `x` in the backlog, or discard it and mark that. -/
def enqueue (b : Backlog α) (x : α) : Backlog α :=
  if h : b.pending.length < b.cap then
    { b with pending := b.pending ++ [x], bounded := by rw [List.length_append]; exact h }
  else { b with dropping := true }

def send (b : Backlog α) (x : α) : Backlog α :=
  if b.pending.isEmpty then
    match b.channel.trySend x with
    | .ok channel => { b with channel := channel }
    | .error .full => b.enqueue x
    | .error .closed => b
  else b.enqueue x

/-- Send `x` now or lose it. -/
def sendNow (b : Backlog α) (x : α) : Backlog α :=
  match b.channel.trySend x with
  | .ok channel => { b with channel := channel }
  | .error _ => b

/-- Send the items while the channel has room; what is left of them, and
whether that is nothing. A channel without a receiver takes them all. -/
def flush (channel : Fifo α) : List α → Fifo α × List α × Bool
  | [] => (channel, [], true)
  | front :: rest =>
      match channel.trySend front with
      | .ok channel => flush channel rest
      | .error .full => (channel, front :: rest, false)
      | .error .closed => (channel, [], true)

theorem flush_length : ∀ (items : List α) (channel : Fifo α),
    (flush channel items).2.1.length ≤ items.length
  | [], _ => Nat.le_refl _
  | front :: rest, channel => by
      rw [flush]
      split
      · exact Nat.le_trans (flush_length rest _) (Nat.le_succ _)
      · exact Nat.le_refl _
      · exact Nat.zero_le _

def drain (b : Backlog α) : Backlog α where
  channel := (flush b.channel b.pending).1
  pending := (flush b.channel b.pending).2.1
  cap := b.cap
  dropping := !(flush b.channel b.pending).2.2 && b.dropping
  bounded := Nat.le_trans (flush_length b.pending b.channel) b.bounded

/-- The receiver takes the oldest item. -/
def recv (b : Backlog α) : Option (α × Backlog α) :=
  b.channel.recv.map fun got => (got.1, { b with channel := got.2 })

/-- The receiver goes away. -/
def close (b : Backlog α) : Backlog α := { b with channel := b.channel.close }

/-- Change the items. -/
def map (f : α → β) (b : Backlog α) : Backlog β :=
  ⟨b.channel.map f, b.pending.map f, b.cap, b.dropping, by rw [List.length_map]; exact b.bounded⟩

/-! ## What the operations do to the content -/

theorem enqueue_channel (b : Backlog α) (x : α) : (b.enqueue x).channel = b.channel := by
  unfold enqueue
  split <;> rfl

theorem enqueue_content (b : Backlog α) (x : α) :
    (b.enqueue x).content = b.content ++ if b.pending.length < b.cap then [x] else [] := by
  unfold enqueue content
  split <;> simp

/-- With a receiver, an item is kept unless the backlog is full. -/
theorem send_content {b : Backlog α} (hopen : b.channel.closed = false) (hcap : 0 < b.cap) (x : α) :
    (b.send x).content = b.content ++ if b.pending.length < b.cap then [x] else [] := by
  unfold send
  split
  · rename_i hnil
    have hpending : b.pending = [] := List.isEmpty_iff.mp hnil
    split
    · rename_i channel hsend
      simp [content, (Fifo.trySend_ok hsend).1, hpending, hcap]
    · exact enqueue_content b x
    · rename_i hsend
      simp [Fifo.trySend, hopen] at hsend
      split at hsend <;> cases hsend
  · exact enqueue_content b x

/-- An item goes behind all others or is lost. -/
theorem send_content_cases (b : Backlog α) (x : α) :
    (b.send x).content = b.content ++ [x] ∨ (b.send x).content = b.content := by
  have henqueue : (b.enqueue x).content = b.content ++ [x] ∨ (b.enqueue x).content = b.content := by
    rw [enqueue_content]
    split
    · exact Or.inl rfl
    · exact Or.inr (List.append_nil _)
  unfold send
  split
  · rename_i hnil
    split
    · rename_i channel hsend
      simp [content, (Fifo.trySend_ok hsend).1, List.isEmpty_iff.mp hnil]
    · exact henqueue
    · exact Or.inr rfl
  · exact henqueue

/-- An item sent now goes before the whole backlog. -/
theorem sendNow_content (b : Backlog α) (x : α) :
    (b.sendNow x).content =
      b.channel.queue ++ (if b.channel.room then [x] else []) ++ b.pending := by
  have hqueue := Fifo.getD_trySend_queue b.channel x
  unfold sendNow content
  cases hsend : b.channel.trySend x with
  | ok channel =>
      rw [hsend] at hqueue
      simp only [Except.toOption, Option.getD_some] at hqueue
      dsimp only
      rw [hqueue]
      split <;> simp
  | error e =>
      rw [hsend] at hqueue
      simp only [Except.toOption, Option.getD_none] at hqueue
      split at hqueue <;> simp_all

theorem flush_content {channel : Fifo α} (hopen : channel.closed = false) (items : List α) :
    (flush channel items).1.queue ++ (flush channel items).2.1 = channel.queue ++ items := by
  induction items generalizing channel with
  | nil => rfl
  | cons front rest ih =>
      rw [flush]
      split
      · rename_i channel' hsend
        obtain ⟨hqueue, hopen'⟩ := Fifo.trySend_ok hsend
        rw [ih hopen', hqueue, List.append_assoc, List.singleton_append]
      · rfl
      · rename_i hsend
        simp [Fifo.trySend, hopen] at hsend
        split at hsend <;> cases hsend

theorem flush_closed {channel : Fifo α} (hclosed : channel.closed = true) (items : List α) :
    flush channel items = (channel, [], true) := by
  cases items with
  | nil => rfl
  | cons front rest => simp [flush, Fifo.trySend, hclosed]

/-- Draining moves items and loses none. -/
theorem drain_content {b : Backlog α} (hopen : b.channel.closed = false) :
    b.drain.content = b.content := flush_content hopen b.pending

theorem drain_content_closed {b : Backlog α} (hclosed : b.channel.closed = true) :
    b.drain.content = b.channel.queue := by
  simp [drain, content, flush_closed hclosed]

theorem recv_content {b b' : Backlog α} {x : α} (h : b.recv = some (x, b')) :
    b.content = x :: b'.content := by
  obtain ⟨⟨y, channel⟩, hrecv, heq⟩ := Option.map_eq_some_iff.mp h
  obtain ⟨rfl, rfl⟩ := Prod.mk.inj heq
  simp [content, (Fifo.recv_some hrecv).1]

/-! ## What they do to the channel -/

theorem send_extends (b : Backlog α) (x : α) : b.channel.Extends (b.send x).channel := by
  have henqueue : b.channel.Extends (b.enqueue x).channel := by
    rw [enqueue_channel]
    exact .refl _
  unfold send
  split
  · split
    · rename_i hsend
      exact Fifo.extends_trySend hsend
    · exact henqueue
    · exact .refl _
  · exact henqueue

theorem sendNow_extends (b : Backlog α) (x : α) : b.channel.Extends (b.sendNow x).channel := by
  unfold sendNow
  split
  · rename_i hsend
    exact Fifo.extends_trySend hsend
  · exact .refl _

theorem flush_extends (items : List α) (channel : Fifo α) :
    channel.Extends (flush channel items).1 := by
  induction items generalizing channel with
  | nil => exact .refl _
  | cons front rest ih =>
      rw [flush]
      split
      · rename_i hsend
        exact (Fifo.extends_trySend hsend).trans (ih _)
      · exact .refl _
      · exact .refl _

theorem drain_extends (b : Backlog α) : b.channel.Extends b.drain.channel :=
  flush_extends b.pending b.channel

/-! ## The mark -/

theorem flush_drained (items : List α) (channel : Fifo α) :
    (flush channel items).2.2 = (flush channel items).2.1.isEmpty := by
  induction items generalizing channel with
  | nil => rfl
  | cons front rest ih =>
      rw [flush]
      split
      · exact ih _
      · rfl
      · rfl

/-- Everything is flushed when the channel has room for it, or no receiver. -/
theorem flush_eq_nil_iff (items : List α) (channel : Fifo α) :
    (flush channel items).2.1 = [] ↔
      channel.closed = true ∨ channel.queue.length + items.length ≤ channel.capacity := by
  induction items generalizing channel with
  | nil => simp [flush, channel.bounded]
  | cons front rest ih =>
      rw [flush, List.length_cons]
      cases hclosed : channel.closed with
      | true => simp [Fifo.trySend, hclosed]
      | false =>
          by_cases hroom : channel.queue.length < channel.capacity
          · simp only [Fifo.trySend, hclosed, Bool.false_eq_true, if_false, hroom, dif_pos, ih,
              List.length_append, List.length_singleton, false_or]
            omega
          · simp only [Fifo.trySend, hclosed, Bool.false_eq_true, if_false, hroom, dif_neg,
              not_false_eq_true, reduceCtorEq, false_or, false_iff]
            omega

/-- The mark goes when the backlog does. -/
theorem drain_dropping (b : Backlog α) :
    b.drain.dropping = (!b.drain.pending.isEmpty && b.dropping) := by
  simp only [drain, flush_drained]

/-- Which `send` sets the mark: one that finds the backlog full. -/
theorem send_dropping {b : Backlog α} (hcap : 0 < b.cap) (x : α) :
    (b.send x).dropping = (decide (b.cap ≤ b.pending.length) || b.dropping) := by
  have henqueue : (b.enqueue x).dropping = (decide (b.cap ≤ b.pending.length) || b.dropping) := by
    unfold enqueue
    split
    · rename_i hroom
      simp [Nat.not_le.mpr hroom]
    · rename_i hfull
      simp [Nat.not_lt.mp hfull]
  unfold send
  split
  · rename_i hnil
    have hpending : b.pending = [] := List.isEmpty_iff.mp hnil
    have hfull : ¬b.cap ≤ 0 := Nat.not_le.mpr hcap
    split
    · simp [hpending, hfull]
    · exact henqueue
    · simp [hpending, hfull]
  · exact henqueue

/-- A backlog that is not empty stays so until it is drained. -/
theorem send_pending (b : Backlog α) (x : α) :
    b.pending <+: (b.send x).pending := by
  have henqueue : b.pending <+: (b.enqueue x).pending := by
    unfold enqueue
    split
    · exact List.prefix_append _ _
    · exact List.prefix_refl _
  unfold send
  split
  · split
    · exact List.prefix_refl _
    · exact henqueue
    · exact List.prefix_refl _
  · exact henqueue

/-! ## Changing the items changes nothing else -/

@[simp] theorem map_channel (f : α → β) (b : Backlog α) :
    (b.map f).channel = b.channel.map f := rfl

@[simp] theorem map_pending (f : α → β) (b : Backlog α) :
    (b.map f).pending = b.pending.map f := rfl

@[simp] theorem map_dropping (f : α → β) (b : Backlog α) : (b.map f).dropping = b.dropping := rfl

theorem map_enqueue (f : α → β) (b : Backlog α) (x : α) :
    (b.enqueue x).map f = (b.map f).enqueue (f x) := by
  unfold enqueue
  by_cases hroom : b.pending.length < b.cap
  · simp [map, hroom]
  · simp [map, hroom]

theorem map_sendNow (f : α → β) (b : Backlog α) (x : α) :
    (b.sendNow x).map f = (b.map f).sendNow (f x) := by
  unfold sendNow
  rw [map_channel, Fifo.map_trySend]
  cases b.channel.trySend x <;> rfl

theorem map_send (f : α → β) (b : Backlog α) (x : α) :
    (b.send x).map f = (b.map f).send (f x) := by
  have hempty : (b.map f).pending.isEmpty = b.pending.isEmpty := by simp
  unfold send
  rw [hempty, map_channel, Fifo.map_trySend]
  cases b.pending.isEmpty with
  | false => exact map_enqueue f b x
  | true =>
      cases b.channel.trySend x with
      | ok channel => rfl
      | error e =>
          cases e with
          | full => exact map_enqueue f b x
          | closed => rfl

theorem map_flush (f : α → β) (items : List α) (channel : Fifo α) :
    flush (channel.map f) (items.map f) =
      ((flush channel items).1.map f, (flush channel items).2.1.map f,
        (flush channel items).2.2) := by
  induction items generalizing channel with
  | nil => rfl
  | cons front rest ih =>
      rw [List.map_cons, flush, flush, Fifo.map_trySend]
      cases channel.trySend front with
      | ok channel' => exact ih channel'
      | error e => cases e <;> rfl

theorem map_drain (f : α → β) (b : Backlog α) : b.drain.map f = (b.map f).drain := by
  simp [drain, map, map_flush]

end Backlog
