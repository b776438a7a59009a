import PolyTerm.Forward
import PolyTerm.Pane

/-!
# The two lists of forwards

What the two sides of a session hold about its forwards, with everything else
left out: the rows the UI shows, the requests and the statuses on their way,
and the forwards of the connection. A row is judged by what it will be once
every status on its way has been taken in (`outcome`), so that the pane's
reading and the relay's carrying change nothing.

`ForwardPlaces` and `ForwardList` say what its runs keep.
-/

namespace PolyTerm

inductive ForwardRequest where
  | add (id : ForwardId) (spec : ForwardSpec)
  | remove (id : ForwardId)
deriving DecidableEq, Repr

def ForwardRequest.id : ForwardRequest → ForwardId
  | .add id _ | .remove id => id

structure Ledger where
  rows : Table ForwardId ForwardStatus
  /-- statuses on their way to the pane -/
  inFlight : List ForwardStatus
  /-- requests on their way to the backend -/
  requests : List ForwardRequest
  connection : Connection
  earlier : Table ForwardId Forward
  minted : List ForwardId

inductive Move where
  /-- nothing that concerns the forwards -/
  | idle
  | request (id : ForwardId) (spec : ForwardSpec) (accepted : Bool)
  | withdraw (id : ForwardId) (accepted : Bool)
  /-- the pane takes in the first `n` statuses -/
  | drain (n : Nat)
  | handle
  /-- the backoff consumes a request -/
  | drop
  /-- the backend returns -/
  | dropAll
  | task (op : ForwardOp)
  | earlierReply (id : ForwardId) (refused : Option String)
  | earlierReport (id : ForwardId)
  | endConnection
deriving DecidableEq, Repr

namespace Ledger

def start : Ledger := ⟨∅, [], [], .empty, ∅, []⟩

def handle (g : Ledger) : ForwardRequest → Connection
  | .add id spec => g.connection.start id spec
  | .remove id => g.connection.stop id

/-- The UI asks for a forward and shows its row at once. -/
def request (g : Ledger) (id : ForwardId) (spec : ForwardSpec) (accepted : Bool) : Ledger :=
  { g with
    minted := id :: g.minted
    rows := g.rows.insert id ⟨id, spec, .starting⟩
    requests := if accepted then g.requests ++ [.add id spec] else g.requests }

/-- The UI asks for a removal and drops the row at once. -/
def withdraw (g : Ledger) (id : ForwardId) (accepted : Bool) : Ledger :=
  { g with
    rows := g.rows.erase id
    requests := if accepted then g.requests ++ [.remove id] else g.requests }

def step (g : Ledger) : Move → Option Ledger
  | .idle => some g
  | .request id spec accepted =>
      if id ∈ g.minted then none else some (g.request id spec accepted)
  | .withdraw id accepted => if id ∈ g.rows then some (g.withdraw id accepted) else none
  | .drain n => some { g with
      rows := (g.inFlight.take n).foldl LivePane.applyStatus g.rows
      inFlight := g.inFlight.drop n }
  | .handle =>
      match g.connection.stopping, g.requests with
      | none, r :: rest => some { g with requests := rest, connection := g.handle r }
      | _, _ => none
  | .drop =>
      match g.requests with
      | _ :: rest =>
          if g.connection.forwards = ∅ then some { g with requests := rest } else none
      | [] => none
  | .dropAll => if g.connection.forwards = ∅ then some { g with requests := [] } else none
  | .task (.add _ _) | .task (.remove _) => none
  | .task op => (g.connection.step op).map fun connection =>
      { g with
        connection := connection
        inFlight := g.inFlight ++ (g.connection.emits op).toList }
  | .earlierReply id refused =>
      match g.earlier.lookup id with
      | some ⟨spec, .asking⟩ =>
          let f : Forward := ⟨spec, .reporting (Connection.outcomeOf spec refused)⟩
          some { g with earlier := g.earlier.insert id f }
      | _ => none
  | .earlierReport id =>
      match g.earlier.lookup id with
      | some ⟨spec, .reporting outcome⟩ => some { g with
          earlier := g.earlier.insert id ⟨spec, .settled outcome⟩
          inFlight := g.inFlight ++ [⟨id, spec, outcome⟩] }
      | _ => none
  | .endConnection =>
      if g.connection.stopping = none then
        some { g with connection := .empty, earlier := g.earlier ∪ g.connection.abortAll }
      else none

/-! ## Rows, once every status is in -/

/-- The row a status leaves. -/
def rowOf (status : ForwardStatus) : Option ForwardStatus :=
  if status.state = .closed then none else some status

/-- What a row is after some statuses. -/
def rowAfter (id : ForwardId) (row : Option ForwardStatus) (statuses : List ForwardStatus) :
    Option ForwardStatus :=
  statuses.foldl (fun row status => if status.id = id then rowOf status else row) row

/-- The statuses on their way, that of a removal in progress included. -/
def coming (g : Ledger) : List ForwardStatus :=
  g.inFlight ++ (g.connection.stopping.map Stopping.status).toList

def outcome (g : Ledger) (id : ForwardId) : Option ForwardStatus :=
  rowAfter id (g.rows.lookup id) g.coming

theorem rowAfter_append (id : ForwardId) (row : Option ForwardStatus)
    (xs ys : List ForwardStatus) :
    rowAfter id row (xs ++ ys) = rowAfter id (rowAfter id row xs) ys :=
  List.foldl_append

theorem rowAfter_concat (id : ForwardId) (row : Option ForwardStatus)
    (xs : List ForwardStatus) (status : ForwardStatus) :
    rowAfter id row (xs ++ [status]) =
      if status.id = id then rowOf status else rowAfter id row xs := by
  rw [rowAfter_append]
  rfl

/-- A row nothing is said about stays. -/
theorem rowAfter_silent {id : ForwardId} {xs : List ForwardStatus} (h : ∀ x ∈ xs, x.id ≠ id)
    (row : Option ForwardStatus) : rowAfter id row xs = row := by
  induction xs generalizing row with
  | nil => rfl
  | cons x xs ih =>
      have hx : x.id ≠ id := h x List.mem_cons_self
      have hrest := ih fun y hy => h y (List.mem_cons_of_mem _ hy)
      rw [rowAfter, List.foldl_cons, if_neg hx]
      exact hrest row

/-- Once something is said about a row, what it was does not matter. -/
theorem rowAfter_told {id : ForwardId} {xs : List ForwardStatus} (h : ∃ x ∈ xs, x.id = id)
    (row row' : Option ForwardStatus) : rowAfter id row xs = rowAfter id row' xs := by
  induction xs generalizing row row' with
  | nil => simp at h
  | cons x xs ih =>
      rw [rowAfter, rowAfter, List.foldl_cons, List.foldl_cons]
      by_cases hx : x.id = id
      · rw [if_pos hx, if_pos hx]
      · rw [if_neg hx, if_neg hx]
        obtain ⟨y, hy, hid⟩ := h
        rcases List.mem_cons.mp hy with rfl | hy
        · exact absurd hid hx
        · exact ih ⟨y, hy, hid⟩ row row'

theorem lookup_applyStatus (rows : Table ForwardId ForwardStatus) (status : ForwardStatus)
    (id : ForwardId) :
    (LivePane.applyStatus rows status).lookup id =
      if status.id = id then rowOf status else rows.lookup id := by
  unfold LivePane.applyStatus rowOf
  by_cases hid : status.id = id
  · subst hid
    split <;> simp
  · have hne : id ≠ status.id := fun h => hid h.symm
    rw [if_neg hid]
    split
    · rw [AList.lookup_erase_ne hne]
    · rw [AList.lookup_insert_ne hne]

theorem lookup_foldl_applyStatus (id : ForwardId) (statuses : List ForwardStatus)
    (rows : Table ForwardId ForwardStatus) :
    (statuses.foldl LivePane.applyStatus rows).lookup id =
      rowAfter id (rows.lookup id) statuses := by
  induction statuses generalizing rows with
  | nil => rfl
  | cons status statuses ih =>
      rw [List.foldl_cons, ih, lookup_applyStatus]
      rfl

/-! ## What a task does -/

/-- The moves of the tasks: one learns its outcome, one reports it, or the
removal in progress moves on. -/
inductive TaskMoved (g h : Ledger) : ForwardOp → Prop
  | replied (id : ForwardId) (spec : ForwardSpec) (refused : Option String)
      (listens : List Bind)
      (htask : g.connection.task id = some ⟨spec, .asking⟩)
      (heq : h = { g with connection :=
        { g.connection.setStage id (.reporting (Connection.outcomeOf spec refused)) with
          listens := listens } }) :
      TaskMoved g h (.reply id refused)
  | reported (id : ForwardId) (spec : ForwardSpec) (outcome : ForwardState)
      (htask : g.connection.task id = some ⟨spec, .reporting outcome⟩)
      (heq : h = { g with
        connection := g.connection.setStage id (.settled outcome)
        inFlight := g.inFlight ++ [⟨id, spec, outcome⟩] }) :
      TaskMoved g h (.report id)
  | cancelled (id : ForwardId) (spec : ForwardSpec) (listens : List Bind)
      (hstopping : g.connection.stopping = some ⟨id, spec, true⟩)
      (heq : h = { g with connection :=
        { g.connection with listens := listens, stopping := some ⟨id, spec, false⟩ } }) :
      TaskMoved g h .cancelled
  | closed (id : ForwardId) (spec : ForwardSpec)
      (hstopping : g.connection.stopping = some ⟨id, spec, false⟩)
      (heq : h = { g with
        connection := { g.connection with stopping := none }
        inFlight := g.inFlight ++ [⟨id, spec, .closed⟩] }) :
      TaskMoved g h .reportClosed

theorem task_moved {g h : Ledger} {op : ForwardOp} (hstep : g.step (.task op) = some h) :
    TaskMoved g h op := by
  cases op with
  | add id spec => cases hstep
  | remove id => cases hstep
  | reply id refused =>
      obtain ⟨c, hc, rfl⟩ := Option.map_eq_some_iff.mp hstep
      simp only [Connection.step] at hc
      split at hc
      · rename_i spec htask
        simp only [Connection.emits, Option.toList, List.append_nil]
        split at hc
        all_goals
          obtain rfl := Option.some.inj hc
          exact .replied id spec refused _ htask rfl
      · cases hc
  | report id =>
      obtain ⟨c, hc, rfl⟩ := Option.map_eq_some_iff.mp hstep
      simp only [Connection.step] at hc
      split at hc
      · rename_i spec outcome htask
        obtain rfl := Option.some.inj hc
        refine .reported id spec outcome htask ?_
        simp [Connection.emits, htask]
      · cases hc
  | cancelled =>
      obtain ⟨c, hc, rfl⟩ := Option.map_eq_some_iff.mp hstep
      simp only [Connection.step] at hc
      split at hc
      · rename_i id spec hstopping
        obtain rfl := Option.some.inj hc
        refine .cancelled id spec (g.connection.listens.filter (· ≠ spec.bind)) hstopping ?_
        simp [Connection.emits]
      · cases hc
  | reportClosed =>
      obtain ⟨c, hc, rfl⟩ := Option.map_eq_some_iff.mp hstep
      simp only [Connection.step] at hc
      split at hc
      · rename_i id spec hstopping
        obtain rfl := Option.some.inj hc
        refine .closed id spec hstopping ?_
        simp [Connection.emits, hstopping]
      · cases hc

end Ledger

end PolyTerm
