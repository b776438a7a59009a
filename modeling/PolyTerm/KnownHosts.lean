import Mathlib.Data.List.Basic
import Mathlib.Logic.Function.Basic

/-!
# The known-hosts trust store

One recorded key per `(host, port, key_type)`. Seen from outside the store is
a last-write map (`recorded`): `known_host_status` compares the presented key
with the recorded one, and `remember_host_key` overwrites the entry of its
triple and no other (`recorded_remember`).
-/

namespace PolyTerm

abbrev Bytes := List UInt8

/-- How a presented host key compares to the store. -/
inductive KnownHostStatus where
  | unknown
  | «match»
  | changed
deriving DecidableEq, Repr

/-- What a host key is recorded under. -/
structure HostId where
  host : String
  port : UInt16
  keyType : String
deriving DecidableEq, Repr

structure HostKey where
  id : HostId
  key : Bytes
deriving DecidableEq, Repr

structure KnownHosts where
  path : String
  hosts : List HostKey
deriving DecidableEq, Repr

namespace KnownHosts

def knownHostStatus (s : KnownHosts) (id : HostId) (key : Bytes) : KnownHostStatus :=
  match s.hosts.find? fun h => h.id = id with
  | some h => if h.key = key then .match else .changed
  | none => .unknown

/-- Overwrite the first entry of `id`, or append one. -/
def recordKey (id : HostId) (key : Bytes) : List HostKey → List HostKey
  | [] => [⟨id, key⟩]
  | h :: hs => if h.id = id then { h with key := key } :: hs else h :: recordKey id key hs

/-- An in-memory store has nowhere to save; `written` is the outcome of the
atomic write otherwise. -/
def save (s : KnownHosts) (written : Bool) : Bool := s.path.isEmpty || written

/-- Record the key and save. The store is updated even when the save fails. -/
def rememberHostKey (s : KnownHosts) (id : HostId) (key : Bytes) (written : Bool) :
    KnownHosts × Bool :=
  let s' := { s with hosts := recordKey id key s.hosts }
  (s', s'.save written)

/-- The key recorded for `id`. -/
def recorded (s : KnownHosts) (id : HostId) : Option Bytes :=
  (s.hosts.find? fun h => h.id = id).map HostKey.key

/-! ## The store as a last-write map -/

theorem knownHostStatus_eq (s : KnownHosts) (id : HostId) (key : Bytes) :
    s.knownHostStatus id key =
      match s.recorded id with
      | some k => if k = key then .match else .changed
      | none => .unknown := by
  unfold knownHostStatus recorded
  cases s.hosts.find? fun h => h.id = id <;> rfl

theorem status_match {s : KnownHosts} {id : HostId} {key : Bytes} :
    s.knownHostStatus id key = .match ↔ s.recorded id = some key := by
  rw [knownHostStatus_eq]
  cases h : s.recorded id with
  | none => simp
  | some k => by_cases hk : k = key <;> simp [hk]

theorem status_unknown {s : KnownHosts} {id : HostId} {key : Bytes} :
    s.knownHostStatus id key = .unknown ↔ s.recorded id = none := by
  rw [knownHostStatus_eq]
  cases h : s.recorded id with
  | none => simp
  | some k => by_cases hk : k = key <;> simp [hk]

theorem status_changed {s : KnownHosts} {id : HostId} {key : Bytes} :
    s.knownHostStatus id key = .changed ↔ ∃ k, s.recorded id = some k ∧ k ≠ key := by
  rw [knownHostStatus_eq]
  cases h : s.recorded id with
  | none => simp
  | some k => by_cases hk : k = key <;> simp [hk]

theorem find_recordKey (id : HostId) (key : Bytes) (id' : HostId) : ∀ hs : List HostKey,
    ((recordKey id key hs).find? fun h => h.id = id').map HostKey.key =
      if id' = id then some key else (hs.find? fun h => h.id = id').map HostKey.key
  | [] => by
      by_cases hid : id' = id
      · simp [recordKey, hid]
      · simp [recordKey, hid, Ne.symm hid]
  | h :: hs => by
      have ih := find_recordKey id key id' hs
      by_cases hh : h.id = id
      · by_cases hid : id' = id
        · simp [recordKey, hh, hid]
        · simp [recordKey, hh, hid, Ne.symm hid]
      · by_cases hid : h.id = id'
        · have hne : id' ≠ id := fun e => hh (hid.trans e)
          simp [recordKey, hid, hne]
        · simp only [recordKey, hh, hid, if_false, List.find?_cons, decide_false, ih]

/-- Remembering overwrites one entry of the map. -/
theorem recorded_remember (s : KnownHosts) (id : HostId) (key : Bytes) (written : Bool) :
    (s.rememberHostKey id key written).1.recorded =
      Function.update s.recorded id (some key) := by
  funext id'
  simp only [rememberHostKey, recorded, find_recordKey, Function.update_apply]

end KnownHosts

end PolyTerm
