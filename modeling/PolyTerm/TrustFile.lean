import PolyTerm.KnownHosts
import PolyTerm.SessionFiles

/-!
# The trust store on disk

A store is read when it is opened and written whole by every remembered key.
So long as the writes go through, the file holds what the store has
(`Synced`), and reopening changes nothing: over any such run the store is the
map that the file was at first with the remembered keys written over it
(`status_last_write`). With several entries for one triple in the file the
first counts, for the look-up and for the update alike.
-/

namespace PolyTerm

open Saved (Entry ReadError)

/-! ## The store and its file -/

/-- What `serde_json` makes of the entries, and of a file. -/
structure TrustFormat (Text : Type) where
  encode : List HostKey → Text
  decode : Text → Option (List HostKey)
  decode_encode : ∀ hosts, decode (encode hosts) = some hosts

variable {Text : Type}

/-- The entries of a file. One that fails to parse has none, nor has one that
is missing. -/
def TrustFormat.entries (format : TrustFormat Text) (file : Entry Text) : List HostKey :=
  match file with
  | .file text => (format.decode text).getD []
  | _ => []

namespace KnownHosts

def «open» (format : TrustFormat Text) (path : String) (file : Entry Text) :
    Except ReadError KnownHosts :=
  match file.read with
  | .ok text => .ok ⟨path, (format.decode text).getD []⟩
  | .error .notFound => .ok ⟨path, []⟩
  | .error e => .error e

theorem open_eq_ok {format : TrustFormat Text} {path : String} {file : Entry Text}
    {s : KnownHosts} (h : «open» format path file = .ok s) :
    s = ⟨path, format.entries file⟩ := by
  cases file with
  | missing => exact (Except.ok.inj h).symm
  | directory => cases h
  | unreadable visible e => cases h
  | file text => exact (Except.ok.inj h).symm

/-- What is saved is what a later open finds. -/
theorem open_encode (format : TrustFormat Text) (s : KnownHosts) :
    «open» format s.path (.file (format.encode s.hosts)) = .ok s := by
  simp only [«open», Entry.read, format.decode_encode, Option.getD_some]

/-- The file after a save. -/
def saveFile (format : TrustFormat Text) (s : KnownHosts) (written : Bool) (file : Entry Text) :
    Entry Text :=
  if s.path.isEmpty || !written then file else .file (format.encode s.hosts)

end KnownHosts

/-! ## Runs -/

inductive TrustOp where
  /-- `written`: the outcome of the atomic write -/
  | remember (id : HostId) (key : Bytes) (written : Bool)
  | reopen
deriving DecidableEq, Repr

/-- The open store, and the file behind it. -/
structure TrustStore (Text : Type) where
  store : KnownHosts
  file : Entry Text

namespace TrustStore

def «open» (format : TrustFormat Text) (path : String) (file : Entry Text) :
    Except ReadError (TrustStore Text) :=
  (KnownHosts.open format path file).map fun store => ⟨store, file⟩

def step (format : TrustFormat Text) (t : TrustStore Text) :
    TrustOp → Except ReadError (TrustStore Text)
  | .remember id key written =>
      let store := (t.store.rememberHostKey id key written).1
      .ok ⟨store, store.saveFile format written t.file⟩
  | .reopen => «open» format t.store.path t.file

def run (format : TrustFormat Text) (t : TrustStore Text) :
    List TrustOp → Except ReadError (TrustStore Text)
  | [] => .ok t
  | op :: ops => (t.step format op).bind fun t => run format t ops

end TrustStore

/-- The step goes through: a remembered key was written. -/
def TrustOp.Succeeds : TrustOp → Prop
  | .remember _ _ written => written = true
  | .reopen => True

instance : DecidablePred TrustOp.Succeeds
  | .remember _ _ written => inferInstanceAs (Decidable (written = true))
  | .reopen => inferInstanceAs (Decidable True)

/-- The keys remembered, as writes to the map of recorded keys. -/
def TrustOp.writes : TrustOp → List (HostId × Option Bytes)
  | .remember id key _ => [(id, some key)]
  | .reopen => []

/-! ## One step -/

namespace TrustStore

variable {format : TrustFormat Text} {path : String} {file : Entry Text} {s t : TrustStore Text}
  {op : TrustOp}

/-- The file has what the store has. -/
structure Synced (format : TrustFormat Text) (path : String) (t : TrustStore Text) : Prop where
  path_eq : t.store.path = path
  file_eq : KnownHosts.open format path t.file = .ok t.store

theorem open_synced (h : «open» format path file = .ok t) :
    t.Synced format path ∧ t.store.hosts = format.entries file := by
  rw [«open»] at h
  cases hstore : KnownHosts.open format path file with
  | error e => rw [hstore] at h; cases h
  | ok store =>
      rw [hstore] at h
      obtain rfl := Except.ok.inj h
      have heq := KnownHosts.open_eq_ok hstore
      exact ⟨⟨congrArg KnownHosts.path heq, hstore⟩, congrArg KnownHosts.hosts heq⟩

theorem Synced.step_remember (h : s.Synced format path) (hpath : path ≠ "") (id : HostId)
    (key : Bytes) : ∃ t, s.step format (.remember id key true) = .ok t ∧ t.Synced format path ∧
      t.store.recorded = Function.update s.store.recorded id (some key) := by
  refine ⟨_, rfl, ⟨h.path_eq, ?_⟩, KnownHosts.recorded_remember s.store id key true⟩
  have hnonempty : s.store.path.isEmpty = false := by
    rw [h.path_eq]
    exact Bool.eq_false_iff.mpr fun he => hpath (String.isEmpty_iff.mp he)
  have hsaved : (s.store.rememberHostKey id key true).1.saveFile format true s.file =
      .file (format.encode (s.store.rememberHostKey id key true).1.hosts) := by
    rw [KnownHosts.saveFile, if_neg (by simpa [KnownHosts.rememberHostKey] using hnonempty)]
  rw [hsaved, ← h.path_eq]
  exact KnownHosts.open_encode format (s.store.rememberHostKey id key true).1

theorem Synced.step_reopen (h : s.Synced format path) : s.step format .reopen = .ok s := by
  rw [step, «open», h.path_eq, h.file_eq]
  rfl

/-- A step that goes through leaves store and file in agreement, and writes
what it writes to the map. -/
theorem Synced.step (h : s.Synced format path) (hpath : path ≠ "") (hop : op.Succeeds) :
    ∃ t, s.step format op = .ok t ∧ t.Synced format path ∧
      t.store.recorded = Writes.apply s.store.recorded op.writes := by
  cases op with
  | remember id key written =>
      obtain rfl : written = true := hop
      exact h.step_remember hpath id key
  | reopen => exact ⟨s, h.step_reopen, h, rfl⟩

/-! ## Runs -/

theorem Synced.run (hpath : path ≠ "") {ops : List TrustOp} (hops : ∀ op ∈ ops, op.Succeeds)
    (h : s.Synced format path) :
    ∃ t, s.run format ops = .ok t ∧ t.Synced format path ∧
      t.store.recorded = Writes.apply s.store.recorded (ops.flatMap TrustOp.writes) := by
  induction ops generalizing s with
  | nil => exact ⟨s, rfl, h, rfl⟩
  | cons op ops ih =>
      obtain ⟨m, hm, hsync, hrec⟩ := h.step hpath (hops op List.mem_cons_self)
      obtain ⟨t, ht, hsync', hrec'⟩ := ih (fun o ho => hops o (List.mem_cons_of_mem _ ho)) hsync
      refine ⟨t, ?_, hsync', ?_⟩
      · rw [TrustStore.run, hm]
        exact ht
      · rw [hrec', hrec, List.flatMap_cons, Writes.apply_append]

end TrustStore

/-! ## The store as a last-write map -/

/-- The key most recently remembered for a triple. -/
def lastRemembered (id : HostId) (ops : List TrustOp) : Option Bytes :=
  (ops.filterMap fun
    | .remember id' key _ => if id' = id then some key else none
    | .reopen => none).getLast?

/-- The first key that the file has for a triple. -/
def firstRecorded (format : TrustFormat Text) (file : Entry Text) (id : HostId) : Option Bytes :=
  ((format.entries file).find? fun h => h.id = id).map HostKey.key

theorem apply_writes (store : HostId → Option Bytes) (ops : List TrustOp) (id : HostId) :
    Writes.apply store (ops.flatMap TrustOp.writes) id =
      (lastRemembered id ops).or (store id) := by
  induction ops using List.reverseRecOn with
  | nil => rfl
  | append_singleton ops op ih =>
      rw [List.flatMap_append, Writes.apply_append, lastRemembered, List.filterMap_append]
      cases op with
      | reopen => simpa [TrustOp.writes, lastRemembered] using ih
      | remember id' key written =>
          by_cases hid : id' = id
          · subst hid
            simp [TrustOp.writes, Writes.apply]
          · simpa [TrustOp.writes, Writes.apply, hid, Function.update_of_ne (Ne.symm hid),
              lastRemembered] using ih

/-- A triple that is recorded gets no second entry; another one gets one. -/
theorem ids_recordKey (id : HostId) (key : Bytes) (hs : List HostKey) :
    (KnownHosts.recordKey id key hs).map HostKey.id =
      if id ∈ hs.map HostKey.id then hs.map HostKey.id else hs.map HostKey.id ++ [id] := by
  induction hs with
  | nil => rfl
  | cons h hs ih =>
      by_cases hid : h.id = id
      · simp [KnownHosts.recordKey, hid]
      · have hid' : id ≠ h.id := Ne.symm hid
        simp only [KnownHosts.recordKey, hid, if_false, List.map_cons, ih, List.mem_cons, hid',
          false_or]
        split <;> rfl

/-- Open any file that opens at all, and remember keys and reopen the store in
any order, every save going through. Then a key's status is that of the last
key remembered for its triple, or else of the first in the file; and
remembering another changes no other triple's status, and adds no entry for a
triple that has one. -/
theorem status_last_write (format : TrustFormat Text) (path : String) (hpath : path ≠ "")
    (file : Entry Text) (s : TrustStore Text) (hopen : TrustStore.open format path file = .ok s)
    (ops : List TrustOp) (hops : ∀ op ∈ ops, op.Succeeds) :
    ∃ t, s.run format ops = .ok t ∧
      (∀ id key,
        (t.store.knownHostStatus id key = .match ↔
          (lastRemembered id ops).or (firstRecorded format file id) = some key) ∧
        (t.store.knownHostStatus id key = .changed ↔
          ∃ k, (lastRemembered id ops).or (firstRecorded format file id) = some k ∧ k ≠ key) ∧
        (t.store.knownHostStatus id key = .unknown ↔
          (lastRemembered id ops).or (firstRecorded format file id) = none)) ∧
      ∀ id key written,
        (∀ id' key', id' ≠ id →
          (t.store.rememberHostKey id key written).1.knownHostStatus id' key' =
            t.store.knownHostStatus id' key') ∧
        (id ∈ t.store.hosts.map HostKey.id →
          (t.store.rememberHostKey id key written).1.hosts.map HostKey.id =
            t.store.hosts.map HostKey.id) := by
  obtain ⟨hsync, hhosts⟩ := TrustStore.open_synced hopen
  obtain ⟨t, ht, -, hrec⟩ := hsync.run hpath hops
  have hrecorded : ∀ id, t.store.recorded id =
      (lastRemembered id ops).or (firstRecorded format file id) := fun id => by
    rw [hrec, apply_writes, KnownHosts.recorded, hhosts, firstRecorded]
  refine ⟨t, ht, fun id key => ?_, fun id key written => ⟨fun id' key' hid => ?_, fun hmem => ?_⟩⟩
  · rw [← hrecorded]
    exact ⟨KnownHosts.status_match, KnownHosts.status_changed, KnownHosts.status_unknown⟩
  · rw [KnownHosts.knownHostStatus_eq, KnownHosts.knownHostStatus_eq, KnownHosts.recorded_remember,
      Function.update_of_ne hid]
  · exact (ids_recordKey id key t.store.hosts).trans (if_pos hmem)

/-! ## A file with two keys for one triple -/

/-- A text is the entries it was printed from. -/
def trustEntries : TrustFormat (List HostKey) where
  encode hosts := hosts
  decode := some
  decode_encode _ := rfl

/-- The first of the two is replaced, and the store reopened. -/
theorem status_last_write_edited :
    ∃ t, TrustStore.run trustEntries
        ⟨⟨"known_hosts.json", [⟨⟨"h", 22, "rsa"⟩, [1]⟩, ⟨⟨"h", 22, "rsa"⟩, [2]⟩]⟩,
          .file [⟨⟨"h", 22, "rsa"⟩, [1]⟩, ⟨⟨"h", 22, "rsa"⟩, [2]⟩]⟩
        [.remember ⟨"h", 22, "rsa"⟩ [3] true, .reopen] = .ok t ∧
      t.store.knownHostStatus ⟨"h", 22, "rsa"⟩ [3] = .match := by
  obtain ⟨t, ht, hstatus, -⟩ := status_last_write trustEntries "known_hosts.json" (by decide)
    (.file [⟨⟨"h", 22, "rsa"⟩, [1]⟩, ⟨⟨"h", 22, "rsa"⟩, [2]⟩]) _ rfl
    [.remember ⟨"h", 22, "rsa"⟩ [3] true, .reopen] (by decide)
  exact ⟨t, ht, (hstatus _ _).1.mpr (by decide)⟩

end PolyTerm
