import PolyTerm.LibraryOnDisk
import PolyTerm.TrustFile

/-!
# The trust store on a real disk

Every remembered key saves the whole store, by the system calls of `AtomicWrite`.
Any of these can fail, and the app can be killed in any of them and started again,
any number of times. A key whose save failed is kept in memory and written with the
next; one that was not written when the app died is forgotten. Nothing else is:
at any time the file, and the store that is opened from it, are what the file was at
first with some of the remembered keys written over it, in their order, and all whose
save has returned are among these (`keys_survive`).
-/

namespace PolyTerm

open Runs Saved Writes

/-- The open store, the disk that its file is on, and whether the app died in a save. -/
structure TrustOnDisk (β : Type) where
  store : KnownHosts
  disk : Disk β
  dead : Bool

inductive TrustLabel where
  /-- the process `pid` remembers a key; its system calls come to `outcomes`, and if
  these do not get to the end it dies there -/
  | remember (pid : Nat) (id : HostId) (key : Bytes) (outcomes : List Outcome)
  /-- the app is started again, in whatever way it ended -/
  | restart
deriving DecidableEq, Repr

namespace TrustOnDisk

variable {β : Type} (format : TrustFormat (List β)) (fileOf : Path → FileId) (path : Path)

/-- The store with the key in memory; whether it is written comes after. -/
def recordedIn (s : TrustOnDisk β) (id : HostId) (key : Bytes) : KnownHosts :=
  (s.store.rememberHostKey id key true).1

/-- The system calls of the save. A store in memory makes none. -/
def calls (s : TrustOnDisk β) (pid : Nat) (id : HostId) (key : Bytes) (outcomes : List Outcome) :
    List (SaveLabel β) :=
  if s.store.path.isEmpty then []
  else Savers.calls pid [(path, format.encode (s.recordedIn id key).hosts)] outcomes

/-- Nobody else is saving. -/
def savers (s : TrustOnDisk β) : Savers β := ⟨s.disk, fun _ => none⟩

/-- What the save of a step returns; nothing if the app dies in it. -/
def returned (s : TrustOnDisk β) : TrustLabel → List (Except String Unit)
  | .remember pid id key outcomes =>
      if s.store.path.isEmpty then [.ok ()]
      else outputs (Savers.step fileOf) (Savers.returns fileOf) s.savers
        (s.calls format path pid id key outcomes)
  | .restart => []

def step (s : TrustOnDisk β) (l : TrustLabel) : Option (TrustOnDisk β) :=
  match l with
  | .remember pid id key outcomes =>
      if s.dead then none
      else (run (Savers.step fileOf) s.savers (s.calls format path pid id key outcomes)).map
        fun savers =>
          ⟨s.recordedIn id key, savers.disk, (s.returned format fileOf path l).isEmpty⟩
  | .restart =>
      (KnownHosts.open format s.store.path (s.disk (fileOf path))).toOption.map fun store =>
        ⟨store, s.disk, false⟩

/-- The keys remembered, as writes to the map of recorded keys. -/
def remembered (_ : TrustOnDisk β) : TrustLabel → List (HostId × Option Bytes)
  | .remember _ id key _ => [(id, some key)]
  | .restart => []

/-- Those whose save went through. -/
def acknowledged (s : TrustOnDisk β) (l : TrustLabel) : List (HostId × Option Bytes) :=
  match s.returned format fileOf path l with
  | [.ok _] => s.remembered l
  | _ => []

variable {format fileOf path} {N : Naming fileOf} {s t : TrustOnDisk β} {l : TrustLabel}
  {old : HostId → Option Bytes} {acked all : List (HostId × Option Bytes)}

/-! ## One save -/

/-- A path that is no temporary file, nor a directory above itself. -/
def Settled (N : Naming fileOf) (path : Path) : Prop :=
  N.Clear path ∧ ∀ dir ∈ path.directories, fileOf dir ≠ fileOf path

/-- A save that goes through replaces the file, any other leaves it. -/
theorem file_save {pid : Nat} {id : HostId} {key : Bytes} {outcomes : List Outcome}
    (hpath : Settled N path) (hname : s.store.path ≠ "")
    (h : s.step format fileOf path (.remember pid id key outcomes) = some t) :
    t.store = s.recordedIn id key ∧
      (t.disk (fileOf path) = .file (format.encode t.store.hosts) ∨
        t.disk (fileOf path) = s.disk (fileOf path) ∧
          s.acknowledged format fileOf path (.remember pid id key outcomes) = []) := by
  obtain ⟨-, h⟩ := Option.ite_none_left_eq_some.mp h
  obtain ⟨savers, hrun, rfl⟩ := Option.map_eq_some_iff.mp h
  refine ⟨rfl, ?_⟩
  have hnamed : ¬(s.store.path.isEmpty = true) := fun hempty => hname (String.isEmpty_iff.mp hempty)
  rw [calls, if_neg hnamed] at hrun
  let saves : List (Path × List β) := [(path, format.encode (s.recordedIn id key).hosts)]
  have hne : saves ≠ [] := List.cons_ne_nil _ _
  have hclear : ∀ save ∈ saves, N.Clear save.1 := by
    intro save hsave
    obtain rfl := List.mem_singleton.mp hsave
    exact hpath.1
  have hplain : N.Plain saves (fileOf path) := by
    refine ⟨hpath.1 path List.mem_cons_self, fun save hsave => ?_⟩
    obtain rfl := List.mem_singleton.mp hsave
    exact hpath.2
  obtain ⟨n, hholds, hresult⟩ := Savers.one_run N hne (fun _ => rfl) hclear hrun
  have hfile := hholds _ hplain
  have hnot : n < 1 → savers.disk (fileOf path) = s.disk (fileOf path) := by
    intro hn
    obtain rfl := Nat.lt_one_iff.mp hn
    exact hfile
  have hreturned : s.returned format fileOf path (.remember pid id key outcomes) =
      outputs (Savers.step fileOf) (Savers.returns fileOf) s.savers
        (Savers.calls pid saves outcomes) := by
    rw [returned, calls, if_neg hnamed, if_neg hnamed]
  rcases hresult with ⟨hnone, hn⟩ | ⟨hok, rfl⟩ | ⟨e, herror, hn⟩
  · exact .inr ⟨hnot hn, by rw [acknowledged, hreturned.trans hnone]⟩
  · refine .inl (hfile.trans ?_)
    simp [saves, saved, apply]
  · exact .inr ⟨hnot hn, by rw [acknowledged, hreturned.trans herror]⟩

/-! ## What is kept -/

/-- A map with some of the writes over the old one, all acknowledged ones among them. -/
def Holds (old : HostId → Option Bytes) (acked all : List (HostId × Option Bytes))
    (now : HostId → Option Bytes) : Prop :=
  ∃ ws, acked.Sublist ws ∧ ws.Sublist all ∧ now = apply old ws

theorem Holds.later {now : HostId → Option Bytes} (h : Holds old acked all now)
    (more : List (HostId × Option Bytes)) : Holds old acked (all ++ more) now := by
  obtain ⟨ws, hacked, hall, rfl⟩ := h
  exact ⟨ws, hacked, hall.trans (List.sublist_append_left _ _), rfl⟩

/-- A write over it, acknowledged or not. -/
theorem Holds.write {now : HostId → Option Bytes} (h : Holds old acked all now)
    {more : List (HostId × Option Bytes)} (w : HostId × Option Bytes) (hmore : more.Sublist [w]) :
    Holds old (acked ++ more) (all ++ [w]) (Function.update now w.1 w.2) := by
  obtain ⟨ws, hacked, hall, rfl⟩ := h
  refine ⟨ws ++ [w], hacked.append hmore, hall.append (List.Sublist.refl _), ?_⟩
  rw [apply_append]
  rfl

/-- The store and its file both hold the acknowledged keys, and the file can be opened. -/
structure Kept (format : TrustFormat (List β)) (fileOf : Path → FileId) (path : Path)
    (old : HostId → Option Bytes) (acked all : List (HostId × Option Bytes))
    (s : TrustOnDisk β) : Prop where
  store : Holds old acked all s.store.recorded
  file : Holds old acked all (firstRecorded format (s.disk (fileOf path)))
  opens : ∃ store, KnownHosts.open format s.store.path (s.disk (fileOf path)) = .ok store
  named : s.store.path ≠ ""

theorem firstRecorded_encode (store : KnownHosts) :
    firstRecorded format (.file (format.encode store.hosts)) = store.recorded := by
  funext id
  simp only [firstRecorded, TrustFormat.entries, format.decode_encode, Option.getD_some,
    KnownHosts.recorded]

theorem open_recorded {name : String} {file : Entry (List β)} {store : KnownHosts}
    (h : KnownHosts.open format name file = .ok store) :
    store.recorded = firstRecorded format file ∧ store.path = name := by
  obtain rfl := KnownHosts.open_eq_ok h
  exact ⟨rfl, rfl⟩

theorem acknowledged_sublist (format : TrustFormat (List β)) (fileOf : Path → FileId) (path : Path)
    (s : TrustOnDisk β) (l : TrustLabel) :
    (s.acknowledged format fileOf path l).Sublist (s.remembered l) := by
  unfold acknowledged
  split
  · exact List.Sublist.refl _
  · exact List.nil_sublist _

theorem Kept.remember {pid : Nat} {id : HostId} {key : Bytes} {outcomes : List Outcome}
    (hs : Kept format fileOf path old acked all s) (hpath : Settled N path)
    (h : s.step format fileOf path (.remember pid id key outcomes) = some t) :
    Kept format fileOf path old
      (acked ++ s.acknowledged format fileOf path (.remember pid id key outcomes))
      (all ++ [(id, some key)]) t := by
  obtain ⟨hstore, hfile⟩ := file_save hpath hs.named h
  have hnamed : t.store.path ≠ "" := by
    rw [hstore]
    exact hs.named
  have hrecorded : t.store.recorded = Function.update s.store.recorded id (some key) := by
    rw [hstore]
    exact KnownHosts.recorded_remember s.store id key true
  have hmemory := hs.store.write (id, some key)
    (acknowledged_sublist format fileOf path s (.remember pid id key outcomes))
  have hnew : Holds old
      (acked ++ s.acknowledged format fileOf path (.remember pid id key outcomes))
      (all ++ [(id, some key)]) t.store.recorded := by
    rw [hrecorded]
    exact hmemory
  rcases hfile with hwritten | ⟨hsame, hnone⟩
  · refine ⟨hnew, ?_, ?_, hnamed⟩
    · rw [hwritten, firstRecorded_encode]
      exact hnew
    · rw [hwritten]
      exact ⟨_, KnownHosts.open_encode format t.store⟩
  · refine ⟨hnew, ?_, ?_, hnamed⟩
    · rw [hsame, hnone, List.append_nil]
      exact hs.file.later _
    · rw [hsame, hstore]
      exact hs.opens

theorem Kept.restart (hs : Kept format fileOf path old acked all s)
    (h : s.step format fileOf path .restart = some t) : Kept format fileOf path old acked all t := by
  obtain ⟨store, hopen, rfl⟩ := Option.map_eq_some_iff.mp h
  obtain ⟨store', hstore'⟩ := hs.opens
  rw [hstore'] at hopen
  obtain rfl := Option.some.inj hopen
  obtain ⟨hmap, hname⟩ := open_recorded hstore'
  refine ⟨?_, hs.file, ⟨store', ?_⟩, ?_⟩
  · rw [hmap]
    exact hs.file
  · rw [hname]
    exact hstore'
  · rw [hname]
    exact hs.named

theorem Kept.step (hs : Kept format fileOf path old acked all s) (hpath : Settled N path)
    (h : s.step format fileOf path l = some t) :
    Kept format fileOf path old (acked ++ s.acknowledged format fileOf path l)
      (all ++ s.remembered l) t := by
  cases l with
  | remember pid id key outcomes => exact hs.remember hpath h
  | restart =>
      have hnone : s.acknowledged format fileOf path .restart = [] := rfl
      rw [hnone, remembered, List.append_nil, List.append_nil]
      exact hs.restart h

/-- Whatever the system calls come to, and however often the app dies and is started
again: the file and the open store have, over what the file had at first, some of
the remembered keys in their order, and among them all whose save has returned. The
app can always be started again. -/
theorem keys_survive (hpath : Settled N path) {name : String} (hname : name ≠ "")
    {disk : Disk β} {store : KnownHosts}
    (hopen : KnownHosts.open format name (disk (fileOf path)) = .ok store)
    {labels : List TrustLabel}
    (hrun : run (step format fileOf path) ⟨store, disk, false⟩ labels = some t) :
    let acked := outputs (step format fileOf path) (acknowledged format fileOf path)
      ⟨store, disk, false⟩ labels
    let all := outputs (step format fileOf path) remembered ⟨store, disk, false⟩ labels
    Holds store.recorded acked all t.store.recorded ∧
      Holds store.recorded acked all (firstRecorded format (t.disk (fileOf path))) ∧
      ∃ u, t.step format fileOf path .restart = some u ∧
        u.store.recorded = firstRecorded format (t.disk (fileOf path)) := by
  intro acked all
  have hkept : Kept format fileOf path store.recorded acked all t := by
    induction labels using List.reverseRecOn generalizing t with
    | nil =>
        obtain rfl := Option.some.inj hrun
        obtain ⟨hmap, rfl⟩ := open_recorded hopen
        have hnothing : ∀ now, now = store.recorded → Holds store.recorded [] [] now :=
          fun now hnow => ⟨[], List.Sublist.refl _, List.Sublist.refl _, hnow⟩
        exact ⟨hnothing _ rfl, hnothing _ hmap.symm, ⟨store, hopen⟩, hname⟩
    | append_singleton labels l ih =>
        obtain ⟨before, hbefore, hstep⟩ := run_concat.mp hrun
        have hlast := (ih hbefore).step hpath hstep
        rw [← outputs_concat hbefore hstep, ← outputs_concat hbefore hstep] at hlast
        exact hlast
  obtain ⟨u, hu⟩ := hkept.opens
  have hrestart : t.step format fileOf path .restart = some ⟨u, t.disk, false⟩ := by
    rw [step, hu]
    rfl
  exact ⟨hkept.store, hkept.file, _, hrestart, (open_recorded hu).1⟩

def sampleKnownHosts : Path := ⟨true, [.normal "home", .normal "known_hosts.json"]⟩

/-- One key is saved, the app is killed as it writes the next, and starts again. -/
def sampleRemembers : List TrustLabel :=
  [.remember 7 ⟨"h", 22, "rsa"⟩ [1] [.ok, .failed "none", .ok, .wrote 1, .ok],
    .remember 7 ⟨"g", 22, "rsa"⟩ [2] [.ok, .failed "none", .ok, .wrote 1], .restart]

theorem keys_survive_killed :
    ∃ t, run (step trustEntries flat sampleKnownHosts)
        ⟨⟨"known_hosts.json", []⟩, fun _ => .missing, false⟩ sampleRemembers = some t ∧
      Holds (fun _ => none) [(⟨"h", 22, "rsa"⟩, some [1])]
        [(⟨"h", 22, "rsa"⟩, some [1]), (⟨"g", 22, "rsa"⟩, some [2])] t.store.recorded := by
  have hrun : (run (step trustEntries flat sampleKnownHosts)
      ⟨⟨"known_hosts.json", []⟩, fun _ => .missing, false⟩ sampleRemembers).isSome = true := by rfl
  obtain ⟨t, ht⟩ := Option.isSome_iff_exists.mp hrun
  have hpath : Settled flatNaming sampleKnownHosts := ⟨flat_clear (by decide), by decide⟩
  exact ⟨t, ht, (keys_survive hpath (by decide) rfl ht).1⟩

end TrustOnDisk

end PolyTerm
