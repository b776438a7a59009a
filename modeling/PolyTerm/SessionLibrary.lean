import Mathlib.Data.List.Dedup
import Mathlib.Data.List.Sort
import PolyTerm.Runs
import PolyTerm.SessionFiles
import PolyTerm.Text

/-!
# The session library

A set of session files behind one index. Each file's contents show as one
top-level folder, whose name the index gives; a file's folders are relative to
it. Every operation changes the tree in memory and then writes the files it
touched, one after the other, up to the first write that fails; an error
leaves the memory as far as the operation got.

A write here changes its own file and nothing else. `atomic_write` also
removes, creates and renames a temporary file beside it: `save_refines` says
that this makes no difference to files that have no temporary file's name.
-/

namespace PolyTerm.Saved

open Runs Writes

/-- One included file, as loaded. A file that failed to load is kept visible
and never written. -/
structure TopFolder where
  name : String
  path : Path
  data : SessionFileData
  writable : Bool
  error : Option String
deriving DecidableEq, Repr

structure SessionLibrary where
  indexPath : Path
  dir : Path
  tops : List TopFolder
deriving DecidableEq, Repr

structure TopFolderInfo where
  name : String
  path : Path
  error : Option String
deriving DecidableEq, Repr

def defaultTopFolder : String := "General"
def legacyDefaultTopFolder : String := "Sessions"

/-! ## Folders -/

/-- The absolute folder of a folder relative to the top-level folder `name`. -/
def prepend (name : String) (rel : FolderPath) : FolderPath := name :: rel

/-- `folder` is `base` or below it. -/
def isWithin (base folder : FolderPath) : Bool := base.isPrefixOf folder

/-- Segments joined by a separator that never appears in a folder name. -/
def folderKey (folder : FolderPath) : String := "\u001f".intercalate folder

def TopFolder.entry (t : TopFolder) : IndexEntry := ⟨t.name, t.path⟩

def TopFolder.info (t : TopFolder) : TopFolderInfo := ⟨t.name, t.path, t.error⟩

/-- The folder's sessions with their absolute folders. -/
def TopFolder.sessions (t : TopFolder) : List SessionSpec :=
  t.data.sessions.map fun spec => { spec with folder := prepend t.name spec.folder }

/-- Without the session `id`. -/
def TopFolder.retain (t : TopFolder) (id : SessionId) : TopFolder :=
  { t with data := { t.data with sessions := t.data.sessions.filter fun s => s.id ≠ id } }

def TopFolder.push (t : TopFolder) (spec : SessionSpec) : TopFolder :=
  { t with data := { t.data with sessions := t.data.sessions ++ [spec] } }

namespace SessionLibrary

/-! ## Reading the tree -/

def topFolders (lib : SessionLibrary) : List TopFolderInfo := lib.tops.map TopFolder.info

def topFolderNames (lib : SessionLibrary) : List String := lib.tops.map (·.name)

/-- Folder before name, and equal ones keep the order of the files. -/
def listOrder (lower : String → String) (a b : SessionSpec) : Prop :=
  ((compare (folderKey a.folder) (folderKey b.folder)).then
    (compare (lower a.name) (lower b.name))).isLE = true

instance (lower : String → String) : DecidableRel (listOrder lower) :=
  fun _ _ => inferInstanceAs (Decidable (_ = _))

def listSessions (lib : SessionLibrary) (lower : String → String) : List SessionSpec :=
  (lib.tops.flatMap TopFolder.sessions).insertionSort (listOrder lower)

def getSession (lib : SessionLibrary) (id : SessionId) : Option SessionSpec :=
  lib.tops.findSome? fun t =>
    (t.data.sessions.find? fun s => s.id = id).map fun spec =>
      { spec with folder := prepend t.name spec.folder }

/-- Every folder that shows even when empty. -/
def listFolders (lib : SessionLibrary) : List FolderPath :=
  lib.tops.flatMap fun t => [t.name] :: t.data.folders.map (prepend t.name)

/-- The file of an absolute folder, and the folder relative to it. -/
def locate (lib : SessionLibrary) : FolderPath → Except StoreError (Nat × FolderPath)
  | [] => .error (.unknownTopFolder "")
  | first :: rest =>
      match lib.tops.findIdx? fun t => t.name = first with
      | some idx => .ok (idx, rest)
      | none => .error (.unknownTopFolder first)

def ensureWritable (lib : SessionLibrary) (idx : Nat) : Except StoreError Unit :=
  match lib.tops[idx]? with
  | some t => if t.writable then .ok () else .error (.notWritable t.path.display)
  | none => .ok ()

/-! ## Changing the tree -/

/-- The files whose contents taking `id` out changes, in order. -/
def changed (lib : SessionLibrary) (id : SessionId) : List Nat :=
  (List.range lib.tops.length).filter fun i =>
    (lib.tops[i]?).any fun t => (t.retain id).data.sessions.length ≠ t.data.sessions.length

def takeOut (lib : SessionLibrary) (id : SessionId) : SessionLibrary × List Nat :=
  ({ lib with tops := lib.tops.map (·.retain id) }, lib.changed id)

def modify (lib : SessionLibrary) (idx : Nat) (f : TopFolder → TopFolder) : SessionLibrary :=
  { lib with tops := lib.tops.modify idx f }

def index (lib : SessionLibrary) : LibraryIndex := ⟨lib.tops.map TopFolder.entry⟩

end SessionLibrary

/-! ## Files -/

variable {Text : Type}

namespace Platform

/-- What reading a session file makes of it: its contents, whether they may be
written back, and what went wrong. -/
def loadFile (P : Platform Text) (disk : FileId → Entry Text) (path : Path) :
    SessionFileData × Bool × Option String :=
  match (disk (P.fileOf path)).read with
  | .ok text =>
      match P.decodeSessions text with
      | .ok data => (data, true, none)
      | .error e => (.empty, false, some ("could not parse " ++ path.display ++ ": " ++ e))
  | .error .notFound => (.empty, true, none)
  | .error (.other e) => (.empty, false, some ("could not read " ++ path.display ++ ": " ++ e))

/-- Load one file as a top-level folder; the first of two equal names or paths
wins. -/
def loadEntry (P : Platform Text) (disk : FileId → Entry Text) (lib : SessionLibrary)
    (name : String) (path : Path) : SessionLibrary :=
  match nonBlank name with
  | none => lib
  | some name =>
      if lib.tops.any fun t => t.name = name || t.path = path then lib
      else
        let (data, writable, error) := P.loadFile disk path
        { lib with tops := lib.tops ++ [⟨name, path, data, writable, error⟩] }

/-- The write that saves a top-level folder's file. -/
def topWrite (P : Platform Text) (t : TopFolder) : FileId × Entry Text :=
  (P.fileOf t.path, .file (P.encodeSessions t.data))

/-- The write that saves the index. -/
def indexWrite (P : Platform Text) (lib : SessionLibrary) : FileId × Entry Text :=
  (P.fileOf lib.indexPath, .file (P.encodeIndex lib.index))

/-! ## Opening -/

def readIndex (P : Platform Text) (disk : FileId → Entry Text) (indexPath : Path) :
    Except StoreError LibraryIndex :=
  let entry := disk (P.fileOf indexPath)
  if !entry.exists then .ok ⟨[]⟩
  else match entry.read with
    | .error .notFound => .error (.io "No such file or directory (os error 2)")
    | .error (.other e) => .error (.io e)
    | .ok text =>
        match P.decodeIndex text with
        | .ok index => .ok index
        | .error e => .error (.serde e)

/-- On an empty index the default folder is included. -/
def seed (dir : Path) (index : LibraryIndex) : LibraryIndex :=
  if index.entries.isEmpty then ⟨[⟨defaultTopFolder, dir.file "sessions.json"⟩]⟩ else index

/-- Rename the first top-level folder that has the legacy name and is empty. -/
def renameLegacy : List TopFolder → List TopFolder
  | [] => []
  | t :: ts =>
      if t.name = legacyDefaultTopFolder && t.data.sessions.isEmpty && t.data.folders.isEmpty then
        { t with name := defaultTopFolder } :: ts
      else t :: renameLegacy ts

def migrateLegacyDefault (lib : SessionLibrary) : SessionLibrary :=
  if lib.tops.any fun t => t.name = defaultTopFolder then lib
  else { lib with tops := renameLegacy lib.tops }

/-- Create the files that are missing. -/
def materialise (P : Platform Text) : List TopFolder → World Text →
    Except StoreError Unit × World Text
  | [], w => (.ok (), w)
  | t :: ts, w =>
      if t.writable && !(w.store (P.fileOf t.path)).exists then
        match w.write (P.topWrite t).1 (P.topWrite t).2 with
        | (.ok _, w) => P.materialise ts w
        | (.error e, w) => (.error e, w)
      else P.materialise ts w

/-- The tree an index stands for. -/
def loadIndex (P : Platform Text) (disk : FileId → Entry Text) (dir : Path)
    (index : LibraryIndex) : SessionLibrary :=
  index.entries.foldl (fun lib e => P.loadEntry disk lib e.name e.path)
    ⟨dir.file "library.json", dir, []⟩

/-- Open the library under `dir`; `made` is what creating `dir` came to. -/
def openIn (P : Platform Text) (dir : Path) (made : Except StoreError Unit) (w : World Text) :
    Except StoreError SessionLibrary × World Text :=
  match made with
  | .error e => (.error e, w)
  | .ok _ =>
      match P.readIndex w.store (dir.file "library.json") with
      | .error e => (.error e, w)
      | .ok index =>
          let lib := migrateLegacyDefault (P.loadIndex w.store dir (seed dir index))
          match w.write (P.indexWrite lib).1 (P.indexWrite lib).2 with
          | (.error e, w) => (.error e, w)
          | (.ok _, w) =>
              match P.materialise lib.tops w with
              | (.error e, w) => (.error e, w)
              | (.ok _, w) => (.ok lib, w)

end Platform

/-! ## The operations -/

/-- The library of a running program and the disk it writes to. -/
structure Store (Text : Type) where
  lib : SessionLibrary
  world : World Text

/-- A program that has opened its library. -/
def Platform.openStore (P : Platform Text) (dir : Path) (made : Except StoreError Unit)
    (w : World Text) : Option (Store Text) :=
  match P.openIn dir made w with
  | (.ok lib, w) => some ⟨lib, w⟩
  | (.error _, _) => none

namespace Store

variable (P : Platform Text)

/-- Carry out writes, without their temporary files; the tree stays as it is. -/
def save (s : Store Text) (writes : List (FileId × Entry Text)) :
    Except StoreError Unit × Store Text :=
  let (r, w) := Medium.writeAll writes s.world
  (r, { s with world := w })

/-- Save the files with these indices, in order. -/
def saveTops (s : Store Text) (idxs : List Nat) : Except StoreError Unit × Store Text :=
  s.save (idxs.filterMap fun i => (s.lib.tops[i]?).map P.topWrite)

def saveIndex (s : Store Text) : Except StoreError Unit × Store Text :=
  s.save [P.indexWrite s.lib]

/-- A bare name lands in the library's directory; a directory, or a path
without a file name, gets `sessions.json`. -/
def resolveFilePath (s : Store Text) (path : Path) : Path :=
  let path :=
    if !path.absolute && path.parent = some ⟨false, []⟩ then s.lib.dir.join path else path
  if (s.world.store (P.fileOf path)).isDir || path.fileName.isNone then
    path.file "sessions.json"
  else path

/-- Include a file as a new top-level folder, created when it does not exist. -/
def addFile (s : Store Text) (name : String) (path : Path) :
    Except StoreError Unit × Store Text :=
  match nonBlank name with
  | none => (.error (.duplicateTopFolder "a top-level folder needs a name"), s)
  | some name =>
      let path := s.resolveFilePath P path
      if s.lib.tops.any fun t => t.name = name then
        (.error (.duplicateTopFolder
          ("a top-level folder named " ++ P.debug name ++ " already exists")), s)
      else if s.lib.tops.any fun t => t.path = path then
        (.error (.duplicateTopFolder (path.display ++ " is already included")), s)
      else
        let (made, s) :=
          if (s.world.store (P.fileOf path)).exists then (.ok (), s)
          else s.save [(P.fileOf path, .file (P.encodeSessions .empty))]
        match made with
        | .error e => (.error e, s)
        | .ok _ => ({ s with lib := P.loadEntry s.world.store s.lib name path }).saveIndex P

/-- Stop including a file; the file stays on disk. -/
def removeTopFolder (s : Store Text) (name : String) : Except StoreError Unit × Store Text :=
  match s.lib.tops.findIdx? fun t => t.name = name with
  | some pos =>
      saveIndex P { s with lib := { s.lib with tops := s.lib.tops.eraseIdx pos } }
  | none => (.ok (), s)

/-- Insert or replace a session; a copy in another file is removed from there. -/
def upsertSession (s : Store Text) (spec : SessionSpec) : Except StoreError Unit × Store Text :=
  match s.lib.locate spec.folder with
  | .error e => (.error e, s)
  | .ok (idx, rel) =>
      match s.lib.ensureWritable idx with
      | .error e => (.error e, s)
      | .ok _ =>
          let (lib, changed) := s.lib.takeOut spec.id
          let lib := lib.modify idx (·.push { spec with folder := rel })
          let affected := ((changed ++ [idx]).insertionSort (· ≤ ·)).dedup
          saveTops P { s with lib := lib } affected

/-- Deleting a session that does not exist is not an error. -/
def deleteSession (s : Store Text) (id : SessionId) : Except StoreError Unit × Store Text :=
  let (lib, changed) := s.lib.takeOut id
  saveTops P { s with lib := lib } changed

def moveSession (s : Store Text) (id : SessionId) (folder : FolderPath) :
    Except StoreError Unit × Store Text :=
  match s.lib.getSession id with
  | some spec => s.upsertSession P { spec with folder := folder }
  | none => (.ok (), s)

/-- Duplicate a session under the id `fresh`; `none` if it is gone. -/
def duplicateSession (s : Store Text) (id fresh : SessionId) :
    Except StoreError (Option SessionSpec) × Store Text :=
  match s.lib.getSession id with
  | none => (.ok none, s)
  | some spec =>
      let spec := { spec with id := fresh, name := spec.name ++ " copy" }
      match s.upsertSession P spec with
      | (.error e, s) => (.error e, s)
      | (.ok _, s) => (.ok (some spec), s)

/-- Creating a folder that exists is a no-op, and so is a top-level folder. -/
def createFolder (s : Store Text) (folder : FolderPath) : Except StoreError Unit × Store Text :=
  match s.lib.locate folder with
  | .error e => (.error e, s)
  | .ok (idx, rel) =>
      if rel.isEmpty then (.ok (), s)
      else match s.lib.ensureWritable idx with
        | .error e => (.error e, s)
        | .ok _ =>
            if (s.lib.tops[idx]?).any fun t => t.data.folders.contains rel then (.ok (), s)
            else
              let lib := s.lib.modify idx fun t =>
                { t with data := { t.data with folders := t.data.folders ++ [rel] } }
              saveTops P { s with lib := lib } [idx]

/-- Delete a subfolder with everything beneath it. -/
def deleteFolder (s : Store Text) (folder : FolderPath) : Except StoreError Unit × Store Text :=
  match s.lib.locate folder with
  | .error e => (.error e, s)
  | .ok (idx, rel) =>
      if rel.isEmpty then (.ok (), s)
      else match s.lib.ensureWritable idx with
        | .error e => (.error e, s)
        | .ok _ =>
            let lib := s.lib.modify idx fun t =>
              { t with data := {
                  sessions := t.data.sessions.filter fun spec => !isWithin rel spec.folder
                  folders := t.data.folders.filter fun f => !isWithin rel f } }
            saveTops P { s with lib := lib } [idx]

end Store

/-- One call of the library. -/
inductive LibraryOp where
  | addFile (name : String) (path : Path)
  | removeTopFolder (name : String)
  | upsertSession (spec : SessionSpec)
  | deleteSession (id : SessionId)
  | moveSession (id : SessionId) (folder : FolderPath)
  | duplicateSession (id fresh : SessionId)
  | createFolder (folder : FolderPath)
  | deleteFolder (folder : FolderPath)
deriving DecidableEq, Repr

namespace Store

/-- What a call returns and leaves. -/
def call (P : Platform Text) (s : Store Text) : LibraryOp → Except StoreError Unit × Store Text
  | .addFile name path => s.addFile P name path
  | .removeTopFolder name => s.removeTopFolder P name
  | .upsertSession spec => s.upsertSession P spec
  | .deleteSession id => s.deleteSession P id
  | .moveSession id folder => s.moveSession P id folder
  | .duplicateSession id fresh =>
      let (r, s) := s.duplicateSession P id fresh
      (r.map fun _ => (), s)
  | .createFolder folder => s.createFolder P folder
  | .deleteFolder folder => s.deleteFolder P folder

/-- Every call is possible in every state. -/
def step (P : Platform Text) (s : Store Text) (op : LibraryOp) : Option (Store Text) :=
  some (s.call P op).2

end Store

end PolyTerm.Saved
