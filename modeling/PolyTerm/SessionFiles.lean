import PolyTerm.SavedSession
import PolyTerm.Writes

/-!
# Session files on disk

What the session library reads and writes. A path is kept as its components,
which is how the code compares paths; several paths can name one file
(`Platform.fileOf`). A file's text means what `serde_json` makes of it, so the
platform has the encoders and the lenient decoders, and the two round trips.
-/

namespace PolyTerm.Saved

/-! ## Paths -/

inductive Component where
  | curDir
  | parentDir
  | normal (name : String)
deriving DecidableEq, Repr

structure Path where
  absolute : Bool
  components : List Component
deriving DecidableEq, Repr

def Component.text : Component → String
  | .curDir => "."
  | .parentDir => ".."
  | .normal name => name

namespace Path

def display (p : Path) : String :=
  (if p.absolute then "/" else "") ++ "/".intercalate (p.components.map Component.text)

/-- Without the last component, if there is one. -/
def parent (p : Path) : Option Path :=
  if p.components.isEmpty then none else some { p with components := p.components.dropLast }

def fileName (p : Path) : Option String :=
  match p.components.getLast? with
  | some (.normal name) => some name
  | _ => none

/-- An absolute path replaces `p`; a `.` counts only at the start of a path. -/
def join (p q : Path) : Path :=
  if q.absolute then q
  else if !p.absolute && p.components.isEmpty then q
  else { p with components := p.components ++ q.components.filter (· ≠ .curDir) }

def file (p : Path) (name : String) : Path := p.join ⟨false, [.normal name]⟩

end Path

/-! ## Contents -/

/-- One session file: its empty subfolders and its sessions, every folder
relative to the file's top-level folder. -/
structure SessionFileData where
  folders : List FolderPath
  sessions : List SessionSpec
deriving DecidableEq, Repr

def SessionFileData.empty : SessionFileData := ⟨[], []⟩

structure IndexEntry where
  name : String
  path : Path
deriving DecidableEq, Repr

structure LibraryIndex where
  entries : List IndexEntry
deriving DecidableEq, Repr

/-- A directory entry, under the one name it has on disk. -/
structure FileId where
  name : String
deriving DecidableEq, Repr

inductive Entry (Text : Type) where
  | missing
  | directory
  /-- `visible`: at least its metadata can be read -/
  | unreadable (visible : Bool) (error : String)
  | file (text : Text)
deriving DecidableEq, Repr

inductive ReadError where
  | notFound
  | other (message : String)
deriving DecidableEq, Repr

namespace Entry

variable {Text : Type}

def «exists» : Entry Text → Bool
  | .missing => false
  | .unreadable visible _ => visible
  | .directory | .file _ => true

def isDir : Entry Text → Bool
  | .directory => true
  | _ => false

def read : Entry Text → Except ReadError Text
  | .missing => .error .notFound
  | .directory => .error (.other "Is a directory (os error 21)")
  | .unreadable _ e => .error (.other e)
  | .file text => .ok text

end Entry

/-- What the library has from outside. -/
structure Platform (Text : Type) where
  fileOf : Path → FileId
  /-- Unicode lower case -/
  toLowercase : String → String
  /-- a string the way `Debug` prints it -/
  debug : String → String
  encodeSessions : SessionFileData → Text
  decodeSessions : Text → Except String SessionFileData
  encodeIndex : LibraryIndex → Text
  decodeIndex : Text → Except String LibraryIndex
  decode_sessions : ∀ data, decodeSessions (encodeSessions data) = .ok data
  decode_index : ∀ index, decodeIndex (encodeIndex index) = .ok index

inductive StoreError where
  | serde (message : String)
  | unknownTopFolder (name : String)
  | duplicateTopFolder (message : String)
  | notWritable (path : String)
  | io (message : String)
deriving DecidableEq, Repr

/-- The disk, what becomes of the writes to come, and the writes so far. -/
abbrev World (Text : Type) := Writes.Medium FileId (Entry Text) StoreError

/-! ## A platform to run on -/

/-- A text is the document it was printed from; every other text parses as
neither kind of file. -/
inductive Document where
  | sessions (data : SessionFileData)
  | index (index : LibraryIndex)
  | other (text : String)
deriving DecidableEq, Repr

/-- Every path is a file of its own, and the decoders do what the derived ones
do: all fields of a session file have defaults and unknown fields are ignored,
while the entries of an index are required. -/
def Platform.plain : Platform Document where
  fileOf path := ⟨path.display⟩
  toLowercase := String.toLower
  debug s := "\"" ++ s ++ "\""
  encodeSessions := .sessions
  decodeSessions
    | .sessions data => .ok data
    | .index _ => .ok .empty
    | .other _ => .error "expected value at line 1 column 1"
  encodeIndex := .index
  decodeIndex
    | .index index => .ok index
    | .sessions _ => .error "missing field entries"
    | .other _ => .error "expected value at line 1 column 1"
  decode_sessions _ := rfl
  decode_index _ := rfl

def sampleDir : Path := ⟨true, [.normal "home", .normal ".polyterm"]⟩

/-- A first run. -/
def freshDisk : World Document := ⟨fun _ => .missing, [], []⟩

end PolyTerm.Saved
