import PolyTerm.FolderTree
import PolyTerm.SessionEditor
import PolyTerm.SessionLibrary

/-!
# The session panel

The panel draws copies of the library's lists and offers actions on what it
draws. The form, the two folder dialogs and the file picker stay open beside
it, so between what an action was offered on and what the library holds when it
is carried out anything else may happen.

A label of `step` is one of these parts in one frame, with what the user did
to it: an action is one that the panel offers.
-/

namespace PolyTerm.Saved

open PathTree Runs

variable {Text : Type}

/-! ## What the panel offers -/

/-- A top-level folder is un-included; a folder within a file is deleted. -/
inductive FolderTarget where
  | top (name : String)
  | sub (path : FolderPath)
deriving DecidableEq, Repr

inductive PanelAction where
  | openLocalShell
  | openSaved (id : SessionId)
  | newSession (folder : FolderPath)
  | editSession (id : SessionId)
  | duplicateSession (id : SessionId)
  | deleteSession (id : SessionId)
  | moveSession (id : SessionId) (folder : FolderPath)
  | beginAddFolder
  | beginDeleteFolder (target : FolderTarget)
  | openSettings
deriving DecidableEq, Repr

/-- The host a session connects to, or its port; empty for a local shell. -/
def hostOf : SessionKind → String
  | .ssh c => c.host
  | .rdp c => c.host
  | .serial c => c.port
  | .localShell _ => ""

/-- The session has the query in its name or its host. -/
def matchesQuery (toLowercase : String → String) (spec : SessionSpec) (query : String) : Bool :=
  query.isEmpty ||
    decide ((toLowercase query).toList <:+: (toLowercase spec.name).toList) ||
    decide ((toLowercase query).toList <:+: (toLowercase (hostOf spec.kind)).toList)

/-- What the row of a session offers. -/
def sessionRow (folders : List FolderPath) (id : SessionId) : List PanelAction :=
  [.openSaved id, .editSession id, .duplicateSession id] ++
    (folders.filter (· ≠ [])).map (.moveSession id) ++ [.deleteSession id]

/-- What deleting the folder `name` below `path` is to delete. -/
def folderTarget (path : FolderPath) (name : String) : FolderTarget :=
  if path.isEmpty then .top name else .sub (path ++ [name])

mutual

/-- What the tree of a folder offers. -/
def renderFolder (folders : List FolderPath) (path : FolderPath) :
    FolderNode → List PanelAction
  | ⟨children, sessions⟩ =>
      renderFolders folders path children ++ sessions.flatMap fun s => sessionRow folders s.1

/-- What the subfolders of a folder offer. -/
def renderFolders (folders : List FolderPath) (path : FolderPath) :
    Children String (SessionId × String) → List PanelAction
  | .nil => []
  | .cons name child rest =>
      renderFolder folders (path ++ [name]) child ++
        [.newSession (path ++ [name]), .beginDeleteFolder (folderTarget path name)] ++
        renderFolders folders path rest

end

/-! ## The panel and the dialogs beside it -/

/-- How an error of the library reads. -/
def StoreError.text (debug : String → String) : StoreError → String
  | .serde _ => "could not (de)serialise session data"
  | .unknownTopFolder name => "no top-level folder named " ++ debug name
  | .duplicateTopFolder message => message
  | .notWritable path =>
      "session file could not be read, so it will not be overwritten: " ++ path
  | .io _ => "i/o error"

structure EditorForm where
  editor : SessionEditor
  error : Option String
deriving DecidableEq, Repr

structure AddFolderDialog where
  name : String
  path : String
  error : Option String
deriving DecidableEq, Repr

/-- The field that a chosen file goes to. -/
inductive PickTarget where
  | editorKeyPath
  | sessionFile
deriving DecidableEq, Repr

/-- The part of the app that shows and changes the saved sessions. -/
structure SessionPanel (Text : Type) where
  library : Option (Store Text)
  sessions : List SessionSpec
  folders : List FolderPath
  search : String
  editor : Option EditorForm
  addFolder : Option AddFolderDialog
  confirmDelete : Option FolderTarget
  pendingPick : Option PickTarget
  lastError : Option String

namespace SessionPanel

variable (P : Platform Text) (s : SessionPanel Text)

/-- Copy the library's lists. -/
def reload : SessionPanel Text :=
  match s.library with
  | some store =>
      { s with
        sessions := store.lib.listSessions P.toLowercase
        folders := store.lib.listFolders }
  | none => s

/-- As the app comes up with this library. -/
def start (library : Option (Store Text)) : SessionPanel Text :=
  reload P ⟨library, [], [], "", none, none, none, none, none⟩

/-- Everything that can be clicked in the panel. -/
def offered : List PanelAction :=
  [.openSettings, .newSession [], .openLocalShell] ++
    if s.library.isNone then []
    else if (trim s.search).isEmpty then
      .beginAddFolder :: renderFolder s.folders []
        (buildFolderTree P.toLowercase s.sessions s.folders)
    else
      (s.sessions.filter fun spec =>
        matchesQuery P.toLowercase spec (String.ofList (trim s.search))).flatMap fun spec =>
          sessionRow s.folders spec.id

/-! ## Changing the library -/

/-- A call of the library, and the lists as they are after it. -/
def storeOp (op : LibraryOp) : SessionPanel Text :=
  match s.library with
  | some store =>
      let (result, store) := store.call P op
      let s := { s with library := some store }
      match result with
      | .error e => ({ s with lastError := some ("Store error: " ++ e.text P.debug) }).reload P
      | .ok _ => s.reload P
  | none => s.reload P

/-- Save a session from the form. An error leaves the lists as they were. -/
def saveSession (spec : SessionSpec) : SessionPanel Text :=
  match s.library with
  | some store =>
      let (result, store) := store.call P (.upsertSession spec)
      let s := { s with library := some store }
      match result with
      | .error e =>
          { s with
            lastError := some ("Could not save " ++ spec.name ++ ": " ++ e.text P.debug) }
      | .ok _ => s.reload P
  | none => s.reload P

/-- The folder a new session goes to: the first top-level folder, if none was
chosen. -/
def newFolder (folder : FolderPath) : FolderPath :=
  if folder.isEmpty then
    (s.library.bind fun store => store.lib.topFolderNames.head?.map fun name => [name]).getD folder
  else folder

/-- `fresh` is the id that a new session gets. Opening a session and the
settings are not the panel's own state. -/
def applyPanelAction (fresh : SessionId) : PanelAction → SessionPanel Text
  | .newSession folder => { s with editor := some ⟨.newIn fresh (s.newFolder folder), none⟩ }
  | .editSession id =>
      match s.sessions.find? fun spec => spec.id = id with
      | some spec => { s with editor := some ⟨.edit spec, none⟩ }
      | none => s
  | .duplicateSession id => s.storeOp P (.duplicateSession id fresh)
  | .deleteSession id => s.storeOp P (.deleteSession id)
  | .moveSession id folder => s.storeOp P (.moveSession id folder)
  | .beginAddFolder => { s with addFolder := some ⟨"", "", none⟩ }
  | .beginDeleteFolder target => { s with confirmDelete := some target }
  | .openLocalShell | .openSaved _ | .openSettings => s

/-! ## The form and the dialogs -/

inductive EditorClick where
  | nothing
  | browse
  | save
  | cancel
deriving DecidableEq, Repr

/-- The form, its fields left as `typed`. Closing its window cancels. -/
def editorFrame (typed : SessionEditor) (click : EditorClick) : SessionPanel Text :=
  match s.editor with
  | none => s
  | some form =>
      let editor := { typed with id := form.editor.id, isNew := form.editor.isNew }
      match click with
      | .nothing => { s with editor := some { form with editor := editor } }
      | .browse =>
          { s with
            editor := some { form with editor := editor }
            pendingPick := some .editorKeyPath }
      | .cancel => { s with editor := none }
      | .save =>
          match editor.toSpec with
          | .ok spec => ({ s with editor := none }).saveSession P spec
          | .error e => { s with editor := some ⟨editor, some e⟩ }

/-- The dialog that adds a folder. An error leaves the lists as they were. -/
def addFolderFrame (toPath : String → Path) (name path : String)
    (browse submit dismissed : Bool) : SessionPanel Text :=
  match s.addFolder with
  | none => s
  | some dialog =>
      let dialog := { dialog with name := name, path := path }
      let s := { s with addFolder := none }
      if dismissed then s
      else
        let s := if browse then { s with pendingPick := some .sessionFile } else s
        if submit then
          match nonBlank name, nonBlank path with
          | some name, some path =>
              match s.library with
              | some store =>
                  match store.call P (.addFile name (toPath path)) with
                  | (.ok _, store) => ({ s with library := some store }).reload P
                  | (.error e, store) =>
                      { s with
                        library := some store
                        addFolder := some { dialog with error := some (e.text P.debug) } }
              | none => s.reload P
          | _, _ =>
              { s with addFolder := some { dialog with
                  error := some "A name and a file are both required." } }
        else { s with addFolder := some dialog }

def FolderTarget.call : FolderTarget → LibraryOp
  | .top name => .removeTopFolder name
  | .sub path => .deleteFolder path

/-- The dialog that confirms a deletion. -/
def confirmFrame (confirm dismissed : Bool) : SessionPanel Text :=
  match s.confirmDelete with
  | none => s
  | some target =>
      let s := { s with confirmDelete := none }
      if dismissed then s
      else if confirm then s.storeOp P (FolderTarget.call target)
      else { s with confirmDelete := some target }

/-- What the file picker has come to. -/
inductive Picked where
  | empty
  | disconnected
  | cancelled
  | chosen (path : String) (stem : Option String)
deriving DecidableEq, Repr

/-- Give a chosen file to the form that is open for one. -/
def pollPick (picked : Picked) : SessionPanel Text :=
  match s.pendingPick with
  | none => s
  | some target =>
      match picked with
      | .empty => s
      | .disconnected | .cancelled => { s with pendingPick := none }
      | .chosen path stem =>
          let s := { s with pendingPick := none }
          match target with
          | .editorKeyPath =>
              { s with editor := s.editor.map fun form =>
                  { form with editor := { form.editor with keyPath := path } } }
          | .sessionFile =>
              { s with addFolder := s.addFolder.map fun dialog =>
                  let name := if (trim dialog.name).isEmpty then stem.getD dialog.name
                    else dialog.name
                  { dialog with name := name, path := path } }

/-! ## Runs -/

inductive Label where
  | click (action : PanelAction) (fresh : SessionId)
  | searched (query : String)
  | editor (typed : SessionEditor) (click : EditorClick)
  | addFolder (name path : String) (browse submit dismissed : Bool)
  | confirm (confirm dismissed : Bool)
  | pick (picked : Picked)

variable (toPath : String → Path)

def step (s : SessionPanel Text) : Label → Option (SessionPanel Text)
  | .click action fresh =>
      if action ∈ s.offered P then some (s.applyPanelAction P fresh action) else none
  | .searched query => some { s with search := query }
  | .editor typed click => some (s.editorFrame P typed click)
  | .addFolder name path browse submit dismissed =>
      some (s.addFolderFrame P toPath name path browse submit dismissed)
  | .confirm confirm dismissed => some (s.confirmFrame P confirm dismissed)
  | .pick picked => some (s.pollPick picked)

end SessionPanel

end PolyTerm.Saved
