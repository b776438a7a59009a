import PolyTerm.SavedSession

/-!
# The session form

`SessionEditor` holds a session as the texts of its form. `edit` fills the form
from a saved session and `toSpec` reads a session back from it; what has no
field in the form is rebuilt from constants. The file settles which sessions
survive the way there and back: the ones whose configuration is what those
constants are (`Kept`, `toSpec_edit_iff`).
-/

namespace PolyTerm.Saved

/-! ## Folders as text -/

/-- Blank segments are dropped and the others trimmed. -/
def parseFolder (text : String) : FolderPath :=
  (text.toList.splitOn '/').filterMap fun segment => nonBlank (String.ofList segment)

def folderToString (folder : FolderPath) : String :=
  String.ofList (['/'].intercalate (folder.map String.toList))

/-! ## The form -/

inductive KindTag where
  | localShell
  | serial
  | ssh
  | rdp
deriving DecidableEq, Repr

inductive AuthTag where
  | agent
  | password
  | key
  | keyboardInteractive
deriving DecidableEq, Repr

structure SessionEditor where
  id : SessionId
  isNew : Bool
  name : String
  folder : String
  kind : KindTag
  onExit : ExitAction
  shell : String
  serialPort : String
  baud : String
  host : String
  port : String
  username : String
  sshAuth : AuthTag
  keyPath : String
  domain : String
  width : String
  height : String
deriving DecidableEq, Repr

/-- A keyring reference for `protocol` authentication of `user@host`. -/
def credentialRef (protocol user host : String) : CredentialRef :=
  ⟨"polyterm-" ++ protocol, user ++ "@" ++ host⟩

def nonEmpty (s : String) : Option String := nonBlank s

def require (s field : String) : Except String String :=
  match nonEmpty s with
  | some t => .ok t
  | none => .error (field ++ " is required.")

/-- Read a number with the type's own parser. -/
def parseNum {α : Type} (parse : List Char → Option α) (s field : String) : Except String α :=
  match parse (trim s) with
  | some n => .ok n
  | none => .error (field ++ " must be a number.")

namespace SessionEditor

/-- The form of a session that does not exist yet. -/
def blank (id : SessionId) : SessionEditor where
  id := id
  isNew := true
  name := ""
  folder := ""
  kind := .ssh
  onExit := .prompt
  shell := ""
  serialPort := ""
  baud := "115200"
  host := ""
  port := "22"
  username := ""
  sshAuth := .agent
  keyPath := ""
  domain := ""
  width := "1920"
  height := "1080"

def newIn (id : SessionId) (folder : FolderPath) : SessionEditor :=
  { blank id with folder := folderToString folder }

/-- The form filled from a saved session. -/
def edit (spec : SessionSpec) : SessionEditor :=
  let e : SessionEditor :=
    { blank spec.id with
      isNew := false
      name := spec.name
      folder := folderToString spec.folder
      onExit := spec.onExit }
  match spec.kind with
  | .localShell c => { e with kind := .localShell, shell := c.shell.getD "" }
  | .serial c =>
      { e with kind := .serial, serialPort := c.port, baud := toString c.baud.toNat }
  | .ssh c =>
      let e := { e with
        kind := .ssh
        host := c.host
        port := toString c.port.toNat
        username := c.username }
      match c.auth with
      | .agent => { e with sshAuth := .agent }
      | .password _ => { e with sshAuth := .password }
      | .publicKey keyPath _ => { e with sshAuth := .key, keyPath := keyPath }
      | .keyboardInteractive => { e with sshAuth := .keyboardInteractive }
  | .rdp c =>
      { e with
        kind := .rdp
        host := c.host
        port := toString c.port.toNat
        username := c.username
        domain := c.domain.getD ""
        width := toString c.width.toNat
        height := toString c.height.toNat }

def toSshAuth (e : SessionEditor) (username host : String) : Except String SshAuth :=
  match e.sshAuth with
  | .agent => .ok .agent
  | .keyboardInteractive => .ok .keyboardInteractive
  | .password => .ok (.password (credentialRef "ssh" username host))
  | .key => do
      let keyPath ← require e.keyPath "Key path"
      return .publicKey keyPath none

def toKind (e : SessionEditor) : Except String SessionKind :=
  match e.kind with
  | .localShell => .ok (.localShell ⟨nonEmpty e.shell, none, []⟩)
  | .serial => do
      let port ← require e.serialPort "Serial port"
      let baud ← parseNum parseU32 e.baud "Baud rate"
      return .serial ⟨port, baud, 8, .none, .one, .none⟩
  | .ssh => do
      let host ← require e.host "Host"
      let username ← require e.username "Username"
      let auth ← e.toSshAuth username host
      let port ← parseNum parseU16 e.port "Port"
      return .ssh ⟨host, port, username, auth, [], none⟩
  | .rdp => do
      let host ← require e.host "Host"
      let port ← parseNum parseU16 e.port "Port"
      let username ← require e.username "Username"
      let domain := nonEmpty e.domain
      let width ← parseNum parseU16 e.width "Width"
      let height ← parseNum parseU16 e.height "Height"
      return .rdp ⟨host, port, username, domain, none, width, height⟩

/-- The session the form describes, or what is wrong with the form. -/
def toSpec (e : SessionEditor) : Except String SessionSpec :=
  match nonEmpty e.name with
  | none => .error "Name is required."
  | some name => do
      let kind ← e.toKind
      return ⟨e.id, name, parseFolder e.folder, kind, e.onExit⟩

end SessionEditor

/-! ## What the form keeps -/

/-- A field the form takes as it is. -/
def Required (s : String) : Prop := Trimmed s ∧ s ≠ ""

instance (s : String) : Decidable (Required s) := inferInstanceAs (Decidable (_ ∧ _))

/-- The texts of a session are trimmed and the required ones not blank. -/
def Filled (spec : SessionSpec) : Prop :=
  Required spec.name ∧
    match spec.kind with
    | .ssh c => Required c.host ∧ Required c.username ∧
        match c.auth with
        | .publicKey keyPath _ => nonBlank keyPath ≠ none
        | _ => True
    | .serial c => Required c.port
    | .localShell _ => True
    | .rdp c => Required c.host ∧ Required c.username ∧ ∀ domain ∈ c.domain, Trimmed domain

/-- The authentication has nothing that the form does not hold. -/
def KeptAuth (c : SshConfig) : Prop :=
  match c.auth with
  | .password credential => credential = credentialRef "ssh" c.username c.host
  | .publicKey keyPath passphrase => Trimmed keyPath ∧ passphrase = none
  | .agent | .keyboardInteractive => True

/-- The configuration has nothing that the form does not hold. -/
def Kept : SessionKind → Prop
  | .ssh c => KeptAuth c ∧ c.jumps = [] ∧ c.keepalive = none
  | .serial c =>
      c.dataBits = 8 ∧ c.parity = .none ∧ c.stopBits = .one ∧ c.flowControl = .none
  | .localShell c => (∀ shell ∈ c.shell, Required shell) ∧ c.workingDirectory = none ∧ c.env = []
  | .rdp c => c.domain ≠ some "" ∧ c.credential = none

theorem require_of_required {s : String} (h : Required s) (field : String) :
    require s field = .ok s := by
  simp only [require, nonEmpty, nonBlank_trimmed h.1 h.2]

theorem parseNum_u16 (n : UInt16) (field : String) :
    parseNum parseU16 n.toNat.repr field = .ok n := by
  simp only [parseNum, parseU16_repr]

theorem parseNum_u32 (n : UInt32) (field : String) :
    parseNum parseU32 n.toNat.repr field = .ok n := by
  simp only [parseNum, parseU32_repr]

/-- Where there is no optional text, the form holds a blank. -/
theorem nonEmpty_getD_iff (s : Option String) :
    nonEmpty (s.getD "") = s ↔ ∀ t ∈ s, Required t := by
  cases s with
  | none => simpa using (by decide : nonEmpty "" = none)
  | some t => simpa [nonEmpty, Required] using nonBlank_eq_self_iff

theorem optional_trimmed {s : Option String} (h : ∀ t ∈ s, Trimmed t) :
    (∀ t ∈ s, Required t) ↔ s ≠ some "" := by
  cases s with
  | none => simp
  | some t => simpa [Required] using fun _ => h t rfl

namespace SessionEditor

@[simp] theorem edit_id (spec : SessionSpec) : (edit spec).id = spec.id := by
  unfold edit
  split <;> try rfl
  split <;> rfl

@[simp] theorem edit_name (spec : SessionSpec) : (edit spec).name = spec.name := by
  unfold edit
  split <;> try rfl
  split <;> rfl

@[simp] theorem edit_onExit (spec : SessionSpec) : (edit spec).onExit = spec.onExit := by
  unfold edit
  split <;> try rfl
  split <;> rfl

@[simp] theorem edit_folder (spec : SessionSpec) :
    (edit spec).folder = folderToString spec.folder := by
  unfold edit
  split <;> try rfl
  split <;> rfl

/-- What the form makes of an authentication. -/
def rebuiltAuth (c : SshConfig) : SshAuth :=
  match c.auth with
  | .password _ => .password (credentialRef "ssh" c.username c.host)
  | .publicKey keyPath _ => .publicKey ((nonBlank keyPath).getD "") none
  | auth => auth

/-- What the form makes of a configuration. -/
def rebuilt : SessionKind → SessionKind
  | .ssh c => .ssh { c with auth := rebuiltAuth c, jumps := [], keepalive := none }
  | .serial c => .serial ⟨c.port, c.baud, 8, .none, .one, .none⟩
  | .localShell c => .localShell ⟨nonEmpty (c.shell.getD ""), none, []⟩
  | .rdp c => .rdp { c with domain := nonEmpty (c.domain.getD ""), credential := none }

theorem toKind_edit {spec : SessionSpec} (h : Filled spec) :
    (edit spec).toKind = .ok (rebuilt spec.kind) := by
  obtain ⟨-, hkind⟩ := h
  unfold edit
  cases hspec : spec.kind with
  | localShell c => rfl
  | serial c =>
      rw [hspec] at hkind
      simp [toKind, require_of_required hkind, parseNum_u32, rebuilt, bind, Except.bind, pure,
        Except.pure]
  | ssh c =>
      rw [hspec] at hkind
      obtain ⟨hhost, husername, hauth⟩ := hkind
      cases hmethod : c.auth with
      | publicKey keyPath passphrase =>
          rw [hmethod] at hauth
          obtain ⟨path, hpath⟩ := Option.ne_none_iff_exists'.mp hauth
          have hkey : require keyPath "Key path" = .ok path := by
            simp only [require, nonEmpty, hpath]
          simp [toKind, toSshAuth, require_of_required hhost, require_of_required husername, hkey,
            hpath, hmethod, parseNum_u16, rebuilt, rebuiltAuth, bind, Except.bind, pure,
            Except.pure]
      | _ =>
          simp [toKind, toSshAuth, require_of_required hhost, require_of_required husername,
            hmethod, parseNum_u16, rebuilt, rebuiltAuth, bind, Except.bind, pure, Except.pure]
  | rdp c =>
      rw [hspec] at hkind
      obtain ⟨hhost, husername, -⟩ := hkind
      simp [toKind, require_of_required hhost, require_of_required husername, parseNum_u16,
        rebuilt, bind, Except.bind, pure, Except.pure]

theorem toSpec_edit {spec : SessionSpec} (h : Filled spec) :
    (edit spec).toSpec =
      .ok ⟨spec.id, spec.name, parseFolder (folderToString spec.folder), rebuilt spec.kind,
        spec.onExit⟩ := by
  have hname : nonEmpty spec.name = some spec.name := nonBlank_trimmed h.1.1 h.1.2
  simp [toSpec, hname, toKind_edit h, bind, Except.bind, pure, Except.pure]

theorem rebuiltAuth_eq_iff {c : SshConfig}
    (h : ∀ keyPath passphrase, c.auth = .publicKey keyPath passphrase → nonBlank keyPath ≠ none) :
    rebuiltAuth c = c.auth ↔ KeptAuth c := by
  unfold rebuiltAuth KeptAuth
  cases hauth : c.auth with
  | agent | keyboardInteractive => simp
  | password credential => simpa using eq_comm
  | publicKey keyPath passphrase =>
      obtain ⟨path, hpath⟩ := Option.ne_none_iff_exists'.mp (h keyPath passphrase hauth)
      have hself : path = keyPath ↔ Trimmed keyPath := by
        constructor
        · rintro rfl
          exact (nonBlank_eq_some hpath).1
        · intro htrim
          have hne : keyPath ≠ "" := by
            rintro rfl
            cases hpath
          exact Option.some.inj (hpath.symm.trans (nonBlank_trimmed htrim hne))
      simp [hpath, hself, eq_comm (a := none)]

theorem rebuilt_eq_iff {spec : SessionSpec} (h : Filled spec) :
    rebuilt spec.kind = spec.kind ↔ Kept spec.kind := by
  obtain ⟨-, hkind⟩ := h
  cases hspec : spec.kind with
  | ssh c =>
      rw [hspec] at hkind
      obtain ⟨-, -, hauth⟩ := hkind
      have hkey : rebuiltAuth c = c.auth ↔ KeptAuth c := by
        refine rebuiltAuth_eq_iff fun keyPath passphrase hmethod => ?_
        rw [hmethod] at hauth
        exact hauth
      obtain ⟨host, port, username, auth, jumps, keepalive⟩ := c
      simp only [rebuilt, Kept, SessionKind.ssh.injEq, SshConfig.mk.injEq, true_and, ← hkey]
      simp only [eq_comm]
  | serial c =>
      obtain ⟨port, baud, dataBits, parity, stopBits, flowControl⟩ := c
      simp only [rebuilt, Kept, SessionKind.serial.injEq, SerialConfig.mk.injEq, true_and]
      simp only [eq_comm]
  | localShell c =>
      obtain ⟨shell, workingDirectory, env⟩ := c
      simp only [rebuilt, Kept, SessionKind.localShell.injEq, PtyConfig.mk.injEq,
        nonEmpty_getD_iff]
      simp only [eq_comm]
  | rdp c =>
      rw [hspec] at hkind
      obtain ⟨-, -, hdomain⟩ := hkind
      obtain ⟨host, port, username, domain, credential, width, height⟩ := c
      simp only [rebuilt, Kept, SessionKind.rdp.injEq, RdpConfig.mk.injEq, true_and, and_true,
        nonEmpty_getD_iff, optional_trimmed hdomain]
      simp only [eq_comm]

/-- A filled session comes back from its form, and with its whole
configuration exactly if the form holds all of it. -/
theorem toSpec_edit_iff (spec : SessionSpec) (h : Filled spec) :
    (∃ rebuilt, (edit spec).toSpec = .ok rebuilt ∧ rebuilt.id = spec.id ∧
        rebuilt.name = spec.name ∧ rebuilt.onExit = spec.onExit ∧ rebuilt.kind = spec.kind) ↔
      Kept spec.kind := by
  rw [toSpec_edit h, ← rebuilt_eq_iff h]
  constructor
  · rintro ⟨back, hback, -, -, -, hkind⟩
    obtain rfl := Except.ok.inj hback
    exact hkind
  · intro hkind
    exact ⟨_, rfl, rfl, rfl, rfl, hkind⟩

/-- An SSH session with agent authentication. -/
def agentSession : SessionSpec where
  id := ⟨0⟩
  name := "web"
  folder := ["General"]
  kind := .ssh ⟨"example.org", 22, "jeff", .agent, [], none⟩
  onExit := .prompt

/-- The same session behind a jump host. -/
def jumpSession : SessionSpec :=
  { agentSession with
    kind := .ssh ⟨"example.org", 22, "jeff", .agent, [⟨"bastion", 22, "jeff", .agent⟩], none⟩ }

theorem toSpec_edit_agentSession :
    ∃ rebuilt, (edit agentSession).toSpec = .ok rebuilt ∧ rebuilt.id = agentSession.id ∧
      rebuilt.name = agentSession.name ∧ rebuilt.onExit = agentSession.onExit ∧
      rebuilt.kind = agentSession.kind :=
  (toSpec_edit_iff agentSession ⟨by decide, by decide, by decide, trivial⟩).mpr
    ⟨trivial, rfl, rfl⟩

/-- Saving the form of the jump session drops the jump. -/
theorem edit_drops_jumps :
    ∃ spec, Filled spec ∧
      ¬ ∃ rebuilt, (edit spec).toSpec = .ok rebuilt ∧ rebuilt.id = spec.id ∧
        rebuilt.name = spec.name ∧ rebuilt.onExit = spec.onExit ∧ rebuilt.kind = spec.kind := by
  have hfilled : Filled jumpSession := ⟨by decide, by decide, by decide, trivial⟩
  refine ⟨jumpSession, hfilled, ?_⟩
  rintro ⟨back, hback, -, -, -, hkind⟩
  rw [toSpec_edit hfilled] at hback
  obtain rfl := Except.ok.inj hback
  revert hkind
  decide

end SessionEditor

end PolyTerm.Saved
