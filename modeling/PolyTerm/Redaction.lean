import Mathlib.Data.List.Forall2
import Mathlib.Data.List.Infix

/-!
# Redacted logs

`RedactingFields` prints the fields of a log record and leaves out the values
of those whose names look secret. The names are looked at, the values are not:
two records that differ in secret fields only are printed alike, writer
failures included (`formatFields_congr`). A field without a value is not printed
at all, so that a secret one shows whether it has a value.
-/

namespace PolyTerm

/-! ## Secret names -/

def secretFieldMarkers : List String :=
  ["password", "passwd", "passphrase", "secret", "token", "credential", "private_key",
    "privatekey", "api_key", "apikey"]

def toAsciiLowercase (name : String) : List Char := name.toList.map Char.toLower

def isSecretField (name : String) : Bool :=
  secretFieldMarkers.any fun marker => decide (marker.toList <:+: toAsciiLowercase name)

/-! ## Printing -/

/-- `fmt::Error` -/
structure FmtError where
deriving DecidableEq, Repr

/-- What the escaping of texts asks of a character. -/
structure CharTables where
  printable : Char → Bool
  graphemeExtend : Char → Bool

def escapeDebug (tables : CharTables) (c : Char) : String :=
  match c.toNat with
  | 0x00 => "\\0"
  | 0x09 => "\\t"
  | 0x0a => "\\n"
  | 0x0d => "\\r"
  | 0x22 => "\\\""
  | 0x5c => "\\\\"
  | n =>
      if tables.graphemeExtend c || !tables.printable c then
        "\\u\x7b" ++ String.ofList (Nat.toDigits 16 n) ++ "\x7d"
      else String.singleton c

/-- A text between quotes. -/
def debugStr (tables : CharTables) (text : String) : String :=
  "\"" ++ String.join (text.toList.map (escapeDebug tables)) ++ "\""

/-- The value of a field, as the visitor's entry points tell them apart; a kind
with no entry point of its own comes as what prints it. -/
inductive LogValue (W : Type) where
  /-- `None` and `field::Empty`, which call no entry point -/
  | empty
  | str (text : String)
  | int (n : Int)
  | bool (b : Bool)
  | debug (print : EStateM FmtError W Unit)

structure LogField (W : Type) where
  name : String
  value : LogValue W

/-! ## The visitor -/

structure RedactingVisitor (W : Type) where
  writer : W
  result : Except FmtError Unit
  first : Bool

namespace RedactingVisitor

variable {W : Type}

/-- Print to the writer; the result is how that went. -/
def print (v : RedactingVisitor W) (text : EStateM FmtError W Unit) : RedactingVisitor W :=
  match text.run v.writer with
  | .ok () writer => { v with writer, result := .ok () }
  | .error e writer => { v with writer, result := .error e }

variable (writeStr : String → EStateM FmtError W Unit) (tables : CharTables)

def separate (v : RedactingVisitor W) : RedactingVisitor W :=
  match v.result with
  | .error _ => v
  | .ok () => if v.first then { v with first := false } else v.print (writeStr " ")

def recordDebug (field : String) (value : EStateM FmtError W Unit) (v : RedactingVisitor W) :
    RedactingVisitor W :=
  let v := v.separate writeStr
  match v.result with
  | .error _ => v
  | .ok () => v.print (
      if isSecretField field then do
        writeStr field
        writeStr "=<redacted>"
      else if field = "message" then value
      else do
        writeStr field
        writeStr "="
        value)

/-- Texts take the same way, to be quoted as they are elsewhere. -/
def recordStr (field : String) (value : String) (v : RedactingVisitor W) : RedactingVisitor W :=
  v.recordDebug writeStr field (writeStr (debugStr tables value))

def record (v : RedactingVisitor W) (field : LogField W) : RedactingVisitor W :=
  match field.value with
  | .empty => v
  | .str text => v.recordStr writeStr tables field.name text
  | .int n => v.recordDebug writeStr field.name (writeStr (toString n))
  | .bool b => v.recordDebug writeStr field.name (writeStr (toString b))
  | .debug print => v.recordDebug writeStr field.name print

end RedactingVisitor

/-- `RedactingFields` on the fields of a record, in their order. -/
def formatFields {W : Type} (writeStr : String → EStateM FmtError W Unit) (tables : CharTables)
    (fields : List (LogField W)) : EStateM FmtError W Unit := fun writer =>
  let visitor := fields.foldl (RedactingVisitor.record writeStr tables) ⟨writer, .ok (), true⟩
  match visitor.result with
  | .ok () => .ok () visitor.writer
  | .error e => .error e visitor.writer

/-! ## Noninterference -/

section

variable {W : Type} (writeStr : String → EStateM FmtError W Unit) (tables : CharTables)

/-- What a value is recorded as, if it is there. -/
def LogValue.print : LogValue W → Option (EStateM FmtError W Unit)
  | .empty => none
  | .str text => some (writeStr (debugStr tables text))
  | .int n => some (writeStr (toString n))
  | .bool b => some (writeStr (toString b))
  | .debug print => some print

/-- The value is handed to the visitor. -/
def LogValue.visited : LogValue W → Bool
  | .empty => false
  | .str _ | .int _ | .bool _ | .debug _ => true

/-- The same name, and the same value unless the name is secret; then both have a value or
neither has. -/
structure LogField.Alike (f g : LogField W) : Prop where
  name : f.name = g.name
  visited : f.value.visited = g.value.visited
  value : isSecretField f.name = false → f.value = g.value

variable {writeStr tables}

theorem LogValue.print_isSome (value : LogValue W) :
    (value.print writeStr tables).isSome = value.visited := by
  cases value <;> rfl

theorem RedactingVisitor.record_eq (v : RedactingVisitor W) (f : LogField W) :
    v.record writeStr tables f =
      ((f.value.print writeStr tables).map fun print =>
        v.recordDebug writeStr f.name print).getD v := by
  unfold record LogValue.print
  cases f.value <;> rfl

/-- The value of a secret field is not looked at. -/
theorem RedactingVisitor.recordDebug_secret {field : String} (h : isSecretField field = true)
    (a b : EStateM FmtError W Unit) (v : RedactingVisitor W) :
    v.recordDebug writeStr field a = v.recordDebug writeStr field b := by
  simp only [recordDebug, h, if_true]

theorem RedactingVisitor.record_congr {f g : LogField W} (h : f.Alike g)
    (v : RedactingVisitor W) : v.record writeStr tables f = v.record writeStr tables g := by
  obtain ⟨hname, hvisited, hvalue⟩ := h
  rw [record_eq, record_eq, ← hname]
  cases hsecret : isSecretField f.name with
  | true =>
      have hsame : (f.value.print writeStr tables).isSome =
          (g.value.print writeStr tables).isSome := by
        rw [LogValue.print_isSome, LogValue.print_isSome, hvisited]
      generalize f.value.print writeStr tables = a, g.value.print writeStr tables = b at hsame ⊢
      cases a <;> cases b
      case none.none => rfl
      case some.some a b => exact recordDebug_secret hsecret a b v
      all_goals cases hsame
  | false => rw [hvalue hsecret]

/-- Records that differ in secret fields only are printed alike. -/
theorem formatFields_congr {fields fields' : List (LogField W)}
    (h : List.Forall₂ LogField.Alike fields fields') :
    formatFields writeStr tables fields = formatFields writeStr tables fields' := by
  have hvisitor : ∀ v, fields.foldl (RedactingVisitor.record writeStr tables) v =
      fields'.foldl (RedactingVisitor.record writeStr tables) v := by
    induction h with
    | nil => exact fun v => rfl
    | cons hfield _ ih =>
        intro v
        rw [List.foldl_cons, List.foldl_cons, RedactingVisitor.record_congr hfield]
        exact ih _
  funext writer
  simp only [formatFields, hvisitor]

end

/-- A text as a writer. -/
def appendStr (text : String) : EStateM FmtError String Unit := modify (· ++ text)

example : (formatFields appendStr ⟨fun _ => true, fun _ => false⟩
    [⟨"message", .debug (appendStr "resized")⟩, ⟨"cols", .int 80⟩, ⟨"port", .empty⟩,
      ⟨"auth_token", .str "abc123"⟩]).run "" =
      .ok () "resized cols=80 auth_token=<redacted>" := by rfl

/-! ## The policy -/

/-- One letter in either case, or two characters outside ASCII. -/
def SameLetter (c d : Char) : Prop :=
  c.toLower = d.toLower ∨ 128 ≤ c.toNat ∧ 128 ≤ d.toNat

theorem SameLetter.symm {c d : Char} (h : SameLetter c d) : SameLetter d c :=
  h.imp Eq.symm And.symm

theorem toLower_of_not_ascii {c : Char} (h : 128 ≤ c.toNat) : c.toLower = c := by
  have hupper : ¬(c.val ≥ 'A'.val ∧ c.val ≤ 'Z'.val) := by
    rintro ⟨-, hz⟩
    have hle : c.toNat ≤ 90 := UInt32.le_iff_toNat_le.mp hz
    omega
  exact dif_neg hupper

theorem markers_ascii {marker : String} (h : marker ∈ secretFieldMarkers) :
    ∀ c ∈ marker.toList, c.toNat < 128 := by
  have hall : secretFieldMarkers.all fun marker =>
      marker.toList.all fun c => decide (c.toNat < 128) := by decide
  intro c hc
  exact of_decide_eq_true (List.all_eq_true.mp (List.all_eq_true.mp hall marker h) c hc)

/-- Where the lower case is ASCII, it is the same. -/
theorem SameLetter.toLower_eq {c d : Char} (h : SameLetter c d) (hd : d.toLower.toNat < 128) :
    c.toLower = d.toLower := by
  rcases h with heq | ⟨-, hlarge⟩
  · exact heq
  · rw [toLower_of_not_ascii hlarge] at hd
    omega

theorem map_toLower_eq {cs ds : List Char} (h : List.Forall₂ SameLetter cs ds)
    (hds : ∀ d ∈ ds.map Char.toLower, d.toNat < 128) :
    cs.map Char.toLower = ds.map Char.toLower := by
  induction h with
  | nil => rfl
  | cons hletter _ ih =>
      rw [List.map_cons, List.forall_mem_cons] at hds
      rw [List.map_cons, List.map_cons, hletter.toLower_eq hds.1, ih hds.2]

theorem infix_of_sameLetters {marker : List Char} (hmarker : ∀ c ∈ marker, c.toNat < 128)
    {cs ds : List Char} (h : List.Forall₂ SameLetter cs ds)
    (hin : marker <:+: ds.map Char.toLower) : marker <:+: cs.map Char.toLower := by
  obtain ⟨before, after, hsplit⟩ := hin
  obtain ⟨front, back, rfl, hfront, rfl⟩ := List.map_eq_append_iff.mp hsplit.symm
  obtain ⟨left, middle, rfl, rfl, rfl⟩ := List.map_eq_append_iff.mp hfront
  rw [List.append_assoc] at h
  have hmiddle : List.Forall₂ SameLetter ((cs.drop left.length).take middle.length) middle :=
    List.forall₂_take_append _ _ _ (List.forall₂_drop_append _ _ _ h)
  rw [← map_toLower_eq hmiddle hmarker]
  exact ((List.take_prefix _ _).isInfix.trans (List.drop_suffix _ _).isInfix).map _

theorem isSecretField_of_sameLetters {a b : String}
    (h : List.Forall₂ SameLetter a.toList b.toList) (hb : isSecretField b = true) :
    isSecretField a = true := by
  obtain ⟨marker, hmem, hin⟩ := List.any_eq_true.mp hb
  refine List.any_eq_true.mpr ⟨marker, hmem, decide_eq_true ?_⟩
  exact infix_of_sameLetters (markers_ascii hmem) h (of_decide_eq_true hin)

/-- The case of a name does not matter. -/
theorem isSecretField_congr {a b : String}
    (h : List.Forall₂ SameLetter a.toList b.toList) : isSecretField a = isSecretField b := by
  have hback : List.Forall₂ SameLetter b.toList a.toList :=
    h.flip.imp fun _ _ hletter => SameLetter.symm hletter
  exact Bool.eq_iff_iff.mpr ⟨isSecretField_of_sameLetters hback, isSecretField_of_sameLetters h⟩

/-- A name with a secret one in it is secret. -/
theorem isSecretField_mono {inner name : String} (h : inner.toList <:+: name.toList)
    (hsecret : isSecretField inner = true) : isSecretField name = true := by
  obtain ⟨marker, hmem, hin⟩ := List.any_eq_true.mp hsecret
  refine List.any_eq_true.mpr ⟨marker, hmem, decide_eq_true ?_⟩
  exact (of_decide_eq_true hin).trans (h.map _)

theorem redaction_noninterference {W : Type} (writeStr : String → EStateM FmtError W Unit)
    (tables : CharTables) :
    (∀ fields fields' : List (LogField W), List.Forall₂ LogField.Alike fields fields' →
      formatFields writeStr tables fields = formatFields writeStr tables fields') ∧
    (∀ a b : String, List.Forall₂ SameLetter a.toList b.toList →
      isSecretField a = isSecretField b) ∧
    ∀ inner name : String, inner.toList <:+: name.toList →
      isSecretField inner = true → isSecretField name = true :=
  ⟨fun _ _ => formatFields_congr, fun _ _ => isSecretField_congr, fun _ _ => isSecretField_mono⟩

/-- A passphrase and a number under the same name. -/
theorem redaction_noninterference_sample :
    let tables : CharTables := ⟨fun _ => true, fun _ => false⟩
    formatFields appendStr tables
        [⟨"message", .str "connecting"⟩, ⟨"key_Passphrase", .str "s3cret"⟩, ⟨"token", .empty⟩] =
      formatFields appendStr tables
        [⟨"message", .str "connecting"⟩, ⟨"key_Passphrase", .int 12345⟩, ⟨"token", .empty⟩] := by
  refine (redaction_noninterference _ _).1 _ _ (.cons ⟨rfl, rfl, fun _ => rfl⟩
    (.cons ⟨rfl, rfl, fun hsecret => ?_⟩ (.cons ⟨rfl, rfl, fun _ => rfl⟩ .nil)))
  exact absurd hsecret (by decide)

/-- A connection without a password, and one with it. -/
def connectingWith (password : LogValue String) : List (LogField String) :=
  [⟨"message", .debug (appendStr "connecting")⟩, ⟨"password", password⟩]

/-- Whether there is a password shows. -/
theorem redaction_tells_empty :
    let tables : CharTables := ⟨fun _ => true, fun _ => false⟩
    isSecretField "password" = true ∧
      List.Forall₂ (fun f g => f.name = g.name ∧ (isSecretField f.name = false → f.value = g.value))
        (connectingWith .empty) (connectingWith (.str "hunter2")) ∧
      (formatFields appendStr tables (connectingWith .empty)).run "" = .ok () "connecting" ∧
      (formatFields appendStr tables (connectingWith (.str "hunter2"))).run "" =
        .ok () "connecting password=<redacted>" ∧
      formatFields appendStr tables (connectingWith .empty) ≠
        formatFields appendStr tables (connectingWith (.str "hunter2")) := by
  intro tables
  have hsecret : isSecretField "password" = true := by decide
  have hnone : (formatFields appendStr tables (connectingWith .empty)).run "" =
      .ok () "connecting" := rfl
  have hsome : (formatFields appendStr tables (connectingWith (.str "hunter2"))).run "" =
      .ok () "connecting password=<redacted>" := rfl
  refine ⟨hsecret, .cons ⟨rfl, fun _ => rfl⟩ (.cons ⟨rfl, fun hplain => ?_⟩ .nil), hnone, hsome,
    fun heq => ?_⟩
  · exact absurd (hsecret.symm.trans hplain) Bool.noConfusion
  · rw [heq, hsome] at hnone
    exact absurd (EStateM.Result.ok.inj hnone).2 (by decide)

end PolyTerm
