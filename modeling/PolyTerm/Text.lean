import Mathlib.Data.List.DropRight
import Mathlib.Data.Nat.Notation

/-!
# Text fields

Trimming and number parsing as the standard library does them: what a form
makes of the text in its fields. A trimmed text is one that trimming leaves
alone; a printed number reads back.
-/

namespace PolyTerm

/-- Unicode white space. -/
def isWhitespace (c : Char) : Bool :=
  let n := c.toNat
  (0x09 ≤ n && n ≤ 0x0D) || n == 0x20 || n == 0x85 || n == 0xA0 || n == 0x1680 ||
    (0x2000 ≤ n && n ≤ 0x200A) || n == 0x2028 || n == 0x2029 || n == 0x202F ||
    n == 0x205F || n == 0x3000

def trimEnd (cs : List Char) : List Char := cs.rdropWhile isWhitespace

/-- Trimmed of white space at both ends. -/
def trim (s : String) : List Char := trimEnd (s.toList.dropWhile isWhitespace)

def nonBlank (s : String) : Option String :=
  if (trim s).isEmpty then none else some (String.ofList (trim s))

def dropPlus : List Char → List Char
  | '+' :: rest => rest
  | cs => cs

/-- An unsigned decimal below `limit`; a leading plus sign is accepted. -/
def parseUnsigned (limit : Nat) (cs : List Char) : Option Nat :=
  let digits := dropPlus cs
  let n := Nat.ofDigitChars 10 digits 0
  if digits.isEmpty || !digits.all Char.isDigit || limit ≤ n then none else some n

def parseU16 (cs : List Char) : Option UInt16 := (parseUnsigned 65536 cs).map UInt16.ofNat

def parseU32 (cs : List Char) : Option UInt32 := (parseUnsigned 4294967296 cs).map UInt32.ofNat

/-! ## Trimmed texts -/

def Trimmed (s : String) : Prop := trim s = s.toList

instance (s : String) : Decidable (Trimmed s) := inferInstanceAs (Decidable (_ = _))

theorem trimEnd_isPrefix (cs : List Char) : trimEnd cs <+: cs := List.rdropWhile_prefix _ _

theorem dropWhile_of_prefix {p : Char → Bool} {cs ds : List Char}
    (h : ds <+: cs.dropWhile p) : ds.dropWhile p = ds := by
  cases ds with
  | nil => rfl
  | cons d ds =>
      obtain ⟨rest, hrest⟩ := h
      have hd : ¬ p d = true := by
        have hne : cs.dropWhile p ≠ [] := by
          rw [← hrest]
          exact List.cons_ne_nil _ _
        have hhead := List.head_dropWhile_not p hne
        simpa [← hrest] using hhead
      exact List.dropWhile_cons_of_neg hd

/-- What trimming leaves is trimmed. -/
theorem trimmed_trim (s : String) : Trimmed (String.ofList (trim s)) := by
  have hstart : (trim s).dropWhile isWhitespace = trim s := dropWhile_of_prefix (trimEnd_isPrefix _)
  unfold Trimmed
  rw [trim, String.toList_ofList, hstart]
  exact List.rdropWhile_idempotent _ _

/-- A trimmed text neither begins nor ends with white space. -/
theorem trimmed_iff {s : String} :
    Trimmed s ↔ (∀ c ∈ s.toList.head?, isWhitespace c = false) ∧
      ∀ c ∈ s.toList.getLast?, isWhitespace c = false := by
  have hstart : s.toList.dropWhile isWhitespace = s.toList ↔
      ∀ c ∈ s.toList.head?, isWhitespace c = false := by
    cases s.toList with
    | nil => simp
    | cons c cs => simp [List.dropWhile_eq_self_iff]
  have hend : trimEnd s.toList = s.toList ↔
      ∀ c ∈ s.toList.getLast?, isWhitespace c = false := by
    rw [trimEnd, List.rdropWhile_eq_self_iff]
    constructor
    · intro h c hc
      obtain ⟨hne, rfl⟩ := List.mem_getLast?_eq_getLast hc
      simpa using h hne
    · intro h hne
      simpa using h _ (List.getLast?_eq_getLast_of_ne_nil hne)
  rw [← hstart, ← hend, Trimmed, trim]
  constructor
  · intro h
    -- as the whole is as long as before, nothing is cut at the start
    have hlength : s.toList.length ≤ (s.toList.dropWhile isWhitespace).length :=
      (congrArg List.length h).ge.trans (trimEnd_isPrefix _).length_le
    have hdrop : s.toList.dropWhile isWhitespace = s.toList :=
      (List.dropWhile_suffix _).eq_of_length_le hlength
    rw [hdrop] at h
    exact ⟨hdrop, h⟩
  · rintro ⟨hdrop, htrim⟩
    rw [hdrop, htrim]

theorem nonBlank_eq_some {s t : String} (h : nonBlank s = some t) : Trimmed t ∧ t ≠ "" := by
  unfold nonBlank at h
  split at h
  · cases h
  case isFalse hne =>
    obtain rfl := Option.some.inj h
    refine ⟨trimmed_trim s, fun hempty => hne ?_⟩
    rw [← String.toList_ofList (l := trim s), hempty]
    rfl

theorem trimmed_ofList {s : String} (h : Trimmed s) : String.ofList (trim s) = s := by
  rw [h, String.ofList_toList]

theorem nonBlank_trimmed {s : String} (h : Trimmed s) (hne : s ≠ "") : nonBlank s = some s := by
  have hnil : ¬ (trim s).isEmpty = true := by
    rw [h, List.isEmpty_iff, String.toList_eq_nil_iff]
    exact hne
  rw [nonBlank, if_neg hnil, trimmed_ofList h]

/-- A text survives the form exactly if it is trimmed and not blank. -/
theorem nonBlank_eq_self_iff {s : String} : nonBlank s = some s ↔ Trimmed s ∧ s ≠ "" :=
  ⟨nonBlank_eq_some, fun h => nonBlank_trimmed h.1 h.2⟩

theorem trimmed_of_not_whitespace {s : String} (h : ∀ c ∈ s.toList, isWhitespace c = false) :
    Trimmed s := by
  have hstart : s.toList.dropWhile isWhitespace = s.toList := by
    cases hs : s.toList with
    | nil => rfl
    | cons c cs =>
        have hc : isWhitespace c = false := h c (by simp [hs])
        exact List.dropWhile_cons_of_neg (by simp [hc])
  unfold Trimmed trim
  rw [hstart, trimEnd, List.rdropWhile_eq_self_iff]
  intro hne
  simp [h _ (List.getLast_mem hne)]

/-! ## Printed numbers -/

theorem isWhitespace_of_isDigit {c : Char} (h : c.isDigit = true) : isWhitespace c = false := by
  have hbounds : 48 ≤ c.toNat ∧ c.toNat ≤ 57 := Char.isDigit_iff_toNat.mp h
  simp only [isWhitespace, Bool.or_eq_false_iff, Bool.and_eq_false_iff, decide_eq_false_iff_not,
    beq_eq_false_iff_ne]
  omega

theorem trimmed_repr (n : Nat) : Trimmed n.repr := by
  refine trimmed_of_not_whitespace fun c hc => isWhitespace_of_isDigit ?_
  rw [Nat.toList_repr] at hc
  exact Nat.isDigit_of_mem_toDigits (by decide) (by decide) hc

theorem parseUnsigned_repr {limit n : Nat} (h : n < limit) :
    parseUnsigned limit (trim n.repr) = some n := by
  have hdigits : ∀ c ∈ Nat.toDigits 10 n, c.isDigit = true := fun c hc =>
    Nat.isDigit_of_mem_toDigits (by decide) (by decide) hc
  rw [trimmed_repr n, Nat.toList_repr]
  have hplus : dropPlus (Nat.toDigits 10 n) = Nat.toDigits 10 n := by
    unfold dropPlus
    split
    case h_1 rest heq => exact absurd (hdigits '+' (by simp [heq])) (by decide)
    case h_2 => rfl
  have hall : (Nat.toDigits 10 n).all Char.isDigit = true := List.all_eq_true.mpr hdigits
  have hempty : (Nat.toDigits 10 n).isEmpty = false := by
    rw [Bool.eq_false_iff, ne_eq, List.isEmpty_iff]
    exact Nat.toDigits_ne_nil
  simp [parseUnsigned, hplus, hall, hempty, h]

theorem parseU16_repr (n : UInt16) : parseU16 (trim n.toNat.repr) = some n := by
  have hparse : parseUnsigned 65536 (trim n.toNat.repr) = some n.toNat :=
    parseUnsigned_repr n.toNat_lt
  rw [parseU16, hparse, Option.map_some, UInt16.ofNat_toNat]

theorem parseU32_repr (n : UInt32) : parseU32 (trim n.toNat.repr) = some n := by
  have hparse : parseUnsigned 4294967296 (trim n.toNat.repr) = some n.toNat :=
    parseUnsigned_repr n.toNat_lt
  rw [parseU32, hparse, Option.map_some, UInt32.ofNat_toNat]

end PolyTerm
