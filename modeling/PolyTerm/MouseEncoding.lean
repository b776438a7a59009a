import PolyTerm.Decimals
import PolyTerm.Pane

/-!
# Mouse reports on the wire

How one mouse event is written for the application, in the SGR form and in the
legacy form, and what a reader makes of it. The modifiers and the motion flag
are bits beside the button's code, so each can be told from the others; SGR has
room for every cell, and the legacy form, which counts cells in one byte, for
those below 223.
-/

namespace PolyTerm

inductive MouseProtocol where
  | off
  | click
  | buttonDrag
  | anyMotion
deriving DecidableEq, Repr

inductive MouseEncoding where
  | normal
  | sgr
deriving DecidableEq, Repr

/-- What the application wants to be told of the mouse. -/
structure MouseReport where
  protocol : MouseProtocol
  encoding : MouseEncoding
deriving DecidableEq, Repr

def MouseReport.isOn (report : MouseReport) : Bool := report.protocol ≠ .off

inductive PointerButton where
  | primary
  | secondary
  | middle
  | extra1
  | extra2
deriving DecidableEq, Repr

/-- Of the modifier keys, those a mouse report can tell. -/
structure MouseModifiers where
  alt : Bool
  ctrl : Bool
  shift : Bool
  command : Bool
deriving DecidableEq, Repr

/-- The code of a button, if the protocol has one for it. -/
def buttonBase : PointerButton → Option UInt8
  | .primary => some 0
  | .middle => some 1
  | .secondary => some 2
  | .extra1 | .extra2 => none

/-- The lowest button held, or 3 when none is. -/
def heldButton (buttonsDown : UInt8) : UInt8 :=
  if buttonsDown &&& 0b001 ≠ 0 then 0
  else if buttonsDown &&& 0b010 ≠ 0 then 1
  else if buttonsDown &&& 0b100 ≠ 0 then 2
  else 3

def mouseMods (m : MouseModifiers) : UInt8 :=
  let bits : UInt8 := if m.shift then 4 else 0
  let bits := if m.alt then bits ||| 8 else bits
  if m.ctrl || m.command then bits ||| 16 else bits

/-- The button byte: the code, the modifiers and the motion bit. -/
def buttonByte (base mods : UInt8) (motion : Bool) : UInt8 :=
  let cb := base ||| mods
  if motion then cb ||| 32 else cb

/-- One mouse event; `none` when the legacy form cannot carry the cell. -/
def encodeMouse (report : MouseReport) (base : UInt8) (motion release : Bool) (mods : UInt8)
    (cell : UInt16 × UInt16) : Option Bytes :=
  let x := cell.2.toNat + 1
  let y := cell.1.toNat + 1
  match report.encoding with
  | .sgr =>
      let cb := buttonByte base mods motion
      some ([0x1b, 0x5b, 0x3c] ++ Decimals.print cb.toNat ++ [0x3b] ++ Decimals.print x ++ [0x3b] ++
        Decimals.print y ++ [if release then 0x6d else 0x4d])
  | .normal =>
      if 223 < x ∨ 223 < y then none
      else
        let cb := buttonByte (if release then 3 else base) mods motion
        some [0x1b, 0x5b, 0x4d, 32 + cb, 32 + UInt8.ofNat x, 32 + UInt8.ofNat y]

/-! ## Reading a report -/

/-- What a report says of the mouse, the cell counted from 1. -/
structure MouseEvent where
  button : UInt8
  mods : UInt8
  motion : Bool
  col : Nat
  row : Nat
deriving DecidableEq, Repr

/-- The parts of a button byte. -/
def MouseEvent.ofByte (cb : UInt8) (col row : Nat) : MouseEvent :=
  ⟨cb &&& 0b1000011, cb &&& 0b11100, cb &&& 0b100000 ≠ 0, col, row⟩

/-- A whole SGR report, and whether it is a release. -/
def decodeSgr (bytes : Bytes) : Option (MouseEvent × Bool) := do
  let 0x1b :: 0x5b :: 0x3c :: bytes := bytes | none
  let (cb, 0x3b :: bytes) ← Decimals.read bytes | none
  let (x, 0x3b :: bytes) ← Decimals.read bytes | none
  let (y, [terminator]) ← Decimals.read bytes | none
  if 256 ≤ cb then none
  else if terminator = 0x6d then some (.ofByte (UInt8.ofNat cb) x y, true)
  else if terminator = 0x4d then some (.ofByte (UInt8.ofNat cb) x y, false)
  else none

/-- A whole legacy report. -/
def decodeLegacy : Bytes → Option MouseEvent
  | [0x1b, 0x5b, 0x4d, cb, x, y] =>
      if cb < 32 ∨ x ≤ 32 ∨ y ≤ 32 then none
      else some (.ofByte (cb - 32) (x.toNat - 32) (y.toNat - 32))
  | _ => none

/-! ## What is written is read back -/

/-- The codes of the buttons, of motion without one, and of the wheel. -/
def mouseBases : List UInt8 := [0, 1, 2, 3, 64, 65]

/-- The sums of modifier bits. -/
def modifierBits : List UInt8 := [0, 4, 8, 12, 16, 20, 24, 28]

theorem mem_modifierBits {mods : UInt8} (h : mods &&& 0b11100 = mods) : mods ∈ modifierBits := by
  have hall : ∀ n : Fin 256, UInt8.ofNat n &&& 0b11100 = UInt8.ofNat n →
      UInt8.ofNat n ∈ modifierBits := by decide +kernel
  have hmods := hall ⟨mods.toNat, mods.toNat_lt⟩
  rw [UInt8.ofNat_toNat] at hmods
  exact hmods h

theorem sentBase_mem {base : UInt8} (hbase : base ∈ mouseBases) (release : Bool) :
    (if release then 3 else base) ∈ mouseBases := by
  split
  · decide
  · exact hbase

/-- No part of a button byte covers another. -/
theorem buttonByte_parts {base mods : UInt8} (hbase : base ∈ mouseBases)
    (hmods : mods ∈ modifierBits) (motion : Bool) :
    buttonByte base mods motion &&& 0b1000011 = base ∧
      buttonByte base mods motion &&& 0b11100 = mods ∧
      decide (buttonByte base mods motion &&& 0b100000 ≠ 0) = motion ∧
      (buttonByte base mods motion).toNat < 128 := by
  have hall : (mouseBases.all fun base => modifierBits.all fun mods =>
      [false, true].all fun motion => decide (
        buttonByte base mods motion &&& 0b1000011 = base ∧
          buttonByte base mods motion &&& 0b11100 = mods ∧
          decide (buttonByte base mods motion &&& 0b100000 ≠ 0) = motion ∧
          (buttonByte base mods motion).toNat < 128)) = true := by decide
  simp only [List.all_eq_true, decide_eq_true_eq] at hall
  exact hall base hbase mods hmods motion (by cases motion <;> simp)

theorem ofByte_buttonByte {base mods : UInt8} (hbase : base ∈ mouseBases)
    (hmods : mods ∈ modifierBits) (motion : Bool) (col row : Nat) :
    MouseEvent.ofByte (buttonByte base mods motion) col row = ⟨base, mods, motion, col, row⟩ := by
  obtain ⟨hbutton, hmods, hmotion, -⟩ := buttonByte_parts hbase hmods motion
  rw [MouseEvent.ofByte, hbutton, hmods, hmotion]

theorem buttonByte_lt {base mods : UInt8} (hbase : base ∈ mouseBases)
    (hmods : mods ∈ modifierBits) (motion : Bool) :
    (buttonByte base mods motion).toNat < 128 := (buttonByte_parts hbase hmods motion).2.2.2

theorem decodeSgr_encodeMouse {base mods : UInt8} (hbase : base ∈ mouseBases)
    (hmods : mods ∈ modifierBits) (protocol : MouseProtocol) (motion release : Bool)
    (cell : UInt16 × UInt16) :
    (encodeMouse ⟨protocol, .sgr⟩ base motion release mods cell).bind decodeSgr =
      some (⟨base, mods, motion, cell.2.toNat + 1, cell.1.toNat + 1⟩, release) := by
  have hlt : ¬256 ≤ (buttonByte base mods motion).toNat := by
    have := buttonByte_lt hbase hmods motion
    omega
  have hsemicolon : Decimals.isDigit 0x3b = false := by decide
  have hterminator : Decimals.isDigit (if release then 0x6d else 0x4d) = false := by
    cases release <;> decide
  simp only [encodeMouse, Option.bind_some, List.append_assoc, List.cons_append, List.nil_append,
    decodeSgr, Option.bind_eq_bind, Decimals.read_print _ hsemicolon,
    Decimals.read_print _ hterminator]
  rw [if_neg hlt, UInt8.ofNat_toNat, ofByte_buttonByte hbase hmods]
  cases release <;> rfl

/-- The legacy form has room for the cells below 223. -/
theorem encodeMouse_normal_eq_none_iff {base mods : UInt8} {protocol : MouseProtocol}
    {motion release : Bool} {cell : UInt16 × UInt16} :
    encodeMouse ⟨protocol, .normal⟩ base motion release mods cell = none ↔
      223 ≤ cell.2.toNat ∨ 223 ≤ cell.1.toNat := by
  simp only [encodeMouse]
  split <;> simp <;> omega

/-- A legacy report: six bytes, and no sum wraps around. -/
theorem encodeMouse_normal {base mods : UInt8} (hbase : base ∈ mouseBases)
    (hmods : mods ∈ modifierBits) {protocol : MouseProtocol} {motion release : Bool}
    {cell : UInt16 × UInt16} {out : Bytes}
    (h : encodeMouse ⟨protocol, .normal⟩ base motion release mods cell = some out) :
    ∃ cb x y : UInt8, out = [0x1b, 0x5b, 0x4d, cb, x, y] ∧
      cb.toNat = 32 + (buttonByte (if release then 3 else base) mods motion).toNat ∧
      x.toNat = 32 + (cell.2.toNat + 1) ∧ y.toNat = 32 + (cell.1.toNat + 1) := by
  have hsize : UInt8.size = 256 := rfl
  have h32 : (32 : UInt8).toNat = 32 := rfl
  have hbase' := sentBase_mem hbase release
  have hbyte := buttonByte_lt hbase' hmods motion
  simp only [encodeMouse] at h
  split at h
  · cases h
  · rename_i hfits
    obtain ⟨hx, hy⟩ := not_or.mp hfits
    refine ⟨_, _, _, (Option.some.inj h).symm, ?_, ?_, ?_⟩
    · rw [UInt8.toNat_add, h32, Nat.mod_eq_of_lt (by omega)]
    · rw [UInt8.toNat_add, h32, UInt8.toNat_ofNat_of_lt' (by omega), Nat.mod_eq_of_lt (by omega)]
    · rw [UInt8.toNat_add, h32, UInt8.toNat_ofNat_of_lt' (by omega), Nat.mod_eq_of_lt (by omega)]

theorem decodeLegacy_encodeMouse {base mods : UInt8} (hbase : base ∈ mouseBases)
    (hmods : mods ∈ modifierBits) {protocol : MouseProtocol} {motion release : Bool}
    {cell : UInt16 × UInt16} {out : Bytes}
    (h : encodeMouse ⟨protocol, .normal⟩ base motion release mods cell = some out) :
    decodeLegacy out = some
      ⟨if release then 3 else base, mods, motion, cell.2.toNat + 1, cell.1.toNat + 1⟩ := by
  obtain ⟨cb, x, y, rfl, hcb, hx, hy⟩ := encodeMouse_normal hbase hmods h
  have h32 : (32 : UInt8).toNat = 32 := rfl
  have hbase' := sentBase_mem hbase release
  have hroom : ¬(cb < 32 ∨ x ≤ 32 ∨ y ≤ 32) := by
    simp only [UInt8.lt_iff_toNat_lt, UInt8.le_iff_toNat_le, h32]
    omega
  have hbyte : cb - 32 = buttonByte (if release then 3 else base) mods motion := by
    rw [← UInt8.toNat_inj, UInt8.toNat_sub_of_le _ _ (by rw [UInt8.le_iff_toNat_le]; omega), h32]
    omega
  simp only [decodeLegacy]
  rw [if_neg hroom, hbyte, ofByte_buttonByte hbase' hmods, hx, hy, Nat.add_sub_cancel_left,
    Nat.add_sub_cancel_left]

/-- An SGR report says the event and whether it was a release. A legacy report
is refused for a cell from 223 on; otherwise it says the event, but a release
has code 3 for its button. -/
theorem encodeMouse_decodes {base mods : UInt8} (hbase : base ∈ mouseBases)
    (hmods : mods &&& 0b11100 = mods) (protocol : MouseProtocol) (motion release : Bool)
    (cell : UInt16 × UInt16) :
    (encodeMouse ⟨protocol, .sgr⟩ base motion release mods cell).bind decodeSgr =
        some (⟨base, mods, motion, cell.2.toNat + 1, cell.1.toNat + 1⟩, release) ∧
      (encodeMouse ⟨protocol, .normal⟩ base motion release mods cell = none ↔
        223 ≤ cell.2.toNat ∨ 223 ≤ cell.1.toNat) ∧
      ∀ out, encodeMouse ⟨protocol, .normal⟩ base motion release mods cell = some out →
        (∃ cb x y : UInt8, out = [0x1b, 0x5b, 0x4d, cb, x, y] ∧
          cb.toNat = 32 + (buttonByte (if release then 3 else base) mods motion).toNat ∧
          x.toNat = 32 + (cell.2.toNat + 1) ∧ y.toNat = 32 + (cell.1.toNat + 1)) ∧
        decodeLegacy out = some
          ⟨if release then 3 else base, mods, motion, cell.2.toNat + 1, cell.1.toNat + 1⟩ :=
  have hbits := mem_modifierBits hmods
  ⟨decodeSgr_encodeMouse hbase hbits protocol motion release cell, encodeMouse_normal_eq_none_iff,
    fun _ h => ⟨encodeMouse_normal hbase hbits h, decodeLegacy_encodeMouse hbase hbits h⟩⟩

/-- The wheel with Ctrl held, in the last cell the legacy form has room for. -/
theorem encodeMouse_decodes_wheel :
    (encodeMouse ⟨.click, .sgr⟩ 64 false false 16 (222, 0)).bind decodeSgr =
        some (⟨64, 16, false, 1, 223⟩, false) ∧
      (encodeMouse ⟨.click, .normal⟩ 64 false false 16 (222, 0)).isSome = true := by
  have hbase : (64 : UInt8) ∈ mouseBases := by decide
  have hmods : (16 : UInt8) &&& 0b11100 = 16 := by decide
  have h := encodeMouse_decodes hbase hmods .click false false (222, 0)
  refine ⟨h.1, ?_⟩
  rw [Option.isSome_iff_ne_none, ne_eq, h.2.1]
  decide

end PolyTerm
