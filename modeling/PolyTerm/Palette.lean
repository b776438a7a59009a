import PolyTerm.WideText

/-!
# Colours

The terminal keeps its colours logical and the theme resolves them. An index is
one of the sixteen ANSI colours, a corner of the 6 by 6 by 6 cube or a step of
the grey ramp, and none of the channel arithmetic overflows.
-/

namespace PolyTerm

/-- An opaque colour. -/
structure Color32 where
  r : UInt8
  g : UInt8
  b : UInt8
deriving DecidableEq, Repr

structure Theme where
  foreground : Color32
  background : Color32
  cursor : Color32
  /-- background of selected cells -/
  selection : Color32
  ansi : Vector Color32 16

namespace Theme

/-- A muted dark theme. -/
def muted : Theme where
  foreground := ⟨0xd0, 0xd0, 0xd0⟩
  background := ⟨0x14, 0x14, 0x18⟩
  cursor := ⟨0xd0, 0xd0, 0xd0⟩
  selection := ⟨0x33, 0x44, 0x66⟩
  ansi := #v[⟨0x1c, 0x1c, 0x1c⟩, ⟨0xd7, 0x5f, 0x5f⟩, ⟨0x87, 0xd7, 0x87⟩, ⟨0xd7, 0xd7, 0x87⟩,
    ⟨0x87, 0xaf, 0xd7⟩, ⟨0xd7, 0x87, 0xd7⟩, ⟨0x87, 0xd7, 0xd7⟩, ⟨0xd0, 0xd0, 0xd0⟩,
    ⟨0x5f, 0x5f, 0x5f⟩, ⟨0xff, 0x87, 0x87⟩, ⟨0xaf, 0xff, 0xaf⟩, ⟨0xff, 0xff, 0xaf⟩,
    ⟨0xaf, 0xd7, 0xff⟩, ⟨0xff, 0xaf, 0xff⟩, ⟨0xaf, 0xff, 0xff⟩, ⟨0xff, 0xff, 0xff⟩]

end Theme

/-- A cube coordinate as a channel value. -/
def cube (n : UInt8) : UInt8 := if n = 0 then 0 else 55 + n * 40

/-- A bold index below eight is its bright variant. -/
def bright (i : UInt8) (bold : Bool) : UInt8 := if bold then i + 8 else i

theorem bright_lt {i : UInt8} (h : i < 8) (bold : Bool) : (bright i bold).toNat < 16 := by
  have hi : i.toNat < 8 := h
  cases bold with
  | false => exact Nat.lt_of_lt_of_le hi (by decide)
  | true =>
      rw [bright, if_pos rfl, UInt8.toNat_add]
      change (i.toNat + 8) % 256 < 16
      omega

def Theme.indexed (theme : Theme) (i : UInt8) (bold : Bool) : Color32 :=
  if h : i < 8 then theme.ansi.get ⟨(bright i bold).toNat, bright_lt h bold⟩
  else if h : i < 16 then theme.ansi.get ⟨i.toNat, h⟩
  else if i < 232 then
    let c := i - 16
    ⟨cube (c / 36), cube (c % 36 / 6), cube (c % 6)⟩
  else
    let v := 8 + (i - 232) * 10
    ⟨v, v, v⟩

/-- `bold` turns the eight base colours into their bright variants. -/
def Theme.resolve (theme : Theme) (color : Color) (bold : Bool) : Color32 :=
  match color with
  | .foreground => theme.foreground
  | .background => theme.background
  | .cursor => theme.cursor
  | .rgb r g b => ⟨r, g, b⟩
  | .indexed i => theme.indexed i bold

end PolyTerm
