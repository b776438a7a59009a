import Mathlib.Data.List.TakeWhile
import Mathlib.Data.Nat.Notation

/-!
# Decimals in a byte stream

A number as its ASCII digits, and a reader that takes the digits at the front
of a stream. What was printed is read back, and the reader stops where the
digits stop.
-/

namespace Decimals

/-- A character of the first 256, as its byte. -/
def toByte (c : Char) : UInt8 := UInt8.ofNat c.toNat

def ofByte (b : UInt8) : Char := Char.ofNat b.toNat

def isDigit (b : UInt8) : Bool := 0x30 ≤ b && b ≤ 0x39

/-- `n` in decimal. -/
def print (n : Nat) : List UInt8 := (Nat.toDigits 10 n).map toByte

/-- The number at the front, and what comes behind its digits. -/
def read (bytes : List UInt8) : Option (Nat × List UInt8) :=
  let digits := bytes.takeWhile isDigit
  if digits.isEmpty then none
  else some (Nat.ofDigitChars 10 (digits.map ofByte) 0, bytes.dropWhile isDigit)

theorem toNat_toByte {c : Char} (h : c.isDigit = true) :
    (toByte c).toNat = c.toNat ∧ 48 ≤ c.toNat ∧ c.toNat ≤ 57 := by
  have hbounds : 48 ≤ c.toNat ∧ c.toNat ≤ 57 := Char.isDigit_iff_toNat.mp h
  refine ⟨UInt8.toNat_ofNat_of_lt' ?_, hbounds⟩
  have hsize : UInt8.size = 256 := rfl
  omega

theorem ofByte_toByte {c : Char} (h : c.isDigit = true) : ofByte (toByte c) = c := by
  rw [ofByte, (toNat_toByte h).1, Char.ofNat_toNat]

theorem isDigit_toByte {c : Char} (h : c.isDigit = true) : isDigit (toByte c) = true := by
  obtain ⟨hbyte, hlow, hhigh⟩ := toNat_toByte h
  have h30 : (0x30 : UInt8).toNat = 48 := rfl
  have h39 : (0x39 : UInt8).toNat = 57 := rfl
  simp only [isDigit, Bool.and_eq_true, decide_eq_true_eq, UInt8.le_iff_toNat_le, hbyte, h30, h39]
  exact ⟨hlow, hhigh⟩

theorem isDigit_of_mem_toDigits {n : Nat} {c : Char} (h : c ∈ Nat.toDigits 10 n) :
    c.isDigit = true :=
  Nat.isDigit_of_mem_toDigits (by decide) (by decide) h

theorem read_print (n : Nat) {b : UInt8} (hb : isDigit b = false) (rest : List UInt8) :
    read (print n ++ b :: rest) = some (n, b :: rest) := by
  have hdigits : ∀ d ∈ print n, isDigit d = true := by
    intro d hd
    obtain ⟨c, hc, rfl⟩ := List.mem_map.mp hd
    exact isDigit_toByte (isDigit_of_mem_toDigits hc)
  have htake : (print n ++ b :: rest).takeWhile isDigit = print n := by
    rw [List.takeWhile_append_of_pos hdigits, List.takeWhile_cons_of_neg (by simp [hb]),
      List.append_nil]
  have hdrop : (print n ++ b :: rest).dropWhile isDigit = b :: rest := by
    rw [List.dropWhile_append_of_pos hdigits, List.dropWhile_cons_of_neg (by simp [hb])]
  have hback : (print n).map ofByte = Nat.toDigits 10 n := by
    rw [print, List.map_map]
    exact (List.map_congr_left fun c hc => ofByte_toByte (isDigit_of_mem_toDigits hc)).trans
      (List.map_id _)
  have hempty : (print n).isEmpty = false := by
    rw [Bool.eq_false_iff, ne_eq, List.isEmpty_iff, print, List.map_eq_nil_iff]
    exact Nat.toDigits_ne_nil
  have hvalue : Nat.ofDigitChars 10 (Nat.toDigits 10 n) 0 = n := by simp
  simp only [read, htake, hdrop, hback, hempty, hvalue, Bool.false_eq_true, if_false]

end Decimals
