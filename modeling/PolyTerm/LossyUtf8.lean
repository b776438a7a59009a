import Mathlib.Data.List.Basic

/-!
# Lossy UTF-8

Bytes as text, with a replacement character for what is not UTF-8: a sequence
that goes wrong is replaced as far as it could have been the start of a
character, and decoding goes on behind it. Text that was encoded comes back
whole (`decode_encode`).
-/

namespace LossyUtf8

/-- The UTF-8 bytes of a text. -/
def encode (cs : List Char) : List UInt8 := cs.flatMap String.utf8EncodeChar

def isContinuation (b : UInt8) : Bool := b &&& 0xc0 == 0x80

/-- `second` can follow `first`, the lead byte of three or four. -/
def mayFollow (first second : UInt8) : Bool :=
  if first == 0xe0 then 0xa0 ≤ second && second ≤ 0xbf
  else if first == 0xed then 0x80 ≤ second && second ≤ 0x9f
  else if first == 0xf0 then 0x90 ≤ second && second ≤ 0xbf
  else if first == 0xf4 then 0x80 ≤ second && second ≤ 0x8f
  else isContinuation second

/-- How many bytes at the front could have been the start of a character; at
least one. -/
def badLength : List UInt8 → Nat
  | first :: second :: third :: _ =>
      if 0xe0 ≤ first && first ≤ 0xf4 && mayFollow first second then
        if 0xf0 ≤ first && isContinuation third then 3 else 2
      else 1
  | first :: second :: [] =>
      if 0xe0 ≤ first && first ≤ 0xf4 && mayFollow first second then 2 else 1
  | _ => 1

/-- The character at the front. -/
def next (bytes : List UInt8) : Option Char := bytes.toByteArray.utf8DecodeChar? 0

/-- At most `fuel` characters. -/
def decodeFrom : Nat → List UInt8 → List Char
  | 0, _ | _, [] => []
  | fuel + 1, bytes =>
      match next bytes with
      | some c => c :: decodeFrom fuel (bytes.drop c.utf8Size)
      | none => '\ufffd' :: decodeFrom fuel (bytes.drop (badLength bytes))

/-- Every character is of at least one byte. -/
def decode (bytes : List UInt8) : List Char := decodeFrom bytes.length bytes

theorem next_encode (c : Char) (rest : List UInt8) :
    next (String.utf8EncodeChar c ++ rest) = some c := by
  rw [next, List.toByteArray_append, ByteArray.utf8DecodeChar?_utf8EncodeChar_append]

theorem decodeFrom_encode {fuel : Nat} {cs : List Char} (h : (encode cs).length ≤ fuel) :
    decodeFrom fuel (encode cs) = cs := by
  induction cs generalizing fuel with
  | nil => cases fuel <;> rfl
  | cons c cs ih =>
      have hsize : (String.utf8EncodeChar c).length = c.utf8Size := String.length_utf8EncodeChar c
      have hpos := c.utf8Size_pos
      rw [encode, List.flatMap_cons, List.length_append, hsize] at h
      obtain ⟨n, rfl⟩ : ∃ n, fuel = n + 1 := ⟨fuel - 1, by omega⟩
      have hfuel : (encode cs).length ≤ n := by
        rw [encode]
        omega
      obtain ⟨b, bs, hbytes⟩ := List.exists_cons_of_ne_nil (String.utf8EncodeChar_ne_nil (c := c))
      have hnext := next_encode c (encode cs)
      have hdrop : (String.utf8EncodeChar c ++ encode cs).drop c.utf8Size = encode cs := by
        rw [← hsize, List.drop_left]
      rw [encode, List.flatMap_cons, ← encode]
      rw [hbytes, List.cons_append] at hnext hdrop ⊢
      simp only [decodeFrom, hnext, hdrop, ih hfuel]

theorem decode_encode (cs : List Char) : decode (encode cs) = cs :=
  decodeFrom_encode (Nat.le_refl _)

end LossyUtf8
