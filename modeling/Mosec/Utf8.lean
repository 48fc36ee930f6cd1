import Mathlib.Data.List.Basic

namespace Mosec.Utf8

def isContinuation (byte : UInt8) : Bool := 0x80 ≤ byte && byte ≤ 0xBF

def width (lead : UInt8) : ℕ :=
  if lead ≤ 0x7F then 1
  else if 0xC2 ≤ lead && lead ≤ 0xDF then 2
  else if 0xE0 ≤ lead && lead ≤ 0xEF then 3
  else if 0xF0 ≤ lead && lead ≤ 0xF4 then 4
  else 0

/-- The second bytes that no overlong form, surrogate or code point past the last one has. -/
def isSecond (lead byte : UInt8) : Bool :=
  if lead = 0xE0 then 0xA0 ≤ byte && byte ≤ 0xBF
  else if lead = 0xED then 0x80 ≤ byte && byte ≤ 0x9F
  else if lead = 0xF0 then 0x90 ≤ byte && byte ≤ 0xBF
  else if lead = 0xF4 then 0x80 ≤ byte && byte ≤ 0x8F
  else isContinuation byte

/-- How many bytes one replacement character stands for where no character begins: those that
could begin one, and one at least. -/
def illFormed : List UInt8 → ℕ
  | lead :: byte :: bytes =>
    if 2 < width lead && isSecond lead byte then
      2 + ((bytes.take (width lead - 2)).takeWhile isContinuation).length
    else 1
  | _ => 1

def lossyLoop : ℕ → List UInt8 → List Char
  | 0, _ => []
  | fuel + 1, bytes =>
    if bytes = [] then []
    else match bytes.toByteArray.utf8DecodeChar? 0 with
      | some c => c :: lossyLoop fuel (bytes.drop c.utf8Size)
      | none => '\uFFFD' :: lossyLoop fuel (bytes.drop (illFormed bytes))

/-- Every step takes a byte at least, so that no more steps than bytes are needed. -/
def fromUtf8Lossy (bytes : List UInt8) : List Char := lossyLoop bytes.length bytes

theorem lossyLoop_encode (text : List Char) {fuel : ℕ}
    (hfuel : (text.flatMap String.utf8EncodeChar).length ≤ fuel) :
    lossyLoop fuel (text.flatMap String.utf8EncodeChar) = text := by
  induction text generalizing fuel with
  | nil => cases fuel <;> rfl
  | cons c text ih =>
    have hlength := String.length_utf8EncodeChar c
    have hpos := c.utf8Size_pos
    simp only [List.flatMap_cons, List.length_append] at hfuel ⊢
    obtain ⟨fuel, rfl⟩ : ∃ n, fuel = n + 1 := Nat.exists_eq_add_one.mpr (by omega)
    have hne : String.utf8EncodeChar c ++ text.flatMap String.utf8EncodeChar ≠ [] := by
      apply List.append_ne_nil_of_left_ne_nil
      exact List.ne_nil_of_length_pos (by omega)
    have hdecode : (String.utf8EncodeChar c ++
        text.flatMap String.utf8EncodeChar).toByteArray.utf8DecodeChar? 0 = some c := by
      rw [List.toByteArray_append, ByteArray.utf8DecodeChar?_utf8EncodeChar_append]
    rw [lossyLoop, if_neg hne, hdecode]
    simp only
    rw [List.drop_left' hlength, ih (by omega)]

theorem fromUtf8Lossy_encode (text : List Char) :
    fromUtf8Lossy (text.flatMap String.utf8EncodeChar) = text :=
  lossyLoop_encode text (Nat.le_refl _)

example : fromUtf8Lossy [97, 0xE2, 0x82, 98, 0xFF, 0xED, 0xA0, 0x80] =
    ['a', '\uFFFD', 'b', '\uFFFD', '\uFFFD', '\uFFFD', '\uFFFD'] := by
  decide +kernel

end Mosec.Utf8
