import Disqueue.Framework.Base64

/-!
# Percent-encoding

A byte is sent as itself if it is `plain`, else as `%` and two hexadecimal
digits; a form may send a space as `+`. Decoding takes both back
(`percentDecode_encode`), whatever is plain, as long as `%` and `+` are not.
-/

namespace DQ

/-- A hexadecimal digit. -/
def upperHex (n : Nat) : Char := Char.ofNat (if n < 10 then 48 + n else 55 + n)

/-- The value of a hexadecimal digit, of either case. -/
def hexDigitValue (c : Char) : Option Nat :=
  if 48 ≤ c.toNat ∧ c.toNat ≤ 57 then some (c.toNat - 48)
  else if 65 ≤ c.toNat ∧ c.toNat ≤ 70 then some (c.toNat - 55)
  else if 97 ≤ c.toNat ∧ c.toNat ≤ 102 then some (c.toNat - 87)
  else none

/-- A byte with `%`. -/
def percentByte (b : UInt8) : CStr := ['%', upperHex (b.toNat / 16), upperHex (b.toNat % 16)]

/-- Bytes percent-encoded, with a space as `+` if `plus`. -/
def percentEncode (plus : Bool) (plain : Char → Bool) (bytes : List UInt8) : CStr :=
  bytes.flatMap fun b =>
    if plain (Char.ofNat b.toNat) then [Char.ofNat b.toNat]
    else if plus && b == 32 then ['+']
    else percentByte b

/-- The bytes of a text, as characters. What is no encoding is left as it is. -/
def percentDecode : CStr → CStr
  | '+' :: text => ' ' :: percentDecode text
  | '%' :: a :: b :: text =>
    match hexDigitValue a, hexDigitValue b with
    | some x, some y => Char.ofNat (16 * x + y) :: percentDecode text
    | _, _ => '%' :: percentDecode (a :: b :: text)
  | c :: text => c :: percentDecode text
  | [] => []

theorem char_byte (b : UInt8) : (Char.ofNat b.toNat).toNat = b.toNat := by
  have hb : b.toNat.isValidChar := .inl (by have := b.toNat_lt; omega)
  rw [Char.ofNat, dif_pos hb]
  rfl

theorem upperHex_spec : ∀ n < 16, hexDigitValue (upperHex n) = some n ∧
    upperHex n ≠ '&' ∧ upperHex n ≠ '=' := by
  decide

theorem percentDecode_byte (b : UInt8) (text : CStr) :
    percentDecode (percentByte b ++ text) = Char.ofNat b.toNat :: percentDecode text := by
  have hlt : b.toNat < 256 := b.toNat_lt
  have hhi := (upperHex_spec (b.toNat / 16) (by omega)).1
  have hlo := (upperHex_spec (b.toNat % 16) (by omega)).1
  have hsum : 16 * (b.toNat / 16) + b.toNat % 16 = b.toNat := Nat.div_add_mod ..
  show (match hexDigitValue (upperHex (b.toNat / 16)), hexDigitValue (upperHex (b.toNat % 16)) with
    | some x, some y => Char.ofNat (16 * x + y) :: percentDecode text
    | _, _ => '%' :: percentDecode (_ :: _ :: text)) = _
  rw [hhi, hlo]
  exact congrArg (fun n => Char.ofNat n :: percentDecode text) hsum

theorem percentDecode_plain {c : Char} (h : c ≠ '%' ∧ c ≠ '+') (text : CStr) :
    percentDecode (c :: text) = c :: percentDecode text := by
  rw [percentDecode.eq_def]
  split
  · rename_i heq
    exact absurd (List.cons.inj heq).1 h.2
  · rename_i heq
    exact absurd (List.cons.inj heq).1 h.1
  · rename_i heq
    cases heq
    rfl
  · rename_i heq
    cases heq

/-- Decoding undoes encoding. -/
theorem percentDecode_encode {plus : Bool} {plain : Char → Bool}
    (h : ∀ c, plain c = true → c ≠ '%' ∧ c ≠ '+') (bytes : List UInt8) :
    percentDecode (percentEncode plus plain bytes) = chars bytes := by
  induction bytes with
  | nil => rfl
  | cons b bytes ih =>
    have hcons : percentEncode plus plain (b :: bytes) =
        (if plain (Char.ofNat b.toNat) then [Char.ofNat b.toNat]
          else if plus && b == 32 then ['+'] else percentByte b) ++
          percentEncode plus plain bytes := List.flatMap_cons
    rw [hcons, chars, List.map_cons, ← chars, ← ih]
    split
    · rename_i hp
      exact percentDecode_plain (h _ hp) _
    split
    · rename_i hs
      obtain rfl : b = 32 := by simpa using (Bool.and_eq_true _ _ |>.mp hs).2
      rfl
    · exact percentDecode_byte b _

/-- Encoded bytes have no separator, if the plain characters have none. -/
theorem percentEncode_separators {plus : Bool} {plain : Char → Bool}
    (h : ∀ c, plain c = true → c ≠ '&' ∧ c ≠ '=') (bytes : List UInt8) :
    ∀ c ∈ percentEncode plus plain bytes, c ≠ '&' ∧ c ≠ '=' := by
  intro c hc
  obtain ⟨b, -, hb⟩ := List.mem_flatMap.mp hc
  have hlt : b.toNat < 256 := b.toNat_lt
  split at hb
  · rename_i hp
    rw [List.mem_singleton.mp hb]
    exact h _ hp
  split at hb
  · rw [List.mem_singleton.mp hb]
    decide
  · simp only [percentByte, List.mem_cons, List.not_mem_nil, or_false] at hb
    rcases hb with rfl | rfl | rfl
    · decide
    · exact (upperHex_spec (b.toNat / 16) (by omega)).2
    · exact (upperHex_spec (b.toNat % 16) (by omega)).2

end DQ
