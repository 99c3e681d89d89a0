import Disqueue.Framework.Text

/-!
# Base64

Bytes as characters (`chars`), and their base64 text with padding (`base64`).
The text is graphic (`isGraph_base64`), and decoding it gives the bytes
(`base64Decode_base64`).
-/

namespace DQ

/-- Bytes as characters. -/
def chars (bytes : List UInt8) : CStr := bytes.map fun b => Char.ofNat b.toNat

/-- The character of 6 bits. -/
def base64Char (n : Nat) : Char :=
  if n < 26 then Char.ofNat (65 + n)
  else if n < 52 then Char.ofNat (71 + n)
  else if n < 62 then Char.ofNat (n - 4)
  else if n = 62 then '+'
  else '/'

/-- The base64 text of bytes. -/
def base64 : List UInt8 → CStr
  | a :: b :: c :: bytes =>
    base64Char (a.toNat / 4) :: base64Char (a.toNat % 4 * 16 + b.toNat / 16) ::
      base64Char (b.toNat % 16 * 4 + c.toNat / 64) :: base64Char (c.toNat % 64) :: base64 bytes
  | [a, b] =>
    [base64Char (a.toNat / 4), base64Char (a.toNat % 4 * 16 + b.toNat / 16),
      base64Char (b.toNat % 16 * 4), '=']
  | [a] => [base64Char (a.toNat / 4), base64Char (a.toNat % 4 * 16), '=', '=']
  | [] => []

/-- The 6 bits of a character of the alphabet. -/
def base64Value (c : Char) : Nat :=
  if 97 ≤ c.toNat then c.toNat - 71
  else if 65 ≤ c.toNat then c.toNat - 65
  else if 48 ≤ c.toNat then c.toNat + 4
  else if c = '+' then 62
  else 63

/-- The bytes of a base64 text. -/
def base64Decode : CStr → List UInt8
  | w :: x :: y :: z :: text =>
    let a := UInt8.ofNat (base64Value w * 4 + base64Value x / 16)
    let b := UInt8.ofNat (base64Value x % 16 * 16 + base64Value y / 4)
    let c := UInt8.ofNat (base64Value y % 4 * 64 + base64Value z)
    if y = '=' then [a]
    else if z = '=' then [a, b]
    else a :: b :: c :: base64Decode text
  | _ => []

theorem base64Char_spec : ∀ n < 64, base64Value (base64Char n) = n ∧
    isGraph (base64Char n) = true ∧ base64Char n ≠ '=' := by
  decide

theorem base64Value_char {n : Nat} (h : n < 64) : base64Value (base64Char n) = n :=
  (base64Char_spec n h).1

theorem base64Char_ne {n : Nat} (h : n < 64) : base64Char n ≠ '=' := (base64Char_spec n h).2.2

theorem isGraph_base64Char {n : Nat} (h : n < 64) : isGraph (base64Char n) = true :=
  (base64Char_spec n h).2.1

theorem isGraph_base64 (bytes : List UInt8) : ∀ c ∈ base64 bytes, isGraph c = true := by
  have hlt : ∀ b : UInt8, b.toNat < 256 := fun b => b.toNat_lt
  induction bytes using base64.induct with
  | case1 a b c bytes ih =>
    have ha := hlt a
    have hb := hlt b
    have hc := hlt c
    intro x hx
    simp only [base64, List.mem_cons] at hx
    rcases hx with rfl | rfl | rfl | rfl | hx
    · exact isGraph_base64Char (by omega)
    · exact isGraph_base64Char (by omega)
    · exact isGraph_base64Char (by omega)
    · exact isGraph_base64Char (by omega)
    · exact ih x hx
  | case2 a b =>
    have ha := hlt a
    have hb := hlt b
    intro x hx
    simp only [base64, List.mem_cons, List.not_mem_nil, or_false] at hx
    rcases hx with rfl | rfl | rfl | rfl
    · exact isGraph_base64Char (by omega)
    · exact isGraph_base64Char (by omega)
    · exact isGraph_base64Char (by omega)
    · rfl
  | case3 a =>
    have ha := hlt a
    intro x hx
    simp only [base64, List.mem_cons, List.not_mem_nil, or_false] at hx
    rcases hx with rfl | rfl | rfl | rfl
    · exact isGraph_base64Char (by omega)
    · exact isGraph_base64Char (by omega)
    · rfl
    · rfl
  | case4 => simp [base64]

theorem base64_ne_nil {bytes : List UInt8} (h : bytes ≠ []) : base64 bytes ≠ [] := by
  rcases bytes with _ | ⟨a, _ | ⟨b, _ | ⟨c, bytes⟩⟩⟩
  · exact absurd rfl h
  all_goals simp [base64]

/-- Decoding gives the bytes back. -/
theorem base64Decode_base64 (bytes : List UInt8) : base64Decode (base64 bytes) = bytes := by
  have hlt : ∀ b : UInt8, b.toNat < 256 := fun b => b.toNat_lt
  have hbyte : ∀ {n : Nat} {b : UInt8}, n = b.toNat → UInt8.ofNat n = b := by
    rintro n b rfl
    exact UInt8.ofNat_toNat
  induction bytes using base64.induct with
  | case1 a b c bytes ih =>
    have ha := hlt a
    have hb := hlt b
    have hc := hlt c
    rw [base64, base64Decode]
    rw [if_neg (base64Char_ne (by omega)), if_neg (base64Char_ne (by omega)), ih,
      base64Value_char (by omega), base64Value_char (by omega), base64Value_char (by omega),
      base64Value_char (by omega), hbyte (b := a) (by omega), hbyte (b := b) (by omega),
      hbyte (b := c) (by omega)]
  | case2 a b =>
    have ha := hlt a
    have hb := hlt b
    rw [base64, base64Decode]
    rw [if_neg (base64Char_ne (by omega)), if_pos rfl,
      base64Value_char (by omega), base64Value_char (by omega), base64Value_char (by omega),
      hbyte (b := a) (by omega), hbyte (b := b) (by omega)]
  | case3 a =>
    have ha := hlt a
    rw [base64, base64Decode]
    rw [if_pos rfl, base64Value_char (by omega), base64Value_char (by omega),
      hbyte (b := a) (by omega)]
  | case4 => rfl

end DQ
