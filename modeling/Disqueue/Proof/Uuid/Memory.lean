import Mathlib.Data.Nat.Basic
import Mathlib.Tactic.Ring
import Disqueue.Model.Uuid

/-!
# Integers in memory

Reading some bytes of an integer that was stored (`peekInt_pokeInt_rest`) or
bytes outside of it (`peekInt_pokeInt_of_disjoint`), and the byte orders:
`htonl` and `htons` are their own inverses, and `htonl` looks at 32 bits only.
-/

namespace DQ.Proof.Uuid

open DQ.Model

/-- What is read depends on the bytes read. -/
theorem peekInt_congr {m m' : Bytes} {off n : Nat} (h : ∀ i, i < n → m (off + i) = m' (off + i)) :
    peekInt m off n = peekInt m' off n := by
  induction n generalizing off with
  | zero => rfl
  | succ n ih =>
    have h0 := h 0 (Nat.succ_pos n)
    rw [peekInt, peekInt, ih fun i hi => ?_]
    · rw [show m off = m' off from h0]
    · have := h (i + 1) (by omega)
      rwa [Nat.add_assoc, Nat.add_comm 1 i]

theorem peekInt_lt (m : Bytes) (off n : Nat) : peekInt m off n < 256 ^ n := by
  induction n generalizing off with
  | zero => exact Nat.one_pos
  | succ n ih =>
    have h1 := (m off).toNat_lt
    have h2 := ih (off + 1)
    rw [peekInt, Nat.pow_succ]
    omega

theorem pokeInt_of_not {m : Bytes} {off n v i : Nat} (h : ¬ (off ≤ i ∧ i < off + n)) :
    pokeInt m off n v i = m i := if_neg h

theorem pokeInt_byte {m : Bytes} {off n v i : Nat} (h : i < n) :
    pokeInt m off n v (off + i) = UInt8.ofNat (v / 256 ^ i) := by
  rw [pokeInt, if_pos (by omega), Nat.add_sub_cancel_left]

/-- Storing elsewhere changes nothing. -/
theorem peekInt_pokeInt_of_disjoint {m : Bytes} {off n v off' k : Nat}
    (h : off' + k ≤ off ∨ off + n ≤ off') : peekInt (pokeInt m off n v) off' k = peekInt m off' k :=
  peekInt_congr fun i hi => pokeInt_of_not (by omega)

/-- The bytes from the `j`-th on of the integer stored. -/
theorem peekInt_pokeInt_rest {m : Bytes} {off n v j k : Nat} (hk : j + k ≤ n) :
    peekInt (pokeInt m off n v) (off + j) k = v / 256 ^ j % 256 ^ k := by
  induction k generalizing j with
  | zero => rw [peekInt, Nat.pow_zero, Nat.mod_one]
  | succ k ih =>
    have hnext := ih (j := j + 1) (by omega)
    rw [← Nat.add_assoc] at hnext
    have hbyte : (UInt8.ofNat (v / 256 ^ j)).toNat = v / 256 ^ j % 256 := UInt8.toNat_ofNat'
    rw [peekInt, hnext, pokeInt_byte (by omega), hbyte, Nat.pow_succ' (n := k), Nat.mod_mul,
      Nat.pow_succ 256 j, Nat.div_div_eq_div_mul]

/-- The low bytes of the integer stored. -/
theorem peekInt_pokeInt {m : Bytes} {off n v k : Nat} (hk : k ≤ n) :
    peekInt (pokeInt m off n v) off k = v % 256 ^ k := by
  simpa using peekInt_pokeInt_rest (m := m) (n := n) (v := v) (j := 0) (k := k) (by omega)

/-- Four of eight bytes. -/
theorem peekInt_eight (m : Bytes) (off : Nat) :
    peekInt m off 8 = peekInt m off 4 + 2 ^ 32 * peekInt m (off + 4) 4 := by
  simp only [peekInt]
  ring

/-! ## Byte orders -/

theorem htonl_lt (v : Nat) : htonl v < 256 ^ 4 := by
  unfold htonl
  omega

theorem htons_lt (v : Nat) : htons v < 256 ^ 2 := by
  unfold htons
  omega

/-- `htonl` of four bytes is the bytes in the other order. -/
theorem htonl_bytes {a b c d : Nat} (ha : a < 256) (hb : b < 256) (hc : c < 256) (hd : d < 256) :
    htonl (a + 256 * (b + 256 * (c + 256 * d))) = d + 256 * (c + 256 * (b + 256 * a)) := by
  have h0 : (a + 256 * (b + 256 * (c + 256 * d))) % 256 = a := by omega
  have h1 : (a + 256 * (b + 256 * (c + 256 * d))) / 256 = b + 256 * (c + 256 * d) := by omega
  have h2 : (a + 256 * (b + 256 * (c + 256 * d))) / 256 ^ 2 = c + 256 * d := by omega
  have h3 : (a + 256 * (b + 256 * (c + 256 * d))) / 256 ^ 3 = d := by omega
  unfold htonl
  rw [h0, h1, h2, h3, Nat.add_mul_mod_self_left, Nat.add_mul_mod_self_left, Nat.mod_eq_of_lt hb,
    Nat.mod_eq_of_lt hc, Nat.mod_eq_of_lt hd]
  ring

theorem htons_bytes {a b : Nat} (ha : a < 256) (hb : b < 256) :
    htons (a + 256 * b) = b + 256 * a := by
  unfold htons
  omega

theorem htonl_htonl {v : Nat} (h : v < 256 ^ 4) : htonl (htonl v) = v := by
  obtain ⟨a, b, c, d, ha, hb, hc, hd, rfl⟩ : ∃ a b c d, a < 256 ∧ b < 256 ∧ c < 256 ∧ d < 256 ∧
      v = a + 256 * (b + 256 * (c + 256 * d)) :=
    ⟨v % 256, v / 256 % 256, v / 256 / 256 % 256, v / 256 / 256 / 256, by omega, by omega, by omega,
      by omega, by omega⟩
  rw [htonl_bytes ha hb hc hd, htonl_bytes hd hc hb ha]

theorem htons_htons {v : Nat} (h : v < 256 ^ 2) : htons (htons v) = v := by
  obtain ⟨a, b, ha, hb, rfl⟩ : ∃ a b, a < 256 ∧ b < 256 ∧ v = a + 256 * b :=
    ⟨v % 256, v / 256, by omega, by omega, by omega⟩
  rw [htons_bytes ha hb, htons_bytes hb ha]

/-- `htonl` takes the low 32 bits of its argument. -/
theorem htonl_low (v w : Nat) : htonl (v + 2 ^ 32 * w) = htonl v := by
  unfold htonl
  omega

theorem htonl_eight (m : Bytes) (off : Nat) : htonl (peekInt m off 8) = htonl (peekInt m off 4) := by
  rw [peekInt_eight, htonl_low]

end DQ.Proof.Uuid
