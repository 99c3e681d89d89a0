import Disqueue.Proof.Auth.Reload
import Disqueue.Spec.Credentials

/-!
# Accepted credentials

The header that a client sends is decoded to the user name and the password
(`decode_basicAuthorization`), and is accepted exactly if a line that was added
says them (`header_accepted_iff`).
-/

namespace DQ.Proof.Auth

open DQ.Model DQ.Spec

variable {bioRead : CStr → List Char} {v : Verification}

/-! ## Decoding -/

theorem toNat_ofNat_byte (b : UInt8) : (Char.ofNat b.toNat).toNat = b.toNat := by
  have hb : b.toNat.isValidChar := .inl (by have := b.toNat_lt; omega)
  rw [Char.ofNat, dif_pos hb]
  rfl

theorem mem_chars {b : UInt8} {bytes : List UInt8} :
    Char.ofNat b.toNat ∈ chars bytes ↔ b ∈ bytes := by
  refine ⟨fun h => ?_, fun h => List.mem_map.mpr ⟨b, h, rfl⟩⟩
  obtain ⟨b', hb', heq⟩ := List.mem_map.mp h
  have hnat := congrArg Char.toNat heq
  rw [toNat_ofNat_byte, toNat_ofNat_byte] at hnat
  exact UInt8.toNat_inj.mp hnat ▸ hb'

theorem chars_credentials (username password : List UInt8) :
    chars (username ++ colon :: password) = chars username ++ ':' :: chars password :=
  List.map_append

/-- The scheme is skipped. -/
theorem authSkipBasic_base64 (beyond : List Char) {bytes : List UInt8} (h : bytes ≠ []) :
    authSkipBasic beyond (basicScheme ++ base64 bytes) = some (base64 bytes) := by
  have htext := isGraph_base64 bytes
  have hdrop : (basicScheme ++ base64 bytes).drop 6 = base64 bytes := rfl
  have htake : (basicScheme ++ base64 bytes).take 6 = basicScheme := rfl
  rw [authSkipBasic, hdrop, htake, strcaseEq_refl]
  obtain ⟨c, text, heq⟩ := List.exists_cons_of_ne_nil (base64_ne_nil h)
  rw [heq] at htext ⊢
  rw [List.dropWhile_cons_of_neg (by simp [htext c])]
  rfl

/-- The header of a client says its user name and password. -/
theorem decode_basicAuthorization (hbio : DecodesFully bioRead) (hv : Succeeds v)
    {username password : List UInt8} (hc : colon ∉ username) (hu : 0 ∉ username)
    (hp : 0 ∉ password) (hh : v.header = basicAuthorization username password) :
    authPlaintextDecode_ bioRead v = some (chars username, chars password) := by
  have hne : username ++ colon :: password ≠ [] := by simp
  have h0 : '\x00' ∉ chars username ++ ':' :: chars password := by
    simp only [List.mem_append, List.mem_cons, not_or]
    exact ⟨fun h => hu (mem_chars.mp h), by decide, fun h => hp (mem_chars.mp h)⟩
  have hc' : ':' ∉ chars username := fun h => hc (mem_chars (b := colon).mp h)
  rw [authPlaintextDecode_, hh, basicAuthorization, authSkipBasic_base64 _ hne]
  dsimp only
  rw [hv, hbio, chars_credentials, takeWhile_noNul h0, splitFirst_char hc']
  simp [hv _]

/-! ## Lines -/

/-- The line of an entry has the form of its user name and its password. -/
theorem hasForm_isLine {e : AuthPlaintextEntry} {line : CStr} (h : IsLine e line)
    (username password : CStr) :
    ':' ∉ username ∧ HasForm username password line ↔
      e.username = username ∧ e.codecVerify.verify e.password password = true := by
  rw [isLine_codec h]
  obtain ⟨-, -, hl, hc, -⟩ := h
  have hsplit := splitFirst_char (b := e.password) hc
  constructor
  · rintro ⟨hc', type, hl', ht⟩
    have hsplit' := splitFirst_char (b := '$' :: (type ++ '$' :: password)) hc'
    rw [← hl', hl, hsplit] at hsplit'
    obtain ⟨hu, hp⟩ : e.username = username ∧ e.password = '$' :: (type ++ '$' :: password) := by
      simpa using hsplit'
    exact ⟨hu, type, ht, hp⟩
  · rintro ⟨rfl, type, ht, hp⟩
    exact ⟨hc, type, by rw [hl, hp], ht⟩

/-- A line of another form is refused. -/
theorem other_form_refused {line : CStr}
    (h : ¬ ∃ username password, ':' ∉ username ∧ HasForm username password line)
    (ok : AuthCall → Bool) (i : Nat) (auth : AuthPlaintext) :
    authEntryPlaintextAdd_ ok i line auth = (auth, false) := by
  apply add_malformed
  rintro ⟨e, type, secret, hl, hc, hp, ht⟩
  exact h ⟨e.username, secret, hc, type, by rw [hl, hp], ht⟩

/-- What was added is found. -/
theorem lookup_iff {es : List AuthPlaintextEntry} {lines : List CStr}
    (h : List.Forall₂ IsLine es lines) {username : CStr} (hc : ':' ∉ username) (password : CStr) :
    (∃ e ∈ es, strcaseEq e.username username = true ∧
        e.codecVerify.verify e.password password = true) ↔
      ∃ line ∈ lines, ∃ username', HasForm username' password line ∧
        strcaseEq username' username = true := by
  induction h with
  | nil => simp
  | cons he _ ih =>
    simp only [List.exists_mem_cons_iff, ih]
    refine or_congr_left ⟨fun ⟨hu, hp⟩ => ?_, fun ⟨username', hf, hu⟩ => ?_⟩
    · exact ⟨_, ((hasForm_isLine he _ _).mpr ⟨rfl, hp⟩).2, hu⟩
    · obtain ⟨rfl, hp⟩ := (hasForm_isLine he _ _).mp ⟨not_mem_of_strcaseEq hu (by decide) hc (by decide), hf⟩
      exact ⟨hu, hp⟩

/-- A header is accepted exactly if a line that was added has the form of its
user name and password, and a line of another form is refused. -/
theorem header_accepted_iff {bioRead : CStr → List Char} (hbio : DecodesFully bioRead)
    {ok : AuthCall → Bool} {lines : List CStr} {auth₀ auth : AuthPlaintext}
    (hempty : auth₀.passwords = []) (hadd : authAddEach ok 0 lines auth₀ = (auth, true))
    {v : Verification} (hv : Succeeds v) {username password : List UInt8}
    (hc : colon ∉ username) (hu : 0 ∉ username) (hp : 0 ∉ password)
    (hh : v.header = basicAuthorization username password) :
    (acceptsHeader bioRead v auth = true ↔
        ∃ line ∈ lines, ∃ username', HasForm username' (chars password) line ∧
          strcaseEq username' (chars username) = true) ∧
      (∀ files auth', authPlaintextUpdate_ v files auth' = (auth, true) →
        (authPlaintextVerify_ bioRead v files auth').2 = acceptsHeader bioRead v auth) ∧
      ∀ line, (¬ ∃ username' password', ':' ∉ username' ∧ HasForm username' password' line) →
        ∀ ok i auth, authEntryPlaintextAdd_ ok i line auth = (auth, false) := by
  refine ⟨?_, fun files auth' h => by rw [authPlaintextVerify_eq, h]; rfl, fun _ h => other_form_refused h⟩
  have hc' : ':' ∉ chars username := fun h => hc (mem_chars (b := colon).mp h)
  obtain ⟨es, hes, rfl⟩ := authAddEach_says (v := { v with ok := ok }) hadd
  rw [← lookup_iff hes hc', acceptsHeader, decode_basicAuthorization hbio hv hc hu hp hh]
  simp [hempty]

/-- The lines of a file with two users, and one of alice's in capitals. -/
def threeLines : List CStr :=
  ["alice:$plain$a$b:c".toList, "bob:$plain$pw".toList, "ALICE:$PLAIN$pw".toList]

/-- An authenticator with the three lines. -/
def threeEntries : AuthPlaintext := (authAddEach (fun _ => true) 0 threeLines authPlaintextNew_).1

theorem added_threeLines :
    authAddEach (fun _ => true) 0 threeLines authPlaintextNew_ = (threeEntries, true) := by
  decide +kernel

/-- A client that sends alice's password. -/
def verifyAlice : Verification :=
  ⟨basicAuthorization [97, 108, 105, 99, 101] [97, 36, 98, 58, 99], fun _ => true, 'x', []⟩

theorem header_accepted_alice :
    acceptsHeader (fun text => chars (base64Decode text)) verifyAlice threeEntries = true :=
  (header_accepted_iff (fun bytes => congrArg chars (base64Decode_base64 bytes)) rfl
    added_threeLines (fun _ => rfl) (by decide) (by decide) (by decide) rfl).1.mpr
    ⟨"alice:$plain$a$b:c".toList, .head _, "alice".toList,
      ⟨"plain".toList, by decide +kernel, by decide +kernel⟩, by decide +kernel⟩

end DQ.Proof.Auth
