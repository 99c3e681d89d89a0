import Mathlib.Data.List.Forall2
import Disqueue.Proof.Auth.ReadLine
import Disqueue.Spec.Credentials
import Disqueue.Spec.Passwords

/-!
# Reloading a password file

A reload adds the entries of the file's lines to those that are there
(`reload_adds`). So they are those of the file, and a verification accepts
what the file says, as long as nothing that is there was removed from the file
(`reload_replaces`). A user who was removed stays (`removed_user_stays`).
-/

namespace DQ.Proof.Auth

open DQ.Model DQ.Spec

/-! ## Lines and entries -/

/-- The first colon of a line ends the user name. -/
theorem splitFirst_char {x : Char} {a b : CStr} (h : x ∉ a) :
    splitFirst (· == x) (a ++ x :: b) = some (a, x, b) :=
  splitFirst_eq_some.mpr
    ⟨rfl, beq_self_eq_true x, fun _ hc => beq_eq_false_iff_ne.mpr (ne_of_mem_of_not_mem hc h)⟩

/-- A line says one entry. -/
theorem isLine_unique {e e' : AuthPlaintextEntry} {line : CStr} (h : IsLine e line)
    (h' : IsLine e' line) : e = e' := by
  obtain ⟨username, password, ⟨⟩⟩ := e
  obtain ⟨username', password', ⟨⟩⟩ := e'
  obtain ⟨-, -, hl, hu, -⟩ := h
  obtain ⟨-, -, hl', hu', -⟩ := h'
  have hsplit := splitFirst_char (b := password) hu
  rw [show username ++ ':' :: password = line from hl.symm, hl', splitFirst_char hu'] at hsplit
  cases hsplit
  rfl

/-- What `auth_entry_plaintext_add_` accepts is a line. -/
theorem authEntryPlaintext_isLine {ok : AuthCall → Bool} {i : Nat} {line : CStr}
    {e : AuthPlaintextEntry} (h : authEntryPlaintext ok i line = some e) : IsLine e line := by
  unfold authEntryPlaintext at h
  split at h
  · cases h
  · rename_i username colon password hs
    obtain ⟨hl, hc, hu⟩ := splitFirst_eq_some.mp hs
    obtain rfl := beq_iff_eq.mp hc
    split at h
    · rename_i salt
      split at h
      · cases h
      · rename_i type dollar secret hs'
        obtain ⟨hl', hd, -⟩ := splitFirst_eq_some.mp hs'
        obtain rfl := beq_iff_eq.mp hd
        split at h <;> [cases h; skip]
        split at h <;> [cases h; skip]
        split at h <;> [cases h; skip]
        split at h <;> [cases h; skip]
        split at h
        · rename_i htype
          obtain rfl := Option.some.inj h
          exact ⟨type, secret, hl, fun hm => by simpa using hu _ hm, by rw [hl'], htype.2⟩
        · cases h
    · cases h

/-- A line that says no entry is refused. -/
theorem add_malformed {ok : AuthCall → Bool} {i : Nat} {line : CStr} {auth : AuthPlaintext}
    (h : ¬ ∃ e, IsLine e line) : authEntryPlaintextAdd_ ok i line auth = (auth, false) := by
  unfold authEntryPlaintextAdd_
  split
  · rename_i e he
    exact absurd ⟨e, authEntryPlaintext_isLine he⟩ h
  · rfl

/-- Where no allocation fails, every line is accepted. -/
theorem isLine_iff {e : AuthPlaintextEntry} {line : CStr} :
    IsLine e line ↔ authEntryPlaintext (fun _ => true) 0 line = some e := by
  refine ⟨fun h => ?_, authEntryPlaintext_isLine⟩
  obtain ⟨username, password, ⟨⟩⟩ := e
  obtain ⟨type, secret, rfl, hu, rfl, ht⟩ := h
  have hfold := strcaseEq_iff.mp ht
  have hlen : type.length = 5 := by simpa [fold, plainType] using congrArg List.length hfold
  have hdollar : '$' ∉ type := by
    intro hm
    have : '$'.toLower ∈ fold plainType := hfold ▸ List.mem_map_of_mem hm
    revert this
    decide
  have hne : type ≠ [] := by
    rintro rfl
    cases hlen
  simp only [authEntryPlaintext, splitFirst_char hu, splitFirst_char hdollar, hne, hlen, ht, if_false,
    Bool.not_true, Bool.false_eq_true, and_self, if_true]

instance (e : AuthPlaintextEntry) (line : CStr) : Decidable (IsLine e line) :=
  decidable_of_iff' _ isLine_iff

instance (content : List Char) (e : AuthPlaintextEntry) : Decidable (Listed content e) :=
  inferInstanceAs (Decidable (∃ l ∈ textLines content, IsLine e (trimEnd l)))

/-- An entry has the password that its line says. -/
theorem isLine_codec {e : AuthPlaintextEntry} {line : CStr} (h : IsLine e line) (password : CStr) :
    e.codecVerify.verify e.password password = true ↔
      ∃ type, strcaseEq type plainType = true ∧ e.password = '$' :: (type ++ '$' :: password) := by
  have hdrop : ∀ {type secret : CStr}, strcaseEq type plainType = true →
      ('$' :: (type ++ '$' :: secret)).drop 7 = secret := by
    intro type secret ht
    have hlen : type.length = 5 := by
      simpa [fold, plainType] using congrArg List.length (strcaseEq_iff.mp ht)
    rw [List.drop_succ_cons, show 6 = type.length + 1 by rw [hlen], List.drop_length_add_append]
    rfl
  obtain ⟨type, secret, -, -, hp, ht⟩ := h
  cases e.codecVerify
  rw [Codec.verify, authPlaintextPlainCodec_, beq_iff_eq]
  constructor
  · intro heq
    rw [hp, hdrop ht] at heq
    exact ⟨type, ht, by rw [hp, heq]⟩
  · rintro ⟨type', ht', hp'⟩
    rw [hp', hdrop ht']

/-! ## Reading a file -/

variable {v : Verification}

/-- Adding a line. -/
theorem add_isLine {i : Nat} {line : CStr} {auth auth' : AuthPlaintext}
    (h : authEntryPlaintextAdd_ v.ok i line auth = (auth', true)) :
    ∃ e, IsLine e line ∧ auth' = { auth with passwords := e :: auth.passwords } := by
  unfold authEntryPlaintextAdd_ at h
  split at h
  · rename_i e he
    exact ⟨e, authEntryPlaintext_isLine he, (Prod.mk.inj h).1.symm⟩
  · cases (Prod.mk.inj h).2

/-- The entries are those of the lines. -/
def SaysLines (es : List AuthPlaintextEntry) (lines : List CStr) : Prop :=
  List.Forall₂ (fun e l => IsLine e (trimEnd l)) es lines

/-- An update adds the lines that it reads. -/
theorem authAddLines_eq (v : Verification) (fuel i : Nat) (s : List Char) (auth : AuthPlaintext) :
    authAddLines v fuel i s auth = authAddEach v.ok i (authReadLines lineSize v fuel i s) auth := by
  induction fuel generalizing i s auth with
  | zero => rfl
  | succ fuel ih =>
    rw [authAddLines, authReadLines]
    rcases authReadLine lineSize v i s with ⟨_ | line, rest⟩
    · rfl
    · dsimp only
      rw [authAddEach]
      rcases authEntryPlaintextAdd_ v.ok i line auth with ⟨auth', _ | _⟩
      · rfl
      · exact ih ..

/-- Adding lines puts their entries before those that were there, the last
line's first. -/
theorem authAddEach_says {lines : List CStr} {i : Nat} {auth auth' : AuthPlaintext}
    (h : authAddEach v.ok i lines auth = (auth', true)) :
    ∃ es, List.Forall₂ IsLine es lines ∧
      auth' = { auth with passwords := es.reverse ++ auth.passwords } := by
  induction lines generalizing i auth with
  | nil => exact ⟨[], .nil, (Prod.mk.inj h).1.symm⟩
  | cons line lines ih =>
    rw [authAddEach] at h
    split at h
    · cases (Prod.mk.inj h).2
    · rename_i auth₁ hadd
      obtain ⟨e, he, rfl⟩ := add_isLine hadd
      obtain ⟨es, hes, rfl⟩ := ih h
      exact ⟨e :: es, .cons he hes, by simp⟩

/-- The lines of a text that are not broken, added. -/
theorem authAddLines_says (hget : ∀ i, v.ok (.getpos i) = true)
    (hext : ∀ i k, v.ok (.extend i k) = true) {fuel i : Nat} {s : List Char}
    {auth auth' : AuthPlaintext} (hf : s.length < fuel) (h0 : '\x00' ∉ s)
    (hu : ∀ l ∈ textLines s, Unbroken (lineSize - 1) l)
    (h : authAddLines v fuel i s auth = (auth', true)) :
    ∃ es, SaysLines es (textLines s) ∧
      auth' = { auth with passwords := es.reverse ++ auth.passwords } := by
  have hlines : (textLines s).map (trimChunks (lineSize - 1)) = (textLines s).map trimEnd :=
    List.map_inj_left.mpr fun l hl => (trimChunks_eq_iff (by decide)).mpr (hu l hl)
  rw [authAddLines_eq, authReadLines_eq hget hext (by decide) hf h0, hlines] at h
  obtain ⟨es, hes, rfl⟩ := authAddEach_says h
  exact ⟨es, List.forall₂_map_right_iff.mp hes, rfl⟩

theorem saysLines_listed {es : List AuthPlaintextEntry} {content : List Char}
    (h : SaysLines es (textLines content)) (e : AuthPlaintextEntry) :
    e ∈ es ↔ Listed content e := by
  unfold Listed
  generalize textLines content = lines at h ⊢
  induction h with
  | nil => simp
  | cons he _ ih =>
    rw [List.mem_cons, ih]
    constructor
    · rintro (rfl | ⟨l, hl, hel⟩)
      · exact ⟨_, List.mem_cons_self, he⟩
      · exact ⟨l, List.mem_cons_of_mem _ hl, hel⟩
    · rintro ⟨l, hl, hel⟩
      rcases List.mem_cons.mp hl with rfl | hl
      · exact .inl (isLine_unique hel he)
      · exact .inr ⟨l, hl, hel⟩

variable {s : AuthState} {file : File} {bioRead : CStr → List Char}

/-- A reload adds the lines of the file. -/
theorem update_reloads (h : Reloads v s file) :
    ∃ auth, authAddLines v (file.content.length + 1) 0 file.content s.auth = (auth, true) ∧
      authPlaintextUpdate_ v s.files s.auth = ({ auth with sourceLastRead := file.mtime }, true) := by
  obtain ⟨hread, hok⟩ := h
  unfold readsFile at hread
  unfold authPlaintextUpdate_ at hok ⊢
  cases hsource : sourceFile v s.files s.auth with
  | none =>
    rw [hsource] at hread
    cases hread
  | some f =>
    simp only [hsource] at hread hok ⊢
    split at hread <;> [cases hread; skip]
    rename_i hnew
    rw [if_neg hnew] at hok ⊢
    split at hread <;> [skip; cases hread]
    rename_i hopen
    obtain rfl := Option.some.inj hread
    rw [hopen] at hok ⊢
    simp only [Bool.not_true, Bool.false_eq_true, if_false] at hok ⊢
    split at hok
    · rename_i auth hadd
      exact ⟨auth, hadd, rfl⟩
    · cases hok

/-- A reload adds the entries of the file to those that are there. -/
theorem reload_adds (h : Reloads v s file) (h0 : '\x00' ∉ file.content)
    (hget : ∀ i, v.ok (.getpos i) = true) (hext : ∀ i k, v.ok (.extend i k) = true)
    (hu : ∀ l ∈ textLines file.content, Unbroken (lineSize - 1) l) (e : AuthPlaintextEntry) :
    e ∈ (authPlaintextUpdate_ v s.files s.auth).1.passwords ↔
      Listed file.content e ∨ e ∈ s.auth.passwords := by
  obtain ⟨auth, hadd, hupdate⟩ := update_reloads h
  obtain ⟨es, hes, rfl⟩ := authAddLines_says hget hext (Nat.lt_succ_self _) h0 hu hadd
  rw [hupdate, List.mem_append, List.mem_reverse, saysLines_listed hes]

/-- A verification is an update, and then a look at what the header says. -/
theorem authPlaintextVerify_eq (files : CStr → Option File) (auth : AuthPlaintext) :
    authPlaintextVerify_ bioRead v files auth =
      ((authPlaintextUpdate_ v files auth).1, (authPlaintextUpdate_ v files auth).2 &&
        acceptsHeader bioRead v (authPlaintextUpdate_ v files auth).1) := by
  unfold authPlaintextVerify_ acceptsHeader
  rcases authPlaintextUpdate_ v files auth with ⟨auth', _ | _⟩
  · rfl
  · cases authPlaintextDecode_ bioRead v <;> rfl

/-- A verification changes the entries only by the update. -/
theorem verify_auth : (s.step bioRead (.verify v)).auth =
    (authPlaintextUpdate_ v s.files s.auth).1 := by
  rw [AuthState.step, authPlaintextVerify_eq]

/-- An update whose entries are those of the file decides by them. -/
theorem replaced_of_entries (hok : (authPlaintextUpdate_ v s.files s.auth).2 = true)
    (hentries : ∀ e, e ∈ (authPlaintextUpdate_ v s.files s.auth).1.passwords ↔
      Listed file.content e) : Replaced bioRead v s file := by
  refine ⟨fun e => by rw [verify_auth, hentries], ?_⟩
  rw [authPlaintextVerify_eq, hok, Bool.true_and, acceptsHeader]
  cases authPlaintextDecode_ bioRead v with
  | none => simp
  | some up =>
    obtain ⟨username, password⟩ := up
    have hany : ((authPlaintextUpdate_ v s.files s.auth).1.passwords.any fun e =>
        strcaseEq e.username username && e.codecVerify.verify e.password password) = true ↔
        ∃ e, Listed file.content e ∧ strcaseEq e.username username = true ∧
          ∃ type, strcaseEq type plainType = true ∧
            e.password = '$' :: (type ++ '$' :: password) := by
      rw [List.any_eq_true]
      refine exists_congr fun e => ?_
      rw [hentries, Bool.and_eq_true]
      refine and_congr_right fun hlisted => and_congr_right fun _ => ?_
      obtain ⟨l, -, hl⟩ := hlisted
      exact isLine_codec hl password
    dsimp only
    rw [hany]
    constructor
    · intro he
      exact ⟨username, password, rfl, he⟩
    · rintro ⟨u, p, hup, he⟩
      cases hup
      exact he

/-- Where nothing that is there was removed from the file, a reload replaces
the entries. -/
theorem replaced_of_kept (h : Reloads v s file) (h0 : '\x00' ∉ file.content)
    (hk : LinesKept s (.verify v)) : Replaced bioRead v s file := by
  obtain ⟨hkept, hget, hext, hu⟩ := hk file h
  refine replaced_of_entries h.2 fun e => ?_
  rw [reload_adds h h0 hget hext hu]
  exact or_iff_left_of_imp (hkept e)

/-! ## Runs -/

/-- The files are well formed. -/
def FilesWellFormed (s : AuthState) : Prop :=
  ∀ name file, s.files name = some file → WellFormed file.content

theorem filesWellFormed_step {i : AuthInput} (h : FilesWellFormed s) (hi : Edits s i) :
    FilesWellFormed (s.step bioRead i) := by
  cases i with
  | write name file =>
    intro name' file' hfile
    by_cases hn : name' = name
    · subst hn
      obtain rfl : file = file' := by simpa [AuthState.step] using hfile
      exact hi.1
    · refine h name' file' ?_
      simpa [AuthState.step, hn] using hfile
  | setPasswordFile ok name => exact h
  | verify v => exact h

theorem reloads_wellFormed (h : FilesWellFormed s) (hr : Reloads v s file) :
    WellFormed file.content := by
  have hread := hr.1
  unfold readsFile sourceFile at hread
  split at hread
  · cases hread
  · rename_i f hsource
    split at hsource
    · cases hsource
    · split at hsource <;> [skip; cases hsource]
      split at hread <;> [cases hread; skip]
      split at hread <;> [skip; cases hread]
      obtain rfl := Option.some.inj hread
      exact h _ _ hsource

/-- In every run whose files are well formed, as long as no reload finds an
entry whose line was removed, each reload replaces the entries by those of the
file. -/
theorem reload_replaces (bioRead : CStr → List Char) (is : List AuthInput)
    (hd : Meets (AuthState.step bioRead) Edits .startup is)
    (hk : Meets (AuthState.step bioRead) LinesKept .startup is) :
    ∀ js v, js ++ [.verify v] <+: is → ∀ file,
      Reloads v (run (AuthState.step bioRead) .startup js) file →
        Replaced bioRead v (run (AuthState.step bioRead) .startup js) file := by
  rintro js v ⟨ks, rfl⟩ file hr
  rw [List.append_assoc] at hd hk
  have hw : FilesWellFormed (run (AuthState.step bioRead) .startup js) :=
    Meets.inv (fun _ _ h hi => filesWellFormed_step h hi) (fun _ _ h => by cases h)
      (Meets.append_iff.mp hd).1
  exact replaced_of_kept hr (reloads_wellFormed hw hr).1 (Meets.append_iff.mp hk).2.1

/-! ## A file that is edited -/

theorem wellFormed_iff {content : List Char} : WellFormed content ↔ '\x00' ∉ content ∧
    ∀ l ∈ textLines content, (authEntryPlaintext (fun _ => true) 0 (trimEnd l)).isSome = true := by
  refine and_congr_right fun _ => forall₂_congr fun l _ => ?_
  simp only [isLine_iff, Option.isSome_iff_exists]

instance (content : List Char) : Decidable (WellFormed content) :=
  decidable_of_iff' _ wellFormed_iff

instance (s : AuthState) : ∀ i, Decidable (Edits s i)
  | .write name file => inferInstanceAs (Decidable (WellFormed file.content ∧
      ∀ old ∈ s.files name, old.mtime < file.mtime))
  | .setPasswordFile .. | .verify _ => inferInstanceAs (Decidable True)

/-- A verification whose calls succeed, of a file of short lines. -/
theorem linesKept_short (hok : v.ok = fun _ => true) (hread : readsFile v s = some file)
    (hkept : ∀ e ∈ s.auth.passwords, Listed file.content e)
    (hshort : ∀ l ∈ textLines file.content, l.length < lineSize - 1) : LinesKept s (.verify v) := by
  intro file' hr
  obtain rfl : file = file' := Option.some.inj (hread.symm.trans hr.1)
  exact ⟨hkept, fun _ => by rw [hok], fun _ _ => by rw [hok], fun l hl => unbroken_short (hshort l hl)⟩

/-- A line of a password file. -/
def passwordLine (username password : CStr) : List Char :=
  username ++ [':', '$', 'p', 'l', 'a', 'i', 'n', '$'] ++ password ++ ['\n']

def alice : CStr := ['a', 'l', 'i', 'c', 'e']
def bob : CStr := ['b', 'o', 'b']
def pw : CStr := ['p', 'w']

/-- The file with one user, and with two. -/
def oneUser (mtime : Int) : File := ⟨mtime, passwordLine alice pw⟩
def twoUsers (mtime : Int) : File := ⟨mtime, passwordLine alice pw ++ passwordLine bob pw⟩

/-- The base64 text of `bob:pw`, and its decoding. -/
def bobText : CStr := ['Y', 'm', '9', 'i', 'O', 'n', 'B', '3']
def decodeBob (text : CStr) : List Char := if text = bobText then bob ++ ':' :: pw else []

/-- A verification of bob's password, during which nothing fails. -/
def verifyBob : Verification := ⟨basicScheme ++ bobText, fun _ => true, 'x', []⟩

/-- A user is added to the file between two verifications. -/
def addedUser : List AuthInput :=
  [.setPasswordFile true pw, .write pw (oneUser 1), .verify verifyBob, .write pw (twoUsers 2),
    .verify verifyBob]

theorem reload_replaces_addedUser :
    Replaced decodeBob verifyBob (run (AuthState.step decodeBob) .startup (addedUser.take 4))
      (twoUsers 2) :=
  reload_replaces decodeBob addedUser (by decide +kernel)
    ⟨trivial, trivial, linesKept_short rfl rfl (by decide +kernel)
      (by decide +kernel), trivial, linesKept_short rfl rfl (by decide +kernel)
      (by decide +kernel), trivial⟩
    (addedUser.take 4) verifyBob ⟨[], rfl⟩ (twoUsers 2) ⟨rfl, by decide +kernel⟩

/-- A user is removed from the file between two verifications. -/
def removedUser : List AuthInput :=
  [.setPasswordFile true pw, .write pw (twoUsers 1), .verify verifyBob, .write pw (oneUser 2),
    .verify verifyBob]

/-- The user who was removed stays, and is accepted. -/
theorem removed_user_stays :
    Meets (AuthState.step decodeBob) Edits .startup removedUser ∧
      ¬ ∀ js v, js ++ [.verify v] <+: removedUser → ∀ file,
        Reloads v (run (AuthState.step decodeBob) .startup js) file →
          Replaced decodeBob v (run (AuthState.step decodeBob) .startup js) file := by
  refine ⟨by decide +kernel, fun h => ?_⟩
  have hr := h (removedUser.take 4) verifyBob (List.prefix_refl _) (oneUser 2)
    ⟨rfl, by decide +kernel⟩
  have hbob := (hr.entries ⟨bob, ['$', 'p', 'l', 'a', 'i', 'n', '$'] ++ pw, .plain⟩).mp
    (by decide +kernel)
  revert hbob
  decide +kernel

end DQ.Proof.Auth
