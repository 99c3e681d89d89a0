import Disqueue.Proof.Auth.Malformed

/-!
# Switching the password file

Setting the password file removes the entries, but keeps the time that the
file before was last read. So the next verification is decided by the entries
of the new file exactly if it has none, or it was modified after that time and
its lines are read as they stand (`switched_iff`).
-/

namespace DQ.Proof.Auth

open DQ.Model DQ.Spec

variable {bioRead : CStr → List Char} {s : AuthState} {name : CStr} {writes : List (CStr × File)}
  {v : Verification} {file : File}

/-- Where every line says an entry, all are added. -/
theorem authAddEach_adds_all {i : Nat} {lines : List CStr} {auth : AuthPlaintext}
    (h : ∀ line ∈ lines, ∃ e, IsLine e line) :
    (authAddEach (fun _ => true) i lines auth).2 = true := by
  induction lines generalizing i auth with
  | nil => rfl
  | cons line lines ih =>
    obtain ⟨e, he⟩ := h line List.mem_cons_self
    have hadd : authEntryPlaintext (fun _ => true) i line = some e := isLine_iff.mp he
    rw [authAddEach, authEntryPlaintextAdd_, hadd]
    exact ih fun l hl => h l (List.mem_cons_of_mem _ hl)

/-- An entry that is there after lines were added was there, or a line says
it. -/
theorem mem_authAddEach {ok : AuthCall → Bool} {i : Nat} {lines : List CStr} {auth : AuthPlaintext}
    {e : AuthPlaintextEntry} (h : e ∈ (authAddEach ok i lines auth).1.passwords) :
    e ∈ auth.passwords ∨ ∃ line ∈ lines, IsLine e line := by
  induction lines generalizing i auth with
  | nil => exact .inl h
  | cons line lines ih =>
    rw [authAddEach] at h
    unfold authEntryPlaintextAdd_ at h
    cases hadd : authEntryPlaintext ok i line with
    | none =>
      rw [hadd] at h
      exact .inl h
    | some e' =>
      rw [hadd] at h
      rcases ih h with he | ⟨l, hl, hel⟩
      · rcases List.mem_cons.mp he with rfl | he
        · exact .inr ⟨line, List.mem_cons_self, authEntryPlaintext_isLine hadd⟩
        · exact .inl he
      · exact .inr ⟨l, List.mem_cons_of_mem _ hl, hel⟩

/-- An entry is said by one line. -/
theorem isLine_line {e : AuthPlaintextEntry} {a b : CStr} (ha : IsLine e a) (hb : IsLine e b) :
    a = b := by
  obtain ⟨-, -, ha, -⟩ := ha
  obtain ⟨-, -, hb, -⟩ := hb
  rw [ha, hb]

/-- What is there after the file was set, and files were written. -/
theorem switched_auth : (switched bioRead s name writes).auth =
    { s.auth with passwords := [], source := some name } := by
  unfold switched
  generalize hs : s.step bioRead (.setPasswordFile true name) = s'
  have hauth : s'.auth = { s.auth with passwords := [], source := some name } := by
    rw [← hs]
    rfl
  clear hs
  induction writes generalizing s' with
  | nil => exact hauth
  | cons w writes ih => exact ih _ hauth

/-- The next verification reads the lines of the file, where it was modified
after the time that is recorded. -/
theorem switched_reads (hv : Succeeds v) (hsource : s.auth.source = some name)
    (hempty : s.auth.passwords = []) (hfile : s.files name = some file)
    (hw : WellFormed file.content) (hnew : ¬ NotModified file s.auth) :
    ∀ e ∈ (authPlaintextUpdate_ v s.files s.auth).1.passwords,
      ∃ l ∈ textLines file.content, IsLine e (trimChunks (lineSize - 1) l) := by
  intro e he
  rw [update_reads hsource hfile hnew (hv _) (hv _) rfl] at he
  have he' : e ∈ (authAddEach v.ok 0 (fileLines lineSize v file.content) s.auth).1.passwords := by
    split at he <;> exact he
  rcases mem_authAddEach he' with hold | ⟨line, hline, hsays⟩
  · rw [hempty] at hold
    cases hold
  · rw [fileLines_eq hv (by decide) hw.1] at hline
    obtain ⟨l, hl, rfl⟩ := List.mem_map.mp hline
    exact ⟨l, hl, hsays⟩

/-- A file that was modified, whose lines are read as they stand, is read. -/
theorem switched_reloads (hv : Succeeds v) (hsource : s.auth.source = some name)
    (hfile : s.files name = some file) (hw : WellFormed file.content)
    (hnew : ¬ NotModified file s.auth)
    (hu : ∀ l ∈ textLines file.content, Unbroken (lineSize - 1) l) : Reloads v s file := by
  have hlines : fileLines lineSize v file.content = (textLines file.content).map trimEnd :=
    (readsLines_iff hw.1 (by decide)).mpr hu v hv
  have hok : v.ok = fun _ => true := funext hv
  have hadds : (authAddEach v.ok 0 (fileLines lineSize v file.content) s.auth).2 = true := by
    rw [hok, hlines]
    refine authAddEach_adds_all fun line hline => ?_
    obtain ⟨l, hl, rfl⟩ := List.mem_map.mp hline
    exact hw.2 l hl
  constructor
  · have hnew' : ¬ (s.auth.sourceLastRead ≠ 0 ∧ file.mtime ≤ s.auth.sourceLastRead) := hnew
    simp only [readsFile, sourceFile, hsource, hv _, if_true, hfile, if_neg hnew']
  · rw [update_reads hsource hfile hnew (hv _) (hv _) rfl]
    exact hadds

/-- A file without lines leaves no entries, whether it is read or not. -/
theorem replaced_nil (hv : Succeeds v) (hsource : s.auth.source = some name)
    (hempty : s.auth.passwords = []) (hfile : s.files name = some file)
    (hnil : file.content = []) : Replaced bioRead v s file := by
  have hlisted : ∀ e, ¬ Listed file.content e := by
    rintro e ⟨l, hl, -⟩
    rw [hnil] at hl
    cases hl
  by_cases hold : NotModified file s.auth
  · refine replaced_of_entries ?_ fun e => ?_
    · simp only [authPlaintextUpdate_, sourceFile, hsource, hv _, hfile, if_true,
        if_pos (show s.auth.sourceLastRead ≠ 0 ∧ file.mtime ≤ s.auth.sourceLastRead from hold)]
    · rw [update_unread hsource hfile hold, hempty]
      simp [hlisted]
  · have hlines : fileLines lineSize v file.content = [] := by
      rw [fileLines_eq hv (by decide) (by simp [hnil]), hnil]
      rfl
    have hreads := update_reads hsource hfile hold (hv _) (hv _) rfl
    rw [hlines, authAddEach] at hreads
    refine replaced_of_entries (by rw [hreads]) fun e => ?_
    rw [hreads, if_pos rfl, hempty]
    simp [hlisted]

/-- After the password file is set, the next verification is decided by the
entries of the file exactly if it has none, or it was modified after the time
that is recorded and no line of it is broken. -/
theorem switched_iff (bioRead : CStr → List Char) (js : List AuthInput) (name : CStr)
    (writes : List (CStr × File)) {file : File}
    (hfile : (switched bioRead (run (AuthState.step bioRead) .startup js) name writes).files name =
      some file) (hw : WellFormed file.content) {v : Verification} (hv : Succeeds v) :
    Replaced bioRead v (switched bioRead (run (AuthState.step bioRead) .startup js) name writes)
        file ↔
      file.content = [] ∨
        ¬ NotModified file (run (AuthState.step bioRead) .startup js).auth ∧
          ∀ l ∈ textLines file.content, Unbroken (lineSize - 1) l := by
  generalize run (AuthState.step bioRead) .startup js = s at hfile ⊢
  have hauth : (switched bioRead s name writes).auth =
      { s.auth with passwords := [], source := some name } := switched_auth
  have hnot : NotModified file s.auth ↔
      NotModified file (switched bioRead s name writes).auth := by
    rw [hauth]
    rfl
  have hsource : (switched bioRead s name writes).auth.source = some name := by rw [hauth]
  have hempty : (switched bioRead s name writes).auth.passwords = [] := by rw [hauth]
  rw [hnot]
  clear hauth hnot
  generalize switched bioRead s name writes = s' at hfile hsource hempty ⊢
  constructor
  · intro h
    refine or_iff_not_imp_left.mpr fun hcontent => ?_
    have hentries : ∀ e, e ∈ (authPlaintextUpdate_ v s'.files s'.auth).1.passwords ↔
        Listed file.content e := fun e => by rw [← h.entries, verify_auth]
    have hnew : ¬ NotModified file s'.auth := by
      intro hold
      obtain ⟨l, hl⟩ := List.exists_mem_of_ne_nil _ (textLines_ne_nil hcontent)
      obtain ⟨e, he⟩ := hw.2 l hl
      have hmem := (hentries e).mpr ⟨l, hl, he⟩
      rw [update_unread hsource hfile hold, hempty] at hmem
      cases hmem
    refine ⟨hnew, unbroken_of_trimmed (by decide) (fun l hl => length_of_mem_textLines hl) ?_⟩
    intro l hl
    obtain ⟨e, he⟩ := hw.2 l hl
    obtain ⟨l', hl', he'⟩ := switched_reads hv hsource hempty hfile hw hnew e
      ((hentries e).mpr ⟨l, hl, he⟩)
    exact ⟨l', hl', isLine_line he he'⟩
  · rintro (hnil | ⟨hnew, hu⟩)
    · exact replaced_nil hv hsource hempty hfile hnil
    · have hr := switched_reloads hv hsource hfile hw hnew hu
      refine replaced_of_entries hr.2 fun e => ?_
      rw [reload_adds hr hw.1 (fun _ => hv _) (fun _ _ => hv _) hu, hempty]
      simp

/-- A file with two users is verified against, beside one that was modified at
another time. -/
def twoFiles (mtime : Int) : List AuthInput :=
  [.setPasswordFile true bob, .write bob (twoUsers 5), .write pw (oneUser mtime), .verify verifyBob]

theorem switched_later :
    Replaced decodeBob verifyBob
      (switched decodeBob (run (AuthState.step decodeBob) .startup (twoFiles 6)) pw [])
      (oneUser 6) := by
  have hshort : ∀ l ∈ textLines (oneUser 6).content, l.length < lineSize - 1 := by decide +kernel
  have hnew : ¬ NotModified (oneUser 6) (run (AuthState.step decodeBob) .startup (twoFiles 6)).auth :=
    fun h => absurd h.2 (by decide +kernel)
  exact (switched_iff decodeBob (twoFiles 6) pw [] rfl (by decide +kernel) fun _ => rfl).mpr
    (.inr ⟨hnew, fun l hl => unbroken_short (hshort l hl)⟩)

/-- The user of a file that was modified before the file before is refused. -/
theorem switched_earlier :
    WellFormed (oneUser 1).content ∧
      (switched decodeBob (run (AuthState.step decodeBob) .startup (twoFiles 1)) pw []).files pw =
        some (oneUser 1) ∧
      ¬ Replaced decodeBob verifyBob
        (switched decodeBob (run (AuthState.step decodeBob) .startup (twoFiles 1)) pw [])
        (oneUser 1) := by
  refine ⟨by decide +kernel, rfl, fun h => ?_⟩
  have halice := (h.entries ⟨alice, ['$', 'p', 'l', 'a', 'i', 'n', '$'] ++ pw, .plain⟩).mpr
    (by decide +kernel)
  revert halice
  decide +kernel

end DQ.Proof.Auth
