import Disqueue.Proof.Auth.Reload
import Disqueue.Spec.Malformed

/-!
# Updates that fail

The lines before a malformed one are added before it is found. So an update
that fails leaves the entries as they were exactly if the file is not read, or
its first line is malformed (`keeps_entries_iff`).
-/

namespace DQ.Proof.Auth

open DQ.Model DQ.Spec

variable {size : Nat} {v : Verification}

/-! ## The first line -/

/-- Reading a line fails, or reads what it reads where no call fails. -/
theorem authReadChunks_fails (size : Nat) (v : Verification) (i fuel k : Nat) (line : Option CStr)
    (s : List Char) : authReadChunks size v i fuel k line s = none ∨
      authReadChunks size v i fuel k line s =
        authReadChunks size (succeeding v.before) i fuel k line s := by
  induction fuel generalizing k line s with
  | zero => exact .inr rfl
  | succ fuel ih =>
    rw [authReadChunks, authReadChunks]
    rcases fgets size s with _ | ⟨chunk, rest⟩
    · exact .inr rfl
    · cases hext : v.ok (.extend i k) with
      | false => exact .inl (by simp [authStringExtend])
      | true =>
        have hok : (succeeding v.before).ok (.extend i k) = true := rfl
        have hbefore : (succeeding v.before).before = v.before := rfl
        simp only [hok, hbefore, authStringExtend, if_true]
        split
        · exact .inr rfl
        · exact ih ..

theorem authReadLine_fails (size : Nat) (v : Verification) (i : Nat) (s : List Char) :
    (authReadLine size v i s).1 = none ∨
      authReadLine size v i s = authReadLine size (succeeding v.before) i s := by
  rw [authReadLine, authReadLine]
  have hok : (succeeding v.before).ok (.getpos i) = true := rfl
  cases hget : v.ok (.getpos i) with
  | false => exact .inl rfl
  | true =>
    rw [hok]
    rcases authReadChunks_fails size v i (s.length + 1) 0 none s with h | h
    · exact .inl (by rw [h]; rfl)
    · exact .inr (by rw [h])

/-- The first line is read as it is where no call fails. -/
theorem fileLines_head {content : List Char} {line : CStr}
    (h : line ∈ (fileLines size v content).head?) :
    line ∈ (fileLines size (succeeding v.before) content).head? := by
  rw [fileLines, authReadLines] at h ⊢
  rcases authReadLine_fails size v 0 content with hnone | heq
  · split at h
    · cases h
    · rename_i hsome
      rw [hsome] at hnone
      cases hnone
  · rw [← heq]
    split at h
    · cases h
    · exact h

/-! ## Adding lines -/

/-- Lines are added before the entries that are there. -/
theorem authAddEach_adds (ok : AuthCall → Bool) (i : Nat) (lines : List CStr)
    (auth : AuthPlaintext) : ∃ es, (authAddEach ok i lines auth).1 =
      { auth with passwords := es ++ auth.passwords } := by
  induction lines generalizing i auth with
  | nil => exact ⟨[], rfl⟩
  | cons line lines ih =>
    rw [authAddEach]
    unfold authEntryPlaintextAdd_
    cases authEntryPlaintext ok i line with
    | none => exact ⟨[], rfl⟩
    | some e =>
      obtain ⟨es, hes⟩ := ih (i + 1) { auth with passwords := e :: auth.passwords }
      exact ⟨es ++ [e], by simp [hes]⟩

/-- Every line that was added says an entry. -/
theorem saysEach {es : List AuthPlaintextEntry} {lines : List CStr}
    (h : List.Forall₂ IsLine es lines) {line : CStr} (hl : line ∈ lines) : ∃ e, IsLine e line := by
  induction h with
  | nil => cases hl
  | cons he _ ih =>
    rcases List.mem_cons.mp hl with rfl | hl
    · exact ⟨_, he⟩
    · exact ih hl

/-- Adding a malformed line fails. -/
theorem authAddEach_malformed {i : Nat} {lines : List CStr} {auth : AuthPlaintext}
    (h : ∃ line ∈ lines, ¬ ∃ e, IsLine e line) : (authAddEach v.ok i lines auth).2 = false := by
  obtain ⟨line, hline, hno⟩ := h
  refine Bool.eq_false_iff.mpr fun htrue => ?_
  obtain ⟨es, hes, -⟩ := authAddEach_says (Prod.ext rfl htrue)
  exact hno (saysEach hes hline)

/-! ## Updating -/

variable {s : AuthState} {source : CStr} {file : File} {bioRead : CStr → List Char}

/-- An update that opens the file adds its lines, and fails if one of them is
refused. -/
theorem update_reads (hsource : s.auth.source = some source) (hfile : s.files source = some file)
    (hnew : ¬ NotModified file s.auth) (hstat : v.ok .stat = true) (hopen : v.ok .open = true)
    {auth : AuthPlaintext} {ok : Bool}
    (hadd : authAddEach v.ok 0 (fileLines lineSize v file.content) s.auth = (auth, ok)) :
    authPlaintextUpdate_ v s.files s.auth =
      (if ok then { auth with sourceLastRead := file.mtime } else auth, ok) := by
  have hnew' : ¬ (s.auth.sourceLastRead ≠ 0 ∧ file.mtime ≤ s.auth.sourceLastRead) := hnew
  rw [fileLines, ← authAddLines_eq] at hadd
  simp only [authPlaintextUpdate_, sourceFile, hsource, hstat, hfile, if_true, if_neg hnew', hopen,
    Bool.not_true, Bool.false_eq_true, if_false, hadd]
  cases ok <;> rfl

/-- An update leaves everything, or opens the file. -/
theorem update_cases (hsource : s.auth.source = some source) (hfile : s.files source = some file)
    (v : Verification) :
    (authPlaintextUpdate_ v s.files s.auth).1 = s.auth ∨
      ¬ NotModified file s.auth ∧ v.ok .stat = true ∧ v.ok .open = true := by
  unfold authPlaintextUpdate_ sourceFile
  rw [hsource]
  dsimp only
  cases v.ok .stat with
  | false => exact .inl rfl
  | true =>
    simp only [if_true, hfile]
    split
    · exact .inl rfl
    · rename_i hnew
      cases v.ok .open with
      | false => exact .inl rfl
      | true => exact .inr ⟨hnew, trivial, rfl⟩

theorem update_unread (hsource : s.auth.source = some source) (hfile : s.files source = some file)
    (hold : NotModified file s.auth) : (authPlaintextUpdate_ v s.files s.auth).1 = s.auth :=
  (update_cases hsource hfile v).resolve_right fun h => h.1 hold

/-- Where the file is not read, or its first line is malformed, an update
changes at most the time that it was last read. -/
theorem update_kept (hsource : s.auth.source = some source) (hfile : s.files source = some file)
    (hc : NotModified file s.auth ∨ MalformedFirst file.content) (v : Verification) :
    (authPlaintextUpdate_ v s.files s.auth).1 = s.auth ∨
      MalformedFirst file.content ∧ (authPlaintextUpdate_ v s.files s.auth).1 =
        { s.auth with sourceLastRead := file.mtime } := by
  rcases update_cases hsource hfile v with h | ⟨hnew, hstat, hopen⟩
  · exact .inl h
  · have hfirst := hc.resolve_left hnew
    have hreads := update_reads hsource hfile hnew hstat hopen rfl
    cases hlines : fileLines lineSize v file.content with
    | nil =>
      rw [hlines, authAddEach] at hreads
      exact .inr ⟨hfirst, by rw [hreads]; rfl⟩
    | cons line lines =>
      obtain ⟨line', hline', hno⟩ := hfirst v.before
      have hhead : line ∈ (fileLines lineSize v file.content).head? := by rw [hlines]; rfl
      obtain rfl : line = line' := Option.some.inj ((fileLines_head hhead).symm.trans hline')
      rw [hlines, authAddEach, add_malformed hno] at hreads
      exact .inl (by rw [hreads]; rfl)

/-- Reading a malformed file fails, with the lines before the malformed one
added. -/
theorem update_malformed (hsource : s.auth.source = some source)
    (hfile : s.files source = some file) (hm : Malformed file.content)
    (hnew : ¬ NotModified file s.auth) (before : Char) :
    authPlaintextUpdate_ (succeeding before) s.files s.auth =
      ((authAddEach (fun _ => true) 0 (linesRead before file.content) s.auth).1, false) := by
  have hadd : authAddEach (fun _ => true) 0 (linesRead before file.content) s.auth =
      ((authAddEach (fun _ => true) 0 (linesRead before file.content) s.auth).1, false) :=
    Prod.ext rfl (authAddEach_malformed (v := succeeding before) (hm before))
  exact update_reads (v := succeeding before) hsource hfile hnew rfl rfl hadd

/-- A first line that says an entry is added. -/
theorem adds_first {line : CStr} {lines : List CStr} {auth : AuthPlaintext}
    (h : ∃ e, IsLine e line) :
    (authAddEach (fun _ => true) 0 (line :: lines) auth).1.passwords ≠ auth.passwords := by
  obtain ⟨e, he⟩ := h
  rw [authAddEach, authEntryPlaintextAdd_, isLine_iff.mp he]
  obtain ⟨es, hes⟩ := authAddEach_adds (fun _ => true) (0 + 1) lines
    { auth with passwords := e :: auth.passwords }
  dsimp only
  rw [hes]
  intro hsame
  have hlen := congrArg List.length hsame
  simp only [List.length_append, List.length_cons] at hlen
  omega

/-- Verifications one after another keep the entries. -/
theorem verify_kept (hsource : s.auth.source = some source) (hfile : s.files source = some file)
    (hc : NotModified file s.auth ∨ MalformedFirst file.content) (vs : List Verification) :
    (run (AuthState.step bioRead) s (vs.map .verify)).auth.passwords = s.auth.passwords := by
  induction vs generalizing s with
  | nil => rfl
  | cons v vs ih =>
    have hfiles : (s.step bioRead (.verify v)).files = s.files := rfl
    have hauth : (s.step bioRead (.verify v)).auth = (authPlaintextUpdate_ v s.files s.auth).1 :=
      verify_auth
    rw [List.map_cons, run_cons]
    rcases update_kept hsource hfile hc v with h | ⟨hfirst, h⟩
    · rw [h] at hauth
      rw [ih (by rw [hauth, hsource]) (by rw [hfiles, hfile]) (by rw [hauth]; exact hc), hauth]
    · rw [h] at hauth
      rw [ih (by rw [hauth]; exact hsource) (by rw [hfiles, hfile]) (.inr hfirst), hauth]

/-- For a malformed file, an update that fails leaves the entries as they were,
and so do any number of verifications, exactly if the file was not modified
since it was last read or its first line is malformed. -/
theorem keeps_entries_iff (bioRead : CStr → List Char) {s : AuthState} {source : CStr} {file : File}
    (hsource : s.auth.source = some source) (hfile : s.files source = some file)
    (hm : Malformed file.content) :
    KeepsEntries bioRead s ↔ NotModified file s.auth ∨ MalformedFirst file.content := by
  constructor
  · intro h
    refine or_iff_not_imp_left.mpr fun hnew before => ?_
    have hupdate := update_malformed hsource hfile hm hnew before
    have hkept := h.update (succeeding before) (by rw [hupdate])
    rw [hupdate] at hkept
    obtain ⟨line, hline, -⟩ := hm before
    cases hlines : linesRead before file.content with
    | nil =>
      rw [hlines] at hline
      cases hline
    | cons first lines =>
      rw [hlines] at hkept
      exact ⟨first, rfl, fun hsays => adds_first hsays hkept⟩
  · intro hc
    refine ⟨fun v _ => ?_, fun vs => verify_kept hsource hfile hc vs⟩
    rcases update_kept hsource hfile hc v with h | ⟨-, h⟩ <;> rw [h]

/-! ## A malformed line -/

/-- The lines of a file of short lines. -/
theorem linesRead_short (content : List Char) (h0 : '\x00' ∉ content)
    (hshort : ∀ l ∈ textLines content, l.length < lineSize - 1) (before : Char) :
    linesRead before content = (textLines content).map trimEnd :=
  (readsLines_iff h0 (by decide)).mpr (fun l hl => unbroken_short (hshort l hl)) (succeeding before)
    fun _ => rfl

/-- A line without a colon. -/
def badLine : CStr := ['b', 'a', 'd']

theorem badLine_malformed : ¬ ∃ e, IsLine e badLine := by
  rintro ⟨e, he⟩
  cases isLine_iff.mp he

/-- The file with a malformed line after a user, and before one. -/
def badSecond : File := ⟨1, passwordLine alice pw ++ badLine ++ ['\n']⟩
def badFirst : File := ⟨1, badLine ++ '\n' :: passwordLine alice pw⟩

/-- A file is written, at the source. -/
def written (file : File) : AuthState :=
  run (AuthState.step decodeBob) .startup [.setPasswordFile true pw, .write pw file]

theorem keeps_entries_badFirst : KeepsEntries decodeBob (written badFirst) := by
  have hlines := linesRead_short badFirst.content (by decide) (by decide)
  have hfile : (written badFirst).files pw = some badFirst := rfl
  refine (keeps_entries_iff decodeBob rfl hfile fun before => ?_).mpr (.inr fun before => ?_)
  · exact ⟨badLine, by rw [hlines]; decide +kernel, badLine_malformed⟩
  · exact ⟨badLine, by rw [hlines]; decide +kernel, badLine_malformed⟩

/-- The user before the malformed line is added by an update that fails. -/
theorem user_is_added :
    Malformed badSecond.content ∧ (written badSecond).auth.source = some pw ∧
      (written badSecond).files pw = some badSecond ∧
        ¬ KeepsEntries decodeBob (written badSecond) := by
  have hlines := linesRead_short badSecond.content (by decide) (by decide)
  refine ⟨fun before => ?_, rfl, rfl, fun h => ?_⟩
  · exact ⟨badLine, by rw [hlines]; decide +kernel, badLine_malformed⟩
  · have hkept := h.update (succeeding 'x') (by decide +kernel)
    revert hkept
    decide +kernel

end DQ.Proof.Auth
