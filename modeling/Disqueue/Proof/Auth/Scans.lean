import Disqueue.Proof.Auth.Credentials
import Disqueue.Proof.Auth.Malformed
import Disqueue.Spec.Scans

/-!
# Reads outside of strings

A header is left where nothing graphic follows its scheme: the terminator is
skipped as white space. The buffer of a chunk is left before its start where
the chunk begins with NUL. Otherwise both scans stay inside, and do what the
functions of `AuthPlaintext` say (`stays_iff`).
-/

namespace DQ.Proof.Auth

open DQ.Model DQ.Spec

/-! ## Chunks -/

variable {size : Nat} {s : List Char}

theorem fgetsChunks_fuel (hsize : 2 ≤ size) {n : Nat} (h : s.length ≤ n) :
    fgetsChunks size n s = fileChunks size s := by
  have key : ∀ m n : Nat, ∀ s : List Char, s.length ≤ m → s.length ≤ n →
      fgetsChunks size n s = fgetsChunks size m s := by
    intro m
    induction m with
    | zero =>
      intro n s hm _
      obtain rfl := List.length_eq_zero_iff.mp (Nat.le_zero.mp hm)
      cases n <;> rfl
    | succ m ih =>
      intro n s hm hn
      cases n with
      | zero =>
        obtain rfl := List.length_eq_zero_iff.mp (Nat.le_zero.mp hn)
        rfl
      | succ n =>
        rw [fgetsChunks, fgetsChunks]
        cases hs : fgets size s with
        | none => rfl
        | some cr =>
          obtain ⟨chunk, rest⟩ := cr
          obtain ⟨rfl, hne⟩ := fgets_some hsize hs
          have := List.length_pos_iff.mpr hne
          rw [List.length_append] at hm hn
          exact congrArg (chunk :: ·) (ih n rest (by omega) (by omega))
  exact key _ _ _ (Nat.le_refl _) h

theorem fileChunks_cons (hsize : 2 ≤ size) {chunk rest : List Char}
    (h : fgets size s = some (chunk, rest)) :
    fileChunks size s = chunk :: fileChunks size rest := by
  obtain ⟨hs, hne⟩ := fgets_some hsize h
  have hpos := List.length_pos_iff.mpr hne
  have hlen : rest.length ≤ s.length - 1 := by
    rw [hs, List.length_append]
    omega
  obtain ⟨n, hn⟩ : ∃ n, s.length = n + 1 := ⟨s.length - 1, by rw [hs, List.length_append]; omega⟩
  rw [fileChunks, hn, fgetsChunks, h]
  exact congrArg (chunk :: ·) (fgetsChunks_fuel hsize (by omega))

theorem fgets_none (h : fgets size s = none) : s = [] := by
  unfold fgets at h
  split at h
  · assumption
  · cases h

/-! ## Reading -/

variable {ok : AuthCall → Bool} {i fuel k : Nat} {line : Option CStr}

/-- What is there to trim of a chunk is scanned from its end. -/
theorem authStringExtend_scan (ok : Bool) (original : Option CStr) (extension : CStr) :
    Scanned.authStringExtend ok original extension =
      .done (authStringExtend ok original extension) := by
  have htake := (List.prefix_iff_eq_take.mp (trimEnd_isPrefix extension)).symm
  rw [Scanned.authStringExtend, back_eq (Nat.le_refl _), List.take_length, Scan.done_bind]
  rw [authStringExtend, ← htake]
  rfl

/-- The last character of a chunk is inside exactly if it does not begin with
NUL. -/
theorem readAt_last {buffer : CStr} (h : buffer ≠ []) (before : Char) :
    readAt buffer ((buffer.length : Int) - 1) = .done (buffer.getLast?.getD before) := by
  have hpos := List.length_pos_iff.mpr h
  have hi : (buffer.length : Int) - 1 = ((buffer.length - 1 : Nat) : Int) := by omega
  rw [hi, readAt_char (by omega), List.getLast?_eq_getElem?, List.getElem?_eq_getElem (by omega)]
  rfl

theorem takeWhile_ne_nil {chunk : List Char} (h : chunk ≠ []) :
    chunk.takeWhile (· != '\x00') ≠ [] ↔ chunk.head? ≠ some '\x00' := by
  cases chunk with
  | nil => exact absurd rfl h
  | cons c chunk =>
    by_cases hc : c = '\x00'
    · simp [hc]
    · simp [hc]

/-- A chunk that does not begin with NUL is read as it is. -/
theorem authReadChunks_scan {chunk rest : List Char} (hs : fgets size s = some (chunk, rest))
    (hchunk : chunk ≠ []) (hhead : chunk.head? ≠ some '\x00') (v : Verification) :
    Scanned.authReadChunks size v.ok i (fuel + 1) k line s =
      match authStringExtend (v.ok (.extend i k)) line (chunk.takeWhile (· != '\x00')) with
      | none => .done none
      | some line =>
        if (chunk.takeWhile (· != '\x00')).getLast?.getD v.before = '\n' then
          .done (some (some line, rest))
        else Scanned.authReadChunks size v.ok i fuel (k + 1) (some line) rest := by
  rw [Scanned.authReadChunks, hs]
  dsimp only
  rw [authStringExtend_scan, Scan.done_bind]
  rcases authStringExtend (v.ok (.extend i k)) line (chunk.takeWhile (· != '\x00')) with _ | line'
  · rfl
  · dsimp only
    rw [readAt_last ((takeWhile_ne_nil hchunk).mpr hhead) v.before]
    rfl

/-- A chunk that begins with NUL is left, if it is kept. -/
theorem authReadChunks_nul {chunk rest : List Char} (hs : fgets size s = some (chunk, rest))
    (hhead : chunk.head? = some '\x00') :
    Scanned.authReadChunks size ok i (fuel + 1) k line s =
      if ok (.extend i k) then .outside else .done none := by
  have hbuffer : chunk.takeWhile (· != '\x00') = [] := by
    obtain ⟨rest', rfl⟩ := List.head?_eq_some_iff.mp hhead
    rfl
  rw [Scanned.authReadChunks, hs]
  dsimp only
  rw [hbuffer, authStringExtend_scan, Scan.done_bind, authStringExtend]
  cases ok (.extend i k) <;> rfl

/-- A scan that stays inside reads what `auth_read_line` does. -/
theorem authReadChunks_refines (hsize : 2 ≤ size) {v : Verification}
    {r : Option (Option CStr × List Char)}
    (h : Scanned.authReadChunks size v.ok i fuel k line s = .done r) :
    authReadChunks size v i fuel k line s = r := by
  induction fuel generalizing k line s with
  | zero => cases h
  | succ fuel ih =>
    rw [authReadChunks]
    cases hs : fgets size s with
    | none =>
      rw [Scanned.authReadChunks, hs] at h
      exact Scan.done.inj h
    | some cr =>
      obtain ⟨chunk, rest⟩ := cr
      obtain ⟨-, hchunk⟩ := fgets_some hsize hs
      dsimp only
      by_cases hhead : chunk.head? = some '\x00'
      · rw [authReadChunks_nul hs hhead] at h
        rw [authStringExtend]
        split at h
        · cases h
        · rename_i hext
          rw [if_neg hext]
          exact Scan.done.inj h
      · rw [authReadChunks_scan hs hchunk hhead] at h
        cases hext : authStringExtend (v.ok (.extend i k)) line (chunk.takeWhile (· != '\x00')) with
        | none =>
          rw [hext] at h
          exact Scan.done.inj h
        | some line' =>
          rw [hext] at h
          dsimp only at h ⊢
          split at h
          · rename_i hlast
            rw [if_pos hlast]
            exact Scan.done.inj h
          · rename_i hlast
            rw [if_neg hlast]
            exact ih h

theorem authReadLine_refines (hsize : 2 ≤ size) {v : Verification} {r : Option CStr × List Char}
    (h : Scanned.authReadLine size v.ok (s.length + 1) i s = .done r) :
    authReadLine size v i s = r := by
  rw [authReadLine]
  rw [Scanned.authReadLine] at h
  split at h
  · rename_i hget
    rw [if_pos hget]
    exact Scan.done.inj h
  · rename_i hget
    rw [if_neg hget]
    obtain ⟨r', hr', h⟩ := Scan.bind_eq_done.mp h
    rw [authReadChunks_refines hsize hr']
    exact Scan.done.inj h

/-! ## Files -/

/-- A line of chunks that do not begin with NUL is read. -/
theorem authReadChunks_stays (hsize : 2 ≤ size) (v : Verification)
    (hn : NoneNul (fileChunks size s)) (hf : s.length < fuel) :
    ∃ r, Scanned.authReadChunks size v.ok i fuel k line s = .done r ∧ ∀ l rest,
      r = some (l, rest) → NoneNul (fileChunks size rest) ∧ rest.length ≤ s.length ∧
        (l = line ∨ rest.length < s.length) := by
  induction fuel generalizing k line s with
  | zero => omega
  | succ fuel ih =>
    cases hs : fgets size s with
    | none =>
      refine ⟨some (line, s), by rw [Scanned.authReadChunks, hs]; rfl, ?_⟩
      rintro l rest ⟨⟩
      exact ⟨hn, Nat.le_refl _, .inl rfl⟩
    | some cr =>
      obtain ⟨chunk, rest⟩ := cr
      obtain ⟨rfl, hchunk⟩ := fgets_some hsize hs
      have hpos := List.length_pos_iff.mpr hchunk
      rw [List.length_append] at hf ⊢
      rw [fileChunks_cons hsize hs] at hn
      obtain ⟨hhead, hn⟩ := List.forall_mem_cons.mp hn
      rw [authReadChunks_scan hs hchunk hhead]
      rcases authStringExtend (v.ok (.extend i k)) line (chunk.takeWhile (· != '\x00')) with
        _ | line'
      · exact ⟨none, rfl, fun _ _ h => nomatch h⟩
      · dsimp only
        split
        · refine ⟨_, rfl, ?_⟩
          rintro l rest' ⟨⟩
          exact ⟨hn, by omega, .inr (by omega)⟩
        · have hlen : rest.length < fuel := by omega
          obtain ⟨r, hr, hrest⟩ := ih hn hlen
          refine ⟨r, hr, fun l rest' h => ?_⟩
          obtain ⟨hn', hle, -⟩ := hrest l rest' h
          exact ⟨hn', by omega, .inr (by omega)⟩

/-- Reading the lines of chunks that do not begin with NUL ends. -/
theorem authReadLines_stays (hsize : 2 ≤ size) (v : Verification)
    (hn : NoneNul (fileChunks size s)) (hf : s.length < fuel) :
    ∃ lines, Scanned.authReadLines size v.ok fuel i s = .done lines := by
  induction fuel generalizing i s with
  | zero => omega
  | succ fuel ih =>
    rw [Scanned.authReadLines, Scanned.authReadLine]
    split
    · exact ⟨[], rfl⟩
    · obtain ⟨r, hr, hrest⟩ := authReadChunks_stays hsize v hn hf
      rw [hr, Scan.done_bind]
      rcases r with _ | ⟨_ | line, rest⟩
      · exact ⟨[], rfl⟩
      · exact ⟨[], rfl⟩
      · obtain ⟨hn', -, hlt⟩ := hrest _ _ rfl
        obtain ⟨lines, hlines⟩ := ih (i := i + 1) hn' (by
          have := hlt.resolve_left (nomatch ·)
          omega)
        refine ⟨line :: lines, ?_⟩
        simp only [Option.getD_some, Scan.pure_eq, Scan.done_bind, hlines]

/-- Where no call fails, a line whose reading ends has no chunk that begins with
NUL. -/
theorem authReadChunks_none_nul (hsize : 2 ≤ size) {v : Verification} (hv : Succeeds v)
    {r : Option (Option CStr × List Char)}
    (h : Scanned.authReadChunks size v.ok i fuel k line s = .done r) :
    ∃ l rest cs, r = some (l, rest) ∧ fileChunks size s = cs ++ fileChunks size rest ∧
      NoneNul cs ∧ (l = none → rest = []) := by
  induction fuel generalizing k line s with
  | zero => cases h
  | succ fuel ih =>
    cases hs : fgets size s with
    | none =>
      rw [Scanned.authReadChunks, hs] at h
      exact ⟨line, s, [], (Scan.done.inj h).symm, rfl, List.forall_mem_nil _, fun _ => fgets_none hs⟩
    | some cr =>
      obtain ⟨chunk, rest⟩ := cr
      obtain ⟨-, hchunk⟩ := fgets_some hsize hs
      rw [fileChunks_cons hsize hs]
      by_cases hhead : chunk.head? = some '\x00'
      · rw [authReadChunks_nul hs hhead, hv, if_pos rfl] at h
        cases h
      · rw [authReadChunks_scan hs hchunk hhead, authStringExtend, hv, if_pos rfl] at h
        dsimp only at h
        split at h
        · exact ⟨_, rest, [chunk], (Scan.done.inj h).symm, rfl, List.forall_mem_singleton.mpr hhead,
            fun hl => absurd hl (Option.some_ne_none _)⟩
        · obtain ⟨l, rest', cs, hr, hcs, hnone, hl⟩ := ih h
          exact ⟨l, rest', chunk :: cs, hr, by rw [hcs, List.cons_append],
            List.forall_mem_cons.mpr ⟨hhead, hnone⟩, hl⟩

theorem authReadLines_none_nul (hsize : 2 ≤ size) {v : Verification} (hv : Succeeds v)
    {lines : List CStr} (h : Scanned.authReadLines size v.ok fuel i s = .done lines) :
    NoneNul (fileChunks size s) := by
  induction fuel generalizing i s lines with
  | zero => cases h
  | succ fuel ih =>
    rw [Scanned.authReadLines] at h
    obtain ⟨⟨line, rest⟩, hline, h⟩ := Scan.bind_eq_done.mp h
    rw [Scanned.authReadLine, hv, Bool.not_true, if_neg Bool.false_ne_true] at hline
    obtain ⟨r, hr, hline⟩ := Scan.bind_eq_done.mp hline
    obtain ⟨l, rest', cs, rfl, hcs, hnone, hnil⟩ := authReadChunks_none_nul hsize hv hr
    obtain ⟨rfl, rfl⟩ := Prod.mk.inj (Scan.done.inj hline)
    rw [hcs]
    refine List.forall_mem_append.mpr ⟨hnone, ?_⟩
    cases l with
    | none =>
      rw [hnil rfl]
      exact List.forall_mem_nil _
    | some line =>
      obtain ⟨lines', hlines, -⟩ := Scan.bind_eq_done.mp h
      exact ih hlines

theorem fileStays_iff {content : List Char} :
    FileStays content ↔ NoneNul (fileChunks lineSize content) := by
  constructor
  · intro h
    obtain ⟨fuel, lines, hlines⟩ := h (succeeding 'x').ok
    exact authReadLines_none_nul (by decide) (v := succeeding 'x') (fun _ => rfl) hlines
  · intro h ok
    obtain ⟨lines, hlines⟩ := authReadLines_stays (i := 0) (by decide) ⟨[], ok, 'x', []⟩ h
      (Nat.lt_succ_self _)
    exact ⟨_, lines, hlines⟩

/-! ## Headers -/

theorem length_of_scheme {header : CStr} (h : strcaseEq (header.take 6) basicScheme = true) :
    6 ≤ header.length := by
  have hlen := congrArg List.length (strcaseEq_iff.mp h)
  simp only [fold, List.length_map, List.length_take, basicScheme, List.length_cons,
    List.length_nil] at hlen
  omega

/-- Skipping the scheme ends in the header exactly if something graphic follows
it. -/
theorem authSkipBasic_done_iff (header : CStr) :
    (∃ fuel r, Scanned.authSkipBasic fuel header = .done r) ↔ ¬ NothingFollows header := by
  unfold Scanned.authSkipBasic NothingFollows
  cases hscheme : strcaseEq (header.take 6) basicScheme with
  | false => simp
  | true =>
    have hskip := skip_done_iff (p := (!isGraph ·)) rfl (length_of_scheme hscheme)
    have hgraph : (∃ c ∈ header.drop 6, (!isGraph c) = false) ↔
        ¬ ∀ c ∈ header.drop 6, isGraph c = false := by simp
    refine Iff.trans ?_ (not_congr (and_iff_right rfl).symm)
    rw [← hgraph, ← hskip]
    constructor
    · rintro ⟨fuel, r, h⟩
      obtain ⟨j, hj, -⟩ := Scan.bind_eq_done.mp h
      exact ⟨fuel, j, hj⟩
    · rintro ⟨fuel, j, hj⟩
      exact ⟨fuel, some j, by rw [hj]; rfl⟩

theorem authSkipBasic_refines {fuel : Nat} {header : CStr} {r : Option Nat}
    (h : Scanned.authSkipBasic fuel header = .done r) (beyond : List Char) :
    authSkipBasic beyond header = r.map header.drop := by
  rw [authSkipBasic]
  rw [Scanned.authSkipBasic] at h
  split at h
  · rename_i hscheme
    rw [if_pos hscheme]
    obtain rfl := Scan.done.inj h
    rfl
  · rename_i hscheme
    rw [if_neg hscheme]
    obtain ⟨j, hj, h⟩ := Scan.bind_eq_done.mp h
    obtain rfl := Scan.done.inj h
    have hlen : 6 ≤ header.length := length_of_scheme (by simpa using hscheme)
    obtain ⟨⟨c, hc, hgraph⟩, hdrop⟩ := skip_spec rfl hlen hj
    rw [Option.map_some, hdrop]
    split
    · rename_i hnil
      have := List.dropWhile_eq_nil_iff.mp hnil c hc
      rw [hgraph] at this
      cases this
    · rfl

/-- After the scheme is skipped, decoding ends. -/
theorem authPlaintextDecode_done {bioRead : CStr → List Char} (hbio : DecodesWithin bioRead)
    {fuel : Nat} {header : CStr} {r : Option Nat}
    (h : Scanned.authSkipBasic fuel header = .done r) (ok : AuthCall → Bool) :
    ∃ r, Scanned.authPlaintextDecode_ fuel bioRead ok header = .done r := by
  rw [Scanned.authPlaintextDecode_, h, Scan.done_bind]
  rcases r with _ | start
  · exact ⟨none, rfl⟩
  · dsimp only
    split
    · exact ⟨none, rfl⟩
    · split
      · exact ⟨none, rfl⟩
      · have hwithin := hbio (header.drop start)
        rw [writeAt, if_pos ⟨by omega, by omega⟩, Scan.done_bind]
        split <;> exact ⟨_, rfl⟩

/-- A scan that stays in the header decodes what `auth_plaintext_decode_`
does. -/
theorem authPlaintextDecode_refines {bioRead : CStr → List Char} {fuel : Nat} {v : Verification}
    {r : Option (CStr × CStr)}
    (h : Scanned.authPlaintextDecode_ fuel bioRead v.ok v.header = .done r) :
    authPlaintextDecode_ bioRead v = r := by
  obtain ⟨start, hstart, h⟩ := Scan.bind_eq_done.mp h
  rw [authPlaintextDecode_, authSkipBasic_refines hstart]
  rcases start with _ | start
  · exact Scan.done.inj h
  · dsimp only [Option.map_some] at h ⊢
    split at h
    · rename_i hok
      rw [if_pos hok]
      exact Scan.done.inj h
    · rename_i hok
      rw [if_neg hok]
      split at h
      · rename_i hnil
        rw [if_pos hnil]
        exact Scan.done.inj h
      · rename_i hnil
        rw [if_neg hnil]
        obtain ⟨-, -, h⟩ := Scan.bind_eq_done.mp h
        cases hsplit : splitFirst (· == ':')
            ((bioRead (v.header.drop start)).takeWhile (· != '\x00')) with
        | none =>
          rw [hsplit] at h
          exact Scan.done.inj h
        | some parts =>
          rw [hsplit] at h
          exact Scan.done.inj h

theorem headerStays_iff {bioRead : CStr → List Char} (hbio : DecodesWithin bioRead)
    (header : CStr) : HeaderStays bioRead header ↔ ¬ NothingFollows header := by
  rw [← authSkipBasic_done_iff]
  constructor
  · intro h
    obtain ⟨fuel, r, hr⟩ := h fun _ => true
    obtain ⟨start, hstart, -⟩ := Scan.bind_eq_done.mp hr
    exact ⟨fuel, start, hstart⟩
  · rintro ⟨fuel, r, hr⟩ ok
    exact ⟨fuel, authPlaintextDecode_done hbio hr ok⟩

/-- Decoding a header stays inside exactly if something graphic follows the
scheme, where it is there, and reading a file does exactly if no chunk of it
begins with NUL. -/
theorem stays_iff {bioRead : CStr → List Char} (hbio : DecodesWithin bioRead) (header : CStr)
    (content : List Char) :
    (HeaderStays bioRead header ↔ ¬ NothingFollows header) ∧
      (FileStays content ↔ NoneNul (fileChunks lineSize content)) :=
  ⟨headerStays_iff hbio header, fileStays_iff⟩

instance (header : CStr) : Decidable (NothingFollows header) :=
  @instDecidableAnd _ _ _ (List.decidableBAll _ _)

instance (chunks : List (List Char)) : Decidable (NoneNul chunks) :=
  inferInstanceAs (Decidable (∀ _ ∈ _, _))

theorem stays_alice : HeaderStays (fun text => (chars (base64Decode text)).take text.length)
      verifyAlice.header ∧ FileStays (oneUser 1).content := by
  have hbio : DecodesWithin fun text => (chars (base64Decode text)).take text.length := fun text => by
    rw [List.length_take]
    exact Nat.min_le_left ..
  have h := stays_iff hbio verifyAlice.header (oneUser 1).content
  exact ⟨h.1.mpr (by decide +kernel), h.2.mpr (by decide +kernel)⟩

/-- A header that ends with its scheme, and a line that begins with NUL. -/
theorem scheme_is_left : ¬ HeaderStays (fun _ => []) basicScheme ∧ ¬ FileStays ['\x00'] :=
  ⟨fun h => (headerStays_iff (fun _ => Nat.zero_le _) basicScheme).mp h (by decide +kernel),
    fun h => absurd (fileStays_iff.mp h) (by decide +kernel)⟩

end DQ.Proof.Auth
