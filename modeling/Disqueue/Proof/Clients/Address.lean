import Disqueue.Spec.Address

/-!
# The address that a base URL gives

Both parsers find the parts that a URL is written from (`urlparse_text`,
`newUrl_text`). Python then ignores the port of an https URL, and takes 0 for no
port (`pythonEndpoint_text`); TypeScript's address is again written from parts,
so that `ws` finds the host and the port in it (`typeScriptEndpoint_text`).
-/

namespace DQ.Proof.Clients

open DQ.Model DQ.Model.TypeScript DQ.Spec

/-! ## Hosts and authorities -/

theorem isDelimiter_eq_false {c : Char} (h : isDelimiter c = false) :
    c ≠ '/' ∧ c ≠ '\\' ∧ c ≠ '?' ∧ c ≠ '#' ∧ c ≠ '@' ∧ c ≠ '[' ∧ c ≠ ']' := by
  simpa [isDelimiter, and_assoc] using h

theorem isHost_ne_nil {host : CStr} (h : IsHost host) : host ≠ [] := by
  cases h with
  | name hne _ => exact hne
  | address _ _ => exact List.cons_ne_nil _ _

theorem withoutBrackets_ne_nil {host : CStr} (h : IsHost host) : withoutBrackets host ≠ [] := by
  cases h with
  | name hne hs =>
    rw [withoutBrackets, if_neg fun hhead => absurd (hs _ (List.mem_of_head? hhead)).1 (by decide)]
    exact hne
  | address hne _ => simpa [withoutBrackets] using hne

/-- The characters of a host. -/
theorem mem_isHost {host : CStr} (h : IsHost host) :
    ∀ c ∈ host, endsAuthority c = false ∧ c ≠ '@' := by
  have hplain : ∀ c : Char, isDelimiter c = false → endsAuthority c = false ∧ c ≠ '@' := by
    intro c hc
    obtain ⟨h1, h2, h3, h4, h5, -, -⟩ := isDelimiter_eq_false hc
    exact ⟨by simp [endsAuthority, isSlash, h1, h2, h3, h4], h5⟩
  cases h with
  | name _ hs => exact fun c hc => hplain c (hs c hc).1
  | address _ hs =>
    intro c hc
    rcases List.mem_cons.mp hc with rfl | hc
    · decide
    · rcases List.mem_append.mp hc with hc | hc
      · exact hplain c (hs c hc)
      · rw [List.mem_singleton.mp hc]
        decide

theorem not_mem_digits {s : CStr} (hs : s.all Char.isDigit = true) {c : Char}
    (hc : c.isDigit = false) : c ∉ s := by
  intro hmem
  have hdigit := List.all_eq_true.mp hs c hmem
  rw [hc] at hdigit
  cases hdigit

/-- Where the authority ends with a host and a port, these are found. -/
theorem splitPort_name {s : CStr} (hs : ∀ c ∈ s, isDelimiter c = false ∧ c ≠ ':')
    (port : Option CStr) :
    splitPort false (s ++ port.elim [] (':' :: ·)) = (s, port.getD []) := by
  induction s with
  | nil =>
    cases port with
    | none => rfl
    | some t => simp [splitPort]
  | cons c s ih =>
    obtain ⟨hdelim, hcolon⟩ := hs c List.mem_cons_self
    obtain ⟨-, -, -, -, -, hopen, hclose⟩ := isDelimiter_eq_false hdelim
    rw [List.cons_append, splitPort, if_neg (by simp [hcolon]), if_neg hopen, if_neg hclose,
      ih fun d hd => hs d (List.mem_cons_of_mem _ hd)]

theorem splitPort_inside {s : CStr} (hs : ∀ c ∈ s, isDelimiter c = false) (port : Option CStr) :
    splitPort true (s ++ ']' :: port.elim [] (':' :: ·)) = (s ++ [']'], port.getD []) := by
  induction s with
  | nil =>
    have hport := splitPort_name (s := []) (by simp) port
    rw [List.nil_append] at hport
    simp [splitPort, hport]
  | cons c s ih =>
    obtain ⟨-, -, -, -, -, hopen, hclose⟩ := isDelimiter_eq_false (hs c List.mem_cons_self)
    rw [List.cons_append, splitPort, if_neg (by simp), if_neg hopen, if_neg hclose,
      ih fun d hd => hs d (List.mem_cons_of_mem _ hd)]
    rfl

theorem splitPort_host {host : CStr} (h : IsHost host) (port : Option CStr) :
    splitPort false (host ++ port.elim [] (':' :: ·)) = (host, port.getD []) := by
  cases h with
  | name _ hs => exact splitPort_name hs port
  | address _ hs =>
    rw [List.cons_append, splitPort, if_neg (by simp), if_pos rfl, List.append_assoc]
    exact congrArg (fun r => ('[' :: r.1, r.2)) (splitPort_inside hs port)

theorem cut_colon {s : CStr} (hs : ':' ∉ s) (port : Option CStr) :
    cut ':' (s ++ port.elim [] (':' :: ·)) = (s, port.getD []) := by
  cases port with
  | none => simpa using cut_of_not_mem hs
  | some t => exact cut_append_cons hs

/-- What `_hostinfo` makes of a host and a port. -/
theorem hostinfo_host {host : CStr} (h : IsHost host) {port : Option CStr}
    (hport : ∀ s ∈ port, s.all Char.isDigit = true) :
    (let hostinfo := host ++ port.elim [] (':' :: ·)
    if '[' ∈ hostinfo then
      let r := cut ']' (cut '[' hostinfo).2
      (r.1, (cut ':' r.2).2)
    else cut ':' hostinfo) = (withoutBrackets host, port.getD []) := by
  cases h with
  | name hne hs =>
    have hopen : '[' ∉ host ++ port.elim [] (':' :: ·) := by
      rw [List.mem_append, not_or]
      refine ⟨fun hmem => absurd (hs _ hmem).1 (by decide), ?_⟩
      cases port with
      | none => simp
      | some t => simpa using not_mem_digits (hport t rfl) (c := '[') (by decide)
    have hhead : host.head? ≠ some '[' := fun hhead =>
      absurd (hs _ (List.mem_of_head? hhead)).1 (by decide)
    dsimp only
    rw [if_neg hopen, cut_colon (fun hmem => (hs _ hmem).2 rfl), withoutBrackets, if_neg hhead]
  | @address s hne hs =>
    have hclose : ']' ∉ s := fun hmem => absurd (hs _ hmem) (by decide)
    have hopen : cut '[' ('[' :: (s ++ [']']) ++ port.elim [] (':' :: ·)) =
        ([], s ++ ']' :: port.elim [] (':' :: ·)) := by
      simp [cut]
    have hcolon := cut_colon (s := []) (by simp) port
    rw [List.nil_append] at hcolon
    dsimp only
    rw [if_pos (by simp), hopen, cut_append_cons hclose, hcolon]
    simp [withoutBrackets]

theorem text_eq (u : UrlParts) :
    u.text = u.scheme ++ ':' :: '/' :: '/' :: (u.authority ++ u.rest) := by
  have hend : schemeEnd = [':', '/', '/'] := rfl
  rw [UrlParts.text, hend, List.append_assoc]
  rfl

variable {u : UrlParts} (h : u.WellFormed)
include h

/-- The host, with what follows it in the authority. -/
theorem afterLast_authority :
    afterLast '@' u.authority = u.host ++ u.port.elim [] (':' :: ·) := by
  have hat : '@' ∉ u.host ++ u.port.elim [] (':' :: ·) := by
    rw [List.mem_append, not_or]
    refine ⟨fun hmem => (mem_isHost h.host _ hmem).2 rfl, ?_⟩
    cases hport : u.port with
    | none => simp
    | some s => simpa using not_mem_digits (h.port s hport).1 (by decide)
  unfold UrlParts.authority
  cases u.userinfo with
  | none => exact afterLast_of_not_mem hat
  | some s =>
    rw [Option.elim_some, List.append_assoc]
    exact afterLast_append_cons hat

/-- The characters of an authority. -/
theorem mem_authority : ∀ c ∈ u.authority, endsAuthority c = false := by
  intro c hc
  rcases List.mem_append.mp hc with hc | hc
  · cases huser : u.userinfo with
    | none => simp [huser] at hc
    | some s =>
      rw [huser, Option.elim_some] at hc
      rcases List.mem_append.mp hc with hc | hc
      · obtain ⟨h1, h2, h3, h4, -⟩ := isDelimiter_eq_false (h.userinfo s huser c hc)
        simp [endsAuthority, isSlash, h1, h2, h3, h4]
      · rw [List.mem_singleton.mp hc]
        decide
  · rcases List.mem_append.mp hc with hc | hc
    · exact (mem_isHost h.host c hc).1
    · cases hport : u.port with
      | none => simp [hport] at hc
      | some s =>
        rw [hport, Option.elim_some] at hc
        rcases List.mem_cons.mp hc with rfl | hc
        · decide
        · have hdigit : c.isDigit = true := List.all_eq_true.mp (h.port s hport).1 c hc
          by_contra hends
          rw [Bool.not_eq_false, endsAuthority, isSlash] at hends
          simp only [Bool.or_eq_true, beq_iff_eq] at hends
          rcases hends with ((rfl | rfl) | rfl) | rfl <;> exact absurd hdigit (by decide)

/-- The authority, up to what follows it. -/
theorem takeWhile_authority {p : Char → Bool} (hp : ∀ c, endsAuthority c = false → p c = true)
    (hends : p '/' = false ∧ p '?' = false ∧ p '#' = false) :
    (u.authority ++ u.rest).takeWhile p = u.authority := by
  refine takeWhile_until (fun c hc => hp c (mem_authority h c hc)) fun c hc => ?_
  rcases h.rest c hc with rfl | rfl | rfl
  · exact hends.1
  · exact hends.2.1
  · exact hends.2.2

/-- `_hostinfo` of the authority. -/
theorem hostinfo_authority :
    Python.hostinfo u.authority = (withoutBrackets u.host, u.port.getD []) := by
  unfold Python.hostinfo
  rw [afterLast_authority h]
  exact hostinfo_host h.host fun s hs => (h.port s hs).1

omit h in
/-- An authority is not empty, and does not start with a slash. -/
theorem authority_cons (h : u.WellFormed) :
    ∃ c rest, u.authority = c :: rest ∧ isSlash c = false := by
  cases hcs : u.authority with
  | nil =>
    obtain ⟨-, hne⟩ := List.append_eq_nil_iff.mp hcs
    exact absurd (List.append_eq_nil_iff.mp hne).1 (isHost_ne_nil h.host)
  | cons c rest =>
    refine ⟨c, rest, rfl, ?_⟩
    have hends := mem_authority h c (by rw [hcs]; exact List.mem_cons_self)
    rw [endsAuthority, Bool.or_assoc, Bool.or_eq_false_iff] at hends
    exact hends.1

/-! ## The parsers -/

theorem cut_text : cut ':' u.text = (u.scheme, '/' :: '/' :: (u.authority ++ u.rest)) := by
  rw [text_eq]
  exact cut_append_cons h.scheme

theorem urlparse_text (halpha : u.scheme.head?.any Char.isAlpha = true)
    (hchars : u.scheme.all Python.isSchemeChar = true) :
    Python.urlparse u.text = (fold u.scheme, u.authority) := by
  have hscheme : u.text.takeWhile (· != ':') = u.scheme := congrArg (·.1) (cut_text h)
  have hcolon : ':' ∈ u.text := by simp [text_eq]
  have hnetloc : (u.authority ++ u.rest).takeWhile (!Python.endsNetloc ·) = u.authority := by
    apply takeWhile_authority h
    · intro c hc
      simp only [endsAuthority, isSlash, Bool.or_eq_false_iff] at hc
      simp [Python.endsNetloc, hc]
    · decide
  simp only [Python.urlparse, hscheme, halpha, hchars, hcolon, Bool.and_self, and_self, if_true,
    cut_text h, hnetloc]

/-- What `new URL` reads. -/
theorem newUrl_text (hostParser : CStr → Option CStr) {default : Nat}
    (hdefault : defaultPort (fold u.scheme) = some default) :
    newUrl hostParser u.text = (hostParser u.host).map fun hostname =>
      ⟨fold u.scheme, hostname, u.explicitPort.filter (· ≠ default)⟩ := by
  obtain ⟨c, rest, hauthority, hslash⟩ := authority_cons h
  have hdrop : ('/' :: '/' :: (u.authority ++ u.rest)).dropWhile isSlash =
      u.authority ++ u.rest := by
    rw [hauthority, List.dropWhile_cons_of_pos (by decide), List.dropWhile_cons_of_pos (by decide),
      List.cons_append, List.dropWhile_cons_of_neg (by simp [hslash])]
  have htake : (u.authority ++ u.rest).takeWhile (!endsAuthority ·) = u.authority :=
    takeWhile_authority h (fun c hc => by simp [hc]) (by decide)
  have hsplit : splitPort false (afterLast '@' u.authority) = (u.host, u.port.getD []) := by
    rw [afterLast_authority h]
    exact splitPort_host h.host u.port
  simp only [newUrl, cut_text h, hdrop, htake, hsplit, hdefault]
  cases hostParser u.host with
  | none => rfl
  | some hostname =>
    cases hport : u.port with
    | none => simp [UrlParts.explicitPort, hport, isHost_ne_nil h.host, portNumber]
    | some s =>
      obtain ⟨hdigits, hlt⟩ := h.port s hport
      have hvalid : (decide (u.host = []) || !s.all Char.isDigit ||
          decide (65535 < portNumber s)) = false := by
        simp [isHost_ne_nil h.host, hdigits, hlt]
      rw [Option.getD_some, hvalid]
      by_cases hnil : s = []
      · simp [UrlParts.explicitPort, hport, hnil]
      · by_cases hn : portNumber s = default
        · simp [UrlParts.explicitPort, hport, hnil, hn, Option.filter_some]
        · simp [UrlParts.explicitPort, hport, hnil, hn, Option.filter_some]

/-! ## The endpoints -/

omit h in
theorem isAlpha_of_toLower {c : Char} (hc : c.toLower.isAlpha = true) : c.isAlpha = true := by
  unfold Char.toLower at hc
  split at hc
  · rename_i hupper
    have hu : c.isUpper = true := decide_eq_true hupper
    show (c.isUpper || c.isLower) = true
    rw [hu, Bool.true_or]
  · exact hc

omit h in
/-- A scheme that is http or https but for case. -/
theorem isHttp_alpha {scheme : CStr} (hs : fold scheme = httpScheme ∨ fold scheme = httpsScheme) :
    scheme ≠ [] ∧ ∀ c ∈ scheme, c.isAlpha = true := by
  constructor
  · rintro rfl
    rcases hs with hs | hs <;> exact absurd hs (by decide)
  · intro c hc
    apply isAlpha_of_toLower
    have hmem : c.toLower ∈ fold scheme := List.mem_map_of_mem hc
    have hall : (httpScheme.all Char.isAlpha && httpsScheme.all Char.isAlpha) = true := by decide
    rw [Bool.and_eq_true] at hall
    rcases hs with hs | hs
    · exact List.all_eq_true.mp hall.1 _ (hs ▸ hmem)
    · exact List.all_eq_true.mp hall.2 _ (hs ▸ hmem)

omit h in
/-- Where the Python library connects to. -/
theorem pythonEndpoint_text (u : BaseUrl) :
    pythonEndpoint u.text = some (u.lowerHost,
      if fold u.scheme = httpScheme then (u.explicitPort.filter (· ≠ 0)).getD 80 else 443) := by
  obtain ⟨hne, halpha⟩ := isHttp_alpha u.isHttp
  have hparse := urlparse_text u.wellFormed
    (by
      cases hs : u.scheme with
      | nil => exact absurd hs hne
      | cons c rest => exact halpha c (by simp [hs]))
    (List.all_eq_true.mpr fun c hc => by simp [Python.isSchemeChar, Char.isAlphanum, halpha c hc])
  have hinfo := hostinfo_authority u.wellFormed
  have hhost : Python.hostname u.authority = some u.lowerHost := by
    have hne := withoutBrackets_ne_nil u.wellFormed.host
    simp only [Python.hostname, hinfo, if_neg hne]
    rfl
  have hport : Python.port u.authority = some u.explicitPort := by
    unfold Python.port
    rw [hinfo]
    cases hport : u.port with
    | none => simp [UrlParts.explicitPort, hport]
    | some s =>
      obtain ⟨hdigits, hlt⟩ := u.wellFormed.port s hport
      by_cases hnil : s = []
      · simp [UrlParts.explicitPort, hport, hnil]
      · simp [UrlParts.explicitPort, hport, hnil, hdigits, hlt]
  simp only [pythonEndpoint, Python.createWebsocketAddress, hparse, hhost, hport]
  by_cases hhttp : fold u.scheme = httpScheme
  · simp [hhttp]
  · simp [hhttp]

omit h in
theorem toDigits_all (n : Nat) : (Nat.toDigits 10 n).all Char.isDigit = true :=
  List.all_eq_true.mpr fun _ hc => Nat.isDigit_of_mem_toDigits (by decide) (by decide) hc

/-- The parts of the address that TypeScript writes for a URL. -/
def addressParts (scheme : CStr) (parsed : Url) : UrlParts :=
  ⟨scheme, none, parsed.hostname, parsed.port.map (Nat.toDigits 10), takePath⟩

omit h in
theorem addressParts_wellFormed {scheme : CStr} (hscheme : ':' ∉ scheme) {parsed : Url}
    (hhost : IsHost parsed.hostname) (hport : ∀ n ∈ parsed.port, n ≤ 65535) :
    (addressParts scheme parsed).WellFormed where
  scheme := hscheme
  userinfo := nofun
  host := hhost
  port := by
    intro s hs
    obtain ⟨n, hn, rfl⟩ := Option.map_eq_some_iff.mp hs
    exact ⟨toDigits_all n, by rw [portNumber, Nat.ofDigitChars_ten_toDigits]; exact hport n hn⟩
  rest := by
    intro c hc
    exact .inl (Option.some.inj hc).symm

omit h in
theorem addressParts_text (scheme : CStr) (parsed : Url) :
    (addressParts scheme parsed).text = scheme ++ schemeEnd ++ parsed.host ++ takePath := by
  rw [UrlParts.text, UrlParts.authority, Url.host, List.append_assoc _ (_ ++ _)]
  cases hport : parsed.port with
  | none => simp [addressParts, hport]
  | some n => simp [addressParts, hport]

omit h in
theorem addressParts_explicitPort (scheme : CStr) (parsed : Url) :
    (addressParts scheme parsed).explicitPort = parsed.port := by
  cases hport : parsed.port with
  | none => simp [addressParts, UrlParts.explicitPort, hport]
  | some n =>
    simp [addressParts, UrlParts.explicitPort, hport, portNumber, Nat.toDigits_ne_nil,
      Nat.ofDigitChars_ten_toDigits]

/-- The port that is written is the number of one. -/
theorem explicitPort_le : ∀ n ∈ u.explicitPort, n ≤ 65535 := by
  intro n hn
  obtain ⟨s, hs, hn⟩ := Option.bind_eq_some_iff.mp hn
  by_cases hnil : s = []
  · simp [hnil] at hn
  · rw [if_neg hnil, Option.some.injEq] at hn
    exact hn ▸ (h.port s hs).2

omit h in
/-- The schemes of a base URL and of its address have the same default. -/
theorem addressScheme (u : BaseUrl) :
    ∃ default scheme, defaultPort (fold u.scheme) = some default ∧
      (if fold u.scheme = httpScheme then wsScheme else wssScheme) = scheme ∧ ':' ∉ scheme ∧
      defaultPort (fold scheme) = some default ∧
      (if fold scheme = wssScheme then 443 else 80) = default ∧
      u.serverPort = u.explicitPort.getD default := by
  rcases u.isHttp with hs | hs
  · refine ⟨80, wsScheme, by rw [hs]; decide, by rw [if_pos hs], by decide, by decide, by decide, ?_⟩
    rw [BaseUrl.serverPort, if_pos hs]
  · have hnot : fold u.scheme ≠ httpScheme := by rw [hs]; decide
    refine ⟨443, wssScheme, by rw [hs]; decide, by rw [if_neg hnot], by decide, by decide,
      by decide, ?_⟩
    rw [BaseUrl.serverPort, if_neg hnot]

omit h in
/-- Leaving out the default changes no port. -/
theorem getD_filter_ne (port : Option Nat) (default : Nat) :
    ((port.filter (· ≠ default)).filter (· ≠ default)).getD default = port.getD default := by
  cases port with
  | none => rfl
  | some n =>
    by_cases hn : n = default
    · simp [hn, Option.filter_some]
    · simp [hn, Option.filter_some]

omit h in
/-- Where the TypeScript library connects to. -/
theorem typeScriptEndpoint_text (p : WebPlatform) (u : BaseUrl) :
    typeScriptEndpoint p u.text =
      (p.hostParser u.host).map fun hostname => (withoutBrackets hostname, u.serverPort) := by
  obtain ⟨default, scheme, hdefault, hscheme, hcolon, haddress, hws, hserver⟩ := addressScheme u
  rw [typeScriptEndpoint, TypeScript.createWebSocketAddress,
    newUrl_text u.wellFormed p.hostParser hdefault]
  cases hhost : p.hostParser u.host with
  | none => rfl
  | some hostname =>
    generalize hparsed : (⟨fold u.scheme, hostname, u.explicitPort.filter (· ≠ default)⟩ : Url) =
      parsed
    have hname : parsed.hostname = hostname := by rw [← hparsed]
    have hport : parsed.port = u.explicitPort.filter (· ≠ default) := by rw [← hparsed]
    have hlt : ∀ n ∈ parsed.port, n ≤ 65535 := by
      rw [hport]
      exact fun n hn => explicitPort_le u.wellFormed n (Option.mem_filter_iff.mp hn).1
    have hwf := addressParts_wellFormed hcolon (hname ▸ p.isHost hhost) hlt
    have hread : newUrl p.hostParser (addressParts scheme parsed).text =
        some ⟨fold scheme, hostname, parsed.port.filter (· ≠ default)⟩ := by
      have hparser : p.hostParser (addressParts scheme parsed).host = some hostname := by
        show p.hostParser parsed.hostname = some hostname
        rw [hname]
        exact p.stable hhost
      rw [newUrl_text hwf p.hostParser haddress, addressParts_explicitPort, hparser]
      rfl
    have hscheme' : parsed.scheme = fold u.scheme := by rw [← hparsed]
    simp only [Option.map_some, Option.bind_some, hparsed, hscheme', hscheme, ← addressParts_text,
      p.connects_eq, hread, Url.endpoint, hws, hport, getD_filter_ne, hserver]

/-! ## The same server -/

omit h in
/-- Python connects to the URL's port exactly if the port fits. -/
theorem portFits_iff (u : BaseUrl) :
    (if fold u.scheme = httpScheme then (u.explicitPort.filter (· ≠ 0)).getD 80 else 443) =
      u.serverPort ↔ PortFits u := by
  unfold PortFits BaseUrl.serverPort
  by_cases hhttp : fold u.scheme = httpScheme
  · cases u.explicitPort with
    | none => simp [hhttp]
    | some n =>
      by_cases hn : n = 0
      · simp [hhttp, hn, Option.filter_some]
      · simp [hhttp, hn, Option.filter_some]
  · cases u.explicitPort with
    | none => simp [hhttp]
    | some n => simp [hhttp, eq_comm]

omit h in
/-- The libraries open the WebSocket to the same host, and to the URL's port,
exactly if the host and the port fit. -/
theorem sameEndpoint_iff {H : Type} (p : WebPlatform) (named : CStr → H) (u : BaseUrl) :
    SameEndpoint p named u ↔ HostFits p named u ∧ PortFits u := by
  rw [← portFits_iff]
  unfold SameEndpoint HostFits
  rw [pythonEndpoint_text, typeScriptEndpoint_text]
  simp only [Option.some.injEq, Prod.mk.injEq, Option.map_eq_some_iff]
  constructor
  · rintro ⟨host, host', ⟨rfl, hport⟩, ⟨hostname, hparser, rfl, -⟩, hnamed⟩
    exact ⟨⟨hostname, hparser, hnamed⟩, hport⟩
  · rintro ⟨⟨hostname, hparser, hnamed⟩, hport⟩
    exact ⟨_, _, ⟨rfl, hport⟩, ⟨hostname, hparser, rfl, trivial⟩, hnamed⟩

end DQ.Proof.Clients
