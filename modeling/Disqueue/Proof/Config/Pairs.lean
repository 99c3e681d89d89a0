import Disqueue.Spec.Ssl

/-!
# The key pair that servers present

Starting a server leaves the context as it was, or loads the server's pair into
it if it has none (`createServer_context`); so when all servers are started the
context holds the first pair (`startedContext_eq`), and every connection is
set up with it.
-/

namespace DQ.Proof.Config

open DQ.Model DQ.Spec

/-- The context with the pair loaded, or as it is at first. -/
def contextOf : Option (CStr × CStr) → SslContext
  | none => sslGlobalContext_
  | some (certificate, privatekey) => ⟨true, 2, some certificate, some privatekey⟩

variable {server : ConfigServer} {ssl : SslContext} {p : Option (CStr × CStr)}

/-- A pair is loaded once. -/
theorem startSecurity_context {ok : StartCall → Bool}
    (h : startSecurity ok server (contextOf p) = (ssl, true)) :
    ssl = contextOf (p.or (pairOf server)) := by
  unfold startSecurity at h
  split at h
  · rename_i certificate privatekey hc hk
    have hpair : pairOf server = some (certificate, privatekey) := by
      simp only [pairOf, hc, hk]
    rw [hpair]
    cases p with
    | none =>
      cases hs : ok .sslContext <;> cases hcert : ok .certificate <;> cases hkey : ok .privatekey <;>
        simp [contextOf, sslGlobalContext_, sslSetup, sslLoadCertificate, sslLoadPrivatekey, hs, hcert,
          hkey] at h
      exact h.symm
    | some pair =>
      simp [contextOf, sslSetup, sslLoadCertificate, sslLoadPrivatekey] at h
      exact h.symm
  · rename_i hno
    have hpair : pairOf server = none := by
      unfold pairOf
      split
      · rename_i certificate privatekey hc hk
        exact absurd hk (hno _ _ hc)
      · rfl
    rw [hpair, Option.or_none]
    exact (Prod.mk.inj h).1.symm

theorem createServer_context {ok : StartCall → Bool} {m : ManagerServer}
    (h : createServer ok server (contextOf p) = (.started m, ssl)) :
    ssl = contextOf (p.or (pairOf server)) := by
  unfold createServer createListener at h
  split at h
  · cases h
  · rename_i ssl' hl
    have hssl : ssl' = ssl := by
      split at h
      · cases h
      · split at h
        · cases h
        · split at h
          · cases h
          · exact (Prod.mk.inj h).2
    rw [← hssl]
    split at hl
    · exact startSecurity_context hl
    · cases hl

/-- The induction is on the servers: each leaves the first pair so far. -/
theorem startedContext_eq {ok : Nat → StartCall → Bool} {servers : List ConfigServer} {i : Nat}
    (h : startedContext ok i servers (contextOf p) = some ssl) :
    ssl = contextOf (p.or (servers.findSome? pairOf)) := by
  induction servers generalizing i p with
  | nil =>
    rw [List.findSome?_nil, Option.or_none]
    exact (Option.some.inj h).symm
  | cons server servers ih =>
    rw [startedContext] at h
    split at h
    · rename_i m ssl' hs
      rw [createServer_context hs] at h
      rw [ih h, List.findSome?_cons, Option.or_assoc]
      cases pairOf server <;> simp
    · cases h

/-- `main` reaches its event loop exactly if the start of every server
succeeds. -/
theorem startedContext_isSome (ok : Nat → StartCall → Bool) (servers : List ConfigServer) (i : Nat)
    (ssl : SslContext) : (startedContext ok i servers ssl).isSome ↔
      ∀ r ∈ startServers ok i servers ssl, ∃ m, r = .started m := by
  induction servers generalizing i ssl with
  | nil => simp [startedContext, startServers]
  | cons server servers ih =>
    rw [startedContext, startServers]
    rcases createServer (ok i) server ssl with ⟨r, ssl'⟩
    cases r with
    | started m => simp [ih]
    | failed => simp
    | nullPointer => simp

/-- The connections of a server are set up with its own files exactly if those
are the first that were named. -/
theorem acceptConnection_iff {ok : SslCall → Bool} {own : CStr × CStr} (hown : pairOf server = some own) :
    acceptConnection ok server (contextOf p) = some (.ssl (some own.1) (some own.2)) ↔
      (ok .connection = true ∧ ok .bufferevent = true) ∧ p = some own := by
  have hsec : configServerHasSecurity server = true := by
    unfold pairOf at hown
    split at hown
    · rename_i hc hk
      simp [configServerHasSecurity, hc, hk]
    · cases hown
  unfold acceptConnection
  rw [if_pos hsec]
  unfold sslCreateBufferevent sslCreateConnection
  cases p with
  | none => simp [contextOf, sslGlobalContext_]
  | some pair =>
    cases ok .connection <;> cases ok .bufferevent <;> simp [contextOf, Prod.ext_iff]

/-- When all servers are started, the connections of servers with a security
section are set up with the server's own pair exactly if that pair is the
first. -/
theorem ownPairs_iff (ok : Nat → StartCall → Bool) (servers : List ConfigServer) {ssl : SslContext}
    (h : startedContext ok 0 servers sslGlobalContext_ = some ssl) (conns : List Accepted) :
    OwnPairs servers ssl conns ↔ FirstPairs servers conns := by
  have hssl : ssl = contextOf (servers.findSome? pairOf) := by
    have he := startedContext_eq (p := none) h
    rwa [Option.none_or] at he
  subst hssl
  refine forall₂_congr fun conn _ => forall₂_congr fun server _ => forall₂_congr fun pair hp => ?_
  exact acceptConnection_iff hp

/-- A server with a method and a security section, whose files are both
`file`. -/
def secured (file : CStr) : ConfigServer :=
  ⟨['h'], 3683, some file, some file, some ⟨['m'], [], [], ⟨.plaintext, ⟨none, 0, []⟩⟩⟩⟩

theorem ownPairs_alone :
    OwnPairs [secured ['a']] (contextOf (some (['a'], ['a']))) [(0, fun _ => true)] := by
  have h : startedContext (fun _ _ => true) 0 [secured ['a']] sslGlobalContext_ =
      some (contextOf (some (['a'], ['a']))) := rfl
  refine (ownPairs_iff _ _ h _).mpr ?_
  rintro conn hc server hs pair hp
  obtain rfl := List.mem_singleton.mp hc
  obtain rfl : secured ['a'] = server := Option.some.inj hs
  exact ⟨⟨rfl, rfl⟩, hp⟩

/-- The second of two servers presents the files of the first. -/
theorem ownPairs_not_second :
    startedContext (fun _ _ => true) 0 [secured ['a'], secured ['b']] sslGlobalContext_ =
        some (contextOf (some (['a'], ['a']))) ∧
      ¬ OwnPairs [secured ['a'], secured ['b']] (contextOf (some (['a'], ['a'])))
        [(1, fun _ => true)] := by
  refine ⟨rfl, fun h => ?_⟩
  have hb := h _ (List.mem_singleton_self _) (secured ['b']) rfl (['b'], ['b']) rfl
  exact absurd hb (by decide)

end DQ.Proof.Config
