import Disqueue.Proof.Config.Loaded

/-!
# How servers are guarded

A server that is started is guarded as its object says exactly if the object
names a method by the last of the names that are its name, ignoring case
(`guardedAs_iff`), so a configuration starts the servers it describes exactly
if each of their objects does (`starts_described_iff`). One without an
authentication member makes the program dereference a null pointer
(`start_nullPointer`).
-/

namespace DQ.Proof.Config

open DQ.Model DQ.Spec

variable {c : JsonC} {ok : StartCall → Bool} {config obj : Json} {ctx : ConfigContext}
  {server : ConfigServer} {ssl : SslContext}

/-- The start of a server, by how far it gets. -/
theorem createServer_eq (ok : StartCall → Bool) (server : ConfigServer) (ssl : SslContext) :
    (createServer ok server ssl).1 =
      if (createListener ok server ssl).2 then
        match server.authentication with
        | none => .nullPointer
        | some a =>
          match managerAddServer ok (some a.auth) (some a.name) with
          | none => .failed
          | some m => .started m
      else .failed := by
  unfold createServer
  rcases createListener ok server ssl with ⟨ssl, _ | _⟩
  · rfl
  · cases hs : server.authentication with
    | none => simp [configServerGetAuthentication, hs]
    | some a =>
      simp only [configServerGetAuthentication, configServerGetRealm, hs, Option.map_some, if_true]
      cases managerAddServer ok (some a.auth) (some a.name) <;> rfl

/-- A server without an authentication member has no method, and one with it
has the method found under its name. -/
theorem serverOf_method (h : ServerOf c ctx obj server) :
    (jsonPointerGet [authenticationKey] obj = none ∧ server.authentication = none) ∨
    ∃ a name method, jsonPointerGet [authenticationKey] obj = some a ∧
      jsonObjectGetString c a = some name ∧ configAuthenticationGet_ name ctx = some method ∧
      server.authentication = some method := by
  have hm := h.method
  unfold configMethod at hm
  split at hm
  · rename_i hnone
    exact .inl ⟨hnone, (Option.some.inj hm).symm⟩
  · rename_i a hsome
    split at hm <;> [cases hm; skip]
    rename_i name hname
    obtain ⟨method, hget, hmethod⟩ := Option.map_eq_some_iff.mp hm
    exact .inr ⟨a, name, method, hsome, hname, hget, hmethod.symm⟩

/-- A start is guarded as the object says exactly if, where the listener is
made, the object names its method. -/
theorem guardedAs_iff (hl : Loaded c config ctx) (h : ServerOf c ctx obj server)
    (ok : StartCall → Bool) (ssl : SslContext) :
    GuardedAs c config obj (createServer ok server ssl).1 ↔
      ((createListener ok server ssl).2 = true → NamesMethod c ok config obj) := by
  rw [createServer_eq]
  cases (createListener ok server ssl).2 with
  | false => exact ⟨fun _ h => (by cases h), fun _ => trivial⟩
  | true =>
    simp only [if_true, forall_const]
    rcases serverOf_method h with ⟨hnone, hno⟩ | ⟨a, name, method, hsome, hname, hget, hmethod⟩
    · rw [hno]
      refine ⟨False.elim, ?_⟩
      rintro ⟨a, name, ha, -⟩
      rw [hnone] at ha
      cases ha
    · rw [hmethod]
      dsimp only
      have hlast := configAuthenticationGet_name hl name
      rw [hget, Option.map_some] at hlast
      unfold managerAddServer
      cases hserver : ok .managerServer with
      | false =>
        refine ⟨fun _ => ⟨a, name, hsome, hname, fun hc => ?_⟩, fun _ => trivial⟩
        rw [hserver] at hc
        cases hc
      | true =>
        simp only [Bool.not_true, Bool.false_eq_true, if_false, GuardedAs, hsome]
        constructor
        · rintro ⟨name', m, file, hname', hmem, hfile, hguard⟩
          obtain rfl : name = name' := Option.some.inj (hname.symm.trans hname')
          have hparts : ∀ p, (ok (.setCb p) = true ∧ ok (.params p) = true) ∧ method.name = name := by
            intro p
            have hp := hguard p
            split at hp <;> [cases hp; skip]
            rename_i hset
            split at hp <;> [skip; cases hp]
            rename_i hparams
            simp only [Option.some.injEq, Guard.authenticated.injEq] at hp
            exact ⟨⟨by simpa using hset, hparams⟩, hp.2⟩
          refine ⟨a, name, hsome, hname, fun _ => ⟨?_, fun p => (hparts p).1⟩⟩
          rw [← hlast, (hparts .queues).2]
        · rintro ⟨a', name', ha', hname', hc⟩
          obtain rfl : a = a' := Option.some.inj (hsome.symm.trans ha')
          obtain rfl : name = name' := Option.some.inj (hname.symm.trans hname')
          obtain ⟨hnamed, hcalls⟩ := hc hserver
          obtain ⟨⟨key, value⟩, hmem, hof⟩ := mem_methodMembers hl (List.mem_of_find?_eq_some hget)
          have hkey : method.name = name := Option.some.inj (hlast.trans hnamed)
          have hfirst : key = name := hof.name.symm.trans hkey
          refine ⟨name, value, method.file, hname, hfirst ▸ hmem, hof.file, fun p => ?_⟩
          obtain ⟨hset, hparams⟩ := hcalls p
          rw [hset, hparams, hof.auth, hkey]
          rfl

/-- The starts of `main`, one by one. -/
theorem startsNamed_iff (hl : Loaded c config ctx) {ok : Nat → StartCall → Bool} {objs : List Json}
    {servers : List ConfigServer} (h : List.Forall₂ (ServerOf c ctx) objs servers) (i : Nat)
    (ssl : SslContext) :
    (∀ p ∈ objs.zip (startServers ok i servers ssl), GuardedAs c config p.1 p.2) ↔
      StartsNamed c ok config i (objs.zip servers) ssl := by
  induction h generalizing i ssl with
  | nil => simp [StartsNamed]
  | @cons obj server objs servers hs _ ih =>
    rw [List.zip_cons_cons, StartsNamed, ← guardedAs_iff hl hs (ok i) ssl, startServers]
    rcases hcreate : createServer (ok i) server ssl with ⟨m | _ | _, ssl'⟩
    · dsimp only
      rw [List.zip_cons_cons, List.forall_mem_cons, ih]
      refine and_congr_right fun _ => ⟨?_, fun h => h m ssl' rfl⟩
      rintro h _ _ heq
      cases heq
      exact h
    · dsimp only
      rw [List.zip_cons_cons, List.zip_nil_right, List.forall_mem_singleton]
      exact ⟨fun h => ⟨h, nofun⟩, fun h => h.1⟩
    · dsimp only
      rw [List.zip_cons_cons, List.zip_nil_right, List.forall_mem_singleton]
      exact ⟨fun h => ⟨h, nofun⟩, fun h => h.1⟩

/-- A configuration that is loaded starts the servers it describes, guarded as
it says, exactly if each server that is started names its method. -/
theorem starts_described_iff (c : JsonC) (loadOk : LoadCall → Bool) (ok : Nat → StartCall → Bool)
    (config : Json) (ctx : ConfigContext)
    (h : configLoadFile c loadOk (some config) = .ok ctx) :
    StartsDescribed c ok config ctx ↔
      StartsNamed c ok config 0 ((serverObjects config).reverse.zip ctx.servers) sslGlobalContext_ := by
  have hl := configLoadFile_loaded h
  rw [← startsNamed_iff hl hl.servers 0 sslGlobalContext_]
  exact ⟨fun h => h.guarded, fun hg => ⟨hl.servers.imp fun _ _ h => h.describes, hg⟩⟩

/-! ## Two configurations -/

/-- A decimal number. -/
def decimal (text : CStr) : Int := text.foldl (fun n c => 10 * n + (c.toNat - 48)) 0

/-- The conversions of json-c, of numbers. -/
def numbers : JsonC where
  text
    | .number text => text
    | _ => []
  int
    | .number text => decimal text
    | _ => 0

/-- A server on a port of the loopback address, with the other members given. -/
def loopback (members : List (CStr × Json)) : Json :=
  .object ([(hostnameKey, .string ['1', '2', '7', '.', '0', '.', '0', '.', '1']),
    (portKey, .number ['3', '6', '8', '2'])] ++ members)

/-- The name of a method, and its password file. -/
def methodName : CStr := ['d', 'e', 'f', 'a', 'u', 'l', 't']
def passwordFile : CStr := ['p', 'a', 's', 's', 'w', 'o', 'r', 'd', 's']

/-- A server guarded by the one method there is. -/
def guardedConfig : Json :=
  .object [(serversKey, .array [loopback [(authenticationKey, .string methodName)]]),
    (authenticationKey, .object [(methodName, .object
      [(typeKey, .string ['p', 'l', 'a', 'i', 'n', 't', 'e', 'x', 't']),
        (fileKey, .string passwordFile)])])]

/-- What is loaded of it. -/
def guardedMethod : ConfigAuthentication :=
  ⟨methodName, ['p', 'l', 'a', 'i', 'n', 't', 'e', 'x', 't'], passwordFile, plaintextAuth passwordFile⟩

def guardedContext : ConfigContext :=
  ⟨[⟨['1', '2', '7', '.', '0', '.', '0', '.', '1'], 3682, none, none, some guardedMethod⟩],
    [guardedMethod]⟩

theorem starts_described_guarded :
    StartsDescribed numbers (fun _ _ => true) guardedConfig guardedContext :=
  (starts_described_iff numbers (fun _ => true) _ _ _ rfl).mpr
    ⟨fun _ => ⟨_, methodName, rfl, rfl, fun _ => ⟨rfl, fun _ => ⟨rfl, rfl⟩⟩⟩, fun _ _ _ => trivial⟩

/-- The configuration that comes with the program: a server, and no
authentication. -/
def defaultConfig : Json := .object [(serversKey, .array [loopback []])]

/-- Starting it dereferences a null pointer. -/
theorem start_nullPointer :
    ∃ ctx, configLoadFile numbers (fun _ => true) (some defaultConfig) = .ok ctx ∧
      ¬ StartsDescribed numbers (fun _ _ => true) defaultConfig ctx := by
  refine ⟨_, rfl, fun h => ?_⟩
  exact h.guarded (loopback [], .nullPointer) List.mem_cons_self

end DQ.Proof.Config
