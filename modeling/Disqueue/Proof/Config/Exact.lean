import Disqueue.Proof.Config.Guarded
import Disqueue.Spec.Configured

/-!
# Servers that are accepted

The ports above 32767 are refused, and a security section without a
certificate is not looked at. Otherwise exactly the valid objects are accepted,
and what is stored is what they say (`configured_exactly_iff`).
-/

namespace DQ.Proof.Config

open DQ.Model DQ.Spec

variable {c : JsonC} {obj : Json} {ctx : ConfigContext}

/-! ## Members -/

theorem jsonObjectGetString_isSome {j : Json} :
    (jsonObjectGetString c j).isSome = true ↔ j ≠ .null := by
  cases j <;> simp [jsonObjectGetString]

theorem stringAt_isSome {key : CStr} :
    (stringAt c [key] obj).isSome = true ↔ HasValue key obj := by
  unfold stringAt HasValue member
  cases jsonPointerGet [key] obj with
  | none => simp
  | some j => simp [jsonObjectGetString_isSome]

/-- A path of two keys. -/
theorem jsonPointerGet_two (key key' : CStr) (obj : Json) :
    jsonPointerGet [key, key'] obj = (member key obj).bind (member key') := by
  unfold member
  cases obj with
  | object members =>
    simp only [jsonPointerGet]
    cases members.lookup key <;> rfl
  | _ => rfl

/-- What the security section of an object that is accepted has: a certificate
and a private key, or no certificate member. -/
def SecurityAccepted (obj : Json) : Prop :=
  ∀ security ∈ member securityKey obj, (member certificateKey security).isSome = true →
    HasValue certificateKey security ∧ HasValue privatekeyKey security

/-- The object has a security section with a certificate member. -/
def HasCertificate (obj : Json) : Prop :=
  ∃ security ∈ member securityKey obj, (member certificateKey security).isSome = true

/-- A security section gives both files, or none, or is refused. -/
theorem configSecurity_cases (c : JsonC) (obj : Json) :
    (configSecurity c obj = some (none, none) ∧ SecurityAccepted obj ∧ ¬ HasCertificate obj) ∨
      (∃ certificate privatekey,
        configSecurity c obj = some (some certificate, some privatekey) ∧ SecurityAccepted obj ∧
          HasCertificate obj) ∨
      (configSecurity c obj = none ∧ ¬ SecurityAccepted obj) := by
  unfold configSecurity SecurityAccepted HasCertificate
  rw [jsonPointerGet_two]
  cases hsec : member securityKey obj with
  | none => exact .inl ⟨rfl, by simp, by simp⟩
  | some security =>
    have hpath : stringAt c [securityKey, privatekeyKey] obj =
        stringAt c [privatekeyKey] security := by
      rw [stringAt, jsonPointerGet_two, hsec]
      rfl
    rw [hpath]
    simp only [Option.bind_some, Option.mem_some_iff, forall_eq', exists_eq_left']
    cases hcert : member certificateKey security with
    | none => exact .inl ⟨rfl, by simp, by simp⟩
    | some cert =>
      have hvalue : HasValue certificateKey security ↔
          (jsonObjectGetString c cert).isSome = true := by
        rw [← stringAt_isSome (c := c), stringAt]
        exact iff_of_eq (congrArg (fun j => (j.bind (jsonObjectGetString c)).isSome = true) hcert)
      rw [hvalue, ← stringAt_isSome (c := c)]
      dsimp only
      cases jsonObjectGetString c cert with
      | none => exact .inr (.inr ⟨rfl, by simp⟩)
      | some certificate =>
        cases stringAt c [privatekeyKey] security with
        | none => exact .inr (.inr ⟨rfl, by simp⟩)
        | some privatekey => exact .inr (.inl ⟨certificate, privatekey, rfl, by simp, by simp⟩)

/-- An authentication member is accepted exactly if it names a method that is
loaded. -/
theorem configMethod_isSome :
    (configMethod c obj ctx).isSome = true ↔ NamesLoaded c ctx.authentications obj := by
  unfold configMethod NamesLoaded member
  cases jsonPointerGet [authenticationKey] obj with
  | none => simp
  | some a =>
    simp only [Option.mem_some_iff, forall_eq']
    cases jsonObjectGetString c a with
    | none => simp
    | some name =>
      simp [configAuthenticationGet_, List.find?_isSome]

/-- What an object that is accepted has. -/
structure AcceptedServer (c : JsonC) (methods : List ConfigAuthentication) (obj : Json) : Prop where
  hostname : HasValue hostnameKey obj
  port : PortUpTo c 32767 obj
  method : NamesLoaded c methods obj
  security : SecurityAccepted obj

/-- An object that is accepted, and what is stored of it. -/
theorem configProcessServer_accepted {ok : LoadCall → Bool} {i : Nat} {ctx' : ConfigContext}
    (h : configProcessServer_ c ok i obj ctx = some ctx') :
    AcceptedServer c ctx.authentications obj ∧
      ∃ server port, ctx' = { ctx with servers := server :: ctx.servers } ∧
        (configServerHasSecurity server = true ↔ HasCertificate obj) ∧
        member portKey obj = some port ∧ jsonObjectGetInt c port = server.port := by
  unfold configProcessServer_ at h
  split at h <;> [cases h; skip]
  split at h <;> [cases h; skip]
  rename_i hostname hhost
  split at h <;> [cases h; skip]
  rename_i port hport
  dsimp only at h
  split at h <;> [cases h; skip]
  split at h <;> [cases h; skip]
  rename_i hrange
  split at h <;> [cases h; skip]
  rename_i certificate privatekey hsec
  split at h <;> [cases h; skip]
  rename_i authentication hmethod
  obtain rfl := Option.some.inj h
  have hpos : ((jsonObjectGetInt c port).toNat : Int) = jsonObjectGetInt c port :=
    Int.toNat_of_nonneg (by omega)
  have hloaded := configMethod_isSome.mp (Option.isSome_of_eq_some hmethod)
  have hvalue := stringAt_isSome.mp (Option.isSome_of_eq_some hhost)
  have hupto : PortUpTo c 32767 obj := ⟨port, hport, by omega, by omega⟩
  rcases configSecurity_cases c obj with ⟨hs, hacc, hcert⟩ | ⟨cert, key, hs, hacc, hcert⟩ | ⟨hs, -⟩
  · obtain ⟨rfl, rfl⟩ := Prod.mk.inj (Option.some.inj (hs.symm.trans hsec))
    exact ⟨⟨hvalue, hupto, hloaded, hacc⟩, _, port, rfl, by simp [configServerHasSecurity, hcert],
      hport, hpos.symm⟩
  · obtain ⟨rfl, rfl⟩ := Prod.mk.inj (Option.some.inj (hs.symm.trans hsec))
    exact ⟨⟨hvalue, hupto, hloaded, hacc⟩, _, port, rfl, by simp [configServerHasSecurity, hcert],
      hport, hpos.symm⟩
  · rw [hs] at hsec
    cases hsec

/-- An object that has what it takes is accepted. -/
theorem configProcessServer_isSome (h : AcceptedServer c ctx.authentications obj) (i : Nat) :
    (configProcessServer_ c (fun _ => true) i obj ctx).isSome = true := by
  obtain ⟨hostname, hhost⟩ := Option.isSome_iff_exists.mp (stringAt_isSome (c := c).mpr h.hostname)
  obtain ⟨port, hport, hlo, hhi⟩ := h.port
  obtain ⟨authentication, hmethod⟩ := Option.isSome_iff_exists.mp (configMethod_isSome.mpr h.method)
  obtain ⟨certificate, privatekey, hsec⟩ : ∃ certificate privatekey,
      configSecurity c obj = some (certificate, privatekey) := by
    rcases configSecurity_cases c obj with ⟨hs, -⟩ | ⟨cert, key, hs, -⟩ | ⟨-, hno⟩
    · exact ⟨_, _, hs⟩
    · exact ⟨_, _, hs⟩
    · exact absurd h.security hno
  have hport' : jsonPointerGet [portKey] obj = some port := hport
  have hzero : jsonObjectGetInt c port ≠ 0 := by omega
  have hrange : ¬ (jsonObjectGetInt c port ≤ 0 ∨ 32767 < jsonObjectGetInt c port) := by omega
  simp only [configProcessServer_, Bool.not_true, Bool.false_eq_true, if_false, hhost, hport',
    if_neg hzero, if_neg hrange, hsec, hmethod, Option.isSome_some]

/-! ## Exactly the valid ones -/

/-- Of an object that is not half-written, the security section is accepted
exactly if it is complete. -/
theorem securityComplete_iff {methods : List ConfigAuthentication} (hhalf : ¬ HalfWritten c methods obj)
    (hhost : HasValue hostnameKey obj) (hport : PortUpTo c 32767 obj)
    (hmethod : NamesLoaded c methods obj) : SecurityAccepted obj ↔ SecurityComplete obj := by
  refine forall₂_congr fun security hsec => ?_
  cases hcert : member certificateKey security with
  | none => exact absurd ⟨hhost, hport, hmethod, security, hsec, hcert⟩ hhalf
  | some cert => simp

theorem portUpTo_mono {m n : Int} (h : PortUpTo c m obj) (hmn : m ≤ n) : PortUpTo c n obj := by
  obtain ⟨port, hport, hlo, hhi⟩ := h
  exact ⟨port, hport, hlo, Int.le_trans hhi hmn⟩

/-- A server is configured exactly if its port is not above 32767, where its
object is valid, and its security section has a certificate member, where the
object is accepted. -/
theorem configured_exactly_iff (c : JsonC) (i : Nat) (obj : Json) (ctx : ConfigContext) :
    ConfiguredExactly c i obj ctx ↔
      (ValidServer c ctx.authentications obj → PortUpTo c 32767 obj) ∧
        ¬ HalfWritten c ctx.authentications obj := by
  have haccepts : (configProcessServer_ c (fun _ => true) i obj ctx).isSome = true ↔
      AcceptedServer c ctx.authentications obj := by
    refine ⟨fun h => ?_, fun h => configProcessServer_isSome h i⟩
    obtain ⟨ctx', h⟩ := Option.isSome_iff_exists.mp h
    exact (configProcessServer_accepted h).1
  constructor
  · intro h
    have hvalid := h.accepted
    rw [haccepts] at hvalid
    refine ⟨fun hv => (hvalid.mpr hv).port, ?_⟩
    rintro ⟨hhost, hport, hmethod, security, hsec, hcert⟩
    have hacc : SecurityAccepted obj := by
      intro security' hsec' hcert'
      obtain rfl : security = security' := Option.some.inj (hsec.symm.trans hsec')
      rw [hcert] at hcert'
      cases hcert'
    obtain ⟨⟨value, hvalue, -⟩, -⟩ := (hvalid.mp ⟨hhost, hport, hmethod, hacc⟩).security security hsec
    rw [hcert] at hvalue
    cases hvalue
  · rintro ⟨hport, hhalf⟩
    constructor
    · rw [haccepts]
      constructor
      · intro h
        exact ⟨h.hostname, portUpTo_mono h.port (by decide), h.method,
          (securityComplete_iff hhalf h.hostname h.port h.method).mp h.security⟩
      · intro h
        exact ⟨h.hostname, hport h, h.method,
          (securityComplete_iff hhalf h.hostname (hport h) h.method).mpr h.security⟩
    · intro ctx' hctx
      obtain ⟨h, server, port, rfl, hsecure, hstored⟩ := configProcessServer_accepted hctx
      refine ⟨server, port, rfl, ?_, hstored⟩
      rw [hsecure]
      constructor
      · rintro ⟨security, hsec, -⟩
        exact Option.isSome_of_mem hsec
      · intro hsome
        obtain ⟨security, hsec⟩ := Option.isSome_iff_exists.mp hsome
        refine ⟨security, hsec, Option.isSome_iff_ne_none.mpr fun hcert => hhalf ?_⟩
        exact ⟨h.hostname, h.port, h.method, security, hsec, hcert⟩

/-- A port above 32767 is refused, and a section without a certificate leaves
the server unsecured. -/
def highPort : Json :=
  .object [(hostnameKey, .string ['h']), (portKey, .number ['4', '0', '0', '0', '0'])]

def keyOnly : Json := loopback [(securityKey, .object [(privatekeyKey, .string ['k'])])]

theorem high_port_refused :
    ¬ ConfiguredExactly numbers 0 highPort ⟨[], []⟩ ∧ ¬ ConfiguredExactly numbers 0 keyOnly ⟨[], []⟩ := by
  constructor
  · intro h
    have hvalid : ValidServer numbers [] highPort := by
      refine ⟨⟨.string ['h'], rfl, nofun⟩, ⟨.number ['4', '0', '0', '0', '0'], rfl, by decide, by decide⟩, ?_, ?_⟩
      · intro a ha
        cases ha
      · intro a ha
        cases ha
    exact absurd (h.accepted.mpr hvalid) (by decide)
  · intro h
    have haccepted : (configProcessServer_ numbers (fun _ => true) 0 keyOnly ⟨[], []⟩).isSome = true := by
      decide
    obtain ⟨⟨value, hvalue, -⟩, -⟩ := (h.accepted.mp haccepted).security _ rfl
    cases hvalue

end DQ.Proof.Config
