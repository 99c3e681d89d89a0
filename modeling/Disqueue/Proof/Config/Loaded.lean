import Mathlib.Data.List.Forall2
import Disqueue.Spec.Guards

/-!
# What is loaded

A configuration that is loaded has a method for each member that defines one,
and a server for each object, the last one first (`configLoadFile_loaded`). The
method that is found under a name is that of the last member with the name,
ignoring case (`configAuthenticationGet_name`).
-/

namespace DQ.Proof.Config

open DQ.Model DQ.Spec

variable {c : JsonC} {ok : LoadCall → Bool}

/-- The method that a member defines. -/
structure MethodOf (c : JsonC) (member : CStr × Json) (a : ConfigAuthentication) : Prop where
  name : a.name = member.1
  file : stringAt c [fileKey] member.2 = some a.file
  auth : a.auth = plaintextAuth a.file

/-- A new method, with its password file. -/
theorem authMethod_file {i : Nat} {type file : CStr} {auth auth' : Auth}
    (h : authMethodFromString ok i type = some auth) {r : Bool}
    (hf : authSetPasswordFile r file auth = (auth', true)) : auth' = plaintextAuth file := by
  unfold authMethodFromString at h
  split at h
  · cases h
  · unfold authNew_ at h
    split at h <;> [cases h; skip]
    split at h <;> [cases h; skip]
    obtain rfl := Option.some.inj h
    cases r with
    | false => cases hf
    | true =>
      obtain rfl := (Prod.mk.inj hf).1
      rename_i m _ _ _
      cases m.2
      rfl

theorem configProcessAuthentication_methodOf {i : Nat} {name : CStr} {config : Json}
    {ctx ctx' : ConfigContext}
    (h : configProcessAuthentication_ c ok i name config ctx = .ok ctx') :
    ∃ a, MethodOf c (name, config) a ∧
      ctx' = { ctx with authentications := a :: ctx.authentications } := by
  unfold configProcessAuthentication_ at h
  split at h <;> [cases h; skip]
  split at h <;> [cases h; skip]
  split at h <;> [cases h; skip]
  rename_i file hfile
  split at h <;> [cases h; skip]
  rename_i auth hauth
  split at h <;> [cases h; skip]
  rename_i auth' hset
  exact ⟨_, ⟨rfl, hfile, authMethod_file hauth hset⟩, (Except.ok.inj h).symm⟩

theorem processAuthentications_methods {members : List (CStr × Json)} {i : Nat}
    {ctx ctx' : ConfigContext} (h : processAuthentications c ok i members ctx = .ok ctx') :
    ∃ auths, List.Forall₂ (MethodOf c) members auths ∧
      ctx' = { ctx with authentications := auths.reverse ++ ctx.authentications } := by
  induction members generalizing i ctx with
  | nil => exact ⟨[], .nil, (Except.ok.inj h).symm⟩
  | cons member members ih =>
    obtain ⟨name, config⟩ := member
    unfold processAuthentications at h
    split at h <;> [cases h; skip]
    rename_i hp
    obtain ⟨a, ha, rfl⟩ := configProcessAuthentication_methodOf hp
    obtain ⟨auths, hauths, rfl⟩ := ih h
    exact ⟨a :: auths, .cons ha hauths, by simp⟩

/-- The server of an object. -/
structure ServerOf (c : JsonC) (ctx : ConfigContext) (obj : Json) (server : ConfigServer) : Prop
    where
  describes : Describes c obj server
  method : configMethod c obj ctx = some server.authentication

theorem configProcessServer_serverOf {i : Nat} {obj : Json} {ctx ctx' : ConfigContext}
    (h : configProcessServer_ c ok i obj ctx = some ctx') :
    ∃ server, ServerOf c ctx obj server ∧ ctx' = { ctx with servers := server :: ctx.servers } := by
  unfold configProcessServer_ at h
  split at h <;> [cases h; skip]
  split at h <;> [cases h; skip]
  rename_i hostname hhost
  split at h <;> [cases h; skip]
  rename_i port hport
  dsimp only at h
  split at h <;> [cases h; skip]
  split at h <;> [cases h; skip]
  rename_i hrange
  split at h <;> [cases h; skip]
  split at h <;> [cases h; skip]
  rename_i authentication hmethod
  have hpos : ((jsonObjectGetInt c port).toNat : Int) = jsonObjectGetInt c port :=
    Int.toNat_of_nonneg (by omega)
  exact ⟨_, ⟨⟨hhost, port, hport, hpos.symm⟩, hmethod⟩, (Option.some.inj h).symm⟩

theorem processServers_servers {objs : List Json} {i : Nat} {ctx ctx' : ConfigContext}
    (h : processServers c ok i objs ctx = .ok ctx') :
    ∃ servers, List.Forall₂ (ServerOf c ctx) objs servers ∧
      ctx' = { ctx with servers := servers.reverse ++ ctx.servers } := by
  induction objs generalizing i ctx with
  | nil => exact ⟨[], .nil, (Except.ok.inj h).symm⟩
  | cons obj objs ih =>
    unfold processServers at h
    split at h
    · rename_i hnil
      cases hnil
    · cases h
    · rename_i hcons
      obtain ⟨rfl, rfl⟩ := List.cons.inj hcons
      split at h <;> [cases h; skip]
      rename_i hp
      obtain ⟨server, hs, rfl⟩ := configProcessServer_serverOf hp
      obtain ⟨servers, hss, rfl⟩ := ih h
      exact ⟨server :: servers, .cons hs (hss.imp fun _ _ h => ⟨h.describes, h.method⟩), by simp⟩

/-- A method for each member that defines one, and a server for each object. -/
structure Loaded (c : JsonC) (config : Json) (ctx : ConfigContext) : Prop where
  methods : List.Forall₂ (MethodOf c) (methodMembers config).reverse ctx.authentications
  servers : List.Forall₂ (ServerOf c ctx) (serverObjects config).reverse ctx.servers

theorem configLoadFile_loaded {config : Json} {ctx : ConfigContext}
    (h : configLoadFile c ok (some config) = .ok ctx) : Loaded c config ctx := by
  unfold configLoadFile at h
  split at h
  · rename_i hnone
    cases hnone
  · cases h
  · rename_i object _ hobject
    obtain rfl := Option.some.inj hobject
    dsimp only at h
    split at h <;> [cases h; skip]
    rename_i ctx₁ hauth
    split at h <;> [skip; cases h]
    rename_i servers hservers
    obtain ⟨auths, hauths, rfl⟩ : ∃ auths,
        List.Forall₂ (MethodOf c) (methodMembers config) auths ∧ ctx₁ = ⟨[], auths.reverse⟩ := by
      unfold methodMembers
      split at hauth
      · rename_i hnull
        rw [hnull]
        exact ⟨[], .nil, (Except.ok.inj hauth).symm⟩
      · rename_i members hmembers
        rw [hmembers]
        obtain ⟨auths, ha, rfl⟩ := processAuthentications_methods hauth
        exact ⟨auths, ha, by simp⟩
      · cases hauth
    obtain ⟨ss, hss, rfl⟩ := processServers_servers h
    have hobjects : serverObjects config = servers := by
      rw [serverObjects, hservers]
    refine ⟨List.rel_reverse hauths, ?_⟩
    rw [hobjects]
    dsimp only
    rw [List.append_nil]
    exact List.rel_reverse (hss.imp fun _ _ h => ⟨h.describes, h.method⟩)

/-- The method found is that of the last name that is the name, ignoring
case. -/
theorem configAuthenticationGet_name {config : Json} {ctx : ConfigContext} (h : Loaded c config ctx)
    (name : CStr) : (configAuthenticationGet_ name ctx).map (·.name) = lastNamed name config := by
  have hnames : ctx.authentications.map (·.name) = ((methodMembers config).map (·.1)).reverse := by
    rw [← List.map_reverse]
    have := h.methods
    generalize (methodMembers config).reverse = ms at this ⊢
    generalize ctx.authentications = as at this ⊢
    induction this with
    | nil => rfl
    | cons ha _ ih => rw [List.map_cons, List.map_cons, ih, ha.name]
  rw [configAuthenticationGet_, lastNamed, ← List.head?_reverse, ← List.filter_reverse, ← hnames,
    List.filter_map, List.head?_map, List.head?_filter]
  rfl

/-- A method is that of a member. -/
theorem mem_methodMembers {config : Json} {ctx : ConfigContext} (h : Loaded c config ctx)
    {a : ConfigAuthentication} (ha : a ∈ ctx.authentications) :
    ∃ member ∈ methodMembers config, MethodOf c member a := by
  have := h.methods
  generalize ctx.authentications = as at this ha
  generalize hms : (methodMembers config).reverse = ms at this
  have hsub : ∀ m ∈ ms, m ∈ methodMembers config := fun m hm => List.mem_reverse.mp (hms ▸ hm)
  clear hms
  induction this with
  | nil => cases ha
  | cons hm _ ih =>
    obtain ⟨h1, h2⟩ := List.forall_mem_cons.mp hsub
    rcases List.mem_cons.mp ha with rfl | ha
    · exact ⟨_, h1, hm⟩
    · exact ih ha h2

end DQ.Proof.Config
