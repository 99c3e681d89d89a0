import Disqueue.Proof.Server.Steps
import Disqueue.Proof.Server.Replies
import Disqueue.Spec.Authorised

/-!
# What a request to the program does

A request leaves the queues and the wants as they are, and is refused (`Idle`),
or it reaches a handler or opens a connection (`ask_asks`); where no path of a
server is open, its credentials are then valid (`ask_cases`). The invariant of
the server's state holds in every state of the program (`good_program_run`).
-/

namespace DQ.Proof.Auth

open DQ.Model DQ.Spec DQ.Proof.Server

/-- The reply to a request without valid credentials. -/
inductive Refusal : Event → Prop
  | reply (rid code) {b} (hs : b.success = false) (hb : b.payload = none) :
    Refusal (.reply rid .authenticated code b)

/-- From `s` to `s'` nothing changes but the number of the next request, and
only refusals are sent. -/
structure Idle (s s' : Server) : Prop where
  queues : s'.queues = s.queues
  heap : s'.heap = s.heap
  wants : s'.net.wants = s.net.wants
  conn : s'.net.conn = s.net.conn
  next : s.next ≤ s'.next
  log : Grows Refusal s.net s'.net

variable {s s' : Server} {r : Asked} {p : Program} {bioRead : CStr → List Char} {dm : DataModel}

theorem Idle.refl (s : Server) : Idle s s := ⟨rfl, rfl, rfl, rfl, Nat.le_refl _, Grows.refl _⟩

/-- Refusals are not notable. -/
theorem Idle.act (h : Idle s s') : Act s .calm s' := by
  obtain ⟨es, hl, hes⟩ := h.log
  have htrace : trace s'.net = trace s.net := by
    have hnone : es.filter notable = [] := by
      refine List.filter_eq_nil_iff.mpr fun ev hev => ?_
      cases hes ev hev
      simp [notable]
    rw [trace, hl, List.filter_append, hnone, List.append_nil, trace]
  refine .calm ?_ ?_ h.heap ⟨h.wants ▸ eased_refl _, fun c => by rw [h.conn], htrace⟩ h.next
  · rw [stored_eq, stored_eq, h.queues]
  · rw [waiting_eq, waiting_eq, h.queues]

/-! ## Replies -/

theorem idle_sendError (code : Nat) (p : Program) : Idle p.server (p.sendError code).server :=
  ⟨rfl, rfl, rfl, rfl, Nat.le_succ _, Grows.refl _⟩

/-- A failure without parameters is one reply. -/
theorem error_eq (r : Request) (code : Nat) (message : Failure) (s : Server) :
    ∃ code' b, connectionHttpError_ r .authenticated false code message s =
      s.emit (.reply s.next .authenticated code' b) ∧ (400 ≤ code → 400 ≤ code') ∧
        b.success = false ∧ b.payload = none := by
  unfold connectionHttpError_ connectionHttpJson_
  cases hb : bodyText r.ok (protocolCreateFailure r.ok message) with
  | none => exact ⟨500, protocolFailureFallback, rfl, fun _ => by decide, rfl, rfl⟩
  | some b =>
    refine ⟨_, b, rfl, fun hcode => ?_, ?_⟩
    · split <;> omega
    unfold bodyText at hb
    split at hb <;> [skip; cases hb]
    rw [protocolCreateBase_some hb]
    exact ⟨rfl, rfl⟩

theorem idle_refuse (r : Asked) (code : Nat) (message : Failure) (p : Program) :
    Idle p.server (p.refuse r code message).server := by
  obtain ⟨code', b, he, -, hs, hb⟩ := error_eq r.request code message p.server
  unfold Program.refuse
  rw [he]
  exact ⟨rfl, rfl, rfl, rfl, Nat.le_succ _, grows_emit (.reply p.server.next code' hs hb) p.server.net⟩

/-! ## Credentials -/

/-- The method at `a` accepts the request. -/
def accepts (bioRead : CStr → List Char) (a : Nat) (r : Asked) (p : Program) : Bool :=
  (evhttpFindHeader r.headers authorizationHeader).any fun authstring =>
    (authVerify bioRead { r.verification with header := authstring } p.files (p.auths a)).2

theorem verifies_eq {v : AddedServer} {a : Nat} (hv : p.servers[r.server]? = some v)
    (ha : v.auth = some a) : verifies bioRead p r = accepts bioRead a r p := by
  unfold verifies accepts
  rw [hv]
  dsimp only
  rw [ha]
  cases evhttpFindHeader r.headers authorizationHeader <;> rfl

/-- A request goes on exactly if it is accepted, and else is refused. -/
theorem wsAuthenticated_spec (bioRead : CStr → List Char) (a : Nat) (realm : CStr) (r : Asked)
    (p : Program) :
    (connectionWsAuthenticated bioRead a realm r p).2 = accepts bioRead a r p ∧
      (connectionWsAuthenticated bioRead a realm r p).1.servers = p.servers ∧
      if accepts bioRead a r p then
        (connectionWsAuthenticated bioRead a realm r p).1.server = p.server
      else Idle p.server (connectionWsAuthenticated bioRead a realm r p).1.server := by
  unfold connectionWsAuthenticated accepts
  cases evhttpFindHeader r.headers authorizationHeader with
  | none => exact ⟨rfl, rfl, idle_refuse r 401 .authenticationRequired _⟩
  | some authstring =>
    simp only [Option.any_some]
    generalize authVerify bioRead { r.verification with header := authstring } p.files (p.auths a)
      = t
    obtain ⟨auth, _ | _⟩ := t
    · exact ⟨rfl, rfl, idle_refuse r 403 .authenticationFailed
        { p with auths := Function.update p.auths a auth }⟩
    · exact ⟨rfl, rfl, rfl⟩

/-! ## Requests -/

/-- What becomes of the server when a request comes to it that `accepted`
says is accepted. -/
inductive Asks (dm : DataModel) (accepted : Prop) (s : Server) (r : Asked) : Server → Prop
  | idle {s' : Server} (h : Idle s s') : Asks dm accepted s r s'
  /-- The handler of a path was called. -/
  | called (h : accepted) (path : Path) :
    Asks dm accepted s r (s.step dm (.http { r.request with path }))
  /-- A connection was opened. -/
  | opened (h : accepted) : Asks dm accepted s r (s.step dm .opened)

theorem Asks.mono {P Q : Prop} (hpq : P → Q) (h : Asks dm P s r s') : Asks dm Q s r s' := by
  cases h with
  | idle h => exact .idle h
  | called h path => exact .called (hpq h) path
  | opened h => exact .opened (hpq h)

theorem http_cases (dm : DataModel) (bioRead : CStr → List Char) (a : Nat) (realm : CStr)
    (path : Path) (r : Asked) (p : Program) :
    Asks dm (accepts bioRead a r p = true) p.server r
      (connectionHttpAuthenticated bioRead a realm (callHandler dm path r) r p).server ∧
    (connectionHttpAuthenticated bioRead a realm (callHandler dm path r) r p).servers = p.servers := by
  obtain ⟨hgo, hsame, hserver⟩ := wsAuthenticated_spec bioRead a realm r p
  unfold connectionHttpAuthenticated
  generalize connectionWsAuthenticated bioRead a realm r p = t at hgo hsame hserver
  obtain ⟨p', _ | _⟩ := t
  · rw [← hgo] at hserver
    exact ⟨.idle hserver, hsame⟩
  · rw [← hgo] at hserver
    refine ⟨?_, hsame⟩
    have hs : p'.server = p.server := hserver
    dsimp only [callHandler]
    rw [hs]
    exact .called hgo.symm path

section

-- What a request that reaches a path's callback has, since the path is open or
-- its method accepts the request.
variable {accepted : Prop} {g : Guard} {a : Option Nat}

theorem upgradecb_spec (bioRead : CStr → List Char) (hopen : g = .open → accepted)
    (haccepts : ∀ a', a = some a' → accepts bioRead a' r p = true → accepted) :
    (upgradecb bioRead g a r p).1.servers = p.servers ∧
      if (upgradecb bioRead g a r p).2 then
        (upgradecb bioRead g a r p).1.server = p.server ∧ accepted
      else Idle p.server (upgradecb bioRead g a r p).1.server := by
  cases g with
  | «open» => exact ⟨rfl, rfl, hopen rfl⟩
  | noParams => exact ⟨rfl, .refl _⟩
  | authenticated auth realm =>
    cases a with
    | none => exact ⟨rfl, .refl _⟩
    | some a =>
      obtain ⟨hgo, hsame, hserver⟩ := wsAuthenticated_spec bioRead a realm r p
      unfold upgradecb
      refine ⟨hsame, ?_⟩
      rw [hgo]
      cases ha : accepts bioRead a r p with
      | false =>
        rw [ha] at hserver
        exact hserver
      | true =>
        rw [ha] at hserver
        exact ⟨hserver, haccepts a rfl ha⟩

theorem upgrade_cases (dm : DataModel) (bioRead : CStr → List Char) (hopen : g = .open → accepted)
    (haccepts : ∀ a', a = some a' → accepts bioRead a' r p = true → accepted) :
    Asks dm accepted p.server r (evwsUpgradeHttpCb_ dm bioRead g a r p).server ∧
    (evwsUpgradeHttpCb_ dm bioRead g a r p).servers = p.servers := by
  have herror : ∀ code, Asks dm accepted p.server r (p.sendError code).server ∧
      (p.sendError code).servers = p.servers := fun code => ⟨.idle (idle_sendError code p), rfl⟩
  have hnull : Asks dm accepted p.server r p.nullPointer.server ∧
      p.nullPointer.servers = p.servers := ⟨.idle (.refl _), rfl⟩
  unfold evwsUpgradeHttpCb_
  split
  · split
    · exact herror 400
    split
    · exact herror 400
    split
    · exact herror 400
    split
    · exact herror 400
    obtain ⟨hsame, hgo⟩ := upgradecb_spec bioRead hopen haccepts
    generalize upgradecb bioRead g a r p = t at hsame hgo
    obtain ⟨p', _ | _⟩ := t
    · exact ⟨.idle hgo, hsame⟩
    · obtain ⟨hserver, ha⟩ : p'.server = p.server ∧ _ := hgo
      -- the upgrade goes on, unless a call fails
      have hidle : ∀ q : Program, q.server = p.server → ∀ code, Idle p.server (q.sendError code).server :=
        fun q hq code => hq ▸ idle_sendError code q
      dsimp only
      split
      · exact ⟨.idle (hidle p' hserver 500), hsame⟩
      split
      · refine ⟨?_, hsame⟩
        show Asks dm _ p.server r (p'.server.step dm .opened)
        rw [hserver]
        exact .opened ha
      · exact ⟨.idle (hidle { p' with answers := p'.answers ++ [.switching p'.server.next] }
          hserver 500), hsame⟩
  · exact hnull

/-- A request for a path is refused, or reaches the path's handler or opens a
connection. -/
theorem path_cases (dm : DataModel) (bioRead : CStr → List Char) (path : ServerPath)
    (hopen : g = .open → accepted)
    (haccepts : ∀ a', a = some a' → accepts bioRead a' r p = true → accepted) :
    Asks dm accepted p.server r (pathCallback dm bioRead g a path r p).server ∧
      (pathCallback dm bioRead g a path r p).servers = p.servers := by
  unfold pathCallback
  cases path.handler with
  | none => exact upgrade_cases dm bioRead hopen haccepts
  | some handler =>
    cases g with
    | «open» => exact ⟨.called (hopen rfl) handler, rfl⟩
    | noParams => exact ⟨.idle (.refl _), rfl⟩
    | authenticated auth realm =>
      cases a with
      | none => exact ⟨.idle (.refl _), rfl⟩
      | some a =>
        obtain ⟨h, hsame⟩ := http_cases dm bioRead a realm handler r p
        exact ⟨h.mono (haccepts a rfl), hsame⟩

/-- As `path_cases`, for every request. -/
theorem ask_asks (dm : DataModel) (bioRead : CStr → List Char) (p : Program) (r : Asked)
    (hopen : ∀ v ∈ p.servers, ∀ path, v.manager.guard path = some .open → accepted)
    (haccepts : ∀ v, p.servers[r.server]? = some v → ∀ a', v.auth = some a' →
      accepts bioRead a' r p = true → accepted) :
    Asks dm accepted p.server r (p.ask dm bioRead r).server ∧
      (p.ask dm bioRead r).servers = p.servers := by
  unfold Program.ask
  cases hv : p.servers[r.server]? with
  | none => exact ⟨.idle (.refl _), rfl⟩
  | some v =>
    dsimp only
    split
    · exact ⟨.idle (idle_sendError 404 p), rfl⟩
    · rename_i path g hpath
      obtain ⟨path', -, hmap⟩ := Option.bind_eq_some_iff.mp hpath
      obtain ⟨g', hguard, heq⟩ := Option.map_eq_some_iff.mp hmap
      obtain ⟨rfl, rfl⟩ := Prod.mk.inj heq
      exact path_cases dm bioRead path'
        (fun he => hopen v (List.mem_of_getElem? hv) path' (he ▸ hguard)) (haccepts v hv)

end

/-- The callback of a path that is not open. -/
def Closed : Guard → Prop
  | .open => False
  | _ => True

/-- No path of a server is open. -/
def Guarded (p : Program) : Prop :=
  ∀ v ∈ p.servers, ∀ path g, v.manager.guard path = some g → Closed g

/-- Where no path is open, a request is refused, or reaches a handler or opens
a connection if its credentials are valid. -/
theorem ask_cases (dm : DataModel) (bioRead : CStr → List Char) (hg : Guarded p) (r : Asked) :
    Asks dm (verifies bioRead p r = true) p.server r (p.ask dm bioRead r).server ∧
      (p.ask dm bioRead r).servers = p.servers :=
  ask_asks dm bioRead p r (fun v hv path hopen => (hg v hv path .open hopen).elim)
    fun _ hv _ ha h => (verifies_eq hv ha).trans h

/-! ## Steps -/

theorem Idle.good (hi : Idle s s') (h : Good s) : Good s' :=
  ⟨h.1.act hi.act, hi.queues ▸ h.2⟩

theorem Asks.good {accepted : Prop} (h : Asks dm accepted s r s') (hs : Good s) : Good s' := by
  cases h with
  | idle h => exact h.good hs
  | called _ path => exact good_step _ hs
  | opened _ => exact good_step _ hs

/-- Every step of the program keeps the invariant of the server's state. -/
theorem good_program_step (i : ProgramInput) (h : Good p.server) :
    Good (p.step dm bioRead i).server := by
  have hserver : ∀ j : Input, Good (p.server.step dm j) := fun j => good_step j h
  unfold Program.step
  split
  · cases i with
    | addServer ok auth realm =>
      dsimp only [Program.next, Program.addServer]
      split <;> exact h
    | write name file => exact h
    | ask r =>
      have hasks : Asks dm True p.server r (p.ask dm bioRead r).server :=
        (ask_asks dm bioRead p r (fun _ _ _ _ => trivial) fun _ _ _ _ _ => trivial).1
      exact hasks.good h
    | read c msgs recv e => exact hserver (.read c msgs recv e)
    | drained c => exact hserver (.drained c)
    | event c eof error e => exact hserver (.event c eof error e)
  · exact h

/-- Every state of every run of the program is good. -/
theorem good_program_run (dm : DataModel) (bioRead : CStr → List Char) (auths : Nat → Auth)
    (files : CStr → Option File) (is : List ProgramInput) :
    Good (run (Program.step dm bioRead) (.startup auths files) is).server :=
  run_inv (I := fun p : Program => Good p.server) (fun _ i h => good_program_step i h) good_startup
    is

end DQ.Proof.Auth
