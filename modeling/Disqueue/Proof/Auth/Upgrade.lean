import Disqueue.Proof.Auth.Lists
import Disqueue.Proof.Auth.Once

/-!
# Which upgrades are exact

A reply is exact if it is an error, or a refusal of the callback, and the strings used
are there; what is not exact is a string that is missing or was freed, a second
reply, and a version header that only starts with 13 (`exactUpgrade_iff`).
-/

namespace DQ.Proof.Auth

open DQ.Model DQ.Model.Watched DQ.Spec DQ.Proof.Server

variable {dm : DataModel} {bioRead : CStr → List Char} {g : Guard} {a : Option Nat} {r : Asked}
  {p q : Program} {approved : Bool} {used used' : List StringPtr}

/-! ## Replies -/

/-- Where only answers are added, these are the replies. -/
theorem repliesSent_answers (p q : Program) {answers : List Answer} (hlog : q.server.net.log = p.server.net.log)
    (ha : q.answers = p.answers ++ answers) :
    repliesSent true p q = answers.filterMap answeredReply := by
  rw [repliesSent, hlog, ha, List.drop_length, List.drop_left]
  rfl

/-- A request that is refused gets an error. -/
theorem repliesSent_refuse {code : Nat} (hcode : 400 ≤ code) (message : Failure)
    (hlog : q.server.net.log = p.server.net.log) {answers : List Answer}
    (ha : q.answers = p.answers ++ answers) (hq : answers.filterMap answeredReply = []) :
    ∃ code' body, repliesSent true p (q.refuse r code message) = [(code', body)] ∧ 400 ≤ code' := by
  obtain ⟨code', b, he, hcode', -, -⟩ := error_eq r.request code message q.server
  refine ⟨code', some b, ?_, hcode' hcode⟩
  unfold Program.refuse
  rw [he, repliesSent, ha, List.drop_left, hq]
  dsimp only [Server.emit, Net.emit]
  rw [hlog, List.drop_left]
  rfl

/-- The callback has no parameters, or refuses with an error, or accepts. -/
theorem upgradecb_cases (bioRead : CStr → List Char) (g : Guard) (a : Option Nat) (r : Asked)
    (p : Program) :
    (¬ HasParams g a ∧ upgradecb bioRead g a r p = (p.nullPointer, false)) ∨
      (HasParams g a ∧ approves bioRead g a r p = false ∧ ∃ q,
        upgradecb bioRead g a r p = (q, false) ∧
          ∃ code body, repliesSent true p q = [(code, body)] ∧ 400 ≤ code) ∨
      HasParams g a ∧ approves bioRead g a r p = true ∧ ∃ q,
        upgradecb bioRead g a r p = (q, true) ∧ q.server.net.log = p.server.net.log ∧
          q.answers = p.answers := by
  cases g with
  | «open» => exact .inr (.inr ⟨trivial, rfl, p, rfl, rfl, rfl⟩)
  | noParams => exact .inl ⟨id, rfl⟩
  | authenticated auth realm =>
    cases a with
    | none => exact .inl ⟨Bool.false_ne_true, rfl⟩
    | some a =>
      apply Or.inr
      unfold upgradecb connectionWsAuthenticated approves
      dsimp only
      cases evhttpFindHeader r.headers authorizationHeader with
      | none =>
        exact .inl ⟨rfl, rfl, _, rfl,
          repliesSent_refuse (by decide) .authenticationRequired rfl rfl rfl⟩
      | some authstring =>
        simp only [Option.any_some]
        generalize authVerify bioRead { r.verification with header := authstring } p.files
          (p.auths a) = t
        obtain ⟨auth, _ | _⟩ := t
        · exact .inl ⟨rfl, rfl, _, rfl, repliesSent_refuse (by decide) .authenticationFailed rfl
            (List.append_nil _).symm rfl⟩
        · exact .inr ⟨rfl, rfl, _, rfl, rfl, rfl⟩

/-! ## Exact replies -/

/-- An error is exact if the strings used were there. -/
theorem exactReply_error (hm : .missing ∉ used) (hf : .freed ∉ used) {code : Nat}
    (hcode : 400 ≤ code) (hlog : q.server.net.log = p.server.net.log)
    (ha : q.answers = p.answers) : ExactReply approved r p (q.sendError code, used) := by
  have hadds : (q.sendError code).answers = p.answers ++ [.error q.server.next code] :=
    congrArg (· ++ [Answer.error q.server.next code]) ha
  exact ⟨hm, hf, code, none, repliesSent_answers p (q.sendError code) hlog hadds,
    fun h => by omega, fun _ => hcode⟩

theorem not_exactReply_missing (h : .missing ∈ used) : ¬ ExactReply approved r p (q, used) :=
  fun he => he.missing h

theorem not_exactReply_freed (h : .freed ∈ used) : ¬ ExactReply approved r p (q, used) :=
  fun he => he.freed h

/-- What is not replied to once is not exact. -/
theorem not_exactReply_length (h : (repliesSent true p q).length ≠ 1) :
    ¬ ExactReply approved r p (q, used) := by
  rintro ⟨-, -, code, body, he, -⟩
  exact h (by rw [he]; rfl)

/-- Strings that are there may be used first. -/
theorem exactReply_append (used : List StringPtr) (h : ∀ u ∈ used, ∃ s, u = .string s) :
    ExactReply approved r p (q, used ++ used') ↔ ExactReply approved r p (q, used') := by
  have hnot : ∀ u, (∀ s, u ≠ .string s) → (u ∉ used ++ used' ↔ u ∉ used') := by
    intro u hu
    rw [List.mem_append, not_or, and_iff_right]
    exact fun hmem => (h u hmem).elim hu
  have hmissing := hnot .missing fun _ => StringPtr.noConfusion
  have hfreed := hnot .freed fun _ => StringPtr.noConfusion
  constructor
  · exact fun he => ⟨hmissing.mp he.missing, hfreed.mp he.freed, he.reply⟩
  · exact fun he => ⟨hmissing.mpr he.missing, hfreed.mpr he.freed, he.reply⟩

/-! ## The handler -/

theorem hasHeader_iff {name value : CStr} {P : CStr → Prop}
    (h : evhttpFindHeader r.headers name = some value) : HasHeader r name P ↔ P value := by
  constructor
  · rintro ⟨v, hv, hP⟩
    exact Option.some.inj (hv.symm.trans h) ▸ hP
  · exact fun hP => ⟨value, h, hP⟩

theorem not_hasHeader {name : CStr} {P : CStr → Prop}
    (h : evhttpFindHeader r.headers name = none) : ¬ HasHeader r name P := by
  rintro ⟨v, hv, -⟩
  rw [h] at hv
  cases hv

/-- The program after the reply to an upgrade. -/
def switched (q : Program) : Program :=
  { q with answers := q.answers ++ [.switching q.server.next] }

/-- A connection that is not made is a second reply. -/
theorem not_exact_twice (hlog : q.server.net.log = p.server.net.log) (ha : q.answers = p.answers) :
    ¬ ExactReply approved r p ((switched q).sendError 500, used) := by
  apply not_exactReply_length
  have hadds : ((switched q).sendError 500).answers =
      p.answers ++ [.switching q.server.next, .error q.server.next 500] := by
    rw [← ha]
    exact List.append_assoc ..
  rw [repliesSent_answers p ((switched q).sendError 500) hlog hadds]
  exact (by decide : 2 ≠ 1)

/-- A connection that is made is exact if the request passes the tests. -/
theorem switched_exact_iff (dm : DataModel) (hlog : q.server.net.log = p.server.net.log)
    (ha : q.answers = p.answers) (key : CStr) :
    ExactReply true r p
      ({ switched q with server := q.server.step dm .opened }, [.string key]) ↔ PassesTests r := by
  have hsent : repliesSent true p { switched q with server := q.server.step dm .opened } =
      [(101, none)] :=
    repliesSent_answers p { switched q with server := q.server.step dm .opened } hlog
      (congrArg (· ++ [Answer.switching q.server.next]) ha)
  constructor
  · rintro ⟨-, -, code, body, he, h101, -⟩
    have hcode : (101, none) = (code, body) := List.singleton_inj.mp (hsent.symm.trans he)
    exact (h101 (Prod.mk.inj hcode).1.symm).1
  · intro htests
    exact ⟨by simp, by simp, 101, none, hsent, fun _ => ⟨htests, rfl⟩, fun hnot => absurd htests hnot⟩

/-- What the handler does from the check of the key on. -/
theorem upgradeKey_exact_iff (dm : DataModel) (bioRead : CStr → List Char) (g : Guard)
    (a : Option Nat) (p : Program)
    (htests : HasHeader r keyHeader (fun _ => True) →
      (PassesTests r ↔ HasHeader r versionHeader (· = ['1', '3']))) :
    ExactReply (approves bioRead g a r p) r p (upgradeKey dm bioRead g a r p) ↔
      FitsKey bioRead g a r p := by
  unfold upgradeKey FitsKey
  cases hkey : evhttpFindHeader r.headers keyHeader with
  | none =>
    have hno : ¬ HasHeader r keyHeader fun _ => True := not_hasHeader hkey
    simp only [hno, false_and, iff_false]
    exact not_exactReply_missing (by simp)
  | some key =>
    have hhas : HasHeader r keyHeader fun _ => True := ⟨key, hkey, trivial⟩
    simp only [hhas, true_and]
    rcases upgradecb_cases bioRead g a r p with
      ⟨hparams, hcb⟩ | ⟨hparams, happroves, q, hcb, code, body, hsent, hcode⟩ |
      ⟨hparams, happroves, q, hcb, hlog, ha⟩
    · rw [hcb]
      simp only [hparams, false_and, iff_false]
      apply not_exactReply_length
      rw [repliesSent_answers p p.nullPointer rfl (List.append_nil _).symm]
      exact Nat.zero_ne_one
    · rw [hcb]
      simp only [hparams, happroves, true_or, and_self, iff_true]
      exact ⟨by simp, by simp, code, body, hsent, fun h => by omega, fun _ => hcode⟩
    · rw [hcb]
      simp only [hparams, happroves, true_and, Bool.true_eq_false, false_or]
      cases haccept : r.upgrade .acceptKey with
      | false =>
        simpa using exactReply_error (by simp) (by simp) (by decide) hlog ha
      | true =>
        cases hconn : r.upgrade .connection && r.upgrade .takeOwnership &&
            r.upgrade .wslayContext with
        | false =>
          have hfail : ¬ (r.upgrade .connection = true ∧ r.upgrade .takeOwnership = true ∧
              r.upgrade .wslayContext = true) := by simp_all
          simp only [hfail, and_false, Bool.true_eq_false, or_false, iff_false]
          exact not_exact_twice hlog ha
        | true =>
          have hmade : r.upgrade .connection = true ∧ r.upgrade .takeOwnership = true ∧
              r.upgrade .wslayContext = true := by simp_all
          simp only [hmade, and_self, and_true, ← htests hhas, Bool.true_eq_false, false_or]
          exact switched_exact_iff dm hlog ha key

/-- What the handler does from the check of the version on. -/
theorem upgradeVersion_exact_iff (dm : DataModel) (bioRead : CStr → List Char) (g : Guard)
    (a : Option Nat) (p : Program)
    (htests : HasHeader r keyHeader (fun _ => True) →
      (PassesTests r ↔ HasHeader r versionHeader (· = ['1', '3']))) :
    ExactReply (approves bioRead g a r p) r p (upgradeVersion dm bioRead g a r p) ↔
      HasHeader r versionHeader fun v => atoi dm v ≠ 13 ∨ FitsKey bioRead g a r p := by
  unfold upgradeVersion
  cases hversion : evhttpFindHeader r.headers versionHeader with
  | none =>
    exact iff_of_false (not_exactReply_missing (by simp)) (not_hasHeader hversion)
  | some version =>
    rw [hasHeader_iff hversion]
    dsimp only
    by_cases h13 : atoi dm version = 13
    · have hkey := upgradeKey_exact_iff dm bioRead g a p htests
      simp only [h13, bne_self_eq_false, Bool.false_eq_true, if_false, ne_eq, not_true_eq_false,
        false_or]
      rw [← hkey]
      obtain ⟨q, used⟩ := upgradeKey dm bioRead g a r p
      exact exactReply_append [.string version] (by simp)
    · rw [if_pos (bne_iff_ne.mpr h13)]
      exact iff_of_true (exactReply_error (by simp) (by simp) (by decide) rfl rfl) (.inl h13)

theorem reqVersionBefore_iff (version : Int × Int) :
    reqVersionBefore version (1, 1) = false ↔ 1 < version.1 ∨ version.1 = 1 ∧ 1 ≤ version.2 := by
  simp only [reqVersionBefore, Bool.or_eq_false_iff, Bool.and_eq_false_iff, decide_eq_false_iff_not,
    beq_eq_false_iff_ne]
  omega

/-- The tests that are left once the headers list what they have to. -/
theorem passesTests_iff {upgrade connection : CStr}
    (hupgrade : evhttpFindHeader r.headers upgradeHeader = some upgrade)
    (hconnection : evhttpFindHeader r.headers connectionHeader = some connection)
    (hlists : headerContains upgrade websocketToken = true)
    (hlists' : headerContains connection upgradeHeader = true)
    (hmethod : r.request.method = .get) (hversion : reqVersionBefore r.version (1, 1) = false)
    (hkey : HasHeader r keyHeader fun _ => True) :
    PassesTests r ↔ HasHeader r versionHeader (· = ['1', '3']) := by
  constructor
  · exact PassesTests.wsVersion
  · intro h13
    exact ⟨hmethod, (reqVersionBefore_iff r.version).mp hversion,
      ⟨upgrade, hupgrade, lists_of_headerContains (by decide) (by decide) hlists⟩,
      ⟨connection, hconnection, lists_of_headerContains (by decide) (by decide) hlists'⟩, h13, hkey⟩

/-- What the handler does once both headers are copied. -/
theorem copied_exact_iff (dm : DataModel) (bioRead : CStr → List Char) (g : Guard) (a : Option Nat)
    (p : Program) {upgrade connection : CStr}
    (hupgrade : evhttpFindHeader r.headers upgradeHeader = some upgrade)
    (hconnection : evhttpFindHeader r.headers connectionHeader = some connection)
    (hcopy : r.upgrade .upgradeHeader = true) (hcopy' : r.upgrade .connectionHeader = true) :
    ExactUpgrade dm bioRead g a r p ↔
      (headerContains upgrade websocketToken = true ∧
        headerContains connection upgradeHeader = true) ∧
      (r.request.method ≠ .get ∨ reqVersionBefore r.version (1, 1) = true ∨
        HasHeader r versionHeader fun v => atoi dm v ≠ 13 ∨ FitsKey bioRead g a r p) := by
  unfold ExactUpgrade Watched.evwsUpgradeHttpCb_
  simp only [hupgrade, hconnection, hcopy, hcopy', strdup, if_true, listsUpgrade]
  cases hlists : headerContains upgrade websocketToken with
  | false => exact iff_of_false (not_exactReply_freed (by simp [StringPtr.free])) (by simp)
  | true =>
    cases hlists' : headerContains connection upgradeHeader with
    | false => exact iff_of_false (not_exactReply_freed (by simp [StringPtr.free])) (by simp)
    | true =>
      by_cases hmethod : r.request.method = .get
      · cases hbefore : reqVersionBefore r.version (1, 1) with
        | true =>
          refine iff_of_true ?_ ⟨⟨rfl, rfl⟩, .inr (.inl rfl)⟩
          simpa using exactReply_error (by simp) (by simp) (by decide) rfl rfl
        | false =>
          have hversion := upgradeVersion_exact_iff dm bioRead g a p
            (passesTests_iff hupgrade hconnection hlists hlists' hmethod hbefore)
          simp only [hmethod, bne_self_eq_false, Bool.or_self, Bool.not_true, Bool.false_eq_true,
            if_false, ne_eq, not_true_eq_false, false_or, and_self, true_and]
          rw [← hversion]
          obtain ⟨q, used⟩ := upgradeVersion dm bioRead g a r p
          exact exactReply_append [.string upgrade, .string connection, .string upgrade,
            .string connection] (by simp)
      · refine iff_of_true ?_ ⟨⟨rfl, rfl⟩, .inl hmethod⟩
        have hne : (r.request.method != .get) = true := bne_iff_ne.mpr hmethod
        simpa [hne] using exactReply_error (by simp) (by simp) (by decide) rfl rfl

/-- The strings used are there, and the request gets one reply, 101 only if it
passes the tests and is approved, exactly if the request fits. -/
theorem exactUpgrade_iff (dm : DataModel) (bioRead : CStr → List Char) (g : Guard) (a : Option Nat)
    (r : Asked) (p : Program) :
    ExactUpgrade dm bioRead g a r p ↔ FitsUpgrade dm bioRead g a r p := by
  unfold FitsUpgrade
  cases hupgrade : evhttpFindHeader r.headers upgradeHeader with
  | none =>
    unfold ExactUpgrade Watched.evwsUpgradeHttpCb_
    rw [hupgrade]
    exact iff_of_false (not_exactReply_missing (by simp)) (by simp)
  | some upgrade =>
    cases hconnection : evhttpFindHeader r.headers connectionHeader with
    | none =>
      unfold ExactUpgrade Watched.evwsUpgradeHttpCb_
      rw [hupgrade, hconnection]
      exact iff_of_false (not_exactReply_missing (by simp)) (by simp)
    | some connection =>
      simp only [Option.some.injEq, exists_and_left, exists_eq_left']
      cases hcopy : r.upgrade .upgradeHeader with
      | true =>
        cases hcopy' : r.upgrade .connectionHeader with
        | true =>
          simpa using copied_exact_iff dm bioRead g a p hupgrade hconnection hcopy hcopy'
        | false =>
          unfold ExactUpgrade Watched.evwsUpgradeHttpCb_
          simp only [hupgrade, hconnection, hcopy, hcopy', strdup]
          exact iff_of_false (not_exactReply_freed (by simp [StringPtr.free])) (by simp)
      | false =>
        unfold ExactUpgrade Watched.evwsUpgradeHttpCb_
        simp only [hupgrade, hconnection, hcopy, strdup]
        cases hcopy' : r.upgrade .connectionHeader with
        | true => exact iff_of_false (not_exactReply_freed (by simp [StringPtr.free])) (by simp)
        | false =>
          exact iff_of_true (exactReply_error (by simp [StringPtr.free, listsUpgrade])
            (by simp [StringPtr.free, listsUpgrade]) (by decide) rfl rfl) (by simp)

/-- A request for the path of WebSocket connections, by a client that sends
`headers`. -/
def askedUpgrade (headers : List (CStr × CStr)) : Asked :=
  asked .takeWs headers (request .queues .get [])

/-- A request without headers uses a missing one, a request for another protocol
prints the copies that were freed, and one whose connection cannot be made gets
two replies. -/
theorem upgrades_not_exact :
    ¬ ExactUpgrade .lp64 decodeBob .open none (askedUpgrade []) (.startup unread noFiles) ∧
      ¬ ExactUpgrade .lp64 decodeBob .open none
        (askedUpgrade [(upgradeHeader, ['h', '2', 'c']), (connectionHeader, upgradeHeader)])
        (.startup unread noFiles) ∧
      ¬ ExactUpgrade .lp64 decodeBob .open none
        { askedUpgrade upgradeHeaders with upgrade := fun call => call != .connection }
        (.startup unread noFiles) := by
  refine ⟨fun h => ?_, fun h => ?_, fun h => ?_⟩
  · exact absurd h.missing (by decide +kernel)
  · exact absurd h.freed (by decide +kernel)
  · exact not_exactReply_length (by decide +kernel) h

/-! ## The handler, and what it uses -/

/-- The handler, from the check of the version on, without the strings used. -/
theorem upgradeVersion_fst (dm : DataModel) (bioRead : CStr → List Char) (g : Guard)
    (a : Option Nat) (r : Asked) (p : Program) :
    (upgradeVersion dm bioRead g a r p).1 =
      if !(evhttpFindHeader r.headers versionHeader).any (atoi dm · == 13) then p.sendError 400
      else if (evhttpFindHeader r.headers keyHeader).isNone then p.sendError 400
      else
        match upgradecb bioRead g a r p with
        | (p, false) => p
        | (p, true) =>
          if !r.upgrade .acceptKey then p.sendError 500
          else
            let p : Program := { p with answers := p.answers ++ [.switching p.server.next] }
            if r.upgrade .connection && r.upgrade .takeOwnership && r.upgrade .wslayContext then
              { p with server := p.server.step dm .opened }
            else p.sendError 500 := by
  unfold upgradeVersion upgradeKey
  cases evhttpFindHeader r.headers versionHeader with
  | none => rfl
  | some version =>
    by_cases h13 : atoi dm version = 13
    · simp only [h13, bne_self_eq_false, Bool.false_eq_true, if_false, Option.any_some,
        beq_self_eq_true, Bool.not_true]
      cases evhttpFindHeader r.headers keyHeader with
      | none => rfl
      | some key =>
        dsimp only
        obtain ⟨q, _ | _⟩ := upgradecb bioRead g a r p
        · rfl
        · dsimp only
          split
          · rfl
          · split <;> rfl
    · simp [h13]

theorem listsUpgrade_fst (ok ok' : Bool) (upgrade connection : CStr) :
    (!(listsUpgrade (strdup ok upgrade) (strdup ok' connection)).1) =
      (!ok || !ok' || !headerContains upgrade websocketToken ||
        !headerContains connection upgradeHeader) := by
  cases ok with
  | false => rfl
  | true =>
    cases ok' with
    | false => rfl
    | true =>
      simp only [strdup, if_true, listsUpgrade]
      cases headerContains upgrade websocketToken <;> rfl

/-- The handler, without the strings used. -/
theorem watched_fst (dm : DataModel) (bioRead : CStr → List Char) (g : Guard) (a : Option Nat)
    (r : Asked) (p : Program) :
    (Watched.evwsUpgradeHttpCb_ dm bioRead g a r p).1 =
      Model.evwsUpgradeHttpCb_ dm bioRead g a r p := by
  unfold Watched.evwsUpgradeHttpCb_ Model.evwsUpgradeHttpCb_
  cases evhttpFindHeader r.headers upgradeHeader with
  | none => rfl
  | some upgrade =>
    cases evhttpFindHeader r.headers connectionHeader with
    | none => rfl
    | some connection =>
      have hlists := listsUpgrade_fst (r.upgrade .upgradeHeader) (r.upgrade .connectionHeader) upgrade
        connection
      have hversion := upgradeVersion_fst dm bioRead g a r p
      dsimp only
      rw [← hlists]
      split
      · rfl
      · split
        · rfl
        · exact hversion

end DQ.Proof.Auth
