import Disqueue.Proof.Auth.Authorised
import Disqueue.Proof.Server.Once

/-!
# One reply for each request of a path

A request is refused with one reply if its credentials are not accepted, and
else its handler replies once (`request_replied`). A reply whose text is not
added has no body, whatever its code (`empty_reply`).
-/

namespace DQ.Proof.Auth

open DQ.Model DQ.Spec DQ.Proof.Server

variable {dm : DataModel} {bioRead : CStr → List Char} {r : Asked} {p p' : Program}

/-! ## What is sent -/

/-- The replies that the log gets are sent. -/
theorem repliesSent_eq {rs : List (Nat × Body)} (hl : Logs p.server.net rs p'.server.net)
    (ha : (p'.answers.drop p.answers.length).filterMap answeredReply = []) (added : Bool) :
    repliesSent added p p' = rs.map fun x => (x.1, if added then some x.2 else none) := by
  obtain ⟨es, hl, rfl⟩ := hl
  rw [repliesSent, ha, hl, List.drop_left, List.append_nil, List.map_filterMap]
  congr 1
  funext ev
  cases ev <;> rfl

/-- Parameters that are read and then cleared. -/
theorem clearedOnce_reads (k : Nat) (cleared : Bool) :
    ClearedOnce (List.replicate k .read ++ if cleared then [.clear] else []) := by
  constructor
  · cases cleared <;> simp [List.count_replicate]
  · induction k with
    | zero =>
      intro pre post h
      cases cleared <;> cases pre <;> simp_all
    | succ k ih =>
      intro pre post h
      cases pre with
      | nil => cases h
      | cons u pre => exact ih pre post (List.cons.inj h).2

/-- A request that is replied to once. -/
structure Answered (p p' : Program) : Prop where
  once : Once p.server p'.server
  answers : (p'.answers.drop p.answers.length).filterMap answeredReply = []

theorem Answered.repliesOnce (h : Answered p p') : RepliesOnce true p p' := by
  obtain ⟨⟨code, b, hl, hagree⟩, k, cleared, es, huses, hadds⟩ := h.once
  constructor
  · refine ⟨code, some b, by rw [repliesSent_eq hl h.answers]; rfl, ?_⟩
    simpa using hagree
  · rw [paramsUses, huses, List.drop_left, hadds]
    exact clearedOnce_reads k cleared

theorem Answered.empty (h : Answered p p') : ∃ code, repliesSent false p p' = [(code, none)] := by
  obtain ⟨⟨code, b, hl, -⟩, -⟩ := h.once
  exact ⟨code, by rw [repliesSent_eq hl h.answers]; rfl⟩

/-! ## Requests -/

theorem answered_handler (path : Path) (r : Asked) (p : Program) :
    Answered p (callHandler dm path r p) :=
  ⟨http_once dm _ p.server, by simp [callHandler]⟩

/-- A request that is refused. -/
theorem once_refuse (r : Asked) {code : Nat} (hcode : code ≠ 200) (message : Failure)
    (p : Program) : Once p.server (p.refuse r code message).server :=
  (Replies.error (p := none) false code message hcode).once.ends rfl

/-- A request goes on, or is refused with one reply. -/
theorem wsAuthenticated_answered (bioRead : CStr → List Char) (a : Nat) (realm : CStr) (r : Asked)
    (p : Program) :
    ((connectionWsAuthenticated bioRead a realm r p).2 = true ∧
        (connectionWsAuthenticated bioRead a realm r p).1.server = p.server ∧
        (connectionWsAuthenticated bioRead a realm r p).1.answers = p.answers) ∨
      (connectionWsAuthenticated bioRead a realm r p).2 = false ∧
        Answered p (connectionWsAuthenticated bioRead a realm r p).1 := by
  unfold connectionWsAuthenticated
  cases evhttpFindHeader r.headers authorizationHeader with
  | none =>
    refine .inr ⟨rfl, once_refuse r (by decide) .authenticationRequired _, ?_⟩
    simp [Program.refuse, connectionHttpAuthRequired_, answeredReply]
  | some authstring =>
    dsimp only
    generalize authVerify bioRead { r.verification with header := authstring } p.files (p.auths a)
      = t
    obtain ⟨auth, _ | _⟩ := t
    · refine .inr ⟨rfl, once_refuse r (by decide) .authenticationFailed
        { p with auths := Function.update p.auths a auth }, ?_⟩
      simp [Program.refuse]
    · exact .inl ⟨rfl, rfl, rfl⟩

/-- A request for one of the paths gets one reply, whose code is 200 exactly if
the text that it is given is that of a success, and its parameters are cleared
at most once and not read afterwards. If the text is not added the reply has
no body. -/
theorem request_replied (dm : DataModel) (bioRead : CStr → List Char) {g : Guard} {a : Option Nat}
    (hg : HasParams g a) {path : ServerPath} (hpath : path ≠ .takeWs) (r : Asked) (p : Program) :
    RepliesOnce true p (pathCallback dm bioRead g a path r p) ∧
      ∃ code, repliesSent false p (pathCallback dm bioRead g a path r p) = [(code, none)] := by
  suffices h : Answered p (pathCallback dm bioRead g a path r p) from ⟨h.repliesOnce, h.empty⟩
  obtain ⟨handler, hhandler⟩ : ∃ h, path.handler = some h := by
    cases path with
    | takeWs => exact absurd rfl hpath
    | _ => exact ⟨_, rfl⟩
  unfold pathCallback
  rw [hhandler]
  cases g with
  | «open» => exact answered_handler handler r p
  | noParams => exact hg.elim
  | authenticated auth realm =>
    cases a with
    | none => cases hg
    | some a =>
      have hws := wsAuthenticated_answered bioRead a realm r p
      dsimp only
      rw [connectionHttpAuthenticated]
      generalize connectionWsAuthenticated bioRead a realm r p = t at hws ⊢
      obtain ⟨p₁, _ | _⟩ := t
      · exact (hws.resolve_left fun h => Bool.false_ne_true h.1).2
      · obtain ⟨-, hserver, hanswers⟩ := hws.resolve_right fun h => Bool.false_ne_true h.1.symm
        have h : Answered p₁ (callHandler dm handler r p₁) := answered_handler handler r p₁
        dsimp only at hserver hanswers
        exact ⟨hserver ▸ h.once, hanswers ▸ h.answers⟩

theorem request_replied_list :
    RepliesOnce true (.startup unread noFiles) (pathCallback .lp64 decodeBob .open none .queues
        (asked .queues [] (request .queues .get [])) (.startup unread noFiles)) ∧
      ∃ code, repliesSent false (.startup unread noFiles) (pathCallback .lp64 decodeBob .open none
        .queues (asked .queues [] (request .queues .get [])) (.startup unread noFiles)) =
          [(code, none)] :=
  request_replied .lp64 decodeBob (show HasParams .open none from trivial) (by decide) _ _

/-- A success whose text is not added is sent without a body, and a path whose
callback has no parameters gets no reply. -/
theorem empty_reply :
    ¬ RepliesOnce false (.startup unread noFiles) (pathCallback .lp64 decodeBob .open none .queues
        (asked .queues [] (request .queues .get [])) (.startup unread noFiles)) ∧
      ¬ RepliesOnce true (.startup unread noFiles) (pathCallback .lp64 decodeBob .noParams (some 0)
        .queues (asked .queues [] (request .queues .get [])) (.startup unread noFiles)) := by
  refine ⟨fun h => ?_, fun h => ?_⟩
  · obtain ⟨code, body, hsent, hagree⟩ := h.reply
    obtain ⟨rfl, rfl⟩ : 200 = code ∧ none = body := by
      have hlist : repliesSent false (.startup unread noFiles) (pathCallback .lp64 decodeBob .open
          none .queues (asked .queues [] (request .queues .get [])) (.startup unread noFiles)) =
            [(200, none)] := by decide +kernel
      simpa using hlist.symm.trans hsent
    obtain ⟨b, hb, -⟩ := hagree.mp rfl
    cases hb
  · obtain ⟨code, body, hsent, -⟩ := h.reply
    cases hsent

end DQ.Proof.Auth
