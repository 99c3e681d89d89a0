import Disqueue.Proof.Python.Subscribed
import Disqueue.Proof.TypeScript.Subscribed

/-!
# Handlers that the clients lose

Both libraries keep the handlers whose registration reaches the server as it
was made, as long as no handler raises an exception (`clients_subscribed_iff`):
one that does is not put back.
-/

namespace DQ.Proof.Clients

open DQ.Model.TypeScript DQ.Spec DQ.Proof.TypeScript

/-- The handlers registered with a client are kept in a run after the opening
exactly if each that runs returns, and, in Python, none has an empty key, and,
in TypeScript, none is for the queue `__proto__`. -/
theorem clients_subscribed_iff {ω η : Type} [DecidableEq ω] (account : ω → Model.Python.Account)
    (o : ω) (registered : List (Model.Python.RescheduleItem η))
    (later : List (Later (Model.Python.Identifier ω) Nat))
    (registered' : List (Model.TypeScript.QueueRescheduleItem η))
    (later' : List (Later Nat Unit)) :
    ((∀ js, js <+: later → Python.Subscribed o registered
          (run (Python.laterStep account o) (Python.opened account o registered) js).1) ↔
        (∀ r ∈ registered, r.key ≠ some "") ∧
          Meets (Python.laterStep account o) (Python.HandlerReturns o)
            (Python.opened account o registered) later) ∧
      ((∀ js, js <+: later' → TypeScript.Subscribed registered'
          (run TypeScript.laterStep (TypeScript.opened registered') js)) ↔
        (∀ r ∈ registered', r.1 ≠ "__proto__") ∧
          Meets TypeScript.laterStep TypeScript.HandlerReturns (TypeScript.opened registered')
            later') :=
  ⟨Python.subscribed_prefixes_iff account o registered later,
    TypeScript.subscribed_prefixes_iff registered' later'⟩

/-- One handler, which raises an exception for its first item. -/
theorem handler_lost :
    ¬ Python.Subscribed () [⟨"q", none, ()⟩]
        (run (Python.laterStep (fun _ => ⟨"", none⟩) ())
          (Python.opened (fun _ => ⟨"", none⟩) () [⟨"q", none, ()⟩])
          [.delivered ⟨(), 1, 0⟩ none "x", .handled 0 false]).1 ∧
      ¬ TypeScript.Subscribed [("q", none, ())]
        (run TypeScript.laterStep (TypeScript.opened [("q", none, ())])
          [.delivered 0 none "x", .handled () false]) := by
  constructor
  · intro h
    exact absurd (List.Perm.length_eq h) (by decide)
  · intro h
    have hopened : TypeScript.opened [("q", none, ())] =
        ⟨[], Function.update (fun _ => none) 0 (some ("q", none, ())), 1, none,
          [.sent ⟨"q", 0, none⟩]⟩ := by
      simp [TypeScript.opened, State.new, run, step, queueHandler, pushGroup, notifyOpen,
        objectEntries_singleton, ungroup, resendWant]
    rw [hopened] at h
    exact absurd (List.Perm.length_eq h) (by decide)

end DQ.Proof.Clients
