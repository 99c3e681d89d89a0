import Mathlib.Logic.Function.Basic
import Mathlib.Data.List.Nodup
import Mathlib.Data.List.Perm.Basic
import Disqueue.Framework.Run

/-!
# Requests made for tokens

A desk sends requests, and records for the identifier of each the token that it
is sent for. An answer takes the token out of the record and starts the work on
it, and the work ends. A token is held while it is worked on, or a request that
asks for it is recorded (`held`). If identifiers are new when they are sent, an
answer keeps what is held (`held_answer`), the end of work loses one token
(`held_finish`), and a request brings one back if it asks for it (`held_send`).
-/

namespace DQ

/-- The requests sent, the token recorded for each identifier, and the tokens
that are worked on. -/
structure Desk (μ ι τ : Type) where
  sent : List μ
  record : ι → Option τ
  working : List τ

namespace Desk

variable {μ ι τ : Type} (ident : μ → ι) (asks : μ → τ → Bool)

/-- The tokens that a recorded request asks for, in the order of the requests. -/
def outstanding (d : Desk μ ι τ) : List τ :=
  d.sent.filterMap fun m => (d.record (ident m)).filter (asks m)

/-- The tokens that are not lost. -/
def held (d : Desk μ ι τ) : List τ := d.outstanding ident asks ++ d.working

/-- Each of the tokens is held, and nothing else. -/
def Keeps (tokens : List τ) (d : Desk μ ι τ) : Prop := (d.held ident asks).Perm tokens

/-- Nothing was sent. -/
def empty : Desk μ ι τ := ⟨[], fun _ => none, []⟩

/-- No identifier was sent twice, and what is recorded was asked for. -/
structure Tracked (d : Desk μ ι τ) : Prop where
  nodup : (d.sent.map ident).Nodup
  asked : ∀ id w, d.record id = some w → ∃ m ∈ d.sent, ident m = id ∧ asks m w = true

/-- The work on the `k`-th token ends. -/
def finish (k : Nat) (d : Desk μ ι τ) : Desk μ ι τ := { d with working := d.working.eraseIdx k }

section
variable [DecidableEq ι]

/-- A request is sent for a token. -/
def send (m : μ) (w : τ) (d : Desk μ ι τ) : Desk μ ι τ :=
  { d with sent := d.sent ++ [m], record := Function.update d.record (ident m) (some w) }

/-- The requests are sent in order. -/
def sendAll (l : List (μ × τ)) (d : Desk μ ι τ) : Desk μ ι τ :=
  l.foldl (fun d p => d.send ident p.1 p.2) d

/-- A recorded request is answered. -/
def answer (id : ι) (d : Desk μ ι τ) : Desk μ ι τ :=
  match d.record id with
  | none => d
  | some w =>
    { d with record := Function.update d.record id none, working := d.working ++ [w] }

end

variable {ident asks} {d : Desk μ ι τ} {m : μ} {w : τ} {id : ι} {k : Nat}

/-- The requests for other identifiers ask for what they did. -/
theorem filterMap_update [DecidableEq ι] {sent : List μ} {record : ι → Option τ} {x : Option τ}
    (h : id ∉ sent.map ident) :
    (sent.filterMap fun m => (Function.update record id x (ident m)).filter (asks m)) =
      sent.filterMap fun m => (record (ident m)).filter (asks m) := by
  apply List.filterMap_congr
  intro m hm
  have hne : ident m ≠ id := fun he => h (he ▸ List.mem_map_of_mem hm)
  rw [Function.update_of_ne hne]

theorem Tracked.empty : (empty : Desk μ ι τ).Tracked ident asks :=
  ⟨List.nodup_nil, fun _ _ h => by cases h⟩

/-- With some of the tokens held, all are kept exactly if these are all. -/
theorem keeps_iff_of_filter {tokens : List τ} {p : τ → Bool}
    (h : d.Keeps ident asks (tokens.filter p)) :
    d.Keeps ident asks tokens ↔ ∀ w ∈ tokens, p w = true := by
  constructor
  · intro hall
    exact List.length_filter_eq_length_iff.mp (h.symm.trans hall).length_eq
  · intro hall
    rwa [List.filter_eq_self.mpr hall] at h

/-! ## Sending -/

section
variable [DecidableEq ι]

theorem outstanding_send (hnew : ident m ∉ d.sent.map ident) :
    (d.send ident m w).outstanding ident asks =
      d.outstanding ident asks ++ if asks m w then [w] else [] := by
  simp only [outstanding, send, List.filterMap_append]
  rw [filterMap_update hnew]
  cases hasks : asks m w with
  | true => simp [Option.filter_some, hasks]
  | false => simp [hasks]

theorem held_send (hnew : ident m ∉ d.sent.map ident) :
    ((d.send ident m w).held ident asks).Perm
      ((if asks m w then [w] else []) ++ d.held ident asks) := by
  rw [held, outstanding_send hnew, held, ← List.append_assoc]
  exact List.perm_append_comm.append_right d.working

theorem Tracked.send (h : d.Tracked ident asks) (hnew : ident m ∉ d.sent.map ident)
    (hasks : asks m w = true) : (d.send ident m w).Tracked ident asks := by
  constructor
  · rw [Desk.send, List.map_append]
    exact h.nodup.append (List.nodup_singleton _) (by simpa using hnew)
  · intro id' w' hrec
    simp only [Desk.send] at hrec
    by_cases he : id' = ident m
    · rw [he, Function.update_self, Option.some.injEq] at hrec
      exact ⟨m, by simp [Desk.send], he.symm, hrec ▸ hasks⟩
    · rw [Function.update_of_ne he] at hrec
      obtain ⟨m', hm', hid', hasks'⟩ := h.asked id' w' hrec
      exact ⟨m', List.mem_append_left _ hm', hid', hasks'⟩

@[simp] theorem sendAll_cons (p : μ × τ) (l : List (μ × τ)) (d : Desk μ ι τ) :
    d.sendAll ident (p :: l) = (d.send ident p.1 p.2).sendAll ident l := rfl

theorem sent_sendAll (l : List (μ × τ)) (d : Desk μ ι τ) :
    (d.sendAll ident l).sent = d.sent ++ l.map (·.1) := by
  induction l generalizing d with
  | nil => rw [List.map_nil, List.append_nil]; rfl
  | cons p l ih => rw [sendAll_cons, ih, List.map_cons, List.append_cons]; rfl

theorem working_sendAll (l : List (μ × τ)) (d : Desk μ ι τ) :
    (d.sendAll ident l).working = d.working := by
  induction l generalizing d with
  | nil => rfl
  | cons p l ih => exact ih (d.send ident p.1 p.2)

theorem nodup_send {p : μ × τ} {l : List (μ × τ)}
    (hnew : ((d.sent ++ (p :: l).map (·.1)).map ident).Nodup) :
    ident p.1 ∉ d.sent.map ident ∧
      (((d.send ident p.1 p.2).sent ++ l.map (·.1)).map ident).Nodup := by
  rw [List.map_append] at hnew
  refine ⟨fun hmem => ?_, ?_⟩
  · exact List.disjoint_of_nodup_append hnew hmem (by simp)
  · simpa [Desk.send, List.append_assoc] using hnew

/-- What is held after new requests: what they ask for. -/
theorem held_sendAll {l : List (μ × τ)} (hnew : ((d.sent ++ l.map (·.1)).map ident).Nodup) :
    ((d.sendAll ident l).held ident asks).Perm
      ((l.filter fun p => asks p.1 p.2).map (·.2) ++ d.held ident asks) := by
  induction l generalizing d with
  | nil => exact List.Perm.refl _
  | cons p l ih =>
    obtain ⟨hp, hl⟩ := nodup_send hnew
    refine (ih hl).trans (((held_send hp).append_left _).trans ?_)
    rw [← List.append_assoc]
    refine List.Perm.append_right _ (List.perm_append_comm.trans ?_)
    cases hasks : asks p.1 p.2 with
    | true => simp [hasks]
    | false => simp [hasks]

theorem Tracked.sendAll {l : List (μ × τ)} (h : d.Tracked ident asks)
    (hnew : ((d.sent ++ l.map (·.1)).map ident).Nodup) (hasks : ∀ p ∈ l, asks p.1 p.2 = true) :
    (d.sendAll ident l).Tracked ident asks := by
  induction l generalizing d with
  | nil => exact h
  | cons p l ih =>
    obtain ⟨hp, hl⟩ := nodup_send hnew
    exact ih (h.send hp (hasks p List.mem_cons_self)) hl
      fun q hq => hasks q (List.mem_cons_of_mem _ hq)

/-- What is recorded after requests: what each was sent for. -/
theorem record_sendAll {l : List (μ × τ)} (hnew : ((l.map (·.1)).map ident).Nodup) :
    ((empty : Desk μ ι τ).sendAll ident l).record id = some w ↔
      ∃ p ∈ l, ident p.1 = id ∧ p.2 = w := by
  induction l using List.reverseRecOn with
  | nil => simp [sendAll, empty]
  | append_singleton l p ih =>
    rw [List.map_append, List.map_append, List.nodup_append] at hnew
    obtain ⟨hl, -, hdisj⟩ := hnew
    have hsend : (empty : Desk μ ι τ).sendAll ident (l ++ [p]) =
        ((empty : Desk μ ι τ).sendAll ident l).send ident p.1 p.2 := List.foldl_append
    rw [hsend]
    dsimp only [send]
    by_cases hid : id = ident p.1
    · subst hid
      rw [Function.update_self, Option.some_inj]
      refine ⟨fun hw => ⟨p, by simp, rfl, hw⟩, ?_⟩
      rintro ⟨q, hq, heq, rfl⟩
      rcases List.mem_append.mp hq with hq | hq
      · exact absurd heq
          (hdisj _ (List.mem_map_of_mem (List.mem_map_of_mem hq)) _ (by simp))
      · rw [List.mem_singleton.mp hq]
    · rw [Function.update_of_ne hid, ih hl]
      refine ⟨fun ⟨q, hq, h⟩ => ⟨q, List.mem_append_left _ hq, h⟩, ?_⟩
      rintro ⟨q, hq, heq, hw⟩
      rcases List.mem_append.mp hq with hq | hq
      · exact ⟨q, hq, heq, hw⟩
      · rw [List.mem_singleton.mp hq] at heq
        exact absurd heq.symm hid

/-! ## Answers -/

@[simp] theorem sent_answer (id : ι) (d : Desk μ ι τ) : (d.answer id).sent = d.sent := by
  unfold answer
  cases d.record id with
  | none => rfl
  | some w => rfl

theorem Tracked.answer (h : d.Tracked ident asks) : (d.answer id).Tracked ident asks := by
  unfold Desk.answer
  cases hrec : d.record id with
  | none => exact h
  | some w =>
    refine ⟨h.nodup, fun id' w' hrec' => ?_⟩
    by_cases he : id' = id
    · simp [he] at hrec'
    · exact h.asked id' w' (by simpa [he] using hrec')

/-- The token of a request that is answered is worked on. -/
theorem held_answer (h : d.Tracked ident asks) :
    ((d.answer id).held ident asks).Perm (d.held ident asks) := by
  unfold Desk.answer
  cases hrec : d.record id with
  | none => exact List.Perm.refl _
  | some w =>
    obtain ⟨m, hm, hid, hasks⟩ := h.asked id w hrec
    obtain ⟨before, after, hsent⟩ := List.append_of_mem hm
    have hnodup := h.nodup
    rw [hsent, List.map_append, List.map_cons, hid, List.nodup_middle, List.nodup_cons,
      List.mem_append, not_or] at hnodup
    obtain ⟨⟨hbefore, hafter⟩, -⟩ := hnodup
    simp only [held, outstanding, hsent, List.filterMap_append, List.filterMap_cons, hid,
      filterMap_update hbefore, filterMap_update hafter, Function.update_self, hrec,
      Option.filter_some, hasks, if_true, Option.filter_none]
    rw [← List.append_assoc, List.append_assoc, List.append_assoc, List.append_assoc]
    refine List.Perm.append_left _ ?_
    rw [← List.append_assoc]
    exact List.perm_append_singleton w _

end

/-! ## Ends of work -/

theorem mem_held_of_working (hw : d.working[k]? = some w) : w ∈ d.held ident asks :=
  List.mem_append_right _ (List.mem_of_getElem? hw)

theorem Tracked.finish (h : d.Tracked ident asks) : (d.finish k).Tracked ident asks :=
  ⟨h.nodup, h.asked⟩

/-- The token whose work ends is not held any more. -/
theorem held_finish (hw : d.working[k]? = some w) :
    (d.held ident asks).Perm (w :: (d.finish k).held ident asks) := by
  obtain ⟨hk, rfl⟩ := List.getElem?_eq_some_iff.mp hw
  refine ((List.getElem_cons_eraseIdx_perm hk).symm.append_left _).trans ?_
  exact List.perm_middle

/-! ## Runs -/

/-- What a step does: whether it keeps the tokens `w` with `good w`, and the desk
after it. -/
inductive Change [DecidableEq ι] (ident : μ → ι) (asks : μ → τ → Bool) (good : τ → Bool)
    (d : Desk μ ι τ) : Bool → Desk μ ι τ → Prop
  | idle : Change ident asks good d true d
  | answered (id : ι) : Change ident asks good d true (d.answer id)
  | renewed {k : Nat} {w : τ} {m : μ} (hw : d.working[k]? = some w)
      (hnew : ident m ∉ d.sent.map ident) (hasks : good w = true → asks m w = true) :
      Change ident asks good d true ((d.finish k).send ident m w)
  | dropped {k : Nat} {w : τ} (hw : d.working[k]? = some w) :
      Change ident asks good d false (d.finish k)

section
variable [DecidableEq ι] {good : τ → Bool} {tokens : List τ} {d' : Desk μ ι τ}

theorem Change.kept (h : Change ident asks good d true d') (ht : d.Tracked ident asks)
    (hk : d.Keeps ident asks tokens) (hgood : ∀ w ∈ tokens, good w = true) :
    d'.Tracked ident asks ∧ d'.Keeps ident asks tokens := by
  cases h with
  | idle => exact ⟨ht, hk⟩
  | answered id => exact ⟨ht.answer, (held_answer ht).trans hk⟩
  | renewed hw hnew hasks =>
    have hasks' := hasks (hgood _ (hk.subset (mem_held_of_working hw)))
    refine ⟨ht.finish.send hnew hasks', (held_send (d := d.finish _) hnew).trans ?_⟩
    rw [if_pos hasks']
    exact (held_finish hw).symm.trans hk

theorem Change.lost (h : Change ident asks good d false d') (hk : d.Keeps ident asks tokens) :
    ¬ d'.Keeps ident asks tokens := by
  cases h with
  | dropped hw =>
    intro hkeeps
    have hlen := (hkeeps.trans (hk.symm.trans (held_finish hw))).length_eq
    rw [List.length_cons] at hlen
    omega

/-- A state machine with a desk, whose steps keep the tokens exactly if they
meet `C`, and that starts with the good tokens held. -/
theorem keeps_prefixes_iff {σ ε : Type} {step : σ → ε → σ} {C : σ → ε → Prop} {I : σ → Prop}
    (desk : σ → Desk μ ι τ) (hI : ∀ s e, I s → I (step s e))
    (hkept : ∀ s e, I s → C s e → Change ident asks good (desk s) true (desk (step s e)))
    (hlost : ∀ s e, I s → ¬ C s e → Change ident asks good (desk s) false (desk (step s e)))
    {s : σ} (hs : I s) (hkeeps : (desk s).Keeps ident asks (tokens.filter good))
    (htracked : (∀ w ∈ tokens, good w = true) → (desk s).Tracked ident asks) (es : List ε) :
    (∀ js, js <+: es → (desk (run step s js)).Keeps ident asks tokens) ↔
      (∀ w ∈ tokens, good w = true) ∧ Meets step C s es := by
  have hrun (hgood : ∀ w ∈ tokens, good w = true) :
      (∀ js, js <+: es → (desk (run step s js)).Keeps ident asks tokens) ↔ Meets step C s es := by
    apply prefixes_iff_kept (P := fun s => (desk s).Keeps ident asks tokens)
      (I := fun s => I s ∧ (desk s).Tracked ident asks ∧ (desk s).Keeps ident asks tokens)
    · exact fun t ht => ht.2.2
    · exact fun t e ht hc => ⟨hI t e ht.1, (hkept t e ht.1 hc).kept ht.2.1 ht.2.2 hgood⟩
    · exact fun t e ht hk => by_contra fun hc => (hlost t e ht.1 hc).lost ht.2.2 hk
    · exact ⟨hs, htracked hgood, (keeps_iff_of_filter hkeeps).mpr hgood⟩
  constructor
  · intro hall
    have hgood := (keeps_iff_of_filter hkeeps).mp (hall [] es.nil_prefix)
    exact ⟨hgood, (hrun hgood).mp hall⟩
  · rintro ⟨hgood, hmeets⟩
    exact (hrun hgood).mpr hmeets

end

end Desk

end DQ
