import Disqueue.Proof.Server.Handlers

/-!
# HTTP requests as acts

Each handler is a sequence of acts, read off what the handler can do, and what
becomes of an item is what `putGives` and `takeGives` say (`http_does`).
-/

namespace DQ.Proof.Server

open DQ.Model DQ.Spec DQ.Proof.Queue

variable {dm : DataModel} {r : Request} {s : Server}

/-- What a handler must be shown to do: it is a sequence of acts, with the
given effects, and the counters stay right. -/
def Does (s : Server) (gives : List Label) (s' : Server) : Prop :=
  ∃ ls, Acts s ls (withNext s' (s.next + 1)) ∧ effects ls = gives ∧ AllCounted s'.queues

/-- What happens to the number of the next request does not matter. -/
theorem Does.next {s s' : Server} {gives : List Label} (h : Does s gives s') (n : Nat) :
    Does s gives { s' with next := n } := h

theorem Does.alive {s s' : Server} {gives : List Label} (h : Does s gives s')
    (hg : .connection ∉ gives) (c : Nat) : (s'.net.conn c).alive = (s.net.conn c).alive := by
  obtain ⟨ls, ha, rfl, -⟩ := h
  exact ha.alive (fun hm => hg (mem_effects.mpr ⟨hm, nofun⟩)) c

/-- A handler that does nothing notable. -/
theorem Emits.does {s s' : Server} (h : Emits s [] s') (hC : AllCounted s.queues) :
    Does s [] s' :=
  ⟨[.calm], .single (h.act (Nat.le_succ _)), rfl, h.queues ▸ hC⟩

theorem list_emits : Emits s [] (connectionHttpCallbackList_ r s) := by
  obtain ⟨p, ok, h⟩ := list_cases r s
  exact h.quiet (by decide)

theorem info_emits : Emits s [] (connectionHttpCallbackInfo_ dm r s) := by
  obtain ⟨s', p, ok, hreads, h⟩ := info_cases dm r s
  exact hreads.emits.trans (h.quiet (by decide))

/-- Looking a queue up, and making one where there is none. -/
theorem get_act {s s' : Server} (h : Emits s [] s') {createNew : Bool} {e : QueueSupply}
    {name : Option CStr} {f : Found}
    (hg : managerQueueGet dm e name createNew s.queues = some f) {n : Nat} (hn : s.next ≤ n) :
    Act s .calm { s' with queues := f.registry, next := n } :=
  .calm (storedIn_get hg) (waitingIn_get hg) h.heap h.calm hn

theorem new_does (hI : Inv s) (hC : AllCounted s.queues) :
    Does s [] (connectionHttpCallbackNew_ dm r s) := by
  rcases new_cases dm r s with ⟨-, s', hreads, h⟩ | ⟨f, s', hf, hreads, h⟩
  · exact (hreads.emits.trans h.failed).does hC
  · have hget := get_act hreads.emits (requested_get hf) (Nat.le_succ s.next)
    have hcounted := allCounted_get (requested_get hf) hC
    split at h
    · have hpay := h.quiet (by decide)
      refine ⟨[.calm, .calm], .cons hget (.single ?_), rfl, hpay.queues ▸ hcounted⟩
      exact .calm hpay.stored hpay.waiting hpay.heap hpay.calm (le_refl _)
    · have hfree := free_act (hI.act hget) (f := f) rfl
      have herr := h.failed
      refine ⟨[.calm, .calm, .calm], .cons hget (.cons hfree (.single ?_)), rfl, ?_⟩
      · exact .calm herr.stored herr.waiting herr.heap herr.calm (le_refl _)
      · rw [herr.queues]
        exact allCounted_free hcounted

theorem delete_does (hI : Inv s) (hC : AllCounted s.queues) :
    Does s [] (connectionHttpCallbackDelete_ dm r s) := by
  rcases delete_cases dm r s with ⟨-, s', hreads, h⟩ | ⟨f, s', hf, hreads, h⟩
  · exact (hreads.emits.trans h.failed).does hC
  · have hg := requested_get hf
    have hcancel : Act s .calm
        { queues := f.registry, heap := s'.heap, next := s.next + 1,
          net := { s'.net with wants := managerQueueWantRemove f.mq.q.addr s'.net.wants } } :=
      .calm (storedIn_get hg) (waitingIn_get hg) hreads.emits.heap
        (hreads.emits.calm.trans ⟨eased_remove _ _, fun _ => rfl, rfl⟩) (Nat.le_succ _)
    have hfree := free_act (hI.act hcancel) (f := f) rfl
    have hpay := h.quiet (by decide)
    refine ⟨[.calm, .calm, .calm], .cons hcancel (.cons hfree (.single ?_)), rfl, ?_⟩
    · exact .calm hpay.stored hpay.waiting hpay.heap hpay.calm (le_refl _)
    · rw [hpay.queues]
      exact allCounted_free (allCounted_get hg hC)

/-- Storing the same queues and heap again changes nothing. -/
theorem Emits.again {s s' : Server} (h : Emits s [] s') {qs : List ManagerQueue} {hp : Heap}
    (hq : qs = s.queues) (hh : hp = s.heap) :
    Emits s [] { s' with queues := qs, heap := hp } :=
  ⟨hq, hh, h.next, h.wants, h.conn, h.trace⟩

/-- The reply to a put whose item was made. -/
theorem accept_act {s s' : Server} {item : QueueItem} {replied : Bool}
    (h : Emits s (if replied then [.reply item.id .put 200 putBody] else []) s')
    (hm : Event.put item ∈ trace s.net) {m n : Nat} (hn : m ≤ n) :
    Act (withNext s m) .calm (withNext s' n) := by
  cases replied with
  | true => exact .accepted item hm h.stored h.waiting h.heap h.wants h.conn h.trace hn
  | false =>
    have h' : Emits s [] s' := h
    exact .calm h'.stored h'.waiting h'.heap h'.calm hn

theorem peek_does (hI : Inv s) (hC : AllCounted s.queues) :
    Does s [] (connectionHttpCallbackPeek dm r s) := by
  rcases peek_cases dm r s with ⟨s', h, p, hreads, hheap, hr⟩ | ⟨f, s', i, h, s₁, ok, hf, hreads,
    hpeek, hr, heq⟩
  · have hh : h = s.heap := by
      rcases hheap with rfl | ⟨f, hf, hpeek⟩
      · exact hreads.emits.heap
      · have hq := reached_found hf
        rw [queuePeek_live (allCounted_found (hq ▸ hC)) (hI.liveItems hq)] at hpeek
        exact (congrArg Prod.snd hpeek).symm
    exact ((hreads.emits.again hreads.emits.queues hh).trans hr.failed).does hC
  · have hq := reached_found hf
    have hl := hI.liveItems hq
    rw [queuePeek_live (allCounted_found (hq ▸ hC)) hl] at hpeek
    obtain ⟨hi, rfl⟩ := Prod.mk.inj hpeek
    have hlock := queueItemLock_unlock (hl i (List.mem_of_find?_eq_some hi))
    have he := hr.quiet (by decide)
    rw [heq]
    refine Emits.does ⟨he.queues.trans hreads.emits.queues, ?_, he.next.trans hreads.emits.next,
      he.wants.trans hreads.emits.wants, he.conn.trans hreads.emits.conn, he.trace.trans ?_⟩ hC
    · rw [he.heap]
      exact hlock
    · simpa using hreads.emits.trace

theorem take_does (hI : Inv s) (hC : AllCounted s.queues) :
    Does s ((takeGives dm r s).map .took).toList (connectionHttpCallbackTake dm r s) := by
  unfold takeGives
  rcases take_cases dm r s with ⟨s', h, p, hreads, hmiss, hr⟩ | ⟨f, s', i, rest, h, s₁, hf, hreads,
    htake, hr, heq⟩
  · rcases hmiss with ⟨hf, rfl⟩ | ⟨f, hf, htake⟩
    · rw [hf]
      exact (hreads.emits.trans hr.failed).does hC
    · have hq := reached_found hf
      have hh : h = s.heap := by
        rw [queueTake_live (allCounted_found (hq ▸ hC)) (hI.liveItems hq)] at htake
        split at htake
        · cases htake
        · exact (Prod.mk.inj (Prod.mk.inj htake).2).2.symm
      rw [hf]
      dsimp only
      rw [htake]
      exact ((hreads.emits.again hreads.emits.queues hh).trans hr.failed).does hC
  · have hq := reached_found hf
    have hc := allCounted_found (hq ▸ hC)
    have he := hreads.emits
    rw [hf]
    dsimp only
    rw [htake]
    rw [queueTake_live hc (hI.liveItems hq)] at htake
    split at htake <;> [skip; cases htake]
    rename_i pre i' post hs
    obtain ⟨rfl, hrest, rfl⟩ : i' = i ∧ f.mq.q.removeItem i' (pre ++ post) =
      f.mq.q.removeItem i rest ∧ setCell s.heap i'.id ⟨false, 0, 0⟩ = h := by simpa using htake
    obtain ⟨hitems, -, -⟩ := splitFirst_eq_some.mp hs
    have hreply : Emits { s' with
          queues := f.set (f.mq.q.removeItem i' (pre ++ post))
          heap := setCell s.heap i'.id ⟨false, 0, 0⟩ }
        (if encodesTake r.ok i' then [.reply s'.next .take 200 (takeBody i')] else []) s₁ := by
      rw [← hrest, read_live (by rw [setCell_self])] at hr
      exact hr.emits
    rw [heq]
    refine ⟨[.calm, .took (encodesTake r.ok i')], .cons he.act_same (.single ?_), rfl, ?_⟩
    · have hact := take_act (he.queues.trans hq) hitems hreply.wants hreply.conn hreply.trace
      rw [he.heap, he.next] at hact
      have hstate : withNext { s₁ with heap := queueItemFree s₁.heap i'.id } (s.next + 1) =
          withQueue f (f.mq.q.removeItem i' (pre ++ post))
            (queueItemFree (setCell s.heap i'.id ⟨false, 0, 0⟩) i'.id) s₁.net (s.next + 1) := by
        simp only [withNext, withQueue, hreply.queues, hreply.heap]
      rw [hstate]
      exact hact
    · show AllCounted s₁.queues
      rw [hreply.queues]
      exact allCounted_set (hq ▸ hC) (hc.removeItem hitems)

theorem put_does (hI : Inv s) (hC : AllCounted s.queues) :
    Does s ((putGives dm r s).map .matched).toList (connectionHttpCallbackPut dm r s) := by
  unfold putGives
  rcases put_cases dm r s with ⟨hf, s', hreads, hr⟩ | ⟨f, item, value, s', hf, hreads, hi, hr⟩
  · rw [hf]
    exact (hreads.emits.trans hr.failed).does hC
  · have hp := hreads.emits
    have hq := reached_found (putReached_reached hf)
    have hq₀ : s'.queues = f.registry := hp.queues.trans hq
    rw [hf]
    dsimp only at hr ⊢
    rw [← hp.next] at hi
    obtain ⟨q', h', n', code, ls, hput, hcode, hq', hacts, hmem, heff⟩ :=
      put_acts (hI.act hp.act_same) (hp.queues ▸ hC) hq₀ r.answer hi
    rw [hp.next, hp.heap] at hput
    rw [hput] at hr
    have hid : item.id = s'.next := by rw [queuePutItem_eq hi]
    have hpay := hr.emits
    have hgives : (Option.map (fun x : _ × _ × _ => answers r.answer s.net x.2.1.arg item)
        (queuePutCallback item.key f.mq.q)).map Label.matched =
          (queuePutCallback item.key f.mq.q).map fun x =>
            Label.matched (answers r.answer s'.net x.2.1.arg item) := by
      rw [Option.map_map]
      congr 1
      funext x
      simp only [Function.comp_apply, answers, wantAnswers, hp.wants, hp.conn]
    refine ⟨.calm :: (ls ++ [.calm]), .cons hp.act_same (hacts.append (.single ?_)), ?_, ?_⟩
    · rw [← hp.next]
      rw [← hid] at hpay
      have hmem' : Event.put item ∈
          trace { s' with queues := f.set q', heap := h', net := n', next := item.id }.net := hmem
      have hact := accept_act hpay hmem' (le_refl (s'.next + 1))
      rwa [hid] at hact
    · rw [effects_calm, effects_append, heff]
      simp only [effects_calm, effects_nil, List.append_nil]
      exact congrArg Option.toList hgives.symm
    · rw [hpay.queues]
      exact allCounted_set (hq ▸ hC) hq'

/-- What a request does to items. -/
def httpGives (dm : DataModel) (r : Request) (s : Server) : List Label :=
  match r.path with
  | .take => ((takeGives dm r s).map .took).toList
  | .put => ((putGives dm r s).map .matched).toList
  | _ => []

theorem http_does (hI : Inv s) (hC : AllCounted s.queues) :
    Does s (httpGives dm r s) (connectionHttpCallback dm r s) := by
  unfold connectionHttpCallback httpGives
  cases r.path with
  | queues =>
    dsimp only [connectionHttpCallbackQueues]
    split
    · exact list_emits.does hC
    · exact new_does hI hC
    · exact (emits_error .method false 405 .methodNotSupported s).does hC
  | queue =>
    dsimp only [connectionHttpCallbackQueue]
    split
    · exact info_emits.does hC
    · exact delete_does hI hC
    · exact (emits_error .method false 405 .methodNotSupported s).does hC
  | take => exact take_does hI hC
  | peek => exact peek_does hI hC
  | put => exact put_does hI hC

end DQ.Proof.Server
