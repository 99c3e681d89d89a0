import Disqueue.Proof.Registry.Verified
import Disqueue.Proof.Uuid.Accepted
import Disqueue.Proof.Uuid.Roundtrip

/-!
# Making a queue under a name

What `manager_queue_get` makes under a name that no queue has
(`get_unregistered`). Under the text of an id it makes a queue of that id
exactly where the first swap keeps its bytes (`makesId_iff`), and it makes one
under an id's text only, except for other names of 36 characters that `sscanf`
accepts (`onlyUuids_iff`).
-/

namespace DQ.Proof.Registry

open DQ.Model DQ.Spec DQ.Proof.Server DQ.Proof.Uuid

variable {dm : DataModel} {e : QueueSupply} {qs : List ManagerQueue} {n : CStr} {b : Bytes}

theorem get_unregistered (dm : DataModel) (hm : e.ok .managerQueue = true)
    (hq : e.ok .queue = true) (hnew : ∀ m ∈ qs, strcaseEq m.id n = false) (hlen : n.length = 36) :
    managerQueueGet dm e (some n) true qs = (parseUuid dm e.stack n).map fun u =>
      ⟨qs, ⟨queueGetUuid dm u, queueNew e.addr u⟩, []⟩ := by
  rw [managerQueueGet, if_neg (by simp [hlen]), managerQueueFind_none.mpr hnew]
  cases hp : parseUuid dm e.stack n with
  | none => simp
  | some u => simp [managerQueueNew, hm, hq]

theorem get_length (h : n.length ≠ 36) : managerQueueGet dm e (some n) true qs = none := by
  rw [managerQueueGet, if_pos h]

/-- A name that was printed has the length of an id. -/
theorem printed_length (h : fold n = queueGetUuid dm b) : n.length = 36 := by
  have hlen := congrArg List.length h
  rw [fold, List.length_map] at hlen
  rw [hlen, queueGetUuid]
  simp [printHex_length, List.flatMap]

/-- The queue made under an id's text has the id exactly if `unsigned long`
has 4 bytes, or the fifth to the eighth byte are zero. -/
theorem makesId_iff (hm : e.ok .managerQueue = true) (hq : e.ok .queue = true)
    (hnew : ∀ m ∈ qs, strcaseEq m.id n = false) (hn : fold n = queueGetUuid dm b) :
    MakesId dm e qs n b ↔ dm = .llp64 ∨ ∀ i, 4 ≤ i → i < 8 → b i = 0 := by
  obtain ⟨u, hp, hparsed⟩ := parse_printed (r := e.stack) hn
  have hget := get_unregistered dm hm hq hnew (printed_length hn)
  rw [hp] at hget
  rw [← hparsed.bytes_iff]
  constructor
  · rintro ⟨f, hf, -, hbytes, -⟩
    rw [hget] at hf
    obtain rfl := Option.some.inj hf
    exact hbytes
  · exact fun hbytes => ⟨_, hget, rfl, hbytes, queueGetUuid_congr hbytes⟩

/-- Memory for a queue, at the address 0, and a stack of zeros. -/
def someSupply : QueueSupply := ⟨allOk, 0, fun _ => 0, fun _ => 0⟩

/-- The bytes of an id with zeros for the fifth to the eighth. -/
def keptBytes : Bytes := fun i => if i / 4 = 1 then 0 else UInt8.ofNat i

theorem makesId_kept : MakesId .lp64 someSupply [] (queueGetUuid .lp64 keptBytes) keptBytes :=
  (makesId_iff rfl rfl (List.forall_mem_nil _) (fold_queueGetUuid _ _)).mpr (.inr (by decide +kernel))

/-- The fifth byte of an id made of the bytes 0 to 15 is not 4. -/
theorem makesId_not_counted :
    ¬ MakesId .lp64 someSupply [] (queueGetUuid .lp64 UInt8.ofNat) UInt8.ofNat := by
  rintro ⟨f, hf, -, hbytes, -⟩
  have hfifth : (managerQueueGet .lp64 someSupply (some (queueGetUuid .lp64 UInt8.ofNat)) true
      []).map (fun f => f.mq.q.uuid 4) = some 0 := by decide +kernel
  rw [hf, Option.map_some, hbytes 4 (by decide)] at hfifth
  cases hfifth

/-- A name that is accepted is scanned whole. -/
theorem parseUuid_iff : (∃ u, parseUuid dm e.stack n = some u) ↔ Scans idParts n := by
  rw [← sscanf_iff dm n e.stack]
  rcases hs : sscanf (uuidFormat dm) n e.stack with ⟨m, k⟩
  by_cases hk : k = 10
  · subst hk
    exact iff_of_true ⟨_, parseUuid_reordered hs⟩ rfl
  · have hnone : parseUuid dm e.stack n = none := by
      rw [parseUuid, hs]
      exact if_pos hk
    rw [hnone]
    exact iff_of_false nofun hk

/-- Only ids' texts make queues, except for the names of 36 characters that
start with the parts of one. -/
theorem onlyUuids_iff (hm : e.ok .managerQueue = true) (hq : e.ok .queue = true)
    (hnew : ∀ m ∈ qs, strcaseEq m.id n = false) :
    OnlyUuids dm e qs n ↔ IsUuid n ∨ n.length ≠ 36 ∨ ¬ Scans idParts n := by
  have hmade : n.length = 36 → Scans idParts n →
      ∃ f, managerQueueGet dm e (some n) true qs = some f ∧ f.registry = qs ++ [f.mq] := by
    intro hlen hs
    obtain ⟨u, hu⟩ := parseUuid_iff.mpr hs
    rw [get_unregistered dm hm hq hnew hlen, hu]
    exact ⟨_, rfl, rfl⟩
  constructor
  · rintro ⟨-, hrefused⟩
    by_contra hother
    simp only [not_or, not_not] at hother
    obtain ⟨hid, hlen, hs⟩ := hother
    obtain ⟨f, hf, -⟩ := hmade hlen hs
    rw [hrefused hid] at hf
    cases hf
  · intro h
    refine ⟨fun hid => hmade hid.1 (scans_isUuid hid), fun hid => ?_⟩
    rcases h with h | hlen | hs
    · exact absurd h hid
    · exact get_length hlen
    · by_cases hlen : n.length = 36
      · rw [get_unregistered dm hm hq hnew hlen, Option.map_eq_none_iff, Option.eq_none_iff_forall_ne_some]
        exact fun u hu => hs (parseUuid_iff.mp ⟨u, hu⟩)
      · exact get_length hlen

theorem onlyUuids_other : OnlyUuids .lp64 someSupply [] otherName :=
  (onlyUuids_iff rfl rfl (List.forall_mem_nil _)).mpr (.inl (by decide +kernel))

/-- A name whose last digits are short, with a space in place of one. -/
def spacedName : CStr :=
  (idOf ['d', '1', '5', 'e', 'a', '5', 'e', 'd'] ['1', '2', '3', '4'] ['4', '2', '4', '2']).take 34 ++
    [' ', '0']

theorem onlyUuids_not_spaced : ¬ OnlyUuids .lp64 someSupply [] spacedName := by
  intro h
  have hnone := h.refused (by decide +kernel)
  have hmade : (managerQueueGet .lp64 someSupply (some spacedName) true []).isSome = true := by
    decide +kernel
  rw [hnone] at hmade
  cases hmade

end DQ.Proof.Registry
