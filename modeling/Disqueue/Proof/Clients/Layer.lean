import Disqueue.Model.Form

/-!
# An HTTP layer

The parameters of a body as libevent reads them (`parseQueryStr`), and the text
of its bytes (`textOf`), are an `HttpLayer` (`httpLayer`).
-/

namespace DQ.Proof.Clients

open DQ.Model

/-! ## The fields of a body -/

/-- The name and the value of a field, if it has both. -/
def splitField (s : CStr) : Option (CStr × CStr) :=
  match s.span (· ≠ '=') with
  | (_, []) => none
  | ([], _) => none
  | (name, _ :: value) => some (name, untilNul (percentDecode value))

/-- The fields of a body, or none if one of them is none. The last may be
empty. -/
def parseQueryStr (body : CStr) : List (CStr × CStr) :=
  let fields := body.splitOn '&'
  ((if fields.getLast? = some [] then fields.dropLast else fields).mapM splitField).getD []

theorem splitField_append {name : CStr} (hne : name ≠ []) (hname : '=' ∉ name) (value : CStr) :
    splitField (name ++ '=' :: value) = some (name, untilNul (percentDecode value)) := by
  have hall : ∀ c ∈ name, (decide (c ≠ '=')) = true := fun c hc =>
    decide_eq_true fun h => hname (h ▸ hc)
  have hspan : (name ++ '=' :: value).span (· ≠ '=') = (name, '=' :: value) := by
    rw [List.span_eq_takeWhile_dropWhile, List.takeWhile_append_of_pos hall,
      List.dropWhile_append_of_pos hall]
    simp
  unfold splitField
  rw [hspan]
  cases name with
  | nil => exact absurd rfl hne
  | cons c name => rfl

theorem mapM_some {α β : Type} {f : α → Option β} {g : α → β} {l : List α}
    (h : ∀ a ∈ l, f a = some (g a)) : l.mapM f = some (l.map g) := by
  induction l with
  | nil => rfl
  | cons a l ih =>
    rw [List.mapM_cons, h a List.mem_cons_self, ih fun b hb => h b (List.mem_cons_of_mem _ hb)]
    rfl

theorem parseQueryStr_fields (fields : List (CStr × CStr))
    (h : ∀ p ∈ fields, p.1 ≠ [] ∧ (∀ c ∈ p.1, c.isAlpha = true) ∧ ∀ c ∈ p.2, c ≠ '&' ∧ c ≠ '=') :
    parseQueryStr (formFields fields) =
      fields.map fun p => (p.1, untilNul (percentDecode p.2)) := by
  cases hf : fields with
  | nil => rfl
  | cons p rest =>
    rw [← hf]
    have hamp : ∀ s ∈ fields.map fun p => p.1 ++ '=' :: p.2, '&' ∉ s := by
      intro s hs hc
      obtain ⟨q, hq, rfl⟩ := List.mem_map.mp hs
      obtain ⟨-, halpha, hval⟩ := h q hq
      rcases List.mem_append.mp hc with hc | hc
      · exact absurd (halpha _ hc) (by decide)
      rcases List.mem_cons.mp hc with hc | hc
      · exact absurd hc (by decide)
      · exact (hval _ hc).1 rfl
    have hlast : (fields.map fun p => p.1 ++ '=' :: p.2).getLast? ≠ some [] := by
      intro hl
      obtain ⟨q, -, hq⟩ := List.mem_map.mp (List.mem_of_getLast? hl)
      simp at hq
    have hsplit : ∀ q ∈ fields, (splitField ∘ fun p => p.1 ++ '=' :: p.2) q =
        some (q.1, untilNul (percentDecode q.2)) := fun q hq =>
      splitField_append (h q hq).1 (fun hc => absurd ((h q hq).2.1 _ hc) (by decide)) q.2
    unfold parseQueryStr formFields
    rw [List.splitOn_intercalate '&' hamp (by simp [hf])]
    dsimp only
    rw [if_neg hlast, List.mapM_map, mapM_some hsplit]
    rfl

/-! ## The text of bytes -/

/-- The bytes of a text's characters. -/
def bytesOf (s : CStr) : List UInt8 := s.map fun c => UInt8.ofNat c.toNat

theorem bytesOf_chars (bytes : List UInt8) : bytesOf (chars bytes) = bytes := by
  unfold bytesOf chars
  rw [List.map_map]
  refine (List.map_congr_left fun b _ => ?_).trans (List.map_id bytes)
  rw [Function.comp_apply, char_byte, UInt8.ofNat_toNat]
  rfl

/-- The text that bytes encode, or the bytes. -/
def textOf (s : CStr) : CStr :=
  match String.fromUTF8? (bytesOf s).toByteArray with
  | some text => text.toList
  | none => s

theorem textOf_utf8 (s : String) : textOf (chars (utf8 s)) = s.toList := by
  have hbytes : (utf8 s).toByteArray = s.toByteArray := String.utf8Encode_toList
  have htext : String.fromUTF8? s.toByteArray = some s := dif_pos s.isValidUTF8
  unfold textOf
  rw [bytesOf_chars, hbytes, htext]

/-- Fields and texts as libevent, `requests` and the libraries read them. -/
def httpLayer : HttpLayer where
  parseQueryStr := parseQueryStr
  parses := parseQueryStr_fields
  requestsBody := Python.urlencode
  urlencodes _ := rfl
  decode := textOf
  decodes := textOf_utf8

end DQ.Proof.Clients
