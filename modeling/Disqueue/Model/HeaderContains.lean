import Disqueue.Framework.Strtok
import Disqueue.Model.Program

/-!
# Searching a header list

`header_contains` again, with its calls of `strtok`: the loop that compares a
token and asks for the next one, until one is found or none is left.
-/

namespace DQ.Model.Strtok

/-- The delimiters `","`. -/
def isComma (c : Char) : Bool := c == ','

/-- `header_contains`. After the first call, `value` is what is left for
`strtok(NULL, ",")`. -/
def headerContains (value look : CStr) : Bool :=
  match _h : strtok isComma value with
  | none => false
  | some (token, rest) =>
    let token := token.dropWhile (· == ' ')
    if strcaseEq token look then true else headerContains rest look
termination_by value.length
decreasing_by exact strtok_length _h

/-- The tokens are the non-empty parts. -/
theorem headerContains_eq (value look : CStr) :
    headerContains value look = Model.headerContains value look := by
  have htokens : ∀ value : CStr, tokens value = parts isComma value := fun value => by
    rw [tokens, parts, List.splitOn_eq_splitOnP]
    exact List.filter_congr fun part _ => by cases part <;> rfl
  rw [Model.headerContains, htokens]
  fun_induction headerContains value look with
  | case1 value h => rw [parts_of_strtok_none h, List.any_nil]
  | case2 value token rest h token' heq =>
    rw [parts_of_strtok_some h, List.any_cons, heq, Bool.true_or]
  | case3 value token rest h token' heq ih =>
    rw [parts_of_strtok_some h, List.any_cons, ih, Bool.eq_false_iff.mpr heq, Bool.false_or]

end DQ.Model.Strtok
