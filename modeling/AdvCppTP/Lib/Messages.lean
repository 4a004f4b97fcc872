import Mathlib.Data.List.Basic

/-! Messages one behind the other in a stream, of which the last one may be cut. -/

namespace AdvCppTP.Lib

variable {α : Type*}

def CutAtEnd (written : List α) (messages : List (List α)) : Prop :=
  messages.dropLast.flatten <+: written ∧ written <+: messages.flatten

theorem cutAtEnd_flatten (messages : List (List α)) : CutAtEnd messages.flatten messages := by
  refine ⟨?_, List.prefix_rfl⟩
  obtain ⟨rest, hrest⟩ := List.dropLast_prefix messages
  refine ⟨rest.flatten, ?_⟩
  rw [← List.flatten_append, hrest]

theorem cutAtEnd_concat (messages : List (List α)) {part message : List α}
    (h : part <+: message) : CutAtEnd (messages.flatten ++ part) (messages ++ [message]) := by
  unfold CutAtEnd
  rw [List.dropLast_concat, List.flatten_append, List.flatten_singleton]
  exact ⟨List.prefix_append _ _, (List.prefix_append_right_inj _).mpr h⟩

end AdvCppTP.Lib
