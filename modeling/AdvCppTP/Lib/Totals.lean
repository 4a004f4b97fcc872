import AdvCppTP.Lib.Emplace
import Mathlib.Algebra.BigOperators.Group.List.Basic

/-! What the entries of a finite map hold together, as entries come, go and are replaced. -/

namespace AdvCppTP.Lib

variable {α : Type*} {β : α → Type*} {M : Type*} [AddCommMonoid M]

def total (f : ∀ a, β a → M) (m : AList β) : M := (m.entries.map fun e => f e.1 e.2).sum

variable {f : ∀ a, β a → M}

@[simp] theorem total_empty : total f ∅ = 0 := rfl

variable [DecidableEq α]

end AdvCppTP.Lib
