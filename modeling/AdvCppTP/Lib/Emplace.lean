import Mathlib.Data.List.AList

/-! Insertion into a finite map that keeps the value already there, as the node and value
insertions of the ordered and unordered map containers do. -/

namespace AdvCppTP.Lib

variable {α : Type*} {β : α → Type*} [DecidableEq α]

theorem mem_of_lookup {a : α} {b : β a} {m : AList β} (h : m.lookup a = some b) : a ∈ m :=
  AList.lookup_isSome.mp (by rw [h]; rfl)

theorem exists_lookup {a : α} {m : AList β} (h : a ∈ m) : ∃ b, m.lookup a = some b :=
  Option.isSome_iff_exists.mp (AList.lookup_isSome.mpr h)

def emplace (a : α) (b : β a) (m : AList β) : AList β :=
  if a ∈ m then m else m.insert a b

theorem emplace_of_mem {a : α} {b : β a} {m : AList β} (h : a ∈ m) : emplace a b m = m :=
  if_pos h

theorem emplace_of_notMem {a : α} {b : β a} {m : AList β} (h : a ∉ m) :
    emplace a b m = m.insert a b :=
  if_neg h

theorem lookup_emplace_self (a : α) (b : β a) (m : AList β) :
    (emplace a b m).lookup a = some ((m.lookup a).getD b) := by
  by_cases h : a ∈ m
  · obtain ⟨b', hb'⟩ := exists_lookup h
    rw [emplace_of_mem h, hb', Option.getD_some]
  · rw [emplace_of_notMem h, AList.lookup_insert, AList.lookup_eq_none.mpr h, Option.getD_none]

theorem lookup_emplace_ne {a a' : α} (b : β a) (m : AList β) (h : a' ≠ a) :
    (emplace a b m).lookup a' = m.lookup a' := by
  by_cases ha : a ∈ m
  · rw [emplace_of_mem ha]
  · rw [emplace_of_notMem ha, AList.lookup_insert_ne h]

theorem mem_emplace {a a' : α} (b : β a) (m : AList β) :
    a' ∈ emplace a b m ↔ a' = a ∨ a' ∈ m := by
  by_cases ha : a ∈ m
  · rw [emplace_of_mem ha]
    exact ⟨Or.inr, fun h => h.elim (fun e => e ▸ ha) id⟩
  · rw [emplace_of_notMem ha, AList.mem_insert]

end AdvCppTP.Lib
