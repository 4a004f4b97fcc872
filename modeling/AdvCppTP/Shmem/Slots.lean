import AdvCppTP.Shmem.SharedMap
import AdvCppTP.Lib.Runs
import Mathlib.Data.List.ReduceOption

/-! The memory of a `shmem::Map` of plain data as a stack of slots, one for each node. -/

namespace AdvCppTP.Shmem

open Lib

variable {κ ν : Type*}

/-- The topmost slot first; an erased node that was not topmost leaves a hole for good. -/
abbrev Slots (κ : Type*) := List (Option κ)

namespace Slots

def keys (slots : Slots κ) : List κ := slots.reduceOption

def holes (slots : Slots κ) : Nat := slots.countP Option.isNone

theorem mem_keys {slots : Slots κ} {key : κ} : key ∈ slots.keys ↔ some key ∈ slots :=
  List.reduceOption_mem_iff

theorem nodup_keys {slots : Slots κ}
    (h : ∀ above key below, slots = above ++ some key :: below → some key ∉ below) :
    slots.keys.Nodup := by
  induction slots with
  | nil => exact List.nodup_nil
  | cons slot rest ih =>
    have hrest : (Slots.keys rest).Nodup := by
      refine ih fun above key below hsplit => h (slot :: above) key below ?_
      rw [hsplit, List.cons_append]
    cases slot with
    | none => exact hrest
    | some key =>
      have hkey : key ∉ Slots.keys rest := fun hmem => h [] key rest rfl (mem_keys.mp hmem)
      exact List.nodup_cons.mpr ⟨hkey, hrest⟩

theorem length_eq (slots : Slots κ) : slots.length = slots.keys.length + slots.holes := by
  rw [holes, List.countP_eq_length_filter]
  exact List.length_eq_reduceOption_length_add_filter_none

theorem head?_eq_iff {slots : Slots κ} (h : slots.holes = 0) (key : κ) :
    slots.head? = some (some key) ↔ slots.keys.head? = some key := by
  cases slots with
  | nil => exact ⟨fun h => (by cases h), fun h => (by cases h)⟩
  | cons slot rest =>
    cases slot with
    | none => simp [holes] at h
    | some key' => simp [keys]

variable [DecidableEq κ]

def push (capacity : Nat) (key : κ) (slots : Slots κ) : Slots κ × Option Thrown :=
  if some key ∈ slots then (slots, none)
  else if capacity ≤ slots.length then (slots, some .badAlloc)
  else (some key :: slots, none)

def drop (key : κ) (slots : Slots κ) : Slots κ :=
  if slots.head? = some (some key) then slots.tail
  else slots.map fun slot => if slot = some key then none else slot

def call (capacity : Nat) (slots : Slots κ) : Call κ ν → Slots κ × Option Thrown
  | .at key => (slots, if some key ∈ slots then none else some .outOfRange)
  | .atConverted key => (slots, if some key ∈ slots then none else some .outOfRange)
  | .erase key => (slots.drop key, none)
  | .eraseConverted key => (slots.drop key, none)
  | .insert key _ => slots.push capacity key
  | .insertConverted key _ => slots.push capacity key

/-- Of the keys in the map only the one inserted last is erased. -/
def ErasesLast (slots : Slots κ) : Call κ ν → Prop
  | .erase key => key ∈ slots.keys → slots.keys.head? = some key
  | .eraseConverted key => key ∈ slots.keys → slots.keys.head? = some key
  | _ => True

instance (slots : Slots κ) : (c : Call κ ν) → Decidable (slots.ErasesLast c)
  | .erase key => inferInstanceAs (Decidable (key ∈ slots.keys → slots.keys.head? = some key))
  | .eraseConverted key =>
    inferInstanceAs (Decidable (key ∈ slots.keys → slots.keys.head? = some key))
  | .at _ => .isTrue trivial
  | .atConverted _ => .isTrue trivial
  | .insert _ _ => .isTrue trivial
  | .insertConverted _ _ => .isTrue trivial

theorem full_of_badAlloc {slots : Slots κ} {capacity : Nat} {c : Call κ ν}
    (h : (slots.call capacity c).2 = some .badAlloc) : capacity ≤ slots.length := by
  have hpush : ∀ key, (slots.push capacity key).2 = some .badAlloc → capacity ≤ slots.length := by
    intro key hkey
    rw [push] at hkey
    split at hkey
    · cases hkey
    · split at hkey
      case isTrue hfull => exact hfull
      · cases hkey
  have hat : ∀ key, (if some key ∈ slots then none else some Thrown.outOfRange) ≠
      some Thrown.badAlloc := by
    intro key hkey
    split at hkey
    · cases hkey
    · cases hkey
  cases c with
  | «at» key => exact absurd h (hat key)
  | atConverted key => exact absurd h (hat key)
  | erase key => cases h
  | eraseConverted key => cases h
  | insert key value => exact hpush key h
  | insertConverted key value => exact hpush key h

theorem drop_of_notMem {slots : Slots κ} {key : κ} (h : some key ∉ slots) :
    slots.drop key = slots := by
  have htop : slots.head? ≠ some (some key) := fun htop => h (List.mem_of_mem_head? htop)
  rw [drop, if_neg htop]
  refine (List.map_congr_left fun slot hmem => ?_).trans (List.map_id _)
  exact if_neg fun heq : slot = some key => h (heq ▸ hmem)

theorem holes_le_holes_drop (key : κ) (slots : Slots κ) : slots.holes ≤ (slots.drop key).holes := by
  rw [drop]
  split
  case isTrue htop =>
    obtain ⟨rest, rfl⟩ := List.head?_eq_some_iff.mp htop
    exact (List.countP_cons_of_neg (by simp)).le
  · rw [holes, holes, List.countP_map]
    refine List.countP_mono_left fun slot _ hslot => ?_
    rw [Option.isNone_iff_eq_none.mp hslot]
    rfl

theorem holes_le_holes_call (capacity : Nat) (slots : Slots κ) (c : Call κ ν) :
    slots.holes ≤ (slots.call capacity c).1.holes := by
  have hpush : ∀ key, slots.holes ≤ (slots.push capacity key).1.holes := by
    intro key
    rw [push]
    split
    · exact Nat.le_refl _
    · split
      · exact Nat.le_refl _
      · exact (List.countP_cons_of_neg (by simp)).ge
  cases c with
  | «at» key => exact Nat.le_refl _
  | atConverted key => exact Nat.le_refl _
  | erase key => exact holes_le_holes_drop key slots
  | eraseConverted key => exact holes_le_holes_drop key slots
  | insert key value => exact hpush key
  | insertConverted key value => exact hpush key

theorem holes_drop_eq_zero_iff {slots : Slots κ} (h : slots.holes = 0) (key : κ) :
    (slots.drop key).holes = 0 ↔ (key ∈ slots.keys → slots.keys.head? = some key) := by
  rw [← head?_eq_iff h, mem_keys, drop]
  split
  case isTrue htop =>
    obtain ⟨rest, rfl⟩ := List.head?_eq_some_iff.mp htop
    refine iff_of_true ?_ fun _ => rfl
    rwa [holes, List.countP_cons_of_neg (by simp)] at h
  case isFalse htop =>
    have hno : none ∉ slots := fun hmem => List.countP_eq_zero.mp h none hmem rfl
    rw [holes, List.countP_map, List.countP_eq_zero]
    refine ⟨fun hall hmem => absurd (hall _ hmem) (by simp), fun hlast slot hmem => ?_⟩
    have hslot : slot ≠ some key := fun heq => htop (hlast (heq ▸ hmem))
    have hsome : slot ≠ none := fun heq => hno (heq ▸ hmem)
    simp [hslot, hsome]

theorem holes_call_eq_zero_iff {slots : Slots κ} (h : slots.holes = 0) (capacity : Nat)
    (c : Call κ ν) : (slots.call capacity c).1.holes = 0 ↔ slots.ErasesLast c := by
  have hpush : ∀ key, (slots.push capacity key).1.holes = 0 := by
    intro key
    rw [push]
    split
    · exact h
    · split
      · exact h
      · exact (List.countP_cons_of_neg (by simp)).trans h
  cases c with
  | «at» key => exact iff_of_true h trivial
  | atConverted key => exact iff_of_true h trivial
  | erase key => exact holes_drop_eq_zero_iff h key
  | eraseConverted key => exact holes_drop_eq_zero_iff h key
  | insert key value => exact iff_of_true (hpush key) trivial
  | insertConverted key value => exact iff_of_true (hpush key) trivial

/-- A hole is never filled again. -/
theorem holes_runs_eq_zero_iff {slots : Slots κ} (h : slots.holes = 0) (capacity : Nat)
    (calls : List (Call κ ν)) :
    (runs (call capacity) slots calls).1.holes = 0 ↔
      Along (call capacity) ErasesLast slots calls := by
  induction calls generalizing slots with
  | nil => exact iff_of_true h trivial
  | cons c calls ih =>
    rw [Along, runs]
    by_cases hlast : slots.ErasesLast c
    · have hnext := (holes_call_eq_zero_iff h capacity c).mpr hlast
      exact (ih hnext).trans (and_iff_right hlast).symm
    · refine iff_of_false (fun hend => hlast ?_) fun hand => hlast hand.1
      have hmono : (slots.call capacity c).1.holes ≤
          (runs (call capacity) (slots.call capacity c).1 calls).1.holes :=
        runs_invariant (I := fun later : Slots κ => (slots.call capacity c).1.holes ≤ later.holes)
          (fun later c' hle => hle.trans (holes_le_holes_call capacity later c'))
          (Nat.le_refl _) calls
      exact (holes_call_eq_zero_iff h capacity c).mp (Nat.le_zero.mp (hend ▸ hmono))

end Slots

end AdvCppTP.Shmem
