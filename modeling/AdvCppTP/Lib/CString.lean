import Mathlib.Data.List.TakeWhile
import Mathlib.Data.UInt

/-! C strings: what a function that is given only a pointer sees of the bytes behind it. -/

namespace AdvCppTP.Lib

theorem decide_ne_of_notMem {α : Type*} [DecidableEq α] {a : α} {l : List α} (h : a ∉ l) :
    ∀ x ∈ l, decide (x ≠ a) = true :=
  fun _ hx => decide_eq_true fun heq => h (heq ▸ hx)

/-- What a `char *` points to, up to the byte that ends it. -/
def cString (s : List UInt8) : List UInt8 := s.takeWhile fun c => c ≠ 0

theorem zero_notMem_cString (s : List UInt8) : (0 : UInt8) ∉ cString s :=
  fun h => by simpa using List.mem_takeWhile_imp h

theorem cString_eq_self_iff {s : List UInt8} : cString s = s ↔ (0 : UInt8) ∉ s := by
  constructor
  · intro h
    rw [← h]
    exact zero_notMem_cString s
  · exact fun h => List.takeWhile_eq_self_iff.mpr (decide_ne_of_notMem h)

theorem cString_eq_self {s : List UInt8} (h : (0 : UInt8) ∉ s) : cString s = s :=
  cString_eq_self_iff.mpr h

theorem cString_prefix_self (s : List UInt8) : cString s <+: s := List.takeWhile_prefix _

theorem length_cString_le (s : List UInt8) : (cString s).length ≤ s.length :=
  (cString_prefix_self s).length_le

theorem cString_append_nul {s : List UInt8} (h : (0 : UInt8) ∉ s) (rest : List UInt8) :
    cString (s ++ 0 :: rest) = s := by
  rw [cString, List.takeWhile_append_of_pos (decide_ne_of_notMem h),
    List.takeWhile_cons_of_neg (by simp), List.append_nil]

theorem length_cStrings_le (ds : List (List UInt8)) :
    (ds.flatMap cString).length ≤ ds.flatten.length := by
  induction ds with
  | nil => exact Nat.le_refl 0
  | cons d ds ih =>
    rw [List.flatMap_cons, List.flatten_cons, List.length_append, List.length_append]
    exact Nat.add_le_add (length_cString_le d) ih

theorem cStrings_eq_flatten {ds : List (List UInt8)} (h : (0 : UInt8) ∉ ds.flatten) :
    ds.flatMap cString = ds.flatten := by
  have hmap : ds.map cString = ds.map id := List.map_congr_left fun d hd =>
    cString_eq_self fun hzero => h (List.mem_flatten.mpr ⟨d, hd, hzero⟩)
  rw [List.flatMap_def, hmap, List.map_id]

/-- The C strings of chunks agree with the chunks as far as there is no NUL. -/
theorem take_cStrings_iff (ds : List (List UInt8)) {m : Nat} (hm : m ≤ ds.flatten.length) :
    (ds.flatMap cString).take m = ds.flatten.take m ↔ (0 : UInt8) ∉ ds.flatten.take m := by
  constructor
  · intro heq hzero
    rw [← heq] at hzero
    obtain ⟨d, -, hd⟩ := List.mem_flatMap.mp (List.mem_of_mem_take hzero)
    exact zero_notMem_cString d hd
  · intro hzero
    induction ds generalizing m with
    | nil => rfl
    | cons d ds ih =>
      rw [List.flatten_cons, List.length_append] at hm
      rw [List.flatten_cons] at hzero
      rw [List.flatMap_cons, List.flatten_cons]
      by_cases hd : (0 : UInt8) ∈ d
      · obtain ⟨pre, post, rfl, hpre⟩ := List.eq_append_cons_of_mem hd
        have hlen : m ≤ pre.length := by
          by_contra hlong
          refine hzero ?_
          rw [List.append_assoc, List.take_append]
          refine List.mem_append_right _ ?_
          obtain ⟨k, hk⟩ := Nat.exists_eq_succ_of_ne_zero (Nat.sub_ne_zero_of_lt (not_le.mp hlong))
          rw [hk, List.cons_append, List.take_succ_cons]
          exact List.mem_cons_self
        rw [cString_append_nul hpre, List.take_append_of_le_length hlen, List.append_assoc,
          List.take_append_of_le_length hlen]
      · rw [cString_eq_self hd, List.take_append, List.take_append, ih (by omega)]
        rw [List.take_append] at hzero
        exact fun h => hzero (List.mem_append_right _ h)

end AdvCppTP.Lib
