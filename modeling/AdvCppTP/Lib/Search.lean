import Mathlib.Data.List.Infix

/-! Searching a list for the first occurrence of a pattern, and the laws of it that cutting a
text at delimiters of two symbols needs. -/

namespace AdvCppTP.Lib

variable {α : Type*} [DecidableEq α]

def firstOcc (pat : List α) : List α → Option Nat
  | [] => if pat.isPrefixOf [] then some 0 else none
  | a :: l => if pat.isPrefixOf (a :: l) then some 0 else (firstOcc pat l).map (· + 1)

theorem firstOcc_eq_zero {pat l : List α} (h : pat <+: l) : firstOcc pat l = some 0 := by
  cases l <;> rw [firstOcc, if_pos (List.isPrefixOf_iff_prefix.mpr h)]

theorem firstOcc_cons {pat : List α} {a : α} {l : List α} (h : ¬ pat <+: a :: l) :
    firstOcc pat (a :: l) = (firstOcc pat l).map (· + 1) := by
  rw [firstOcc, if_neg (fun hp => h (List.isPrefixOf_iff_prefix.mp hp))]

theorem firstOcc_eq_some {pat l : List α} {i : Nat} :
    firstOcc pat l = some i ↔
      i ≤ l.length ∧ pat <+: l.drop i ∧ ∀ j < i, ¬ pat <+: l.drop j := by
  -- by induction on the list; an occurrence at its head is the first one
  induction l generalizing i with
  | nil =>
    by_cases h : pat <+: []
    · rw [firstOcc_eq_zero h]
      constructor
      · intro hi
        obtain rfl := Option.some.inj hi
        exact ⟨Nat.le_refl 0, h, fun j hj => absurd hj (Nat.not_lt_zero j)⟩
      · rintro ⟨hi, -, -⟩
        rw [Nat.le_zero.mp hi]
    · rw [firstOcc, if_neg (fun hp => h (List.isPrefixOf_iff_prefix.mp hp))]
      refine ⟨fun hi => absurd hi (by simp), fun hi => absurd hi.2.1 ?_⟩
      rwa [List.drop_nil]
  | cons a l ih =>
    by_cases h : pat <+: a :: l
    · rw [firstOcc_eq_zero h]
      constructor
      · intro hi
        obtain rfl := Option.some.inj hi
        exact ⟨Nat.zero_le _, h, fun j hj => absurd hj (Nat.not_lt_zero j)⟩
      · rintro ⟨-, -, hfirst⟩
        rcases Nat.eq_zero_or_pos i with rfl | hpos
        · rfl
        · exact absurd h (hfirst 0 hpos)
    · rw [firstOcc_cons h, Option.map_eq_some_iff]
      constructor
      · rintro ⟨j, hj, rfl⟩
        obtain ⟨hlen, hocc, hfirst⟩ := ih.mp hj
        refine ⟨Nat.succ_le_succ hlen, hocc, fun k hk => ?_⟩
        cases k with
        | zero => exact h
        | succ k => exact hfirst k (Nat.lt_of_succ_lt_succ hk)
      · rintro ⟨hlen, hocc, hfirst⟩
        cases i with
        | zero => exact absurd hocc h
        | succ i =>
          refine ⟨i, ih.mpr ⟨Nat.le_of_succ_le_succ hlen, hocc, fun k hk => ?_⟩, rfl⟩
          exact hfirst (k + 1) (Nat.succ_lt_succ hk)

theorem firstOcc_le {pat l : List α} {j : Nat} (hlen : j ≤ l.length) (h : pat <+: l.drop j) :
    ∃ i ≤ j, firstOcc pat l = some i := by
  induction l generalizing j with
  | nil =>
    rw [List.drop_nil] at h
    exact ⟨0, Nat.zero_le _, firstOcc_eq_zero h⟩
  | cons a l ih =>
    by_cases hp : pat <+: a :: l
    · exact ⟨0, Nat.zero_le _, firstOcc_eq_zero hp⟩
    · cases j with
      | zero => exact absurd h hp
      | succ j =>
        obtain ⟨i, hi, hocc⟩ := ih (Nat.le_of_succ_le_succ hlen) h
        exact ⟨i + 1, Nat.succ_le_succ hi, by rw [firstOcc_cons hp, hocc, Option.map_some]⟩

theorem firstOcc_add_length {pat l : List α} {i : Nat} (h : firstOcc pat l = some i) :
    i + pat.length ≤ l.length := by
  obtain ⟨hlen, hocc, -⟩ := firstOcc_eq_some.mp h
  have := hocc.length_le
  rw [List.length_drop] at this
  omega

theorem firstOcc_append {pat l : List α} {i : Nat} (h : firstOcc pat l = some i) (r : List α) :
    firstOcc pat (l ++ r) = some i := by
  have hroom := firstOcc_add_length h
  obtain ⟨hlen, hocc, hfirst⟩ := firstOcc_eq_some.mp h
  rw [firstOcc_eq_some]
  refine ⟨by rw [List.length_append]; omega, ?_, fun j hj hj' => hfirst j hj ?_⟩
  · rw [List.drop_append_of_le_length hlen]
    exact hocc.trans (List.prefix_append _ _)
  · rw [List.drop_append_of_le_length (by omega)] at hj'
    refine List.prefix_of_prefix_length_le hj' (List.prefix_append _ r) ?_
    rw [List.length_drop]
    omega

theorem firstOcc_of_append_left {pat l r : List α} {i : Nat} (h : firstOcc pat (l ++ r) = some i)
    (hi : i + pat.length ≤ l.length) : firstOcc pat l = some i := by
  obtain ⟨-, hocc, hfirst⟩ := firstOcc_eq_some.mp h
  have hlen : i ≤ l.length := by omega
  rw [List.drop_append_of_le_length hlen] at hocc
  refine firstOcc_eq_some.mpr ⟨hlen, ?_, fun j hj hj' => hfirst j hj ?_⟩
  · refine List.prefix_of_prefix_length_le hocc (List.prefix_append _ r) ?_
    rw [List.length_drop]
    omega
  · rw [List.drop_append_of_le_length (by omega)]
    exact hj'.trans (List.prefix_append _ _)

theorem firstOcc_of_append_right {pat l r : List α} {i : Nat}
    (h : firstOcc pat (l ++ r) = some (l.length + i)) : firstOcc pat r = some i := by
  obtain ⟨hlen, hocc, hfirst⟩ := firstOcc_eq_some.mp h
  rw [List.length_append, Nat.add_le_add_iff_left] at hlen
  rw [← List.drop_drop, List.drop_left] at hocc
  refine firstOcc_eq_some.mpr ⟨hlen, hocc, fun j hj hj' => ?_⟩
  refine hfirst (l.length + j) (Nat.add_lt_add_left hj _) ?_
  rwa [← List.drop_drop, List.drop_left]

theorem eq_append_of_firstOcc {pat l : List α} {i : Nat} (h : firstOcc pat l = some i) :
    ∃ r, l = l.take i ++ pat ++ r := by
  obtain ⟨-, ⟨r, hr⟩, -⟩ := firstOcc_eq_some.mp h
  exact ⟨r, by rw [List.append_assoc, hr, List.take_append_drop]⟩

theorem firstOcc_eq_none {pat l : List α} : firstOcc pat l = none ↔ ¬ pat <:+: l := by
  constructor
  · rintro hnone ⟨s, t, rfl⟩
    rw [List.append_assoc] at hnone
    have hocc : pat <+: (s ++ (pat ++ t)).drop s.length := by
      rw [List.drop_left]
      exact List.prefix_append pat t
    obtain ⟨i, -, hi⟩ := firstOcc_le (by simp) hocc
    rw [hnone] at hi
    cases hi
  · intro h
    rcases hocc : firstOcc pat l with _ | i
    · rfl
    · obtain ⟨-, hat, -⟩ := firstOcc_eq_some.mp hocc
      exact absurd (hat.isInfix.trans (List.drop_suffix i l).isInfix) h

theorem not_infix_take {pat l : List α} {i : Nat} (hpat : pat ≠ []) (h : firstOcc pat l = some i) :
    ¬ pat <:+: l.take i := by
  intro hinfix
  rcases hocc : firstOcc pat (l.take i) with _ | j
  · exact firstOcc_eq_none.mp hocc hinfix
  · have hroom := firstOcc_add_length hocc
    have happend := firstOcc_append hocc (l.drop i)
    rw [List.take_append_drop, h, Option.some.injEq] at happend
    rw [List.length_take] at hroom
    have hpos := List.length_pos_of_ne_nil hpat
    omega

/-- `std::string::find(pat, pos)`; `none` is `npos`. -/
def find (pat hay : List α) (pos : Nat) : Option Nat :=
  (firstOcc pat (hay.drop pos)).map (· + pos)

theorem find_zero (pat hay : List α) : find pat hay 0 = firstOcc pat hay := by
  rw [find, List.drop_zero]
  exact Option.map_id'

theorem find_append (pat l r : List α) :
    find pat (l ++ r) l.length = (firstOcc pat r).map (· + l.length) := by
  rw [find, List.drop_left]

theorem find_add_length {pat hay : List α} {i : Nat} (h : find pat hay 0 = some i) :
    i + pat.length ≤ hay.length := by
  rw [find_zero] at h
  exact firstOcc_add_length h

theorem add_length_of_find {pat hay : List α} {pos i : Nat} (hpat : pat ≠ [])
    (h : find pat hay pos = some i) : i + pat.length ≤ hay.length := by
  obtain ⟨k, hk, rfl⟩ := Option.map_eq_some_iff.mp h
  have hroom := firstOcc_add_length hk
  have hpos := List.length_pos_of_ne_nil hpat
  rw [List.length_drop] at hroom
  omega

theorem firstOcc_singleton {c : α} {l : List α} (h : c ∉ l) (r : List α) :
    firstOcc [c] (l ++ c :: r) = some l.length := by
  induction l with
  | nil => exact firstOcc_eq_zero ⟨r, rfl⟩
  | cons x l ih =>
    have hskip : ¬ [c] <+: x :: (l ++ c :: r) := fun hp =>
      h (List.mem_cons.mpr (.inl (List.cons_prefix_cons.mp hp).1))
    rw [List.cons_append, firstOcc_cons hskip, ih fun hc => h (List.mem_cons_of_mem x hc),
      Option.map_some, List.length_cons]

/-- A list is cut in three by the first `c` of it. -/
theorem cut_of_firstOcc_singleton {c : α} {l : List α} {i : Nat} (h : firstOcc [c] l = some i) :
    c ∉ l.take i ∧ l = l.take i ++ c :: l.drop (i + 1) := by
  have hroom := firstOcc_add_length h
  rw [List.length_singleton] at hroom
  have hfirst := not_infix_take (List.cons_ne_nil c []) h
  obtain ⟨-, hocc, -⟩ := firstOcc_eq_some.mp h
  rw [List.drop_eq_getElem_cons (by omega), List.cons_prefix_cons] at hocc
  refine ⟨fun hmem => hfirst ((List.singleton_infix_iff _ _).mpr hmem), ?_⟩
  nth_rewrite 1 [← List.take_append_drop i l]
  rw [List.drop_eq_getElem_cons (by omega), ← hocc.1]

theorem notMem_of_firstOcc_singleton {c : α} {l : List α} (h : firstOcc [c] l = none) : c ∉ l :=
  fun hmem => firstOcc_eq_none.mp h ((List.singleton_infix_iff _ _).mpr hmem)

theorem notMem_of_mem_splitOn {c : α} {l w : List α} (h : w ∈ l.splitOn c) : c ∉ w := by
  induction l generalizing w with
  | nil =>
    rw [List.splitOn_nil, List.mem_singleton] at h
    exact h ▸ List.not_mem_nil
  | cons x l ih =>
    rw [List.splitOn_cons_eq_if_modifyHead] at h
    split at h
    · rcases List.mem_cons.mp h with rfl | hw
      · exact List.not_mem_nil
      · exact ih hw
    · rename_i hx
      obtain ⟨v, vs, hsplit⟩ := List.exists_cons_of_ne_nil (List.splitOn_ne_nil c l)
      rw [hsplit] at h ih
      rcases List.mem_cons.mp h with rfl | hw
      · have hhead := ih List.mem_cons_self
        intro hmem
        rcases List.mem_cons.mp hmem with rfl | hv
        · exact hx (beq_self_eq_true c)
        · exact hhead hv
      · exact ih (List.mem_cons_of_mem v hw)

/-! ## Delimiters of two symbols -/

section Pair

variable {c d : α}

omit [DecidableEq α] in
theorem not_pair_prefix_append {l r : List α} (hne : c ≠ d) (hl : l ≠ [])
    (h : ¬ [c, d] <:+: l) : ¬ [c, d] <+: l ++ c :: d :: r := by
  intro hp
  rcases l with _ | ⟨x, _ | ⟨y, l⟩⟩
  · exact hl rfl
  · simp only [List.cons_append, List.nil_append, List.cons_prefix_cons] at hp
    exact hne hp.2.1.symm
  · simp only [List.cons_append, List.cons_prefix_cons] at hp
    exact h ⟨[], l, by rw [hp.1, hp.2.1]; rfl⟩

omit [DecidableEq α] in
theorem not_pair_infix_of_cons {x : α} {l : List α} (h : ¬ [c, d] <:+: x :: l) :
    ¬ [c, d] <:+: l :=
  fun hl => h (hl.trans (List.suffix_cons x l).isInfix)

omit [DecidableEq α] in
theorem pair_infix_append_cons {e : α} (hc : e ≠ c) (hd : e ≠ d) {l r : List α}
    (h : [c, d] <:+: l ++ e :: r) : [c, d] <:+: l ∨ [c, d] <:+: r := by
  induction l with
  | nil =>
    rcases List.infix_cons_iff.mp h with hp | hr
    · exact absurd (List.cons_prefix_cons.mp hp).1.symm hc
    · exact .inr hr
  | cons x l ih =>
    rcases List.infix_cons_iff.mp h with hp | hl
    · rcases l with _ | ⟨y, l⟩
      · exact absurd (List.cons_prefix_cons.mp (List.cons_prefix_cons.mp hp).2).1.symm hd
      · obtain ⟨rfl, hy⟩ := List.cons_prefix_cons.mp hp
        obtain ⟨rfl, -⟩ := List.cons_prefix_cons.mp hy
        exact .inl ⟨[], l, rfl⟩
    · exact (ih hl).imp_left fun hl => hl.trans (List.suffix_cons x l).isInfix

theorem firstOcc_pair (hne : c ≠ d) {l : List α} (h : ¬ [c, d] <:+: l) (r : List α) :
    firstOcc [c, d] (l ++ c :: d :: r) = some l.length := by
  induction l with
  | nil => exact firstOcc_eq_zero ⟨r, rfl⟩
  | cons x l ih =>
    have hskip := not_pair_prefix_append (r := r) hne (List.cons_ne_nil x l) h
    rw [List.cons_append] at hskip ⊢
    rw [firstOcc_cons hskip, ih (not_pair_infix_of_cons h), Option.map_some, List.length_cons]

theorem firstOcc_pair_pair (hne : c ≠ d) {l : List α} (h : ¬ [c, d] <:+: l) (r : List α) :
    firstOcc [c, d, c, d] (l ++ c :: d :: r) =
      if [c, d] <+: r then some l.length
      else (firstOcc [c, d, c, d] r).map (· + (l.length + 2)) := by
  have hdouble : ∀ s : List α, [c, d, c, d] <+: s → [c, d] <+: s :=
    fun s hs => (List.prefix_append [c, d] [c, d]).trans hs
  induction l with
  | nil =>
    by_cases hr : [c, d] <+: r
    · rw [if_pos hr]
      exact firstOcc_eq_zero (by simpa using hr)
    · have hc : ¬ [c, d, c, d] <+: c :: d :: r := by simpa using hr
      have hd : ¬ [c, d, c, d] <+: d :: r := fun hp =>
        hne (List.cons_prefix_cons.mp hp).1
      rw [if_neg hr, List.nil_append, firstOcc_cons hc, firstOcc_cons hd, Option.map_map]
      rfl
  | cons x l ih =>
    have hskip : ¬ [c, d, c, d] <+: (x :: l) ++ c :: d :: r :=
      fun hp => not_pair_prefix_append hne (List.cons_ne_nil x l) h (hdouble _ hp)
    rw [List.cons_append] at hskip ⊢
    rw [firstOcc_cons hskip, ih (not_pair_infix_of_cons h)]
    split
    · rfl
    · rw [Option.map_map]
      refine congrArg (fun f => Option.map f _) (funext fun i => ?_)
      simp only [Function.comp_apply, List.length_cons]
      omega

/-- Behind lines that are not empty the doubled delimiter is found at the end of the last one. -/
theorem firstOcc_lines (hne : c ≠ d) {l : List α} {ls : List (List α)} (hl : ¬ [c, d] <:+: l)
    (hls : ∀ x ∈ ls, x ≠ [] ∧ ¬ [c, d] <:+: x) (r : List α) :
    firstOcc [c, d, c, d] (l ++ c :: d :: ((ls.flatMap fun x => x ++ [c, d]) ++ c :: d :: r)) =
      some (l.length + (ls.flatMap fun x => x ++ [c, d]).length) := by
  induction ls generalizing l with
  | nil =>
    rw [firstOcc_pair_pair hne hl, List.flatMap_nil, List.nil_append, if_pos ⟨r, rfl⟩]
    rfl
  | cons x ls ih =>
    obtain ⟨hx, hxpair⟩ := hls x List.mem_cons_self
    have hnext : ((x :: ls).flatMap fun x => x ++ [c, d]) ++ c :: d :: r =
        x ++ c :: d :: ((ls.flatMap fun x => x ++ [c, d]) ++ c :: d :: r) := by
      simp only [List.flatMap_cons, List.append_assoc, List.cons_append, List.nil_append]
    rw [hnext, firstOcc_pair_pair hne hl, if_neg (not_pair_prefix_append hne hx hxpair),
      ih hxpair fun y hy => hls y (List.mem_cons_of_mem x hy), Option.map_some]
    simp only [List.flatMap_cons, List.length_append, List.length_cons, List.length_nil,
      Option.some.injEq]
    omega

end Pair

end AdvCppTP.Lib
