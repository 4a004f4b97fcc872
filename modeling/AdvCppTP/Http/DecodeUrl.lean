import AdvCppTP.Http.QueryParams

/-! `utils::decode_url` on every text. It gives a text up when an escape is cut off at its end, and
hands any two bytes behind a `%` to `strtoul`. -/

namespace AdvCppTP.Http

/-- A text with its escapes replaced by the bytes that they denote, unless one is malformed. -/
def unescape : Bytes → Option Bytes
  | [] => some []
  | c :: a :: b :: rest =>
    if c = 37 then
      match hexDigit a, hexDigit b with
      | some x, some y => (unescape rest).map (UInt8.ofNat (16 * x + y) :: ·)
      | _, _ => none
    else (unescape (a :: b :: rest)).map (c :: ·)
  | c :: rest => if c = 37 then none else (unescape rest).map (c :: ·)

/-- The scan, which takes a `%` with the two bytes behind it, meets one with fewer behind it. -/
def cutOff : Bytes → Bool
  | [] => false
  | c :: a :: b :: rest => if c = 37 then cutOff rest else cutOff (a :: b :: rest)
  | c :: rest => if c = 37 then true else cutOff rest

theorem scan_induction {motive : Bytes → Prop} (nil : motive [])
    (escape : ∀ a b rest, motive rest → motive (37 :: a :: b :: rest))
    (short : ∀ rest, rest.length < 2 → motive (37 :: rest))
    (plain : ∀ c rest, c ≠ 37 → motive rest → motive (c :: rest)) (s : Bytes) : motive s := by
  induction s using cutOff.induct with
  | case1 => exact nil
  | case2 a b rest ih => exact escape a b rest ih
  | case3 c a b rest hc ih => exact plain c (a :: b :: rest) hc ih
  | case4 rest hshort => exact short rest (by
      rcases rest with _ | ⟨a, _ | ⟨b, rest⟩⟩
      · decide
      · simp
      · exact absurd rfl (hshort a b rest))
  | case5 c rest _ hc ih => exact plain c rest hc ih

theorem unescape_plain {c : UInt8} (h : c ≠ 37) (rest : Bytes) :
    unescape (c :: rest) = (unescape rest).map (c :: ·) := by
  rcases rest with _ | ⟨a, _ | ⟨b, rest⟩⟩
  · rw [unescape.eq_3 c [] (by simp), if_neg h]
  · rw [unescape.eq_3 c [a] (by simp), if_neg h]
  · rw [unescape, if_neg h]

theorem cutOff_plain {c : UInt8} (h : c ≠ 37) (rest : Bytes) :
    cutOff (c :: rest) = cutOff rest := by
  rcases rest with _ | ⟨a, _ | ⟨b, rest⟩⟩
  · rw [cutOff.eq_3 c [] (by simp), if_neg h]
  · rw [cutOff.eq_3 c [a] (by simp), if_neg h]
  · rw [cutOff, if_neg h]

theorem scan_short {rest : Bytes} (h : rest.length < 2) (result : Bytes) :
    unescape (37 :: rest) = none ∧ cutOff (37 :: rest) = true ∧
      decodeUrlLoop result (37 :: rest) = [] := by
  rcases rest with _ | ⟨a, _ | ⟨b, rest⟩⟩
  · exact ⟨rfl, rfl, rfl⟩
  · exact ⟨rfl, rfl, rfl⟩
  · exact absurd h (Nat.not_lt.mpr (Nat.le_add_left 2 rest.length))

theorem decodeUrlLoop_cutOff {s : Bytes} (h : cutOff s = true) (result : Bytes) :
    decodeUrlLoop result s = [] := by
  induction s using scan_induction generalizing result with
  | nil => cases h
  | escape a b rest ih =>
    rw [cutOff, if_pos rfl] at h
    rw [decodeUrlLoop, if_pos rfl, ih h]
  | short rest hrest => exact (scan_short hrest result).2.2
  | plain c rest hc ih =>
    rw [cutOff_plain hc] at h
    rw [decodeUrlLoop_plain hc, ih h]

/-- A text that is not given up leaves something for each of its bytes or escapes. -/
theorem length_decodeUrlLoop {s : Bytes} (h : cutOff s = false) (result : Bytes) :
    result.length ≤ (decodeUrlLoop result s).length ∧
      (s ≠ [] → result.length < (decodeUrlLoop result s).length) := by
  induction s using scan_induction generalizing result with
  | nil => exact ⟨Nat.le_refl _, fun hne => absurd rfl hne⟩
  | escape a b rest ih =>
    rw [cutOff, if_pos rfl] at h
    have hrest := (ih h (result ++ [hexByte a b])).1
    rw [List.length_append, List.length_singleton] at hrest
    rw [decodeUrlLoop, if_pos rfl]
    exact ⟨Nat.le_of_succ_le hrest, fun _ => hrest⟩
  | short rest hrest =>
    rw [(scan_short hrest result).2.1] at h
    cases h
  | plain c rest hc ih =>
    rw [cutOff_plain hc] at h
    have hrest := (ih h (result ++ [c])).1
    rw [List.length_append, List.length_singleton] at hrest
    rw [decodeUrlLoop_plain hc]
    exact ⟨Nat.le_of_succ_le hrest, fun _ => hrest⟩

theorem decodeUrlLoop_unescape {s raw : Bytes} (h : unescape s = some raw) (result : Bytes) :
    decodeUrlLoop result s = result ++ raw := by
  induction s using scan_induction generalizing raw result with
  | nil =>
    cases h
    rw [decodeUrlLoop, List.append_nil]
  | escape a b rest ih =>
    rw [unescape, if_pos rfl] at h
    split at h
    case h_1 x y ha hb =>
      obtain ⟨raw, hraw, rfl⟩ := Option.map_eq_some_iff.mp h
      rw [decodeUrlLoop, if_pos rfl, ih hraw, hexByte_of_digits ha hb, List.append_assoc,
        List.singleton_append]
    case h_2 => cases h
  | short rest hrest =>
    rw [(scan_short hrest result).1] at h
    cases h
  | plain c rest hc ih =>
    rw [unescape_plain hc] at h
    obtain ⟨raw, hraw, rfl⟩ := Option.map_eq_some_iff.mp h
    rw [decodeUrlLoop_plain hc, ih hraw, List.append_assoc, List.singleton_append]

/-- `decode_url` replaces the escapes, or returns nothing for a malformed one, exactly where no
escape is malformed or the scan ends in one that is cut off. -/
theorem decodeUrl_all_or_nothing_iff (s : Bytes) :
    decodeUrl s = (unescape s).getD [] ↔ unescape s ≠ none ∨ cutOff s = true := by
  rcases hraw : unescape s with _ | raw
  · have hne : s ≠ [] := fun hnil => by
      rw [hnil] at hraw
      cases hraw
    refine ⟨fun hnothing => .inr ?_, fun h => ?_⟩
    · refine Bool.not_eq_false _ ▸ fun hcut => ?_
      have hemitted := (length_decodeUrlLoop hcut []).2 hne
      rw [← decodeUrl, hnothing] at hemitted
      exact Nat.lt_irrefl _ hemitted
    · exact decodeUrlLoop_cutOff (h.resolve_left fun hsome => hsome rfl) []
  · exact ⟨fun _ => .inl (Option.some_ne_none raw), fun _ => decodeUrlLoop_unescape hraw []⟩

/-- `%zz` -/
theorem malformed_escape_emits :
    ¬ ∀ s : Bytes, decodeUrl s = (unescape s).getD [] :=
  fun h => absurd (h (ascii "%zz")) (by decide)

end AdvCppTP.Http
