import AdvCppTP.Http.Messages

/-! The lines that `HeadersMap::HeadersMap` cuts a view into, the entry of each, and the lines on
which it throws. -/

namespace AdvCppTP.Http

/-! ## The first value of each key -/

def storePairs (pairs : List (Bytes × Bytes)) (params : StringMap) : StringMap :=
  pairs.foldl (fun params p => Lib.emplace p.1 p.2 params) params

theorem lookup_storePairs (pairs : List (Bytes × Bytes)) (params : StringMap) (k : Bytes) :
    (storePairs pairs params).lookup k = (params.lookup k <|> pairs.lookup k) := by
  induction pairs generalizing params with
  | nil => simp [storePairs]
  | cons p pairs ih =>
    rw [storePairs, List.foldl_cons, ← storePairs, ih, List.lookup_cons]
    rcases eq_or_ne k p.1 with rfl | hne
    · rw [Lib.lookup_emplace_self, beq_self_eq_true]
      rcases params.lookup p.1 with _ | v <;> rfl
    · rw [Lib.lookup_emplace_ne _ _ hne, beq_eq_false_iff_ne.mpr hne]

/-! ## Lines -/

/-- The lines that the loop of `HeadersMap::HeadersMap` cuts off, if it does not throw. -/
def HeadersMap.cutLines : Nat → Bytes → List Bytes
  | _, [] => []
  | 0, _ :: _ => []
  | fuel + 1, c :: view =>
    let linesize := Lib.find endline (c :: view) 0
    upTo (c :: view) linesize :: HeadersMap.cutLines fuel ((c :: view).drop (plus linesize 2))

def HeadersMap.lines (headersView : Bytes) : List Bytes :=
  HeadersMap.cutLines headersView.length headersView

/-- The part of a line behind its separator, or all of it where it has none. -/
def afterSeparator (line : Bytes) : Bytes := line.drop (plus (Lib.find separator line 0) 1)

def BlankBehind (line : Bytes) : Prop := ∀ c ∈ afterSeparator line, c ∈ whitespaces

instance : DecidablePred BlankBehind := fun line =>
  inferInstanceAs (Decidable (∀ c ∈ afterSeparator line, c ∈ whitespaces))

def storedEntry (line : Bytes) : Bytes × Bytes :=
  (toLowercase (rtrim (upTo line (Lib.find separator line 0))),
    (afterSeparator line).dropWhile fun c => c ∈ whitespaces)

theorem length_afterSeparator (line : Bytes) :
    (afterSeparator line).length = line.length - plus (Lib.find separator line 0) 1 :=
  List.length_drop

theorem valueAt_eq (line : Bytes) :
    substrFrom line (findFirstNotOf whitespaces line (plus (Lib.find separator line 0) 1)) =
      if BlankBehind line then .error .outOfRange else .ok (storedEntry line).2 := by
  have hle := plus_find_le separator line rfl
  rw [findFirstNotOf, ← afterSeparator]
  by_cases hblank : BlankBehind line
  · have hnone : (afterSeparator line).findIdx? (fun c => c ∉ whitespaces) = none :=
      List.findIdx?_eq_none_iff.mpr fun c hc => by simpa using hblank c hc
    rw [if_pos hblank, hnone]
    rfl
  · obtain ⟨c, hc, hnot⟩ : ∃ c ∈ afterSeparator line, c ∉ whitespaces := by
      simpa only [BlankBehind, not_forall, exists_prop] using hblank
    have hfound := List.findIdx?_eq_some_of_exists (p := fun c => decide (c ∉ whitespaces))
      ⟨c, hc, by simpa using hnot⟩
    have hidx : (afterSeparator line).findIdx (fun c => c ∉ whitespaces) ≤
        (afterSeparator line).length := List.findIdx_le_length
    have hlen := length_afterSeparator line
    rw [if_neg hblank, hfound, Option.map_some, substrFrom_of_le (by omega), storedEntry,
      List.dropWhile_eq_drop_findIdx_not, Nat.add_comm, ← List.drop_drop, ← afterSeparator]
    simp only [decide_not]

/-- One turn of the loop, on a view that is not empty. -/
theorem HeadersMap.line_eq {view : Bytes} (h : view ≠ []) :
    HeadersMap.line view =
      if BlankBehind (upTo view (Lib.find endline view 0)) then .error .outOfRange
      else .ok (storedEntry (upTo view (Lib.find endline view 0)),
        view.drop (plus (Lib.find endline view 0) 2)) := by
  have hroom : plus (Lib.find endline view 0) 2 ≤ view.length := by
    rcases hfind : Lib.find endline view 0 with _ | i
    · exact List.length_pos_of_ne_nil h
    · exact Lib.find_add_length hfind
  simp only [HeadersMap.line, valueAt_eq, removePrefix_of_le hroom]
  split <;> rfl

theorem plus_pos (pos : Option Nat) {k : Nat} (hk : 2 ≤ k) : 0 < plus pos k := by
  cases pos with
  | none => exact Nat.sub_pos_of_lt hk
  | some i => exact Nat.add_pos_right i (by omega)

theorem HeadersMap.loop_eq {fuel : Nat} {view : Bytes} (h : view.length ≤ fuel)
    (data : StringMap) :
    HeadersMap.loop fuel view data =
      if ∃ line ∈ HeadersMap.cutLines fuel view, BlankBehind line then .error .outOfRange
      else .ok (storePairs ((HeadersMap.cutLines fuel view).map storedEntry) data) := by
  -- by induction on the turns; each takes at least one byte off the view
  induction fuel generalizing view data with
  | zero =>
    obtain rfl := List.length_eq_zero_iff.mp (Nat.le_zero.mp h)
    rfl
  | succ fuel ih =>
    cases view with
    | nil => rfl
    | cons c view =>
      have hpos := plus_pos (Lib.find endline (c :: view) 0) (Nat.le_refl 2)
      have hrest : ((c :: view).drop (plus (Lib.find endline (c :: view) 0) 2)).length ≤ fuel := by
        rw [List.length_drop]
        omega
      rw [HeadersMap.loop, HeadersMap.cutLines, HeadersMap.line_eq (List.cons_ne_nil c view)]
      simp only [List.exists_mem_cons_iff]
      by_cases hblank : BlankBehind (upTo (c :: view) (Lib.find endline (c :: view) 0))
      · rw [if_pos hblank, if_pos (.inl hblank)]
        rfl
      · rw [if_neg hblank]
        simp only [hblank, false_or]
        exact ih hrest _

theorem HeadersMap.parse_eq (view : Bytes) :
    HeadersMap.parse view =
      if ∃ line ∈ HeadersMap.lines view, BlankBehind line then .error .outOfRange
      else .ok (storePairs ((HeadersMap.lines view).map storedEntry) ∅) :=
  HeadersMap.loop_eq (Nat.le_refl _) ∅

theorem not_infix_upTo {pat : Bytes} (hpat : pat ≠ []) (view : Bytes) :
    ¬ pat <:+: upTo view (Lib.find pat view 0) := by
  rw [Lib.find_zero]
  rcases hocc : Lib.firstOcc pat view with _ | i
  · exact Lib.firstOcc_eq_none.mp hocc
  · exact Lib.not_infix_take hpat hocc

theorem HeadersMap.cutLines_noEndline (fuel : Nat) (view : Bytes) :
    ∀ line ∈ HeadersMap.cutLines fuel view, ¬ endline <:+: line := by
  induction fuel generalizing view with
  | zero => cases view <;> exact fun line h => absurd h List.not_mem_nil
  | succ fuel ih =>
    cases view with
    | nil => exact fun line h => absurd h List.not_mem_nil
    | cons c view =>
      rw [HeadersMap.cutLines]
      intro line hline
      rcases List.mem_cons.mp hline with rfl | hline
      · exact not_infix_upTo (by decide) _
      · exact ih _ line hline

/-! ## Blocks of lines -/

def blockBytes (lines : List Bytes) : Bytes := lines.flatMap fun l => l ++ endline

theorem HeadersMap.cutLines_block {lines : List Bytes} (h : ∀ l ∈ lines, ¬ endline <:+: l)
    {fuel : Nat} (hfuel : (blockBytes lines).length ≤ fuel) :
    HeadersMap.cutLines fuel (blockBytes lines) = lines := by
  induction lines generalizing fuel with
  | nil => cases fuel <;> rfl
  | cons l lines ih =>
    have hshape : blockBytes (l :: lines) = l ++ 13 :: 10 :: blockBytes lines := by
      rw [blockBytes, List.flatMap_cons, List.append_assoc]
      rfl
    have hfind : Lib.find endline (l ++ 13 :: 10 :: blockBytes lines) 0 = some l.length := by
      rw [Lib.find_zero]
      exact Lib.firstOcc_pair (by decide) (h l List.mem_cons_self) _
    have hrest : (l ++ 13 :: 10 :: blockBytes lines).drop (l.length + 2) = blockBytes lines := by
      rw [← List.drop_drop, List.drop_left]
      rfl
    rw [hshape, List.length_append, List.length_cons, List.length_cons] at hfuel
    obtain ⟨fuel, rfl⟩ : ∃ fuel', fuel = fuel' + 1 := ⟨fuel - 1, by omega⟩
    rw [hshape]
    rcases hcons : l ++ 13 :: 10 :: blockBytes lines with _ | ⟨c, view⟩
    · exact absurd hcons (by simp)
    · rw [HeadersMap.cutLines, ← hcons, hfind]
      simp only [upTo, List.take_left, plus, hrest]
      rw [ih (fun l hl => h l (List.mem_cons_of_mem _ hl)) (by omega)]

theorem HeadersMap.lines_block {lines : List Bytes} (h : ∀ l ∈ lines, ¬ endline <:+: l) :
    HeadersMap.lines (blockBytes lines) = lines :=
  HeadersMap.cutLines_block h (Nat.le_refl _)

end AdvCppTP.Http
