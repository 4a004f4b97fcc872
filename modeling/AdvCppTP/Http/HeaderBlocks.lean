import AdvCppTP.Http.QueryParams
import AdvCppTP.Http.Requests
import Mathlib.Data.List.GetD

/-! Blocks of header lines: which names and values `HeadersMap` stores as they are, what `find` and
`get` then answer, and which blocks it refuses. -/

namespace AdvCppTP.Http

/-! ## `rtrim` and `to_lowercase` -/

/-- The bytes that `rtrim` takes off: `strchr` finds the terminating NUL as well. -/
def Trimmed (c : UInt8) : Prop := c ∈ whitespaces ∨ c = 0

instance : DecidablePred Trimmed := fun c => inferInstanceAs (Decidable (c ∈ whitespaces ∨ c = 0))

theorem rtrimLoop_succ (v : Bytes) (i : Nat) :
    rtrimLoop v (i + 1) = if Trimmed (v.getD (i + 1) 0) then rtrimLoop v i else i + 1 :=
  rfl

theorem rtrimLoop_le (v : Bytes) (i : Nat) : rtrimLoop v i ≤ i := by
  induction i with
  | zero => exact Nat.le_refl 0
  | succ i ih =>
    rw [rtrimLoop_succ]
    split
    · exact Nat.le_succ_of_le ih
    · exact Nat.le_refl _

theorem rtrimLoop_stops (v : Bytes) (i : Nat) :
    rtrimLoop v i = 0 ∨ ¬ Trimmed (v.getD (rtrimLoop v i) 0) := by
  induction i with
  | zero => exact .inl rfl
  | succ i ih =>
    rw [rtrimLoop_succ]
    split
    · exact ih
    · exact .inr ‹_›

theorem rtrimLoop_eq_self (v : Bytes) (i : Nat) :
    rtrimLoop v i = i ↔ i = 0 ∨ ¬ Trimmed (v.getD i 0) := by
  refine ⟨fun h => by have hstop := rtrimLoop_stops v i; rwa [h] at hstop, fun h => ?_⟩
  cases i with
  | zero => rfl
  | succ i => rw [rtrimLoop_succ, if_neg (h.resolve_left (Nat.succ_ne_zero i))]

theorem rtrim_eq_take (v : Bytes) : rtrim v = v.take (rtrimLoop v (v.length - 1) + 1) := by
  cases v <;> rfl

theorem rtrim_isPrefix (v : Bytes) : rtrim v <+: v := by
  rw [rtrim_eq_take]
  exact List.take_prefix _ v

theorem rtrim_eq_self {v : Bytes} :
    rtrim v = v ↔ v.length ≤ 1 ∨ ¬ Trimmed (v.getD (v.length - 1) 0) := by
  have hle := rtrimLoop_le v (v.length - 1)
  rw [rtrim_eq_take, List.take_eq_self_iff]
  constructor
  · intro h
    refine ((rtrimLoop_eq_self v (v.length - 1)).mp (by omega)).imp_left fun h => by omega
  · intro h
    rw [(rtrimLoop_eq_self v (v.length - 1)).mpr (h.imp_left fun h => by omega)]
    omega

theorem rtrim_rtrim (v : Bytes) : rtrim (rtrim v) = rtrim v := by
  have hle := rtrimLoop_le v (v.length - 1)
  have hstop := rtrimLoop_stops v (v.length - 1)
  rw [rtrim_eq_self, rtrim_eq_take, List.length_take]
  rcases v.length.eq_zero_or_pos with hzero | hpos
  · exact .inl (by omega)
  · refine hstop.imp (fun h => by omega) fun h => ?_
    have hlast : min (rtrimLoop v (v.length - 1) + 1) v.length - 1 = rtrimLoop v (v.length - 1) := by
      omega
    rwa [hlast, List.getD_eq_getElem?_getD, List.getElem?_take_of_lt (Nat.lt_succ_self _),
      ← List.getD_eq_getElem?_getD]

theorem trimmed_tolower (c : UInt8) : Trimmed (tolower c) ↔ Trimmed c :=
  byte_cases (P := fun c => Trimmed (tolower c) ↔ Trimmed c) (by decide +kernel) c

theorem rtrimLoop_toLowercase (v : Bytes) (i : Nat) :
    rtrimLoop (toLowercase v) i = rtrimLoop v i := by
  induction i with
  | zero => rfl
  | succ i ih =>
    have hget : (toLowercase v).getD (i + 1) 0 = tolower (v.getD (i + 1) 0) :=
      List.getD_map v 0 tolower
    simp only [rtrimLoop_succ, hget, trimmed_tolower, ih]

theorem rtrim_toLowercase (v : Bytes) : rtrim (toLowercase v) = toLowercase (rtrim v) := by
  rw [rtrim_eq_take, rtrim_eq_take, rtrimLoop_toLowercase, toLowercase, toLowercase,
    List.length_map, List.map_take]

theorem toLowercase_toLowercase (v : Bytes) : toLowercase (toLowercase v) = toLowercase v := by
  have htwice : ∀ c, tolower (tolower c) = tolower c :=
    byte_cases (by decide +kernel)
  rw [toLowercase, toLowercase, List.map_map]
  exact List.map_congr_left fun c _ => htwice c

/-! ## Fields -/

/-- A header line: a name, blanks behind the `:`, and a value that may be empty. -/
structure HeaderField where
  name : Bytes
  blanks : Bytes
  value : Bytes
  name_ne_nil : name ≠ []
  name_clean : ∀ c ∈ name, c ≠ 58 ∧ c ∉ whitespaces ∧ c ≠ 13 ∧ c ≠ 10
  blanks_only : ∀ c ∈ blanks, c ∈ whitespaces
  value_clean : ∀ c ∈ value, c ≠ 13 ∧ c ≠ 10
  value_head : ∀ c ∈ value.head?, c ∉ whitespaces
  value_last : ∀ c ∈ value.getLast?, c ∉ whitespaces

def HeaderField.line (f : HeaderField) : Bytes := f.name ++ 58 :: (f.blanks ++ f.value)

theorem noEndline_of_notMem {s : Bytes} (h : (13 : UInt8) ∉ s) : ¬ endline <:+: s :=
  fun hocc => h (hocc.subset List.mem_cons_self)

theorem HeaderField.line_noEndline (f : HeaderField) : ¬ endline <:+: f.line := by
  refine noEndline_of_notMem fun hmem => ?_
  rcases List.mem_append.mp hmem with hname | hmem
  · exact (f.name_clean 13 hname).2.2.1 rfl
  rcases List.mem_cons.mp hmem with heq | hmem
  · exact absurd heq (by decide)
  rcases List.mem_append.mp hmem with hblank | hvalue
  · exact absurd (f.blanks_only 13 hblank) (by decide)
  · exact (f.value_clean 13 hvalue).1 rfl

theorem HeaderField.find_separator (f : HeaderField) :
    Lib.find separator f.line 0 = some f.name.length := by
  rw [Lib.find_zero]
  exact Lib.firstOcc_singleton (fun hmem => (f.name_clean 58 hmem).1 rfl) _

theorem HeaderField.afterSeparator_eq (f : HeaderField) :
    afterSeparator f.line = f.blanks ++ f.value := by
  rw [afterSeparator, f.find_separator, plus, HeaderField.line, ← List.drop_drop, List.drop_left]
  rfl

theorem HeaderField.blankBehind_iff (f : HeaderField) : BlankBehind f.line ↔ f.value = [] := by
  rw [BlankBehind, f.afterSeparator_eq]
  constructor
  · intro h
    rcases hvalue : f.value with _ | ⟨c, value⟩
    · rfl
    · refine absurd (h c ?_) (f.value_head c (by rw [hvalue]; rfl))
      rw [hvalue]
      exact List.mem_append_right _ List.mem_cons_self
  · intro h
    rw [h, List.append_nil]
    exact f.blanks_only

theorem HeaderField.storedEntry_eq (f : HeaderField) :
    storedEntry f.line = (toLowercase (rtrim f.name), f.value) := by
  have hvalue : (f.blanks ++ f.value).dropWhile (fun c => c ∈ whitespaces) = f.value := by
    rw [List.dropWhile_append_of_pos fun c hc => by simpa using f.blanks_only c hc]
    rcases hvalue : f.value with _ | ⟨c, value⟩
    · rfl
    · have hhead := f.value_head c (by rw [hvalue]; rfl)
      exact List.dropWhile_cons_of_neg (by simpa using hhead)
  rw [storedEntry, f.afterSeparator_eq, hvalue, f.find_separator, upTo, HeaderField.line,
    List.take_left]

/-- The names that `rtrim` leaves alone are those that end in no NUL, and single bytes. -/
theorem HeaderField.rtrim_name (f : HeaderField) :
    rtrim f.name = f.name ↔ f.name.length = 1 ∨ f.name.getLast? ≠ some 0 := by
  obtain ⟨c, hc⟩ : ∃ c, f.name.getLast? = some c :=
    ⟨_, List.getLast?_eq_some_getLast f.name_ne_nil⟩
  have hlast : f.name.getD (f.name.length - 1) 0 = c := by
    rw [List.getD_eq_getElem?_getD, ← List.getLast?_eq_getElem?, hc]
    rfl
  have hclean := (f.name_clean c (List.mem_of_getLast? hc)).2.1
  have hpos := List.length_pos_of_ne_nil f.name_ne_nil
  rw [rtrim_eq_self, hlast, hc, Trimmed, ne_eq, Option.some.injEq]
  refine or_congr (by omega) ?_
  simp only [hclean, false_or]

def HeadersMap.find (data : StringMap) (header : Bytes) : Bool := header ∈ data

def HeadersMap.get (data : StringMap) (header : Bytes) : Except StdError Bytes :=
  match data.lookup header with
  | some value => .ok value
  | none => .error .outOfRange

/-- The map answers as the first field with a name, in lower case, says. -/
def HeadersMap.Answers (data : StringMap) (fields : List HeaderField) : Prop :=
  ∀ header, match (fields.map fun f => (toLowercase f.name, f.value)).lookup header with
    | some value => HeadersMap.find data header = true ∧ HeadersMap.get data header = .ok value
    | none => HeadersMap.find data header = false

def HeadersMap.Accepts (fields : List HeaderField) : Prop :=
  ∃ data, HeadersMap.parse (blockBytes (fields.map HeaderField.line)) = .ok data ∧
    HeadersMap.Answers data fields

def HeadersMap.Throws (headersView : Bytes) : Prop :=
  ∃ e, HeadersMap.parse headersView = .error e

theorem HeadersMap.answers_iff (data : StringMap) (fields : List HeaderField) :
    HeadersMap.Answers data fields ↔
      ∀ k, data.lookup k = (fields.map fun f => (toLowercase f.name, f.value)).lookup k := by
  refine forall_congr' fun k => ?_
  have hfind : HeadersMap.find data k = (data.lookup k).isSome := by
    rw [HeadersMap.find, Bool.eq_iff_iff, decide_eq_true_iff, AList.lookup_isSome]
  rw [hfind, HeadersMap.get]
  generalize (fields.map fun f => (toLowercase f.name, f.value)).lookup k = found
  cases found <;> cases data.lookup k <;> simp

theorem HeadersMap.throws_iff (headersView : Bytes) :
    HeadersMap.Throws headersView ↔ ∃ line ∈ HeadersMap.lines headersView, BlankBehind line := by
  rw [HeadersMap.Throws, HeadersMap.parse_eq]
  split
  case isTrue h => exact ⟨fun _ => h, fun _ => ⟨_, rfl⟩⟩
  case isFalse h => exact ⟨fun ⟨_, he⟩ => (by cases he), fun h' => absurd h' h⟩

theorem HeadersMap.parse_block (fields : List HeaderField) :
    HeadersMap.parse (blockBytes (fields.map HeaderField.line)) =
      if ∃ f ∈ fields, f.value = [] then .error .outOfRange
      else .ok (storePairs (fields.map fun f => (toLowercase (rtrim f.name), f.value)) ∅) := by
  have hclean : ∀ l ∈ fields.map HeaderField.line, ¬ endline <:+: l := fun l hl => by
    obtain ⟨f, -, rfl⟩ := List.mem_map.mp hl
    exact f.line_noEndline
  have hstored : (fields.map HeaderField.line).map storedEntry =
      fields.map fun f => (toLowercase (rtrim f.name), f.value) := by
    rw [List.map_map]
    exact List.map_congr_left fun f _ => f.storedEntry_eq
  have hblank : (∃ l ∈ fields.map HeaderField.line, BlankBehind l) ↔ ∃ f ∈ fields, f.value = [] := by
    simp only [List.mem_map, exists_exists_and_eq_and, HeaderField.blankBehind_iff]
  rw [HeadersMap.parse_eq, HeadersMap.lines_block hclean, hstored]
  simp only [hblank]

theorem lookup_map_isSome {α : Type*} (fields : List α) (key value : α → Bytes) (k : Bytes) :
    ((fields.map fun f => (key f, value f)).lookup k).isSome = true ↔ ∃ f ∈ fields, k = key f := by
  induction fields with
  | nil => simp
  | cons f fields ih =>
    rw [List.map_cons, List.lookup_cons, List.exists_mem_cons_iff, ← ih]
    rcases eq_or_ne k (key f) with rfl | hne
    · rw [beq_self_eq_true]
      exact ⟨fun _ => .inl rfl, fun _ => rfl⟩
    · rw [beq_eq_false_iff_ne.mpr hne]
      exact ⟨.inr, fun h => h.resolve_left hne⟩

theorem HeadersMap.accepts_iff (fields : List HeaderField) :
    HeadersMap.Accepts fields ↔ ∀ f ∈ fields,
      f.value ≠ [] ∧ (f.name.length = 1 ∨ f.name.getLast? ≠ some 0) := by
  simp only [← HeaderField.rtrim_name]
  rw [HeadersMap.Accepts, HeadersMap.parse_block]
  constructor
  · rintro ⟨data, hparse, hanswers⟩ f hf
    rw [HeadersMap.answers_iff] at hanswers
    by_cases hempty : ∃ f ∈ fields, f.value = []
    · rw [if_pos hempty] at hparse
      cases hparse
    · rw [if_neg hempty] at hparse
      obtain rfl := Except.ok.inj hparse
      refine ⟨fun hvalue => hempty ⟨f, hf, hvalue⟩, ?_⟩
      -- the key that was asked for is one that was stored, and `rtrim` leaves those alone
      have hkey := hanswers (toLowercase f.name)
      rw [lookup_storePairs] at hkey
      have hstored := (lookup_map_isSome fields (fun f => toLowercase f.name) HeaderField.value _).mpr
        ⟨f, hf, rfl⟩
      rw [← hkey] at hstored
      obtain ⟨g, -, hg⟩ := (lookup_map_isSome fields (fun f => toLowercase (rtrim f.name))
        HeaderField.value _).mp hstored
      have hfixed : rtrim (toLowercase f.name) = toLowercase f.name := by
        rw [hg, rtrim_toLowercase, rtrim_rtrim]
      rw [rtrim_toLowercase] at hfixed
      have hlen : (rtrim f.name).length = f.name.length := by
        have := congrArg List.length hfixed
        rwa [toLowercase, toLowercase, List.length_map, List.length_map] at this
      exact (rtrim_isPrefix f.name).eq_of_length hlen
  · intro h
    have hvalues : ¬ ∃ f ∈ fields, f.value = [] := fun ⟨f, hf, hvalue⟩ => (h f hf).1 hvalue
    have hnames : (fields.map fun f => (toLowercase (rtrim f.name), f.value)) =
        fields.map fun f => (toLowercase f.name, f.value) :=
      List.map_congr_left fun f hf => by rw [(h f hf).2]
    rw [if_neg hvalues, hnames]
    refine ⟨_, rfl, (HeadersMap.answers_iff _ fields).mpr fun k => ?_⟩
    rw [lookup_storePairs]
    rfl

/-- Well-formed fields are stored unless a value is empty or a name ends in NUL; a block with a
line that has no `:` is refused only if some line is blank behind its separator. -/
theorem HeadersMap.accepts_blocks_iff (fields : List HeaderField) {lines : List Bytes}
    (hlines : ∀ l ∈ lines, ¬ endline <:+: l) :
    (HeadersMap.Accepts fields ↔ ∀ f ∈ fields,
        f.value ≠ [] ∧ (f.name.length = 1 ∨ f.name.getLast? ≠ some 0)) ∧
      ((∃ l ∈ lines, (58 : UInt8) ∉ l) →
        (HeadersMap.Throws (blockBytes lines) ↔ ∃ l ∈ lines, BlankBehind l)) := by
  refine ⟨HeadersMap.accepts_iff fields, fun _ => ?_⟩
  rw [HeadersMap.throws_iff, HeadersMap.lines_block hlines]

def hostField : HeaderField where
  name := ascii "Host"
  blanks := ascii " "
  value := ascii "a"
  name_ne_nil := by decide
  name_clean := forall_mem_of_all rfl
  blanks_only := forall_mem_of_all rfl
  value_clean := forall_mem_of_all rfl
  value_head := by simp [ascii, whitespaces]
  value_last := by simp [ascii, whitespaces]

def emptyField : HeaderField where
  name := ascii "Accept"
  blanks := []
  value := []
  name_ne_nil := by decide
  name_clean := forall_mem_of_all rfl
  blanks_only := List.forall_mem_nil _
  value_clean := List.forall_mem_nil _
  value_head := by simp
  value_last := by simp

theorem accepts_blocks_iff_host :
    (HeadersMap.Accepts [hostField] ↔ ∀ f ∈ [hostField],
        f.value ≠ [] ∧ (f.name.length = 1 ∨ f.name.getLast? ≠ some 0)) ∧
      ((∃ l ∈ [ascii "Host", ascii "A: "], (58 : UInt8) ∉ l) →
        (HeadersMap.Throws (blockBytes [ascii "Host", ascii "A: "]) ↔
          ∃ l ∈ [ascii "Host", ascii "A: "], BlankBehind l)) :=
  HeadersMap.accepts_blocks_iff [hostField] (by decide)

theorem empty_value_refused :
    ¬ ((∀ fields, HeadersMap.Accepts fields) ∧
      ∀ lines : List Bytes, (∀ l ∈ lines, ¬ endline <:+: l) → (∃ l ∈ lines, (58 : UInt8) ∉ l) →
        HeadersMap.Throws (blockBytes lines)) := by
  rintro ⟨haccepts, -⟩
  obtain ⟨data, hparse, -⟩ := haccepts [emptyField]
  cases hparse

end AdvCppTP.Http
