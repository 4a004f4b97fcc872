import AdvCppTP.Lib.CString
import AdvCppTP.Lib.Search

/-! `parse_params` and `try_exec` of `Process_lib`: a command cut at its spaces into the words that
`execvp` is called with. -/

namespace AdvCppTP.Process

abbrev Bytes := List UInt8

def space : UInt8 := 32

inductive StdError
  | outOfRange
  deriving DecidableEq, Repr

/-- `path.substr(pos, n)`; where there is no `n` it is `npos`. -/
def substr (path : Bytes) (pos : Nat) (n : Option Nat) : Except StdError Bytes :=
  if pos > path.length then .error .outOfRange
  else
    match n with
    | some n => .ok ((path.drop pos).take n)
    | none => .ok (path.drop pos)

/-- The loop of `parse_params`; `none` when it makes more turns than `fuel`. -/
def parseFrom (path : Bytes) : Nat → Nat → List Bytes → Option (Except StdError (List Bytes))
  | 0, _, _ => none
  | fuel + 1, start, params =>
    let stop := Lib.find [space] path start
    match substr path start (stop.map (· - start)) with
    | .error e => some (.error e)
    | .ok param =>
      match stop with
      | none => some (.ok (params ++ [param]))
      | some stop => parseFrom path fuel (stop + 1) (params ++ [param])

def parseParams (path : Bytes) : Option (Except StdError (List Bytes)) :=
  parseFrom path (path.length + 1) 0 []

/-- The file and the arguments of the call of `execvp`; an argument `none` is the null pointer. -/
def tryExec (path : Bytes) : Option (Except StdError (Option Bytes × List (Option Bytes))) :=
  (parseParams path).map fun result => result.map fun paramsCxx =>
    let paramsC := paramsCxx.map (fun str => some (Lib.cString str)) ++ [none]
    (paramsC.head?.join, paramsC)

/-! ## The loop cuts at the spaces -/

/-- Where a space is found, it is the first one behind the position. -/
theorem find_space {path : Bytes} {start stop : Nat} (h : Lib.find [space] path start = some stop) :
    start ≤ stop ∧ stop < path.length ∧ space ∉ (path.drop start).take (stop - start) ∧
      path.drop start =
        (path.drop start).take (stop - start) ++ space :: path.drop (stop + 1) := by
  obtain ⟨k, hk, rfl⟩ := Option.map_eq_some_iff.mp h
  have hroom := Lib.firstOcc_add_length hk
  obtain ⟨hfirst, hcut⟩ := Lib.cut_of_firstOcc_singleton hk
  rw [List.length_drop, List.length_singleton] at hroom
  rw [List.drop_drop] at hcut
  rw [Nat.add_sub_cancel, Nat.add_comm k start]
  exact ⟨Nat.le_add_right _ _, by omega, hfirst, hcut⟩

theorem find_no_space {path : Bytes} {start : Nat} (h : Lib.find [space] path start = none) :
    space ∉ path.drop start :=
  Lib.notMem_of_firstOcc_singleton (Option.map_eq_none_iff.mp h)

/-- The loop adds the words from `start` on, one in each turn. -/
theorem parseFrom_eq_splitOn {path : Bytes} {fuel start : Nat} (hstart : start ≤ path.length)
    (hfuel : path.length - start < fuel) (params : List Bytes) :
    parseFrom path fuel start params =
      some (.ok (params ++ (path.drop start).splitOn space)) := by
  -- by induction on the turns; each one takes a word off what is behind `start`
  induction fuel generalizing start params with
  | zero => exact absurd hfuel (Nat.not_lt_zero _)
  | succ fuel ih =>
    have hinside : ¬ start > path.length := Nat.not_lt.mpr hstart
    rcases hfind : Lib.find [space] path start with _ | stop
    · have hlast := List.splitOn_eq_singleton (find_no_space hfind)
      simp only [parseFrom, hfind, Option.map_none, substr, if_neg hinside, hlast]
    · obtain ⟨hle, hlt, hclean, hcut⟩ := find_space hfind
      have hrest := ih (by omega : stop + 1 ≤ path.length) (by omega)
        (params ++ [(path.drop start).take (stop - start)])
      have hsplit := List.splitOn_append_cons_self_of_not_mem hclean (path.drop (stop + 1))
      rw [← hcut] at hsplit
      simp only [parseFrom, hfind, Option.map_some, substr, if_neg hinside, hrest, hsplit,
        List.append_assoc, List.singleton_append]

theorem parseParams_eq_splitOn (path : Bytes) :
    parseParams path = some (.ok (path.splitOn space)) := by
  have hall := parseFrom_eq_splitOn (Nat.zero_le path.length) (Nat.lt_succ_self _) []
  rwa [List.drop_zero, List.nil_append] at hall

/-! ## Splitting and joining -/

def join (params : List Bytes) : Bytes := [space].intercalate params

/-- Splitting a command and joining words that have no space in them are inverse. -/
theorem parseParams_inverse :
    (∀ path, ∃ params, parseParams path = some (.ok params) ∧ params ≠ [] ∧
      (∀ param ∈ params, space ∉ param) ∧ join params = path) ∧
    (∀ params, params ≠ [] → (∀ param ∈ params, space ∉ param) →
      parseParams (join params) = some (.ok params)) := by
  refine ⟨fun path => ?_, fun params hne hclean => ?_⟩
  · refine ⟨path.splitOn space, parseParams_eq_splitOn path, List.splitOn_ne_nil _ _, ?_, ?_⟩
    · exact fun param hparam => Lib.notMem_of_mem_splitOn hparam
    · exact List.intercalate_splitOn space
  · rw [parseParams_eq_splitOn, join, List.splitOn_intercalate space hclean hne]

/-- `"ls  -l "`: an empty word between the two spaces, and one behind the last. -/
theorem parseParams_inverse_spaces :
    parseParams [108, 115, 32, 32, 45, 108, 32] = some (.ok [[108, 115], [], [45, 108], []]) :=
  parseParams_inverse.2 [[108, 115], [], [45, 108], []] (by decide) (by decide)

/-! ## What is executed -/

/-- `execvp` is given the words of a command and the null pointer behind them. -/
theorem tryExec_join {param : Bytes} {params : List Bytes}
    (hclean : ∀ word ∈ param :: params, space ∉ word ∧ 0 ∉ word) :
    tryExec (join (param :: params)) =
      some (.ok (some param, (param :: params).map some ++ [none])) := by
  have hsplit := List.splitOn_intercalate space (fun word hword => (hclean word hword).1)
    (List.cons_ne_nil param params)
  have hstrings : (param :: params).map (fun str => some (Lib.cString str)) =
      (param :: params).map some := by
    apply List.map_congr_left
    intro word hword
    rw [Lib.cString_eq_self (hclean word hword).2]
  rw [tryExec, parseParams_eq_splitOn, join, hsplit]
  simp only [Option.map_some, Except.map, hstrings]
  rfl

end AdvCppTP.Process
