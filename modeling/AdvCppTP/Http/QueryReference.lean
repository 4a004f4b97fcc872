import AdvCppTP.Http.QueryParams
import Mathlib.Data.List.TakeWhile

/-! `utils::parse_query_string` against its reference: split at `&`, ignore empty pieces, split
each piece at its first `=`, decode, and keep the first value of a key. -/

namespace AdvCppTP.Http

/-- What the reference makes of a piece: its value is empty without a `=`. -/
def referencePair (piece : Bytes) : Bytes × Bytes :=
  (decodeUrl (piece.takeWhile fun c => c ≠ 61),
    decodeUrl ((piece.dropWhile fun c => c ≠ 61).drop 1))

def referencePairs (pieces : List Bytes) : List (Bytes × Bytes) :=
  (pieces.filter fun piece => piece ≠ []).map referencePair

/-- The reference definition. -/
def referenceParams (queryString : Bytes) (params : StringMap) : StringMap :=
  storePairs (referencePairs (queryString.splitOn 38)) params

/-- The pieces that the loop takes: it drops one `&` in front of each, and so an empty first
piece. -/
def takenPieces (queryString : Bytes) : List Bytes :=
  match queryString.splitOn 38 with
  | [] :: pieces => pieces
  | pieces => pieces

/-! ## Pieces -/

theorem parseQueryString_eq (queryString : Bytes) (params : StringMap) :
    parseQueryString queryString params =
      .ok (storePairs ((takenPieces queryString).map pairOfPiece) params) := by
  obtain ⟨first, pieces, hsplit⟩ := List.exists_cons_of_ne_nil (List.splitOn_ne_nil 38 queryString)
  have hclean : ∀ piece ∈ queryString.splitOn 38, 38 ∉ piece :=
    fun _ hpiece => Lib.notMem_of_mem_splitOn hpiece
  have hquery : [38].intercalate (queryString.splitOn 38) = queryString :=
    List.intercalate_splitOn 38
  rw [hsplit, intercalate_cons] at hquery
  rw [hsplit] at hclean
  have hparse := parseQueryString_pieces hclean params
  rw [show (first ++ pieces.flatMap fun piece => 38 :: piece) = queryString from hquery] at hparse
  rw [hparse, takenPieces, hsplit]
  cases first with
  | nil => rfl
  | cons c first => rfl

theorem referencePairs_takenPieces (queryString : Bytes) :
    referencePairs (takenPieces queryString) = referencePairs (queryString.splitOn 38) := by
  rw [takenPieces]
  split
  case h_1 pieces hsplit =>
    rw [hsplit, referencePairs, referencePairs, List.filter_cons_of_neg (by simp)]
  · rfl

/-! ## Pairs -/

theorem upTo_find_eq_takeWhile (c : UInt8) (s : Bytes) :
    upTo s (Lib.find [c] s 0) = s.takeWhile fun x => x ≠ c := by
  rw [Lib.find_zero]
  by_cases h : c ∈ s
  · obtain ⟨pre, post, rfl, hpre⟩ := List.eq_append_cons_of_mem h
    rw [Lib.firstOcc_singleton hpre, upTo, List.take_left,
      List.takeWhile_append_of_pos (Lib.decide_ne_of_notMem hpre),
      List.takeWhile_cons_of_neg (by simp), List.append_nil]
  · have hnone : Lib.firstOcc [c] s = none :=
      Lib.firstOcc_eq_none.mpr fun hinfix => h ((List.singleton_infix_iff c s).mp hinfix)
    rw [hnone, upTo]
    exact (List.takeWhile_eq_self_iff.mpr (Lib.decide_ne_of_notMem h)).symm

theorem pairOfPiece_fst (piece : Bytes) : (pairOfPiece piece).1 = (referencePair piece).1 :=
  congrArg decodeUrl (upTo_find_eq_takeWhile 61 piece)

theorem pairOfPiece_of_mem {piece : Bytes} (h : 61 ∈ piece) :
    pairOfPiece piece = referencePair piece := by
  refine Prod.ext (pairOfPiece_fst piece) ?_
  obtain ⟨pre, post, rfl, hpre⟩ := List.eq_append_cons_of_mem h
  have hfind : Lib.find (ascii "=") (pre ++ 61 :: post) 0 = some pre.length := by
    rw [Lib.find_zero]
    exact Lib.firstOcc_singleton hpre post
  have hdrop : (pre ++ 61 :: post).dropWhile (fun x => x ≠ 61) = 61 :: post := by
    rw [List.dropWhile_append_of_pos (Lib.decide_ne_of_notMem hpre),
      List.dropWhile_cons_of_neg (by simp)]
  simp only [pairOfPiece, hfind, plus, referencePair, hdrop]
  rw [← List.drop_drop, List.drop_left]

/-- Without a `=` the whole piece is the key, and the value too. -/
theorem pairs_of_notMem {piece : Bytes} (h : 61 ∉ piece) :
    pairOfPiece piece = (decodeUrl piece, decodeUrl piece) ∧
      referencePair piece = (decodeUrl piece, []) := by
  have hall := Lib.decide_ne_of_notMem h
  have hfind : Lib.find (ascii "=") piece 0 = none := by
    rw [Lib.find_zero]
    exact Lib.firstOcc_eq_none.mpr fun hinfix => h ((List.singleton_infix_iff 61 piece).mp hinfix)
  rw [pairOfPiece, referencePair, hfind, List.takeWhile_eq_self_iff.mpr hall,
    List.dropWhile_eq_nil_iff.mpr hall]
  exact ⟨rfl, rfl⟩

/-! ## Agreement -/

/-- A piece without `=` that is the first of its key, and whose value in the reference is another
one. An empty piece counts for the loop, and not for the reference. -/
structure Misread (params : StringMap) (before : List Bytes) (piece : Bytes)
    (behind : List Bytes) : Prop where
  noEquals : 61 ∉ piece
  newKey : decodeUrl piece ∉ params
  firstOfKey : ∀ other ∈ before, (referencePair other).1 ≠ decodeUrl piece
  differs : if piece = [] then (referencePairs behind).lookup [] ≠ some []
    else decodeUrl piece ≠ []

theorem lookup_map_eq_none {f : Bytes → Bytes × Bytes} {k : Bytes} {pieces : List Bytes}
    (h : ∀ piece ∈ pieces, (f piece).1 ≠ k) : (pieces.map f).lookup k = none := by
  rw [List.lookup_eq_none_iff]
  intro p hp
  obtain ⟨piece, hpiece, rfl⟩ := List.mem_map.mp hp
  exact bne_iff_ne.mpr (h piece hpiece).symm

theorem lookup_map_skip {f : Bytes → Bytes × Bytes} {k : Bytes} {before : List Bytes}
    (h : ∀ other ∈ before, (f other).1 ≠ k) (pieces : List Bytes) :
    ((before ++ pieces).map f).lookup k = (pieces.map f).lookup k := by
  rw [List.map_append, List.lookup_append, lookup_map_eq_none h, Option.none_or]

theorem lookup_taken {before : List Bytes} {piece : Bytes}
    (h : ∀ other ∈ before, (referencePair other).1 ≠ (referencePair piece).1)
    (behind : List Bytes) :
    ((before ++ piece :: behind).map pairOfPiece).lookup (referencePair piece).1 =
      some (pairOfPiece piece).2 := by
  rw [lookup_map_skip fun other hother => (pairOfPiece_fst other).symm ▸ h other hother,
    List.map_cons, List.lookup_cons, pairOfPiece_fst, beq_self_eq_true]

theorem lookup_reference {before : List Bytes} {piece : Bytes}
    (h : ∀ other ∈ before, (referencePair other).1 ≠ (referencePair piece).1)
    (behind : List Bytes) :
    (referencePairs (before ++ piece :: behind)).lookup (referencePair piece).1 =
      if piece = [] then (referencePairs behind).lookup []
      else some (referencePair piece).2 := by
  rw [referencePairs, List.filter_append,
    lookup_map_skip fun other hother => h other (List.mem_filter.mp hother).1]
  by_cases hempty : piece = []
  · rw [if_pos hempty, List.filter_cons_of_neg (by simp [hempty]), hempty]
    rfl
  · rw [if_neg hempty, List.filter_cons_of_pos (by simp [hempty]), List.map_cons, List.lookup_cons,
      beq_self_eq_true]

/-- At the first piece of a key the two differ exactly where it is misread. -/
theorem lookup_first_eq_iff {params : StringMap} {before : List Bytes} {piece : Bytes}
    (hnew : (referencePair piece).1 ∉ params)
    (h : ∀ other ∈ before, (referencePair other).1 ≠ (referencePair piece).1)
    (behind : List Bytes) :
    ((before ++ piece :: behind).map pairOfPiece).lookup (referencePair piece).1 =
        (referencePairs (before ++ piece :: behind)).lookup (referencePair piece).1 ↔
      ¬ Misread params before piece behind := by
  rw [lookup_taken h, lookup_reference h]
  by_cases hequals : 61 ∈ piece
  · have hempty : piece ≠ [] := fun hnil => by
      rw [hnil] at hequals
      exact List.not_mem_nil hequals
    rw [if_neg hempty, pairOfPiece_of_mem hequals]
    exact ⟨fun _ hmisread => hmisread.noEquals hequals, fun _ => rfl⟩
  · obtain ⟨hpair, href⟩ := pairs_of_notMem hequals
    rw [href] at hnew h ⊢
    rw [hpair]
    have hmisread : Misread params before piece behind ↔
        if piece = [] then (referencePairs behind).lookup [] ≠ some []
        else decodeUrl piece ≠ [] :=
      ⟨Misread.differs, fun hdiffers => ⟨hequals, hnew, h, hdiffers⟩⟩
    rw [hmisread]
    by_cases hempty : piece = []
    · rw [if_pos hempty, if_pos hempty, hempty, not_not]
      exact eq_comm
    · rw [if_neg hempty, if_neg hempty, not_not, Option.some.injEq]

def AgreesWithReference (queryString : Bytes) (params : StringMap) : Prop :=
  ∃ data, parseQueryString queryString params = .ok data ∧
    ∀ k, data.lookup k = (referenceParams queryString params).lookup k

/-- `parse_query_string` agrees with its reference exactly where no piece is misread. -/
theorem agreesWithReference_iff (queryString : Bytes) (params : StringMap) :
    AgreesWithReference queryString params ↔
      ∀ before piece behind, takenPieces queryString = before ++ piece :: behind →
        ¬ Misread params before piece behind := by
  -- keys that are there already keep their values, so new ones decide
  have hagrees : AgreesWithReference queryString params ↔ ∀ k, k ∉ params →
      ((takenPieces queryString).map pairOfPiece).lookup k =
        (referencePairs (takenPieces queryString)).lookup k := by
    rw [AgreesWithReference, parseQueryString_eq, referenceParams, ← referencePairs_takenPieces]
    simp only [Except.ok.injEq, exists_eq_left', lookup_storePairs]
    refine forall_congr' fun k => ?_
    by_cases hk : k ∈ params
    · obtain ⟨value, hvalue⟩ := Lib.exists_lookup hk
      rw [hvalue]
      exact ⟨fun _ hnew => absurd hk hnew, fun _ => rfl⟩
    · rw [AList.lookup_eq_none.mpr hk]
      exact ⟨fun h _ => h, fun h => h hk⟩
  rw [hagrees]
  constructor
  · intro h before piece behind htaken hmisread
    have hkey := (pairs_of_notMem hmisread.noEquals).2
    have hk := h (decodeUrl piece) hmisread.newKey
    rw [htaken, show decodeUrl piece = (referencePair piece).1 by rw [hkey]] at hk
    refine (lookup_first_eq_iff ?_ ?_ behind).mp hk hmisread <;> rw [hkey]
    · exact hmisread.newKey
    · exact hmisread.firstOfKey
  · intro h k hnew
    by_cases hk : k ∈ (takenPieces queryString).map fun piece => (referencePair piece).1
    · -- the first piece with the key gives its value
      obtain ⟨as, bs, hmap, hfirst⟩ := List.eq_append_cons_of_mem hk
      obtain ⟨before, rest, htaken, rfl, hrest⟩ := List.map_eq_append_iff.mp hmap
      obtain ⟨piece, behind, rfl, rfl, -⟩ := List.map_eq_cons_iff.mp hrest
      rw [htaken]
      refine (lookup_first_eq_iff hnew (fun other hother heq => hfirst ?_) behind).mpr
        (h before piece behind htaken)
      exact heq ▸ List.mem_map_of_mem hother
    · have hkeys : ∀ piece ∈ takenPieces queryString, (referencePair piece).1 ≠ k :=
        fun piece hpiece heq => hk (List.mem_map.mpr ⟨piece, hpiece, heq⟩)
      rw [referencePairs, lookup_map_eq_none fun piece hpiece => (pairOfPiece_fst piece).symm ▸
        hkeys piece hpiece, lookup_map_eq_none fun piece hpiece =>
          hkeys piece (List.mem_filter.mp hpiece).1]

/-- `flag` -/
theorem missing_equals_misread :
    ¬ ∀ (queryString : Bytes) (params : StringMap), AgreesWithReference queryString params := by
  intro h
  obtain ⟨data, hdata, hagrees⟩ := h (ascii "flag") ∅
  obtain rfl := Except.ok.inj hdata
  exact absurd (hagrees (ascii "flag")) (by decide)

end AdvCppTP.Http
