import AdvCppTP.Http.HeaderBlocks

/-! The parsers of a request head with `size_t` positions, where sums wrap and `npos` is the largest
value, and with every access to a view checked: one outside of it is `undefined`. On texts that fit
into memory they compute what the parsers without positions compute. -/

namespace AdvCppTP.Http.Word

/-- The largest size of a string. -/
def maxSize : Nat := 0x7fffffffffffffff

def npos : UInt64 := -1

def size (view : Bytes) : UInt64 := .ofNat view.length

def position : Option Nat → UInt64
  | some i => .ofNat i
  | none => npos

def find (pat view : Bytes) : UInt64 := position (Lib.find pat view 0)

def findFirstNotOf (set view : Bytes) (pos : UInt64) : UInt64 :=
  position (Http.findFirstNotOf set view pos.toNat)

/-- `view[i]` -/
def charAt (view : Bytes) (i : UInt64) : Except StdError UInt8 :=
  match view[i.toNat]? with
  | some c => .ok c
  | none => .error .undefined

def substr (view : Bytes) (pos n : UInt64) : Except StdError Bytes :=
  if pos.toNat ≤ view.length then .ok ((view.drop pos.toNat).take n.toNat)
  else .error .outOfRange

def removePrefix (view : Bytes) (n : UInt64) : Except StdError Bytes :=
  if n.toNat ≤ view.length then .ok (view.drop n.toNat) else .error .undefined

def removeSuffix (view : Bytes) (n : UInt64) : Except StdError Bytes :=
  if n.toNat ≤ view.length then .ok (view.take (view.length - n.toNat)) else .error .undefined

/-! ## The parsers -/

def decodeUrlLoop : Nat → Bytes → Bytes → Except StdError Bytes
  | _, [], result => .ok result
  | 0, _ :: _, _ => .error .undefined
  | fuel + 1, c :: rest, result => do
    let view := c :: rest
    let front ← charAt view 0
    if front = 37 then
      if size view < 3 then return []
      let a ← charAt view 1
      let b ← charAt view 2
      let view ← removePrefix view 3
      decodeUrlLoop fuel view (result ++ [hexByte a b])
    else
      let view ← removePrefix view 1
      decodeUrlLoop fuel view (result ++ [front])

def decodeUrl (encodedStr : Bytes) : Except StdError Bytes :=
  decodeUrlLoop encodedStr.length encodedStr []

def skipAmpersand (queryString : Bytes) : Except StdError Bytes := do
  let front ← charAt queryString 0
  if front = 38 then removePrefix queryString 1 else return queryString

def queryPair (line : Bytes) : Except StdError (Bytes × Bytes) := do
  let headerLen := find (ascii "=") line
  let header ← substr line 0 headerLen
  let value ← substr line (headerLen + 1) npos
  return (← decodeUrl header, ← decodeUrl value)

def parseQueryLoop : Nat → Bytes → StringMap → Except StdError StringMap
  | _, [], params => .ok params
  | 0, _ :: _, _ => .error .undefined
  | fuel + 1, c :: rest, params => do
    let queryString ← skipAmpersand (c :: rest)
    let line ← substr queryString 0 (find (ascii "&") queryString)
    let (header, value) ← queryPair line
    let queryString ← removePrefix queryString (size line)
    parseQueryLoop fuel queryString (Lib.emplace header value params)

def parseQueryString (queryString : Bytes) (params : StringMap) : Except StdError StringMap :=
  parseQueryLoop queryString.length queryString params

def makeParams (firstLine : QueryLine) : Except StdError StringMap :=
  let pos := find questionMark firstLine.path
  if pos = npos then .ok ∅
  else do parseQueryString (← substr firstLine.path (pos + 1) npos) ∅

/-- The loop of `rtrim`; its index is an `ssize_t`. -/
def rtrimLoop (v : Bytes) : Nat → Int64 → Except StdError Int64
  | 0, i => if 0 < i then .error .undefined else .ok i
  | fuel + 1, i =>
    if 0 < i then do
      let c ← charAt v i.toUInt64
      if Trimmed c then rtrimLoop v fuel (i - 1) else return i
    else .ok i

def rtrim (v : Bytes) : Except StdError Bytes := do
  let i ← rtrimLoop v v.length (size v - 1).toInt64
  removeSuffix v (size v - i.toUInt64 - 1)

def headersMapLine (headersView : Bytes) : Except StdError ((Bytes × Bytes) × Bytes) := do
  let linesize := find endline headersView
  let line ← substr headersView 0 linesize
  let headerSize := find separator line
  let headerView ← substr line 0 headerSize
  let header := toLowercase (← rtrim headerView)
  let headerSize := headerSize + 1
  let valuePos := findFirstNotOf whitespaces line headerSize
  let value ← substr line valuePos npos
  let rest ← removePrefix headersView (linesize + 2)
  return ((header, value), rest)

def headersMapLoop : Nat → Bytes → StringMap → Except StdError StringMap
  | _, [], data => .ok data
  | 0, _ :: _, _ => .error .undefined
  | fuel + 1, c :: view, data => do
    let ((header, value), rest) ← headersMapLine (c :: view)
    headersMapLoop fuel rest (Lib.emplace header value data)

def parseHeadersMap (headersView : Bytes) : Except StdError StringMap :=
  headersMapLoop headersView.length headersView ∅

def parseQueryLine (line : Bytes) : Except StdError QueryLine := do
  let (method, sstream) := extract line
  let (path, sstream) := extract sstream
  let (version, _) := extract sstream
  let method := toLowercase method
  let versionView ← removePrefix version (find versionSep version + 1)
  return {
    method :=
      if method = ascii "get" then .get
      else if method = ascii "post" then .post
      else .unsupported
    version :=
      if versionView = ascii "1.0" then .v1_0
      else if versionView = ascii "1.1" then .v1_1
      else .unsupported
    path }

def splitUntilBody (buffer : Bytes) : Except StdError (Bytes × Bytes) := do
  let size := find endline buffer
  let firstLine ← substr buffer 0 size
  let view ← removePrefix buffer (size + 2)
  let size := find headersEnd view
  let headers ← substr view 0 (size + 2)
  return (firstLine, headers)

/-! ## Positions -/

theorem maxSize_lt : maxSize < UInt64.size := by decide

theorem toNat_ofNat {n : Nat} (h : n ≤ maxSize) : (UInt64.ofNat n).toNat = n :=
  UInt64.toNat_ofNat_of_lt' (Nat.lt_of_le_of_lt h maxSize_lt)

theorem toNat_size {view : Bytes} (h : view.length ≤ maxSize) : (size view).toNat = view.length :=
  toNat_ofNat h

/-- A found position leaves room for the pattern. -/
theorem room_of_find (pat : Bytes) {view : Bytes} (hsize : view.length ≤ maxSize) :
    ∀ i ∈ Lib.find pat view 0, i + pat.length ≤ maxSize :=
  fun _ hi => (Lib.find_add_length hi).trans hsize

theorem toNat_position_add {p : Option Nat} {k : UInt64} {n : Nat} (hk : k.toNat = n)
    (hpos : 0 < n) (h : ∀ i ∈ p, i + n ≤ maxSize) : (position p + k).toNat = plus p n := by
  have hmax := maxSize_lt
  have hsize : UInt64.size = 18446744073709551616 := rfl
  have hbound := k.toNat_lt
  rw [UInt64.toNat_add]
  cases p with
  | none =>
    rw [position, plus, show npos.toNat = 18446744073709551615 from rfl]
    omega
  | some i =>
    have hroom := h i rfl
    rw [position, plus, toNat_ofNat (by omega)]
    omega

theorem toNat_find_add {pat view : Bytes} {k : UInt64} {n : Nat} (hk : k.toNat = n) (hpos : 0 < n)
    (hn : n ≤ pat.length) (hsize : view.length ≤ maxSize) :
    (find pat view + k).toNat = plus (Lib.find pat view 0) n :=
  toNat_position_add hk hpos fun i hi =>
    (Nat.add_le_add_left hn i).trans (room_of_find pat hsize i hi)

theorem substr_zero {view : Bytes} {p : Option Nat} (hsize : view.length ≤ maxSize)
    (h : ∀ i ∈ p, i ≤ maxSize) : substr view 0 (position p) = .ok (upTo view p) := by
  rw [substr, show (0 : UInt64).toNat = 0 from rfl, if_pos (Nat.zero_le _), List.drop_zero]
  cases p with
  | none =>
    rw [position, upTo, List.take_of_length_le (hsize.trans (by decide))]
  | some i => rw [position, upTo, toNat_ofNat (h i rfl)]

theorem substr_find {pat view : Bytes} (hsize : view.length ≤ maxSize) :
    substr view 0 (find pat view) = .ok (upTo view (Lib.find pat view 0)) :=
  substr_zero hsize fun i hi => (Nat.le_add_right i _).trans (room_of_find _ hsize i hi)

theorem substr_npos {view : Bytes} (hsize : view.length ≤ maxSize) (pos : UInt64) :
    substr view pos npos = substrFrom view (some pos.toNat) := by
  have htake : (view.drop pos.toNat).take npos.toNat = view.drop pos.toNat := by
    refine List.take_of_length_le ?_
    rw [List.length_drop]
    exact ((Nat.sub_le _ _).trans hsize).trans (by decide)
  rw [substr, substrFrom, htake]

theorem substr_position {view : Bytes} (hsize : view.length ≤ maxSize) {p : Option Nat}
    (h : ∀ i ∈ p, i ≤ maxSize) : substr view (position p) npos = substrFrom view p := by
  rw [substr_npos hsize]
  cases p with
  | none =>
    have hfar : ¬ npos.toNat ≤ view.length :=
      Nat.not_le.mpr (Nat.lt_of_le_of_lt hsize (by decide))
    rw [position, substrFrom, if_neg hfar, substrFrom]
  | some i => rw [position, toNat_ofNat (h i rfl)]

theorem removePrefix_eq (view : Bytes) {n : UInt64} {m : Nat} (h : n.toNat = m) :
    removePrefix view n = Http.removePrefix view m := by
  rw [removePrefix, h, Http.removePrefix]

theorem removePrefix_find (pat : Bytes) {view : Bytes} {k : UInt64} {n : Nat} (hk : k.toNat = n)
    (hpos : 0 < n) (hn : n ≤ pat.length) (hsize : view.length ≤ maxSize) :
    removePrefix view (find pat view + k) =
      Http.removePrefix view (plus (Lib.find pat view 0) n) :=
  removePrefix_eq view (toNat_find_add hk hpos hn hsize)

theorem removePrefix_one (c : UInt8) (rest : Bytes) : removePrefix (c :: rest) 1 = .ok rest := by
  rw [removePrefix_eq _ rfl, removePrefix_of_le (Nat.le_add_left 1 rest.length)]
  rfl

theorem charAt_of_lt {view : Bytes} {i : UInt64} {n : Nat} (hi : i.toNat = n)
    (h : n < view.length) : charAt view i = .ok (view.getD n 0) := by
  rw [charAt, hi, List.getElem?_eq_getElem h, List.getD_eq_getElem?_getD,
    List.getElem?_eq_getElem h]
  rfl

/-! ## The parsers compute the same -/

theorem decodeUrlLoop_eq {fuel : Nat} {view : Bytes} (hfuel : view.length ≤ fuel)
    (hsize : view.length ≤ maxSize) (result : Bytes) :
    decodeUrlLoop fuel view result = .ok (Http.decodeUrlLoop result view) := by
  induction fuel generalizing view result with
  | zero =>
    obtain rfl := List.length_eq_zero_iff.mp (Nat.le_zero.mp hfuel)
    rfl
  | succ fuel ih =>
    cases view with
    | nil => rfl
    | cons c rest =>
      rw [List.length_cons] at hfuel hsize
      have hfront : charAt (c :: rest) 0 = .ok c := rfl
      rw [decodeUrlLoop, hfront]
      by_cases hc : c = 37
      · subst hc
        rcases rest with _ | ⟨a, _ | ⟨b, rest⟩⟩
        · rfl
        · rfl
        · simp only [List.length_cons] at hfuel hsize
          have hlong : ¬ size (37 :: a :: b :: rest) < 3 := by
            rw [UInt64.lt_iff_toNat_lt, toNat_size (by simpa using hsize)]
            simp
          have hskip : removePrefix (37 :: a :: b :: rest) 3 = .ok rest := by
            rw [removePrefix_eq _ rfl, removePrefix_of_le (by simp)]
            rfl
          have hfirst : charAt (37 :: a :: b :: rest) 1 = .ok a := rfl
          have hsecond : charAt (37 :: a :: b :: rest) 2 = .ok b := rfl
          simp only [bind, Except.bind, hlong, hskip, hfirst, hsecond, Http.decodeUrlLoop, if_true,
            if_false]
          exact ih (by omega) (by omega) _
      · rw [decodeUrlLoop_plain hc, ← ih (by omega) (by omega)]
        simp only [bind, Except.bind, hc, removePrefix_one, if_false]

theorem decodeUrl_eq {encodedStr : Bytes} (hsize : encodedStr.length ≤ maxSize) :
    decodeUrl encodedStr = .ok (Http.decodeUrl encodedStr) :=
  decodeUrlLoop_eq (Nat.le_refl _) hsize []

theorem length_drop_le {view : Bytes} (hsize : view.length ≤ maxSize) (n : Nat) :
    (view.drop n).length ≤ maxSize := by
  rw [List.length_drop]
  exact (Nat.sub_le _ _).trans hsize

theorem length_upTo {view : Bytes} (hsize : view.length ≤ maxSize) (n : Option Nat) :
    (upTo view n).length ≤ maxSize :=
  (length_upTo_le view n).trans hsize

theorem skipAmpersand_eq (c : UInt8) (rest : Bytes) :
    skipAmpersand (c :: rest) = .ok (if c = 38 then rest else c :: rest) := by
  have hfront : charAt (c :: rest) 0 = .ok c := rfl
  simp only [skipAmpersand, bind, Except.bind, hfront, removePrefix_one]
  split <;> rfl

theorem queryPair_eq {line : Bytes} (hsize : line.length ≤ maxSize) :
    queryPair line = .ok (pairOfPiece line) := by
  have hvalue : (find (ascii "=") line + 1).toNat = plus (Lib.find (ascii "=") line 0) 1 :=
    toNat_find_add rfl Nat.one_pos (Nat.le_refl 1) hsize
  have hafter := substrFrom_of_le (plus_find_le (ascii "=") line rfl)
  simp only [queryPair, bind, Except.bind, substr_find hsize, substr_npos hsize, hvalue, hafter,
    decodeUrl_eq (length_upTo hsize _), decodeUrl_eq (length_drop_le hsize _)]
  rfl

theorem parseQueryLoop_eq (fuel : Nat) {queryString : Bytes} (hsize : queryString.length ≤ maxSize)
    (params : StringMap) :
    parseQueryLoop fuel queryString params = Http.parseQueryLoop fuel queryString params := by
  induction fuel generalizing queryString params with
  | zero => cases queryString <;> rfl
  | succ fuel ih =>
    cases queryString with
    | nil => rfl
    | cons c rest =>
      have hquery : (if c = 38 then rest else c :: rest).length ≤ maxSize := by
        split
        · exact (Nat.le_succ _).trans hsize
        · exact hsize
      rw [parseQueryLoop, Http.parseQueryLoop, skipAmpersand_eq]
      generalize (if c = 38 then rest else c :: rest) = query at hquery ⊢
      have hline := length_upTo hquery (Lib.find (ascii "&") query 0)
      have hroom := length_upTo_le query (Lib.find (ascii "&") query 0)
      simp only [bind, Except.bind, substr_find hquery, queryPair_eq hline,
        removePrefix_eq query (toNat_size hline), removePrefix_of_le hroom,
        substrFrom_of_le (plus_find_le (ascii "=") _ rfl)]
      exact ih (length_drop_le hquery _) _

theorem makeParams_eq {firstLine : QueryLine} (hsize : firstLine.path.length ≤ maxSize) :
    makeParams firstLine = Http.makeParams firstLine := by
  have hroom := room_of_find questionMark hsize
  have hpos : find questionMark firstLine.path =
      position (Lib.find questionMark firstLine.path 0) := rfl
  rw [makeParams, Http.makeParams, hpos]
  rcases hfind : Lib.find questionMark firstLine.path 0 with _ | i
  · rfl
  · have hi : i + 1 ≤ firstLine.path.length := Lib.find_add_length hfind
    have hsum : (position (some i) + 1).toNat = i + 1 := by
      rw [hfind] at hroom
      exact toNat_position_add (n := 1) rfl Nat.one_pos hroom
    have hne : position (some i) ≠ npos := fun heq => by
      have hnat := congrArg UInt64.toNat heq
      rw [position, toNat_ofNat (by omega)] at hnat
      have hmax : maxSize < npos.toNat := by decide
      omega
    simp only [hne, if_false, substr_npos hsize, hsum, substrFrom_of_le hi]
    exact parseQueryLoop_eq _ (length_drop_le hsize _) ∅

/-! ### `rtrim` -/

theorem toInt_ofNat_pos {n : Nat} (h : n ≤ maxSize) : 0 < Int64.ofNat n ↔ 0 < n := by
  rw [Int64.lt_iff_toInt_lt, Int64.toInt_zero,
    Int64.toInt_ofNat_of_lt (Nat.lt_of_le_of_lt h (by decide))]
  exact Int.natCast_pos

theorem ofNat_succ_sub_one (n : Nat) : Int64.ofNat (n + 1) - 1 = Int64.ofNat n := by
  rw [Int64.ofNat_add]
  exact Int64.add_sub_cancel _ _

theorem rtrimLoop_eq {v : Bytes} (hsize : v.length ≤ maxSize) {i fuel : Nat} (hi : i < v.length)
    (hfuel : i ≤ fuel) :
    rtrimLoop v fuel (.ofNat i) = .ok (.ofNat (Http.rtrimLoop v i)) := by
  induction i generalizing fuel with
  | zero => cases fuel <;> rfl
  | succ i ih =>
    obtain ⟨fuel, rfl⟩ : ∃ fuel', fuel = fuel' + 1 := ⟨fuel - 1, by omega⟩
    have hpos : 0 < Int64.ofNat (i + 1) := (toInt_ofNat_pos (by omega)).mpr (Nat.succ_pos i)
    have hchar : charAt v (Int64.ofNat (i + 1)).toUInt64 = .ok (v.getD (i + 1) 0) :=
      charAt_of_lt (toNat_ofNat (by omega)) hi
    rw [rtrimLoop, if_pos hpos, hchar, rtrimLoop_succ]
    by_cases htrimmed : Trimmed (v.getD (i + 1) 0)
    · simp only [bind, Except.bind, htrimmed, if_true, ofNat_succ_sub_one]
      exact ih (by omega) (by omega)
    · simp only [bind, Except.bind, htrimmed, if_false]
      rfl

theorem rtrim_eq {v : Bytes} (hsize : v.length ≤ maxSize) : rtrim v = .ok (Http.rtrim v) := by
  rcases hlen : v.length with _ | n
  · obtain rfl := List.length_eq_zero_iff.mp hlen
    rfl
  · have hlast : (size v - 1).toInt64 = Int64.ofNat n := by
      rw [size, hlen, UInt64.ofNat_add]
      exact congrArg UInt64.toInt64 (UInt64.add_sub_cancel _ _)
    have hle := Http.rtrimLoop_le v n
    have hkept : (size v - (Int64.ofNat (Http.rtrimLoop v n)).toUInt64 - 1).toNat =
        v.length - (Http.rtrimLoop v n + 1) := by
      have hi : (Int64.ofNat (Http.rtrimLoop v n)).toUInt64.toNat = Http.rtrimLoop v n :=
        toNat_ofNat (by omega)
      have hsub : (Int64.ofNat (Http.rtrimLoop v n)).toUInt64 ≤ size v := by
        rw [UInt64.le_iff_toNat_le, hi, toNat_size hsize]
        omega
      have hone : 1 ≤ size v - (Int64.ofNat (Http.rtrimLoop v n)).toUInt64 := by
        rw [UInt64.le_iff_toNat_le, UInt64.toNat_sub_of_le _ _ hsub, hi, toNat_size hsize]
        show 1 ≤ _
        omega
      rw [UInt64.toNat_sub_of_le _ _ hone, UInt64.toNat_sub_of_le _ _ hsub, hi, toNat_size hsize]
      rfl
    rw [rtrim, hlast, rtrimLoop_eq hsize (by omega) (by omega)]
    simp only [bind, Except.bind, removeSuffix, hkept]
    rw [if_pos (Nat.sub_le _ _), rtrim_eq_take, hlen, Nat.add_sub_cancel,
      Nat.sub_sub_self (by omega)]

/-! ### The head -/

theorem findFirstNotOf_le {set view : Bytes} (hsize : view.length ≤ maxSize) (pos : Nat) :
    ∀ i ∈ Http.findFirstNotOf set view pos, i ≤ maxSize := by
  intro i hi
  obtain ⟨k, hk, rfl⟩ := Option.map_eq_some_iff.mp hi
  obtain ⟨hlt, -⟩ := List.findIdx?_eq_some_iff_getElem.mp hk
  rw [List.length_drop] at hlt
  omega

theorem headersMapLine_eq {headersView : Bytes} (hsize : headersView.length ≤ maxSize) :
    headersMapLine headersView = HeadersMap.line headersView := by
  have hline := length_upTo hsize (Lib.find endline headersView 0)
  have hnext := removePrefix_find endline (k := 2) (n := 2) rfl Nat.two_pos (Nat.le_refl 2) hsize
  simp only [headersMapLine, HeadersMap.line, substr_find hsize, hnext, bind,
    Except.bind]
  generalize upTo headersView (Lib.find endline headersView 0) = line at hline ⊢
  have hafter : (find separator line + 1).toNat = plus (Lib.find separator line 0) 1 :=
    toNat_find_add rfl Nat.one_pos (Nat.le_refl 1) hline
  have hname := length_upTo hline (Lib.find separator line 0)
  simp only [substr_find hline, rtrim_eq hname, findFirstNotOf, hafter,
    substr_position hline (findFirstNotOf_le hline _)]

theorem headersMapLoop_eq (fuel : Nat) {headersView : Bytes}
    (hsize : headersView.length ≤ maxSize) (data : StringMap) :
    headersMapLoop fuel headersView data = HeadersMap.loop fuel headersView data := by
  induction fuel generalizing headersView data with
  | zero => cases headersView <;> rfl
  | succ fuel ih =>
    cases headersView with
    | nil => rfl
    | cons c view =>
      rw [headersMapLoop, HeadersMap.loop, headersMapLine_eq hsize,
        HeadersMap.line_eq (List.cons_ne_nil c view)]
      split
      · rfl
      · exact ih (length_drop_le hsize _) _

theorem parseHeadersMap_eq {headersView : Bytes} (hsize : headersView.length ≤ maxSize) :
    parseHeadersMap headersView = HeadersMap.parse headersView :=
  headersMapLoop_eq _ hsize ∅

theorem length_extract (stream : Bytes) :
    (extract stream).1.length + (extract stream).2.length ≤ stream.length := by
  have hsplit := congrArg List.length
    (List.takeWhile_append_dropWhile (p := fun c => !isSpace c) (l := stream.dropWhile isSpace))
  rw [List.length_append] at hsplit
  exact hsplit.trans_le (List.dropWhile_suffix isSpace).length_le

theorem parseQueryLine_eq {line : Bytes} (hsize : line.length ≤ maxSize) :
    parseQueryLine line = QueryLine.parse line := by
  have hmethod := length_extract line
  have hpath := length_extract (extract line).2
  have hversion := length_extract (extract (extract line).2).2
  have hroom : (extract (extract (extract line).2).2).1.length ≤ maxSize := by omega
  have hafter :=
    removePrefix_find versionSep (k := 1) (n := 1) rfl Nat.one_pos (Nat.le_refl 1) hroom
  simp only [parseQueryLine, QueryLine.parse, hafter]

theorem splitUntilBody_eq {buffer : Bytes} (hsize : buffer.length ≤ maxSize) :
    splitUntilBody buffer = Http.splitUntilBody buffer := by
  have hnext := removePrefix_find endline (k := 2) (n := 2) rfl Nat.two_pos (Nat.le_refl 2) hsize
  simp only [splitUntilBody, Http.splitUntilBody, substr_find hsize, hnext, bind,
    Except.bind]
  by_cases hroom : plus (Lib.find endline buffer 0) 2 ≤ buffer.length
  · have hview := length_drop_le hsize (plus (Lib.find endline buffer 0) 2)
    rw [removePrefix_of_le hroom]
    generalize buffer.drop (plus (Lib.find endline buffer 0) 2) = view at hview ⊢
    have hend : (find headersEnd view + 2).toNat = plus (Lib.find headersEnd view 0) 2 :=
      toNat_find_add rfl Nat.two_pos (by decide) hview
    simp only [substr, hend, upTo]
    rfl
  · rw [Http.removePrefix, if_neg hroom]

theorem length_splitUntilBody {buffer firstLineView headersView : Bytes}
    (hsize : buffer.length ≤ maxSize)
    (h : Http.splitUntilBody buffer = .ok (firstLineView, headersView)) :
    firstLineView.length ≤ maxSize ∧ headersView.length ≤ maxSize := by
  rw [Http.splitUntilBody, Http.removePrefix] at h
  split at h
  · cases h
    exact ⟨length_upTo hsize _, length_upTo (length_drop_le hsize _) _⟩
  · cases h

theorem length_path {line : Bytes} {firstLine : QueryLine} (hsize : line.length ≤ maxSize)
    (h : QueryLine.parse line = .ok firstLine) : firstLine.path.length ≤ maxSize := by
  have hmethod := length_extract line
  have hpath := length_extract (extract line).2
  simp only [QueryLine.parse, removePrefix_of_le (plus_find_le versionSep _ rfl)] at h
  cases h
  show (extract (extract line).2).1.length ≤ maxSize
  omega

/-- A string that fits into memory. -/
structure Text where
  bytes : Bytes
  fits : bytes.length ≤ maxSize

/-- On every buffer with the end of a head the parsers stay inside of their views and end; only
`HeadersMap` throws, on a line that is blank behind its separator. -/
theorem head_parsers_total {buffer : Text} (h : headersEnd <:+: buffer.bytes) :
    ∃ firstLineView headersView firstLine params,
      splitUntilBody buffer.bytes = .ok (firstLineView, headersView) ∧
      parseQueryLine firstLineView = .ok firstLine ∧
      makeParams firstLine = .ok params ∧
      ((∃ headers, parseHeadersMap headersView = .ok headers) ∨
        parseHeadersMap headersView = .error .outOfRange ∧
          ∃ line ∈ HeadersMap.lines headersView, BlankBehind line) := by
  obtain ⟨p, hfind⟩ : ∃ p, Lib.find headersEnd buffer.bytes 0 = some p := by
    rw [← Option.ne_none_iff_exists', Lib.find_zero, ne_eq, Lib.firstOcc_eq_none, not_not]
    exact h
  obtain ⟨⟨firstLineView, headersView⟩, hsplit⟩ := splitUntilBody_ok hfind
  obtain ⟨hfirst, hheaders⟩ := length_splitUntilBody buffer.fits hsplit
  obtain ⟨firstLine, hline⟩ := QueryLine.parse_ok firstLineView
  obtain ⟨params, hparams⟩ := makeParams_ok firstLine
  refine ⟨firstLineView, headersView, firstLine, params, ?_, ?_, ?_, ?_⟩
  · rw [splitUntilBody_eq buffer.fits, hsplit]
  · rw [parseQueryLine_eq hfirst, hline]
  · rw [makeParams_eq (length_path hfirst hline), hparams]
  · rw [parseHeadersMap_eq hheaders, HeadersMap.parse_eq]
    by_cases hblank : ∃ line ∈ HeadersMap.lines headersView, BlankBehind line
    · rw [if_pos hblank]
      exact .inr ⟨rfl, hblank⟩
    · rw [if_neg hblank]
      exact .inl ⟨_, rfl⟩

/-- A head with a broken escape in its query and a header line of blanks. -/
def hostileHead : Text := ⟨ascii "GET /?%4&=\r\n \t\r\n\r\n", by decide⟩

theorem head_parsers_total_hostile :
    ∃ firstLineView headersView firstLine params,
      splitUntilBody hostileHead.bytes = .ok (firstLineView, headersView) ∧
      parseQueryLine firstLineView = .ok firstLine ∧
      makeParams firstLine = .ok params ∧
      ((∃ headers, parseHeadersMap headersView = .ok headers) ∨
        parseHeadersMap headersView = .error .outOfRange ∧
          ∃ line ∈ HeadersMap.lines headersView, BlankBehind line) :=
  head_parsers_total ⟨ascii "GET /?%4&=\r\n \t", [], rfl⟩

end AdvCppTP.Http.Word
