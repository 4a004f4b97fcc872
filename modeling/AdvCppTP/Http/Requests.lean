import AdvCppTP.Http.HeaderLines
import AdvCppTP.Http.Receiver

/-! Complete requests on the wire, and what the parsers make of them. -/

namespace AdvCppTP.Http

/-! ## Parsers that do not fail -/

theorem QueryLine.parse_ok (line : Bytes) : ∃ firstLine, QueryLine.parse line = .ok firstLine := by
  simp only [QueryLine.parse, removePrefix_of_le (plus_find_le versionSep _ rfl)]
  exact ⟨_, rfl⟩

theorem parseQueryLoop_ok (fuel : Nat) (queryString : Bytes) (params : StringMap)
    (h : queryString.length ≤ fuel) :
    ∃ params', parseQueryLoop fuel queryString params = .ok params' := by
  -- each turn takes a byte off the query: the `&` in front, or a piece that is not empty
  induction fuel generalizing queryString params with
  | zero =>
    obtain rfl := List.length_eq_zero_iff.mp (Nat.le_zero.mp h)
    exact ⟨params, by rw [parseQueryLoop]⟩
  | succ fuel ih =>
    cases queryString with
    | nil => exact ⟨params, by rw [parseQueryLoop]⟩
    | cons c rest =>
      simp only [List.length_cons, Nat.add_le_add_iff_right] at h
      rw [parseQueryLoop]
      simp only [substrFrom_of_le (plus_find_le (ascii "=") _ rfl),
        removePrefix_of_le (length_upTo_le _ _)]
      refine ih _ _ ?_
      rw [List.length_drop]
      by_cases hc : c = 38
      · rw [if_pos hc]
        omega
      · rw [if_neg hc, List.length_cons]
        have hpiece : 0 < (upTo (c :: rest) (Lib.find (ascii "&") (c :: rest) 0)).length := by
          rcases hpos : Lib.find (ascii "&") (c :: rest) 0 with _ | _ | i
          · exact Nat.succ_pos _
          · rw [Lib.find_zero] at hpos
            have hprefix := (Lib.firstOcc_eq_some.mp hpos).2.1
            exact absurd (List.cons_prefix_cons.mp hprefix).1.symm hc
          · simp [upTo]
        omega

theorem makeParams_ok (firstLine : QueryLine) : ∃ params, makeParams firstLine = .ok params := by
  rw [makeParams]
  split
  · exact ⟨∅, rfl⟩
  case h_2 pos hpos =>
    have hlen : pos + 1 ≤ firstLine.path.length := Lib.find_add_length hpos
    rw [substrFrom_of_le hlen]
    exact parseQueryLoop_ok _ _ ∅ (Nat.le_refl _)

theorem HttpRequest.make_ok (firstLine : QueryLine) (headers : StringMap) (body : Bytes) :
    ∃ request, HttpRequest.make firstLine headers body = .ok request := by
  obtain ⟨params, hparams⟩ := makeParams_ok firstLine
  exact ⟨_, by rw [HttpRequest.make, hparams]; rfl⟩

theorem HttpRequest.make_body {firstLine : QueryLine} {headers : StringMap} {body : Bytes}
    {request : HttpRequest} (h : HttpRequest.make firstLine headers body = .ok request) :
    request.body = body := by
  obtain ⟨params, hparams⟩ := makeParams_ok firstLine
  rw [HttpRequest.make, hparams] at h
  exact (congrArg HttpRequest.body (Except.ok.inj h)).symm

/-! ## Header lines -/

/-- A header line `name ':' value` whose value is not blank. -/
structure Field where
  name : Bytes
  value : Bytes
  name_noSeparator : 58 ∉ name
  value_notBlank : ∃ c ∈ value, c ∉ whitespaces
  noEndline : ¬ endline <:+: name ++ 58 :: value

def Field.bytes (f : Field) : Bytes := f.name ++ 58 :: f.value

def Field.stored (f : Field) : Bytes × Bytes :=
  (toLowercase (rtrim f.name), f.value.drop (f.value.findIdx fun c => c ∉ whitespaces))

theorem Field.bytes_ne_nil (f : Field) : f.bytes ≠ [] := by
  rw [Field.bytes]
  exact List.append_ne_nil_of_right_ne_nil _ (List.cons_ne_nil _ _)

theorem Field.find_separator (f : Field) :
    Lib.find separator f.bytes 0 = some f.name.length := by
  rw [Lib.find_zero]
  exact Lib.firstOcc_singleton f.name_noSeparator f.value

theorem Field.afterSeparator_eq (f : Field) : afterSeparator f.bytes = f.value := by
  rw [afterSeparator, f.find_separator, plus, Field.bytes, ← List.drop_drop, List.drop_left]
  rfl

theorem Field.not_blankBehind (f : Field) : ¬ BlankBehind f.bytes := by
  obtain ⟨c, hc, hnot⟩ := f.value_notBlank
  rw [BlankBehind, f.afterSeparator_eq]
  exact fun hblank => hnot (hblank c hc)

theorem Field.storedEntry_eq (f : Field) : storedEntry f.bytes = f.stored := by
  have hname : upTo f.bytes (some f.name.length) = f.name := by
    rw [upTo, Field.bytes, List.take_left]
  rw [storedEntry, f.afterSeparator_eq, f.find_separator, hname, Field.stored,
    List.dropWhile_eq_drop_findIdx_not]
  simp only [decide_not]

/-! ## Heads -/

theorem firstOcc_headerLines {line : Bytes} {lines : List Bytes}
    (hlines : ∀ l ∈ line :: lines, l ≠ [] ∧ ¬ endline <:+: l) (rest : Bytes) :
    Lib.firstOcc headersEnd (((line :: lines).flatMap fun l => l ++ endline) ++ endline ++ rest) =
      some (((line :: lines).flatMap fun l => l ++ endline).length - 2) := by
  have hhead : ((line :: lines).flatMap fun l => l ++ endline) ++ endline ++ rest =
      headBytes line lines ++ rest := by
    rw [headBytes, List.flatMap_cons]
  have hlen : (headBytes line lines).length - 4 =
      ((line :: lines).flatMap fun l => l ++ endline).length - 2 := by
    rw [length_headBytes, List.flatMap_cons, List.length_append, List.length_append,
      show endline.length = 2 from rfl]
    omega
  rw [hhead, ← hlen]
  exact firstOcc_headBytes (hlines line List.mem_cons_self).2
    (fun l hl => hlines l (List.mem_cons_of_mem line hl)) rest

theorem splitUntilBody_ok {buffer : Bytes} {p : Nat} (h : Lib.find headersEnd buffer 0 = some p) :
    ∃ views, splitUntilBody buffer = .ok views := by
  have hends : endline <+: headersEnd := ⟨endline, rfl⟩
  rw [Lib.find_zero] at h
  obtain ⟨hlen, hocc, -⟩ := Lib.firstOcc_eq_some.mp h
  obtain ⟨i, -, hi⟩ := Lib.firstOcc_le hlen (hends.trans hocc)
  rw [← Lib.find_zero] at hi
  have hle : i + 2 ≤ buffer.length := Lib.find_add_length hi
  rw [splitUntilBody, hi]
  simp only [plus, removePrefix_of_le hle]
  exact ⟨_, rfl⟩

theorem splitUntilBody_of_firstOcc {line rest : Bytes} (hline : ¬ endline <:+: line) :
    splitUntilBody (line ++ endline ++ rest) =
      .ok (line, upTo rest (some (plus (Lib.find headersEnd rest 0) 2))) := by
  have hshape : line ++ endline ++ rest = line ++ 13 :: 10 :: rest := by
    rw [List.append_assoc]
    rfl
  have hfind : Lib.find endline (line ++ endline ++ rest) 0 = some line.length := by
    rw [Lib.find_zero, hshape]
    exact Lib.firstOcc_pair (by decide) hline _
  have hroom : line.length + 2 ≤ (line ++ endline ++ rest).length := by
    rw [List.length_append, List.length_append, show endline.length = 2 from rfl]
    omega
  have hdrop : (line ++ endline ++ rest).drop (line.length + 2) = rest := by
    rw [hshape, ← List.drop_drop, List.drop_left]
    rfl
  have htake : (line ++ endline ++ rest).take line.length = line := by
    rw [List.append_assoc, List.take_left]
  rw [splitUntilBody, hfind]
  simp only [plus, removePrefix_of_le hroom, hdrop, upTo, htake]
  rfl

theorem splitUntilBody_headBytes {line : Bytes} {lines : List Bytes} (hline : ¬ endline <:+: line)
    (hne : lines ≠ []) (hlines : ∀ l ∈ lines, l ≠ [] ∧ ¬ endline <:+: l) (rest : Bytes) :
    splitUntilBody (headBytes line lines ++ rest) =
      .ok (line, lines.flatMap fun l => l ++ endline) := by
  obtain ⟨l, lines, rfl⟩ := List.exists_cons_of_ne_nil hne
  have hshape : headBytes line (l :: lines) ++ rest =
      line ++ endline ++ (((l :: lines).flatMap fun l => l ++ endline) ++ endline ++ rest) := by
    simp only [headBytes, List.append_assoc]
  have htwo : ((l :: lines).flatMap fun l => l ++ endline).length - 2 + 2 =
      ((l :: lines).flatMap fun l => l ++ endline).length := by
    rw [List.flatMap_cons, List.length_append, List.length_append,
      show endline.length = 2 from rfl]
    omega
  rw [hshape, splitUntilBody_of_firstOcc hline, Lib.find_zero, firstOcc_headerLines hlines]
  simp only [plus, upTo, htwo]
  rw [List.append_assoc, List.take_left]

/-! ## Requests -/

/-- The header lines of a request as `split_until_body` hands them on. -/
def headersView (fields : List Field) : Bytes := fields.flatMap fun f => f.bytes ++ endline

/-- The first line with a name gives its value. -/
def storeFields (fields : List Field) (data : StringMap) : StringMap :=
  fields.foldl (fun data f => Lib.emplace f.stored.1 f.stored.2 data) data

theorem headersView_eq (fields : List Field) :
    headersView fields = blockBytes (fields.map Field.bytes) :=
  (List.flatMap_map Field.bytes (fun l => l ++ endline) fields).symm

theorem storeFields_eq (fields : List Field) (data : StringMap) :
    storeFields fields data = storePairs (fields.map Field.stored) data := by
  rw [storeFields, storePairs, List.foldl_map]

theorem HeadersMap.parse_fields (fields : List Field) :
    HeadersMap.parse (headersView fields) = .ok (storeFields fields ∅) := by
  have hclean : ∀ l ∈ fields.map Field.bytes, ¬ endline <:+: l := fun l hl => by
    obtain ⟨f, -, rfl⟩ := List.mem_map.mp hl
    exact f.noEndline
  have hstored : (fields.map Field.bytes).map storedEntry = fields.map Field.stored := by
    rw [List.map_map]
    exact List.map_congr_left fun f _ => f.storedEntry_eq
  rw [headersView_eq, HeadersMap.parse_eq, HeadersMap.lines_block hclean, hstored, storeFields_eq,
    if_neg]
  rintro ⟨l, hl, hblank⟩
  obtain ⟨f, -, rfl⟩ := List.mem_map.mp hl
  exact f.not_blankBehind hblank

/-- A complete request: a request line, at least one header line and the body that
`Content-Length` announces. -/
structure RawRequest where
  line : Bytes
  fields : List Field
  body : Bytes
  line_noEndline : ¬ endline <:+: line
  fields_ne_nil : fields ≠ []
  framed : match (storeFields fields ∅).lookup contentLength with
    | some value => stoull value = .ok body.length
    | none => body = []

def RawRequest.head (r : RawRequest) : Bytes := headBytes r.line (r.fields.map Field.bytes)

def RawRequest.bytes (r : RawRequest) : Bytes := r.head ++ r.body

def RawRequest.hasLength (r : RawRequest) : Bool :=
  ((storeFields r.fields ∅).lookup contentLength).isSome

def RawRequest.parsed (r : RawRequest) : Except StdError HttpRequest := do
  let firstLine ← QueryLine.parse r.line
  let headers ← HeadersMap.parse (headersView r.fields)
  HttpRequest.make firstLine headers r.body

theorem RawRequest.parsed_ok (r : RawRequest) : ∃ request, r.parsed = .ok request := by
  obtain ⟨firstLine, hline⟩ := QueryLine.parse_ok r.line
  obtain ⟨request, hrequest⟩ := HttpRequest.make_ok firstLine (storeFields r.fields ∅) r.body
  refine ⟨request, ?_⟩
  rw [RawRequest.parsed, hline, HeadersMap.parse_fields]
  exact hrequest

theorem RawRequest.firstOcc_head (r : RawRequest) (rest : Bytes) :
    Lib.firstOcc headersEnd (r.head ++ rest) = some (r.head.length - 4) := by
  refine firstOcc_headBytes r.line_noEndline (fun l hl => ?_) rest
  obtain ⟨f, -, rfl⟩ := List.mem_map.mp hl
  exact ⟨f.bytes_ne_nil, f.noEndline⟩

theorem RawRequest.four_le_length_head (r : RawRequest) : 4 ≤ r.head.length := by
  rw [RawRequest.head, length_headBytes]
  omega

theorem RawRequest.splitUntilBody_eq (r : RawRequest) (rest : Bytes) :
    splitUntilBody (r.head ++ rest) = .ok (r.line, headersView r.fields) := by
  rw [RawRequest.head, splitUntilBody_headBytes r.line_noEndline, headersView_eq, blockBytes]
  · exact fun hnil => r.fields_ne_nil (List.map_eq_nil_iff.mp hnil)
  · intro l hl
    obtain ⟨f, -, rfl⟩ := List.mem_map.mp hl
    exact ⟨f.bytes_ne_nil, f.noEndline⟩

end AdvCppTP.Http
