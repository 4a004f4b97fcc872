import AdvCppTP.Http.Requests

/-! Query parameters from a percent-encoded request line: the tokens of the line, the query behind
the `?`, its pairs and their bytes come back as they were before the encoding. -/

namespace AdvCppTP.Http

/-! ## Percent-encoding -/

def unreserved (c : UInt8) : Prop :=
  48 ≤ c ∧ c ≤ 57 ∨ 65 ≤ c ∧ c ≤ 90 ∨ 97 ≤ c ∧ c ≤ 122 ∨ c ∈ ascii "-._~"

instance : DecidablePred unreserved := fun c =>
  inferInstanceAs (Decidable (48 ≤ c ∧ c ≤ 57 ∨ 65 ≤ c ∧ c ≤ 90 ∨ 97 ≤ c ∧ c ≤ 122 ∨
    c ∈ ascii "-._~"))

def hexDigit (c : UInt8) : Option Nat :=
  if 48 ≤ c ∧ c ≤ 57 then some (c.toNat - 48)
  else if 65 ≤ c ∧ c ≤ 70 then some (c.toNat - 55)
  else if 97 ≤ c ∧ c ≤ 102 then some (c.toNat - 87)
  else none

/-- The texts that encode a text: every byte is escaped, or it is unreserved and may stand for
itself. -/
inductive PercentEncoded : Bytes → Bytes → Prop
  | nil : PercentEncoded [] []
  | plain {c : UInt8} {raw enc : Bytes} (hc : unreserved c) (h : PercentEncoded raw enc) :
      PercentEncoded (c :: raw) (c :: enc)
  | escaped {c a b : UInt8} {x y : Nat} {raw enc : Bytes} (ha : hexDigit a = some x)
      (hb : hexDigit b = some y) (hc : c.toNat = 16 * x + y) (h : PercentEncoded raw enc) :
      PercentEncoded (c :: raw) (37 :: a :: b :: enc)

theorem byte_cases {P : UInt8 → Prop} (h : ∀ n < 256, P (UInt8.ofNat n)) (c : UInt8) : P c := by
  have hc := h c.toNat c.toNat_lt
  rwa [UInt8.ofNat_toNat] at hc

theorem hexDigit_spec {c : UInt8} {x : Nat} (h : hexDigit c = some x) :
    unreserved c ∧ digitValue 16 c = some x := by
  have hall : ∀ c, (hexDigit c).all fun x => decide (unreserved c ∧ digitValue 16 c = some x) :=
    byte_cases (by decide +kernel)
  have hc := hall c
  rw [h] at hc
  exact of_decide_eq_true hc

theorem unreserved.clean {c : UInt8} (h : unreserved c) :
    c ≠ 37 ∧ c ≠ 38 ∧ c ≠ 61 ∧ isSpace c = false := by
  have hall : ∀ c, unreserved c → c ≠ 37 ∧ c ≠ 38 ∧ c ≠ 61 ∧ isSpace c = false :=
    byte_cases (by decide +kernel)
  exact hall c h

theorem readSign_digit {c : UInt8} (h : digitValue 16 c ≠ none) (s : Bytes) :
    readSign (c :: s) = (false, c :: s) := by
  have hall : ∀ c, digitValue 16 c ≠ none → c ≠ 43 ∧ c ≠ 45 := byte_cases (by decide +kernel)
  obtain ⟨hplus, hminus⟩ := hall c h
  rw [readSign]
  · rintro s' ⟨⟩
    exact hplus rfl
  · rintro s' ⟨⟩
    exact hminus rfl

theorem PercentEncoded.clean {raw enc : Bytes} (h : PercentEncoded raw enc) :
    ∀ c ∈ enc, c ≠ 38 ∧ c ≠ 61 ∧ isSpace c = false := by
  induction h with
  | nil => exact fun c hc => absurd hc List.not_mem_nil
  | plain hc _ ih =>
    rintro d hd
    rcases List.mem_cons.mp hd with rfl | hd
    · exact hc.clean.2
    · exact ih d hd
  | escaped ha hb _ _ ih =>
    rintro d hd
    rcases List.mem_cons.mp hd with rfl | hd
    · decide
    rcases List.mem_cons.mp hd with rfl | hd
    · exact (hexDigit_spec ha).1.clean.2
    rcases List.mem_cons.mp hd with rfl | hd
    · exact (hexDigit_spec hb).1.clean.2
    · exact ih d hd

theorem decodeUrlLoop_plain {c : UInt8} (h : c ≠ 37) (result enc : Bytes) :
    decodeUrlLoop result (c :: enc) = decodeUrlLoop (result ++ [c]) enc := by
  rcases enc with _ | ⟨a, _ | ⟨b, enc⟩⟩
  · simp only [decodeUrlLoop, if_neg h]
  · rw [decodeUrlLoop.eq_3 result c [a] (by simp), if_neg h]
  · rw [decodeUrlLoop, if_neg h]

theorem hexByte_of_digits {a b : UInt8} {x y : Nat} (ha : hexDigit a = some x)
    (hb : hexDigit b = some y) : hexByte a b = UInt8.ofNat (16 * x + y) := by
  obtain ⟨haclean, hadigit⟩ := hexDigit_spec ha
  obtain ⟨-, hbdigit⟩ := hexDigit_spec hb
  have hspace : ([a, b] : Bytes).dropWhile isSpace = [a, b] :=
    List.dropWhile_cons_of_neg (by simp [haclean.clean.2.2.2])
  have hvalue : readDigits 16 0 [a, b] = 16 * x + y := by
    simp only [readDigits, hadigit, hbdigit]
    omega
  have hsign := readSign_digit (show digitValue 16 a ≠ none by simp [hadigit]) [b]
  simp only [hexByte, hspace, hsign, hvalue, Bool.false_eq_true, if_false]

theorem PercentEncoded.decodeUrlLoop {raw enc : Bytes} (h : PercentEncoded raw enc)
    (result : Bytes) : Http.decodeUrlLoop result enc = result ++ raw := by
  induction h generalizing result with
  | nil => rw [Http.decodeUrlLoop, List.append_nil]
  | plain hc _ ih =>
    rw [decodeUrlLoop_plain hc.clean.1, ih, List.append_assoc, List.singleton_append]
  | @escaped c a b x y raw enc ha hb hc _ ih =>
    have hbyte : hexByte a b = c := by
      rw [hexByte_of_digits ha hb, ← hc]
      exact UInt8.ofNat_toNat
    rw [Http.decodeUrlLoop, if_pos rfl, hbyte, ih, List.append_assoc, List.singleton_append]

theorem PercentEncoded.decodeUrl {raw enc : Bytes} (h : PercentEncoded raw enc) :
    Http.decodeUrl enc = raw :=
  h.decodeUrlLoop []

/-! ## The query -/

def pairBytes (p : Bytes × Bytes) : Bytes := p.1 ++ 61 :: p.2

/-- `k1=v1&k2=v2&...` -/
def queryBytes (pairs : List (Bytes × Bytes)) : Bytes :=
  List.intercalate [38] (pairs.map pairBytes)

theorem intercalate_cons {α : Type*} (sep p : List α) (ps : List (List α)) :
    List.intercalate sep (p :: ps) = p ++ ps.flatMap fun q => sep ++ q := by
  induction ps generalizing p with
  | nil => rw [List.intercalate_singleton, List.flatMap_nil, List.append_nil]
  | cons q ps ih =>
    simp only [List.intercalate_cons_cons, ih, List.flatMap_cons, List.append_assoc]

theorem queryBytes_cons (p : Bytes × Bytes) (pairs : List (Bytes × Bytes)) :
    queryBytes (p :: pairs) = pairBytes p ++ pairs.flatMap fun q => 38 :: pairBytes q := by
  rw [queryBytes, List.map_cons, intercalate_cons, List.flatMap_map]
  rfl

/-- The pairs that a pair of texts encodes. -/
def PairEncoded (p e : Bytes × Bytes) : Prop := PercentEncoded p.1 e.1 ∧ PercentEncoded p.2 e.2

theorem PairEncoded.noAmpersand {p e : Bytes × Bytes} (h : PairEncoded p e) :
    38 ∉ pairBytes e := by
  intro hmem
  rcases List.mem_append.mp hmem with hmem | hmem
  · exact (h.1.clean 38 hmem).1 rfl
  rcases List.mem_cons.mp hmem with heq | hmem
  · exact absurd heq (by decide)
  · exact (h.2.clean 38 hmem).1 rfl

theorem PairEncoded.noSpace {p e : Bytes × Bytes} (h : PairEncoded p e) :
    ∀ c ∈ pairBytes e, isSpace c = false := by
  intro c hc
  rcases List.mem_append.mp hc with hc | hc
  · exact (h.1.clean c hc).2.2
  rcases List.mem_cons.mp hc with rfl | hc
  · decide
  · exact (h.2.clean c hc).2.2

theorem queryBytes_noSpace {pairs encoded : List (Bytes × Bytes)}
    (h : List.Forall₂ PairEncoded pairs encoded) :
    ∀ c ∈ queryBytes encoded, isSpace c = false := by
  have htail : ∀ c ∈ encoded.flatMap fun e => 38 :: pairBytes e, isSpace c = false := by
    induction h with
    | nil => exact fun c hc => absurd hc List.not_mem_nil
    | cons hpair _ ih =>
      intro c hc
      rw [List.flatMap_cons, List.cons_append] at hc
      rcases List.mem_cons.mp hc with rfl | hc
      · decide
      · exact (List.mem_append.mp hc).elim (hpair.noSpace c) (ih c)
  cases encoded with
  | nil => exact fun c hc => absurd hc List.not_mem_nil
  | cons e encoded =>
    intro c hc
    rw [queryBytes_cons] at hc
    exact htail c (List.mem_cons_of_mem 38 hc)

theorem upTo_ampersand {line rest : Bytes} (h : 38 ∉ line)
    (hrest : rest = [] ∨ ∃ rest', rest = 38 :: rest') :
    upTo (line ++ rest) (Lib.find (ascii "&") (line ++ rest) 0) = line := by
  rw [Lib.find_zero]
  obtain rfl | ⟨rest', rfl⟩ := hrest
  · rw [List.append_nil]
    rcases hocc : Lib.firstOcc (ascii "&") line with _ | i
    · rfl
    · obtain ⟨-, ⟨tail, htail⟩, -⟩ := Lib.firstOcc_eq_some.mp hocc
      have hmem : (38 : UInt8) ∈ line.drop i := htail ▸ List.mem_cons_self
      exact absurd (List.mem_of_mem_drop hmem) h
  · rw [show ascii "&" = [38] from rfl, Lib.firstOcc_singleton h, upTo, List.take_left]

/-- The key and the value that a turn of the loop makes of a piece. Without a `=` the value is the
whole piece: `npos + 1` is 0. -/
def pairOfPiece (piece : Bytes) : Bytes × Bytes :=
  let headerLen := Lib.find (ascii "=") piece 0
  (decodeUrl (upTo piece headerLen), decodeUrl (piece.drop (plus headerLen 1)))

/-- One turn of the loop over the query. -/
theorem parseQueryLoop_piece {piece rest query : Bytes} (h : 38 ∉ piece)
    (hrest : rest = [] ∨ ∃ rest', rest = 38 :: rest')
    (hquery : piece ≠ [] ∧ query = piece ++ rest ∨ query = 38 :: (piece ++ rest)) (fuel : Nat)
    (params : StringMap) :
    parseQueryLoop (fuel + 1) query params =
      parseQueryLoop fuel rest
        (Lib.emplace (pairOfPiece piece).1 (pairOfPiece piece).2 params) := by
  have hline := upTo_ampersand h hrest
  have hvalue := plus_find_le (ascii "=") piece rfl
  have hnext : removePrefix (piece ++ rest) piece.length = .ok rest := by
    rw [removePrefix_of_le (by simp), List.drop_left]
  obtain ⟨c, tail, hcons, hfront⟩ : ∃ c tail, query = c :: tail ∧
      (if c = 38 then tail else c :: tail) = piece ++ rest := by
    obtain ⟨hne, hquery⟩ | hquery := hquery
    · obtain ⟨c, tail, rfl⟩ := List.exists_cons_of_ne_nil hne
      have hc : c ≠ 38 := fun heq => h (heq ▸ List.mem_cons_self)
      exact ⟨c, tail ++ rest, hquery, if_neg hc⟩
    · exact ⟨38, piece ++ rest, hquery, if_pos rfl⟩
  rw [hcons, parseQueryLoop]
  simp only [hfront, hline, substrFrom_of_le hvalue, hnext, bind, Except.bind]
  rfl

theorem PairEncoded.pairOfPiece_eq {p e : Bytes × Bytes} (h : PairEncoded p e) :
    pairOfPiece (pairBytes e) = p := by
  have hheader : Lib.find (ascii "=") (pairBytes e) 0 = some e.1.length := by
    rw [Lib.find_zero]
    exact Lib.firstOcc_singleton (fun hmem => (h.1.clean 61 hmem).2.1 rfl) e.2
  have hkey : upTo (pairBytes e) (some e.1.length) = e.1 := by rw [upTo, pairBytes, List.take_left]
  have hvalue : (pairBytes e).drop (e.1.length + 1) = e.2 := by
    rw [pairBytes, ← List.drop_drop, List.drop_left]
    rfl
  simp only [pairOfPiece, hheader, plus, hkey, hvalue, h.1.decodeUrl, h.2.decodeUrl]

theorem parseQueryLoop_pieces {pieces : List Bytes} (h : ∀ piece ∈ pieces, 38 ∉ piece)
    (fuel : Nat) (params : StringMap) (hfuel : pieces.length ≤ fuel) :
    parseQueryLoop fuel (pieces.flatMap fun piece => 38 :: piece) params =
      .ok (storePairs (pieces.map pairOfPiece) params) := by
  induction pieces generalizing fuel params with
  | nil => cases fuel <;> rfl
  | cons piece pieces ih =>
    rw [List.forall_mem_cons] at h
    obtain ⟨fuel, rfl⟩ : ∃ fuel', fuel = fuel' + 1 := Nat.exists_eq_succ_of_ne_zero (by
      rintro rfl
      exact absurd hfuel (by simp))
    have hrest : (pieces.flatMap fun piece => (38 : UInt8) :: piece) = [] ∨
        ∃ rest', (pieces.flatMap fun piece => (38 : UInt8) :: piece) = 38 :: rest' := by
      cases pieces with
      | nil => exact .inl rfl
      | cons piece pieces => exact .inr ⟨_, rfl⟩
    rw [List.flatMap_cons, parseQueryLoop_piece h.1 hrest (.inr (List.cons_append ..)),
      ih h.2 _ _ (Nat.le_of_succ_le_succ hfuel)]
    rfl

theorem length_le_flatMap_pieces (pieces : List Bytes) :
    pieces.length ≤ (pieces.flatMap fun piece => (38 : UInt8) :: piece).length := by
  induction pieces with
  | nil => exact Nat.zero_le _
  | cons piece pieces ih =>
    rw [List.flatMap_cons, List.length_append, List.length_cons, List.length_cons]
    omega

/-- The loop drops one `&` in front of each piece, and so an empty first piece. -/
theorem parseQueryString_pieces {first : Bytes} {pieces : List Bytes}
    (h : ∀ piece ∈ first :: pieces, 38 ∉ piece) (params : StringMap) :
    parseQueryString (first ++ pieces.flatMap fun piece => 38 :: piece) params =
      .ok (storePairs ((if first = [] then pieces else first :: pieces).map pairOfPiece)
        params) := by
  have hlen := length_le_flatMap_pieces pieces
  rw [List.forall_mem_cons] at h
  rw [parseQueryString]
  by_cases hfirst : first = []
  · rw [hfirst, if_pos rfl, List.nil_append]
    exact parseQueryLoop_pieces h.2 _ params hlen
  · have hpos := List.length_pos_of_ne_nil hfirst
    obtain ⟨fuel, hfuel, hroom⟩ : ∃ fuel,
        (first ++ pieces.flatMap fun piece => (38 : UInt8) :: piece).length = fuel + 1 ∧
          pieces.length ≤ fuel := by
      refine ⟨(first ++ pieces.flatMap fun piece => (38 : UInt8) :: piece).length - 1, ?_, ?_⟩ <;>
        rw [List.length_append] <;>
        omega
    have hrest : (pieces.flatMap fun piece => (38 : UInt8) :: piece) = [] ∨
        ∃ rest', (pieces.flatMap fun piece => (38 : UInt8) :: piece) = 38 :: rest' := by
      cases pieces with
      | nil => exact .inl rfl
      | cons piece pieces => exact .inr ⟨_, rfl⟩
    rw [hfuel, if_neg hfirst, parseQueryLoop_piece h.1 hrest (.inl ⟨hfirst, rfl⟩),
      parseQueryLoop_pieces h.2 fuel _ hroom]
    rfl

theorem parseQueryString_query {pairs encoded : List (Bytes × Bytes)}
    (h : List.Forall₂ PairEncoded pairs encoded) :
    parseQueryString (queryBytes encoded) ∅ = .ok (storePairs pairs ∅) := by
  have hpieces : ∀ {pairs encoded : List (Bytes × Bytes)}, List.Forall₂ PairEncoded pairs encoded →
      (∀ piece ∈ encoded.map pairBytes, 38 ∉ piece) ∧
        (encoded.map pairBytes).map pairOfPiece = pairs := by
    intro pairs encoded h
    induction h with
    | nil => exact ⟨List.forall_mem_nil _, rfl⟩
    | cons hpair _ ih =>
      rw [List.map_cons, List.forall_mem_cons, List.map_cons, hpair.pairOfPiece_eq, ih.2]
      exact ⟨⟨hpair.noAmpersand, ih.1⟩, rfl⟩
  obtain ⟨hclean, hpairs⟩ := hpieces h
  cases h with
  | nil => rfl
  | @cons p e pairs encoded hpair _ =>
    have hne : pairBytes e ≠ [] := by simp [pairBytes]
    have hquery := parseQueryString_pieces hclean ∅
    rw [if_neg hne, ← List.map_cons, hpairs, List.flatMap_map] at hquery
    rw [queryBytes_cons]
    exact hquery

theorem makeParams_query {firstLine : QueryLine} {path query : Bytes} (hpath : 63 ∉ path)
    (h : firstLine.path = path ++ 63 :: query) :
    makeParams firstLine = parseQueryString query ∅ := by
  have hmark : Lib.find questionMark (path ++ 63 :: query) 0 = some path.length := by
    rw [Lib.find_zero]
    exact Lib.firstOcc_singleton hpath query
  have hdrop : (path ++ 63 :: query).drop (path.length + 1) = query := by
    rw [← List.drop_drop, List.drop_left]
    rfl
  rw [makeParams, h, hmark]
  simp only [substrFrom_of_le (show path.length + 1 ≤ (path ++ 63 :: query).length by simp), hdrop]
  rfl

/-! ## The request line -/

/-- `QueryLine::to_string()`. -/
def QueryLine.toBytes (line : QueryLine) : Bytes :=
  (line.method.toBytes ++ ascii " ") ++ (line.path ++ ascii " ") ++ line.version.toBytes

theorem extract_token {token : Bytes} (hne : token ≠ []) (h : ∀ c ∈ token, isSpace c = false)
    {rest : Bytes} (hrest : rest = [] ∨ ∃ rest', rest = 32 :: rest') :
    extract (token ++ rest) = (token, rest) := by
  have hskip : (token ++ rest).dropWhile isSpace = token ++ rest := by
    obtain ⟨c, tail, rfl⟩ := List.exists_cons_of_ne_nil hne
    rw [List.cons_append]
    exact List.dropWhile_cons_of_neg (by simp [h c List.mem_cons_self])
  have hstop : rest.takeWhile (fun c => !isSpace c) = [] ∧
      rest.dropWhile (fun c => !isSpace c) = rest := by
    obtain rfl | ⟨rest', rfl⟩ := hrest <;> exact ⟨rfl, rfl⟩
  have hall : ∀ c ∈ token, (!isSpace c) = true := fun c hc => by rw [h c hc, Bool.not_false]
  rw [extract, hskip]
  simp only [List.takeWhile_append_of_pos hall, List.dropWhile_append_of_pos hall, hstop,
    List.append_nil]

theorem extract_blank (stream : Bytes) : extract (32 :: stream) = extract stream := by
  rw [extract, extract, List.dropWhile_cons_of_pos (by decide)]

/-- The parser takes a printed request line apart again. -/
theorem QueryLine.parse_toBytes {line : QueryLine} (hmethod : line.method ≠ .unsupported)
    (hversion : line.version ≠ .unsupported) (hne : line.path ≠ [])
    (hpath : ∀ c ∈ line.path, isSpace c = false) :
    QueryLine.parse line.toBytes = .ok line := by
  have hclean : (∀ c ∈ line.method.toBytes, isSpace c = false) ∧
      ∀ c ∈ line.version.toBytes, isSpace c = false := by
    cases line.method <;> cases line.version <;>
      exact ⟨forall_mem_of_all rfl, forall_mem_of_all rfl⟩
  have hmethod' : line.method.toBytes ≠ [] := by
    rcases hm : line.method with _ | _ | _
    · decide
    · decide
    · exact absurd hm hmethod
  have hversion' : line.version.toBytes ≠ [] := by
    rcases hv : line.version with _ | _ | _
    · decide
    · decide
    · exact absurd hv hversion
  have hshape : line.toBytes =
      line.method.toBytes ++ 32 :: (line.path ++ 32 :: line.version.toBytes) := by
    simp only [QueryLine.toBytes, show ascii " " = [32] from rfl, List.append_assoc,
      List.cons_append, List.nil_append]
  -- three words, none of them empty or with a blank in it, so each is extracted whole
  have hfirst := extract_token hmethod' hclean.1
    (.inr ⟨line.path ++ 32 :: line.version.toBytes, rfl⟩)
  have hsecond := extract_token hne hpath (.inr ⟨line.version.toBytes, rfl⟩)
  have hthird := extract_token hversion' hclean.2 (.inl rfl)
  rw [List.append_nil] at hthird
  rw [QueryLine.parse, hshape]
  simp only [hfirst, extract_blank, hsecond, hthird]
  obtain ⟨method, version, path⟩ := line
  cases method with
  | unsupported => exact absurd rfl hmethod
  | get =>
    cases version with
    | unsupported => exact absurd rfl hversion
    | v1_0 => rfl
    | v1_1 => rfl
  | post =>
    cases version with
    | unsupported => exact absurd rfl hversion
    | v1_0 => rfl
    | v1_1 => rfl

/-- Whatever bytes the keys and values have, their percent-encoding comes back as the parameters
of the request: the first value of each key, and nothing else. -/
theorem params_survive_encoding {method : RequestMethod} {version : HttpVersion}
    (hmethod : method ≠ .unsupported) (hversion : version ≠ .unsupported) {path : Bytes}
    (hpath : ∀ c ∈ path, isSpace c = false ∧ c ≠ 63) {pairs encoded : List (Bytes × Bytes)}
    (h : List.Forall₂ PairEncoded pairs encoded) (headers : StringMap) (body : Bytes) :
    ∃ firstLine request,
      QueryLine.parse
          (QueryLine.toBytes ⟨method, version, path ++ questionMark ++ queryBytes encoded⟩) =
        .ok firstLine ∧
      HttpRequest.make firstLine headers body = .ok request ∧
      ∀ k, request.params.lookup k = pairs.lookup k := by
  have hspace : ∀ c ∈ path ++ questionMark ++ queryBytes encoded, isSpace c = false := by
    intro c hc
    rcases List.mem_append.mp hc with hc | hc
    · rcases List.mem_append.mp hc with hc | hc
      · exact (hpath c hc).1
      · obtain rfl := List.mem_singleton.mp hc
        decide
    · exact queryBytes_noSpace h c hc
  obtain ⟨firstLine, hfirst⟩ : ∃ l : QueryLine,
      l = ⟨method, version, path ++ questionMark ++ queryBytes encoded⟩ := ⟨_, rfl⟩
  have hne : path ++ questionMark ++ queryBytes encoded ≠ [] := by simp [questionMark, ascii]
  have hparse : QueryLine.parse firstLine.toBytes = .ok firstLine := by
    subst hfirst
    exact QueryLine.parse_toBytes hmethod hversion hne hspace
  have hshape : path ++ questionMark ++ queryBytes encoded = path ++ 63 :: queryBytes encoded := by
    rw [List.append_assoc]
    rfl
  have hmark : (63 : UInt8) ∉ path := fun hmem => (hpath 63 hmem).2 rfl
  have hparams : makeParams firstLine = .ok (storePairs pairs ∅) := by
    rw [makeParams_query hmark (by rw [hfirst, hshape]), parseQueryString_query h]
  rw [← hfirst]
  refine ⟨firstLine, ⟨firstLine, headers, storePairs pairs ∅, body⟩, hparse, ?_, fun k => ?_⟩
  · rw [HttpRequest.make, hparams]
    rfl
  · rw [lookup_storePairs, AList.lookup_empty]
    rfl

/-- `GET /a?k%20=1&k%20=%262 HTTP/1.1` -/
theorem params_survive_encoding_example :
    ∃ firstLine request,
      QueryLine.parse (QueryLine.toBytes ⟨.get, .v1_1, ascii "/a" ++ questionMark ++
        queryBytes [(ascii "k%20", ascii "1"), (ascii "k%20", ascii "%262")]⟩) = .ok firstLine ∧
      HttpRequest.make firstLine ∅ [] = .ok request ∧
      ∀ k, request.params.lookup k =
        [(ascii "k ", ascii "1"), (ascii "k ", ascii "&2")].lookup k := by
  have hkey : PercentEncoded (ascii "k ") (ascii "k%20") :=
    .plain (by decide) (.escaped (show hexDigit 50 = some 2 from rfl)
      (show hexDigit 48 = some 0 from rfl) rfl .nil)
  have hfirst : PercentEncoded (ascii "1") (ascii "1") := .plain (by decide) .nil
  have hsecond : PercentEncoded (ascii "&2") (ascii "%262") :=
    .escaped (show hexDigit 50 = some 2 from rfl) (show hexDigit 54 = some 6 from rfl) rfl
      (.plain (by decide) .nil)
  exact params_survive_encoding (by decide) (by decide) (forall_mem_of_all rfl)
    (.cons ⟨hkey, hfirst⟩ (.cons ⟨hkey, hsecond⟩ .nil)) ∅ []

end AdvCppTP.Http
