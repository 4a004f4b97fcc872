import AdvCppTP.Http.HeaderBlocks
import Mathlib.Data.List.TakeWhile

/-! `to_string` of the header map and of the request line: what the parsers produce comes back when
it is printed and parsed again. -/

namespace AdvCppTP.Http

/-! ## Entries of a map in any order -/

theorem lookup_eq_dlookup (l : List (Bytes × Bytes)) (k : Bytes) :
    l.lookup k = (l.map fun e => (⟨e.1, e.2⟩ : Σ _ : Bytes, Bytes)).dlookup k := by
  induction l with
  | nil => rfl
  | cons e l ih =>
    rw [List.lookup_cons, List.map_cons]
    rcases eq_or_ne k e.1 with rfl | hne
    · rw [beq_self_eq_true, List.dlookup_cons_eq]
    · rw [beq_eq_false_iff_ne.mpr hne, List.dlookup_cons_ne _ _ hne, ← ih]

theorem HashOrder.perm_sigma (hash : HashOrder) (m : StringMap) :
    ((hash.entries m).map fun e => (⟨e.1, e.2⟩ : Σ _ : Bytes, Bytes)).Perm m.entries := by
  have hperm := (hash.perm m).map fun e => (⟨e.1, e.2⟩ : Σ _ : Bytes, Bytes)
  rwa [List.map_map, show ((fun e : Bytes × Bytes => (⟨e.1, e.2⟩ : Σ _ : Bytes, Bytes)) ∘
    fun e : Σ _ : Bytes, Bytes => (e.1, e.2)) = id from rfl, List.map_id] at hperm

theorem HashOrder.lookup_entries (hash : HashOrder) (m : StringMap) (k : Bytes) :
    (hash.entries m).lookup k = m.lookup k := by
  have hperm := hash.perm_sigma m
  rw [lookup_eq_dlookup, List.perm_dlookup k ((List.perm_nodupKeys hperm).mpr m.nodupKeys) hperm]
  rfl

theorem HashOrder.lookup_of_mem (hash : HashOrder) {m : StringMap} {e : Bytes × Bytes}
    (h : e ∈ hash.entries m) : m.lookup e.1 = some e.2 := by
  have hmem := (hash.perm_sigma m).mem_iff.mp (List.mem_map_of_mem h)
  exact AList.mem_lookup_iff.mpr hmem

theorem mem_of_lookup_pairs {l : List (Bytes × Bytes)} {k v : Bytes} (h : l.lookup k = some v) :
    (k, v) ∈ l := by
  rw [lookup_eq_dlookup] at h
  obtain ⟨e, he, heq⟩ := List.mem_map.mp (List.of_mem_dlookup h)
  cases heq
  exact he

/-! ## The header map -/

def renderedLine (e : Bytes × Bytes) : Bytes := e.1 ++ separator ++ ascii " " ++ e.2

/-- `HeadersMap::to_string()`. -/
def HeadersMap.toBytes (hash : HashOrder) (data : StringMap) : Bytes :=
  (hash.entries data).flatMap fun e => renderedLine e ++ endline

/-- What the constructor keeps of a line: `to_lowercase`, `rtrim` and the search for the value would
leave it as it is. -/
structure Settled (e : Bytes × Bytes) : Prop where
  noSeparator : (58 : UInt8) ∉ e.1
  lowercase : toLowercase e.1 = e.1
  trimmed : rtrim e.1 = e.1
  value_head : ∃ c ∈ e.2.head?, c ∉ whitespaces
  key_noEndline : ¬ endline <:+: e.1
  value_noEndline : ¬ endline <:+: e.2

theorem tolower_eq_iff (c : UInt8) :
    (tolower c = 58 → c = 58) ∧ (tolower c = 13 → c = 13) ∧ (tolower c = 10 → c = 10) :=
  byte_cases (P := fun c => (tolower c = 58 → c = 58) ∧ (tolower c = 13 → c = 13) ∧
    (tolower c = 10 → c = 10)) (by decide +kernel) c

theorem endline_infix_of_toLowercase {v : Bytes} (h : endline <:+: toLowercase v) :
    endline <:+: v := by
  obtain ⟨l, hl, heq⟩ := List.infix_map_iff.mp h
  obtain ⟨c, l', rfl, hc, hl'⟩ := List.map_eq_cons_iff.mp heq.symm
  obtain ⟨d, l'', rfl, hd, hl''⟩ := List.map_eq_cons_iff.mp hl'
  obtain rfl := List.map_eq_nil_iff.mp hl''
  rwa [(tolower_eq_iff c).2.1 hc, (tolower_eq_iff d).2.2 hd] at hl

theorem upTo_isPrefix (view : Bytes) (n : Option Nat) : upTo view n <+: view := by
  cases n with
  | none => exact List.prefix_refl view
  | some n => exact List.take_prefix n view

/-- Whatever bytes a line has, the constructor settles its entry. -/
theorem settled_storedEntry {line : Bytes} (hline : ¬ endline <:+: line)
    (hblank : ¬ BlankBehind line) : Settled (storedEntry line) := by
  have hkey : rtrim (upTo line (Lib.find separator line 0)) <:+: line :=
    ((rtrim_isPrefix _).trans (upTo_isPrefix line _)).isInfix
  have hvalue : (storedEntry line).2 <:+: line :=
    ((List.dropWhile_suffix _).trans (List.drop_suffix _ line)).isInfix
  refine ⟨fun hmem => ?_, toLowercase_toLowercase _, ?_, ?_, fun h => ?_, fun h => ?_⟩
  · obtain ⟨c, hc, hlower⟩ := List.mem_map.mp hmem
    obtain rfl := (tolower_eq_iff c).1 hlower
    have hsep := (rtrim_isPrefix _).subset hc
    have hnone : ¬ separator <:+: upTo line (Lib.find separator line 0) :=
      not_infix_upTo (by decide) line
    exact hnone ((List.singleton_infix_iff _ _).mpr hsep)
  · rw [storedEntry, rtrim_toLowercase, rtrim_rtrim]
  · rcases hrest : (storedEntry line).2 with _ | ⟨c, value⟩
    · refine absurd (fun c hc => ?_) hblank
      simpa using List.dropWhile_eq_nil_iff.mp hrest c hc
    · have hhead := List.head?_dropWhile_not (fun c => decide (c ∈ whitespaces))
        (afterSeparator line)
      rw [show (afterSeparator line).dropWhile _ = c :: value from hrest] at hhead
      exact ⟨c, rfl, by simpa using hhead⟩
  · exact hline ((endline_infix_of_toLowercase h).trans hkey)
  · exact hline (h.trans hvalue)

theorem Settled.line_noEndline {e : Bytes × Bytes} (h : Settled e) :
    ¬ endline <:+: renderedLine e := by
  have hshape : renderedLine e = e.1 ++ 58 :: ([] ++ 32 :: e.2) := by
    simp only [renderedLine, show separator = [58] from rfl, show ascii " " = [32] from rfl,
      List.append_assoc, List.cons_append, List.nil_append]
  rw [hshape]
  intro hinfix
  rcases Lib.pair_infix_append_cons (by decide) (by decide) hinfix with hkey | hrest
  · exact h.key_noEndline hkey
  rcases Lib.pair_infix_append_cons (by decide) (by decide) hrest with hnil | hvalue
  · exact absurd hnil (by decide)
  · exact h.value_noEndline hvalue

theorem Settled.find_separator {e : Bytes × Bytes} (h : Settled e) :
    Lib.find separator (renderedLine e) 0 = some e.1.length := by
  rw [Lib.find_zero, renderedLine, List.append_assoc, List.append_assoc]
  exact Lib.firstOcc_singleton h.noSeparator _

theorem Settled.afterSeparator_eq {e : Bytes × Bytes} (h : Settled e) :
    afterSeparator (renderedLine e) = 32 :: e.2 := by
  rw [afterSeparator, h.find_separator, plus, renderedLine, List.append_assoc, List.append_assoc,
    ← List.drop_drop, List.drop_left]
  rfl

theorem Settled.not_blankBehind {e : Bytes × Bytes} (h : Settled e) :
    ¬ BlankBehind (renderedLine e) := by
  obtain ⟨c, hc, hnot⟩ := h.value_head
  rw [BlankBehind, h.afterSeparator_eq]
  exact fun hblank => hnot (hblank c (List.mem_cons_of_mem 32 (List.mem_of_mem_head? hc)))

theorem Settled.storedEntry_eq {e : Bytes × Bytes} (h : Settled e) :
    storedEntry (renderedLine e) = e := by
  obtain ⟨c, hc, hnot⟩ := h.value_head
  have hvalue : (32 :: e.2).dropWhile (fun c => c ∈ whitespaces) = e.2 := by
    obtain ⟨value, hcons⟩ : ∃ value, e.2 = c :: value := by
      rcases hcons : e.2 with _ | ⟨d, value⟩
      · rw [hcons] at hc
        cases hc
      · rw [hcons] at hc
        cases hc
        exact ⟨value, rfl⟩
    rw [List.dropWhile_cons_of_pos (by decide), hcons]
    exact List.dropWhile_cons_of_neg (by simpa using hnot)
  have hkey : upTo (renderedLine e) (some e.1.length) = e.1 := by
    rw [upTo, renderedLine, List.append_assoc, List.append_assoc, List.take_left]
  rw [storedEntry, h.afterSeparator_eq, hvalue, h.find_separator, hkey, h.trimmed, h.lowercase]

theorem HeadersMap.settled_of_parse {view : Bytes} {data : StringMap}
    (h : HeadersMap.parse view = .ok data) {k v : Bytes} (hlook : data.lookup k = some v) :
    Settled (k, v) := by
  rw [HeadersMap.parse_eq] at h
  split at h
  · cases h
  case isFalse hblank =>
    obtain rfl := Except.ok.inj h
    rw [lookup_storePairs] at hlook
    obtain ⟨line, hline, hstored⟩ := List.mem_map.mp (mem_of_lookup_pairs hlook)
    rw [← hstored]
    exact settled_storedEntry (HeadersMap.cutLines_noEndline _ view line hline)
      fun hb => hblank ⟨line, hline, hb⟩

theorem HeadersMap.parse_rendered {entries : List (Bytes × Bytes)}
    (h : ∀ e ∈ entries, Settled e) :
    HeadersMap.parse (entries.flatMap fun e => renderedLine e ++ endline) =
      .ok (storePairs entries ∅) := by
  have hshape : (entries.flatMap fun e => renderedLine e ++ endline) =
      blockBytes (entries.map renderedLine) :=
    (List.flatMap_map renderedLine (fun l => l ++ endline) entries).symm
  have hclean : ∀ l ∈ entries.map renderedLine, ¬ endline <:+: l := fun l hl => by
    obtain ⟨e, he, rfl⟩ := List.mem_map.mp hl
    exact (h e he).line_noEndline
  have hstored : (entries.map renderedLine).map storedEntry = entries := by
    rw [List.map_map]
    exact (List.map_congr_left fun e he => (h e he).storedEntry_eq).trans (List.map_id' entries)
  rw [hshape, HeadersMap.parse_eq, HeadersMap.lines_block hclean, hstored, if_neg]
  rintro ⟨l, hl, hblank⟩
  obtain ⟨e, he, rfl⟩ := List.mem_map.mp hl
  exact (h e he).not_blankBehind hblank

theorem HeadersMap.parse_toBytes {view : Bytes} {data : StringMap}
    (h : HeadersMap.parse view = .ok data) (hash : HashOrder) :
    ∃ data', HeadersMap.parse (HeadersMap.toBytes hash data) = .ok data' ∧
      ∀ k, data'.lookup k = data.lookup k := by
  refine ⟨_, HeadersMap.parse_rendered fun e he =>
    HeadersMap.settled_of_parse h (hash.lookup_of_mem he), fun k => ?_⟩
  rw [lookup_storePairs, hash.lookup_entries]
  rfl

/-! ## The request line -/

theorem extract_noSpace (stream : Bytes) : ∀ c ∈ (extract stream).1, isSpace c = false := by
  intro c hc
  have hnot := List.mem_takeWhile_imp hc
  simpa using hnot

theorem extract_nil {stream : Bytes} (h : (extract stream).1 = []) : (extract stream).2 = [] := by
  have hhead := List.head?_dropWhile_not isSpace stream
  rw [extract] at h ⊢
  rcases hrest : stream.dropWhile isSpace with _ | ⟨c, rest⟩
  · rfl
  · rw [hrest] at hhead h
    have hc : isSpace c = false := hhead
    rw [List.takeWhile_cons_of_pos (by rw [hc]; rfl)] at h
    cases h

theorem QueryLine.parse_path {line : Bytes} {q : QueryLine} (h : QueryLine.parse line = .ok q)
    (hversion : q.version ≠ .unsupported) :
    q.path ≠ [] ∧ ∀ c ∈ q.path, isSpace c = false := by
  simp only [QueryLine.parse, removePrefix_of_le (plus_find_le versionSep _ rfl)] at h
  obtain rfl := Except.ok.inj h
  refine ⟨fun hnil => hversion ?_, extract_noSpace _⟩
  -- without a path there is nothing left for the version
  have hend : (extract (extract line).2).2 = [] := extract_nil hnil
  simp only [hend]
  rfl

/-- Parsing undoes rendering on all that the parsers produce. -/
theorem parsers_undo_rendering {view : Bytes} {data : StringMap}
    (hdata : HeadersMap.parse view = .ok data) (hash : HashOrder) {line : Bytes} {q : QueryLine}
    (hq : QueryLine.parse line = .ok q) (hmethod : q.method ≠ .unsupported)
    (hversion : q.version ≠ .unsupported) :
    (∃ data', HeadersMap.parse (HeadersMap.toBytes hash data) = .ok data' ∧
        ∀ k, data'.lookup k = data.lookup k) ∧
      QueryLine.parse q.toBytes = .ok q := by
  obtain ⟨hne, hpath⟩ := QueryLine.parse_path hq hversion
  exact ⟨HeadersMap.parse_toBytes hdata hash, QueryLine.parse_toBytes hmethod hversion hne hpath⟩

/-- A view whose last line has no `:` and no CRLF. -/
theorem parsers_undo_rendering_loose :
    (∃ data', HeadersMap.parse (HeadersMap.toBytes .stored
          (storePairs [(ascii "host", ascii "a"), (ascii "x", ascii "X")] ∅)) = .ok data' ∧
        ∀ k, data'.lookup k =
          (storePairs [(ascii "host", ascii "a"), (ascii "x", ascii "X")] ∅).lookup k) ∧
      QueryLine.parse (QueryLine.toBytes ⟨.get, .v1_1, ascii "/"⟩) =
        .ok ⟨.get, .v1_1, ascii "/"⟩ := by
  have hdata : HeadersMap.parse (ascii "Host:a\r\nX") =
      .ok (storePairs [(ascii "host", ascii "a"), (ascii "x", ascii "X")] ∅) := rfl
  have hq : QueryLine.parse (ascii "gEt  / x/1.1") = .ok ⟨.get, .v1_1, ascii "/"⟩ := rfl
  exact parsers_undo_rendering hdata .stored hq (by decide) (by decide)

end AdvCppTP.Http
