import AdvCppTP.Http.Chunking

/-! Deliveries that hand `receive` one request at a time, with no byte of the next one. -/

namespace AdvCppTP.Http

theorem ReadResult.exact_injective : Function.Injective ReadResult.exact :=
  fun _ _ h => congrArg ReadResult.appended h

theorem map_exact_inj {xs ys : List Bytes} (h : xs.map ReadResult.exact = ys.map .exact) :
    xs = ys :=
  List.map_injective_iff.mpr ReadResult.exact_injective h

theorem append_flatten_cons (buffer d : Bytes) (ds : List Bytes) :
    buffer ++ (d :: ds).flatten = buffer ++ d ++ ds.flatten := by
  rw [List.flatten_cons, List.append_assoc]

/-- Behind a read that is not enough, the last read is one of the others. -/
theorem exists_last_short {buffer d buf : Bytes} {ds ys : List Bytes} {total : Nat} {P : Prop}
    (hshort : (buffer ++ d).length < total) :
    (∃ mid last, ds = mid ++ last :: ys ∧ buf = buffer ++ d ++ (mid ++ [last]).flatten ∧
        (mid = [] ∨ (buffer ++ d ++ mid.flatten).length < total) ∧ total ≤ buf.length ∧ P) ↔
      ∃ mid last, d :: ds = mid ++ last :: ys ∧ buf = buffer ++ (mid ++ [last]).flatten ∧
        (mid = [] ∨ (buffer ++ mid.flatten).length < total) ∧ total ≤ buf.length ∧ P := by
  constructor
  · rintro ⟨mid, last, rfl, rfl, hmid, hlen, hP⟩
    refine ⟨d :: mid, last, rfl, (append_flatten_cons buffer d (mid ++ [last])).symm, .inr ?_,
      hlen, hP⟩
    rw [append_flatten_cons]
    rcases hmid with rfl | hmid
    · rw [List.flatten_nil, List.append_nil]
      exact hshort
    · exact hmid
  · rintro ⟨mid, last, hds, rfl, hmid, hlen, hP⟩
    cases mid with
    | nil =>
      obtain ⟨rfl, rfl⟩ := List.cons.inj hds
      rw [List.nil_append, List.flatten_singleton] at hlen
      omega
    | cons x mid =>
      obtain ⟨rfl, rfl⟩ := List.cons.inj hds
      refine ⟨mid, last, rfl, append_flatten_cons buffer d (mid ++ [last]), ?_, hlen, hP⟩
      rcases hmid with hnil | hmid
      · cases hnil
      · rw [append_flatten_cons] at hmid
        exact .inr hmid

/-- A read that is enough is the last one. -/
theorem exists_last_enough {buffer d buf : Bytes} {ds ys : List Bytes} {total : Nat} {P : Prop}
    (henough : total ≤ (buffer ++ d).length) :
    (∃ mid last, d :: ds = mid ++ last :: ys ∧ buf = buffer ++ (mid ++ [last]).flatten ∧
        (mid = [] ∨ (buffer ++ mid.flatten).length < total) ∧ total ≤ buf.length ∧ P) ↔
      ds = ys ∧ buf = buffer ++ d ∧ P := by
  constructor
  · rintro ⟨mid, last, hds, rfl, hmid, -, hP⟩
    cases mid with
    | nil =>
      obtain ⟨rfl, rfl⟩ := List.cons.inj hds
      exact ⟨rfl, by rw [List.nil_append, List.flatten_singleton], hP⟩
    | cons x mid =>
      obtain ⟨rfl, rfl⟩ := List.cons.inj hds
      rcases hmid with hnil | hmid
      · cases hnil
      · rw [append_flatten_cons, List.length_append] at hmid
        omega
  · rintro ⟨rfl, rfl, hP⟩
    exact ⟨[], d, rfl, by rw [List.nil_append, List.flatten_singleton], .inl rfl, henough, hP⟩

theorem receive_body_returned (firstLine : QueryLine) (headers : StringMap) {start : Nat}
    (len : Nat) {buffer : Bytes} (hstart : start ≤ buffer.length) (xs ys : List Bytes)
    (request : HttpRequest) (buf : Bytes) :
    receive (.body firstLine headers start len (buffer.length - start)) buffer (xs.map .exact) =
        .returned request buf (ys.map .exact) ↔
      ∃ mid last, xs = mid ++ last :: ys ∧ buf = buffer ++ (mid ++ [last]).flatten ∧
        (mid = [] ∨ (buffer ++ mid.flatten).length < start + len) ∧ start + len ≤ buf.length ∧
        HttpRequest.make firstLine headers ((buf.drop start).take len) = .ok request := by
  -- by induction on the reads: the bytes counted are those behind `start`
  induction xs generalizing buffer with
  | nil =>
    refine ⟨fun h => (by cases h), ?_⟩
    rintro ⟨mid, last, hnil, -⟩
    exact absurd hnil.symm (List.append_ne_nil_of_right_ne_nil _ (List.cons_ne_nil _ _))
  | cons d ds ih =>
    have hstart' := (counted_append hstart d).1
    rw [List.map_cons]
    by_cases hwait : (buffer ++ d).length - start < len
    · rw [receive_body_short hstart hwait]
      exact (ih hstart').trans (exists_last_short (by omega))
    · obtain ⟨request', hrequest', hrun⟩ := receive_body_enough hstart hwait firstLine headers
        (ds.map .exact)
      rw [hrun, Received.returned.injEq, exists_last_enough (by omega)]
      constructor
      · rintro ⟨rfl, rfl, hys⟩
        exact ⟨map_exact_inj hys, rfl, hrequest'⟩
      · rintro ⟨rfl, rfl, hmake⟩
        exact ⟨Except.ok.inj (hrequest'.symm.trans hmake), rfl, rfl⟩

/-- The reads that make `receive` return a request and leave nothing else in the buffer: `last`
of those before `h` ends in front of CRLF CRLF, `h` reaches behind it, and the rest are as many as
`read_body` makes. -/
structure RawRequest.Cut (r : RawRequest) (pre : List Bytes) (h : Bytes) (post : List Bytes) :
    Prop where
  before : pre.flatten.length ≤ r.head.length - 4
  behind : r.head.length ≤ (pre.flatten ++ h).length
  ends : (pre ++ h :: post).flatten = r.bytes
  rest : if r.hasLength then ∃ mid last, post = mid ++ [last] ∧
      (mid = [] ∨ (pre ++ h :: mid).flatten.length < r.bytes.length)
    else post = []

theorem RawRequest.length_bytes (r : RawRequest) :
    r.bytes.length = r.head.length + r.body.length := by
  rw [RawRequest.bytes, List.length_append]

theorem RawRequest.body_nil (r : RawRequest) (h : r.hasLength = false) : r.body = [] := by
  have hframed := r.framed
  rw [RawRequest.hasLength, Option.isSome_eq_false_iff, Option.isNone_iff_eq_none] at h
  rw [h] at hframed
  exact hframed

theorem RawRequest.cut_of_returned (r : RawRequest) {xs ys : List Bytes}
    (h : r.bytes <+: xs.flatten) {request : HttpRequest}
    (hrun : receive (.head 0) [] (xs.map .exact) = .returned request r.bytes (ys.map .exact)) :
    ∃ pre d post, xs = pre ++ d :: (post ++ ys) ∧ r.Cut pre d post := by
  obtain ⟨firstLine, hline⟩ := QueryLine.parse_ok r.line
  have hfour := r.four_le_length_head
  have hterm : headersEnd.length = 4 := rfl
  rcases hseen : terminatorSeen xs with _ | q
  · rw [receive_not_found hseen] at hrun
    cases hrun
  · obtain ⟨pre, d, tail, i, rfl, hpre, hi, rfl⟩ := terminatorSeen_eq_some hseen
    obtain ⟨rest, hrest⟩ := r.exists_eq_head_append h rfl hi
    have hroom := Lib.firstOcc_add_length hi
    have hbehind : r.head.length ≤ (pre.flatten ++ d).length := by
      rw [hrest, List.length_append]
      omega
    have hstart : i + pre.flatten.length + 4 ≤ (pre.flatten ++ d).length := by
      rw [List.length_append]
      omega
    rw [receive_found hpre hi, hrest, r.receiveHead_eq hline, ← hrest] at hrun
    -- with a length the read that brings the last byte ends the request, else the one with the head
    by_cases hlen : r.hasLength = true
    · rw [if_pos hlen] at hrun
      obtain ⟨mid, last, rfl, hbytes, hmid, hbound, -⟩ :=
        (receive_body_returned firstLine _ _ hstart tail ys request r.bytes).mp hrun
      have hlength := r.length_bytes
      refine ⟨pre, d, mid ++ [last], by simp, by omega, hbehind, ?_, ?_⟩
      · rw [hbytes, List.flatten_append, List.flatten_cons, List.append_assoc]
      · rw [if_pos hlen]
        refine ⟨mid, last, rfl, hmid.imp_right fun hmid => ?_⟩
        rw [List.flatten_append, List.flatten_cons, ← List.append_assoc]
        omega
    · rw [if_neg hlen] at hrun
      obtain ⟨request', hrequest'⟩ := HttpRequest.make_ok firstLine (storeFields r.fields ∅) r.body
      simp only [hrequest', ReceiveStep.ofExcept, Received.returned.injEq] at hrun
      obtain ⟨-, hbytes, hys⟩ := hrun
      obtain rfl := map_exact_inj hys
      have hbody := r.body_nil (Bool.eq_false_iff.mpr hlen)
      have hlength := r.length_bytes
      rw [hbody, List.length_nil, Nat.add_zero, ← hbytes] at hlength
      refine ⟨pre, d, [], rfl, by omega, hbehind, ?_, by rw [if_neg hlen]⟩
      rw [List.flatten_append, List.flatten_singleton, hbytes]

theorem RawRequest.returned_of_cut (r : RawRequest) {pre post : List Bytes} {d : Bytes}
    {ys : List Bytes} (h : r.bytes <+: (pre ++ d :: (post ++ ys)).flatten)
    (hcut : r.Cut pre d post) :
    ∃ request, r.parsed = .ok request ∧
      receive (.head 0) [] ((pre ++ d :: (post ++ ys)).map .exact) =
        .returned request r.bytes (ys.map .exact) := by
  obtain ⟨firstLine, hline⟩ := QueryLine.parse_ok r.line
  have hfour := r.four_le_length_head
  obtain ⟨tail, htail⟩ := h
  have hfirst := r.firstOcc_head (r.body ++ tail)
  rw [← List.append_assoc, ← RawRequest.bytes, htail] at hfirst
  obtain ⟨-, hpre, hi⟩ := terminatorSeen_whole hfirst hcut.before (by have := hcut.behind; omega)
  obtain ⟨rest, hrest⟩ := r.exists_eq_head_append ⟨tail, htail⟩ rfl hi
  obtain ⟨request, hrequest⟩ := HttpRequest.make_ok firstLine (storeFields r.fields ∅) r.body
  have hpos : r.head.length - 4 - pre.flatten.length + pre.flatten.length + 4 = r.head.length := by
    have := hcut.before
    omega
  refine ⟨request, (r.parsed_eq hline).trans hrequest, ?_⟩
  rw [receive_found hpre hi, hrest, r.receiveHead_eq hline, ← hrest, hpos]
  -- the head is found where the cut has it; a body, if there is one, ends with its last read
  by_cases hlen : r.hasLength = true
  · have hrestCut := hcut.rest
    rw [if_pos hlen] at hrestCut
    obtain ⟨mid, last, rfl, hmid⟩ := hrestCut
    have hbytes : r.bytes = pre.flatten ++ d ++ (mid ++ [last]).flatten := by
      rw [← hcut.ends, List.flatten_append, List.flatten_cons, List.append_assoc]
    rw [if_pos hlen]
    refine (receive_body_returned firstLine _ _ hcut.behind _ ys request r.bytes).mpr
      ⟨mid, last, by simp, hbytes, hmid.imp_right fun hmid => ?_, r.length_bytes.ge, ?_⟩
    · rw [List.flatten_append, List.flatten_cons, ← List.append_assoc, r.length_bytes] at hmid
      exact hmid
    · rw [RawRequest.bytes, List.drop_left, List.take_length]
      exact hrequest
  · have hnil := hcut.rest
    rw [if_neg hlen] at hnil
    subst hnil
    have hbytes := hcut.ends
    rw [List.flatten_append, List.flatten_singleton] at hbytes
    rw [if_neg hlen]
    simp only [hrequest, ReceiveStep.ofExcept, hbytes, List.nil_append]

end AdvCppTP.Http
