import AdvCppTP.Http.Requests

/-! How the cuts between reads decide what `Receiver::receive` returns. The search for CRLF CRLF
starts at the end of what was read before, so it sees one read at a time. -/

namespace AdvCppTP.Http

theorem receive_cons (pc : ReceiverPc) (buffer : Bytes) (r : ReadResult) (reads : List ReadResult) :
    receive pc buffer (r :: reads) =
      match receiveStep (buffer ++ r.appended) r.count pc with
      | .again pc => receive pc (buffer ++ r.appended) reads
      | .yield pc => receive pc (buffer ++ r.appended) reads
      | .done request => .returned request (buffer ++ r.appended) reads
      | .throw e => .threw e (buffer ++ r.appended) reads :=
  rfl

/-! ## The loop for the head -/

theorem receive_head_skip (ds : List Bytes) (h : ∀ d ∈ ds, Lib.firstOcc headersEnd d = none)
    (buffer : Bytes) (reads : List ReadResult) :
    receive (.head buffer.length) buffer (ds.map .exact ++ reads) =
      receive (.head (buffer ++ ds.flatten).length) (buffer ++ ds.flatten) reads := by
  induction ds generalizing buffer with
  | nil => rw [List.flatten_nil, List.append_nil, List.map_nil, List.nil_append]
  | cons d ds ih =>
    have hmiss : Lib.find headersEnd (buffer ++ d) buffer.length = none := by
      rw [Lib.find_append, h d List.mem_cons_self, Option.map_none]
    rw [List.map_cons, List.cons_append, receive_cons]
    simp only [ReadResult.exact, receiveStep, hmiss]
    rw [← List.length_append, ih (fun x hx => h x (List.mem_cons_of_mem d hx)), List.flatten_cons,
      List.append_assoc]

theorem receive_head_hit {d : Bytes} {i : Nat} (h : Lib.firstOcc headersEnd d = some i)
    (buffer : Bytes) (reads : List ReadResult) :
    receive (.head buffer.length) buffer (.exact d :: reads) =
      match receiveHead (buffer ++ d) (i + buffer.length) with
      | .again pc => receive pc (buffer ++ d) reads
      | .yield pc => receive pc (buffer ++ d) reads
      | .done request => .returned request (buffer ++ d) reads
      | .throw e => .threw e (buffer ++ d) reads := by
  have hhit : Lib.find headersEnd (buffer ++ d) buffer.length = some (i + buffer.length) := by
    rw [Lib.find_append, h, Option.map_some]
  rw [receive_cons]
  simp only [ReadResult.exact, receiveStep, hhit]

/-- The offset of CRLF CRLF in the first read that contains it. -/
def terminatorSeen : List Bytes → Option Nat
  | [] => none
  | d :: ds =>
    match Lib.firstOcc headersEnd d with
    | some i => some i
    | none => (terminatorSeen ds).map (· + d.length)

theorem terminatorSeen_eq_none {ds : List Bytes} (h : terminatorSeen ds = none) :
    ∀ d ∈ ds, Lib.firstOcc headersEnd d = none := by
  induction ds with
  | nil => exact fun d hd => absurd hd List.not_mem_nil
  | cons x ds ih =>
    rw [terminatorSeen] at h
    split at h
    · cases h
    case h_2 hx =>
      intro d hd
      rcases List.mem_cons.mp hd with rfl | hd
      · exact hx
      · exact ih (Option.map_eq_none_iff.mp h) d hd

theorem terminatorSeen_append_nil {ds : List Bytes} (h : terminatorSeen ds = none) :
    terminatorSeen (ds ++ [[]]) = none := by
  induction ds with
  | nil => rfl
  | cons x ds ih =>
    have hx := terminatorSeen_eq_none h x List.mem_cons_self
    rw [terminatorSeen, hx, Option.map_eq_none_iff] at h
    rw [List.cons_append, terminatorSeen, hx, ih h, Option.map_none]

theorem terminatorSeen_eq_some {ds : List Bytes} {q : Nat} (h : terminatorSeen ds = some q) :
    ∃ pre d post i, ds = pre ++ d :: post ∧ (∀ x ∈ pre, Lib.firstOcc headersEnd x = none) ∧
      Lib.firstOcc headersEnd d = some i ∧ q = i + pre.flatten.length := by
  induction ds generalizing q with
  | nil => cases h
  | cons x ds ih =>
    rw [terminatorSeen] at h
    split at h
    case h_1 i hx =>
      obtain rfl := Option.some.inj h
      exact ⟨[], x, ds, i, rfl, fun _ hd => absurd hd List.not_mem_nil, hx, rfl⟩
    case h_2 hx =>
      obtain ⟨q', hq', rfl⟩ := Option.map_eq_some_iff.mp h
      obtain ⟨pre, d, post, i, rfl, hpre, hd, rfl⟩ := ih hq'
      refine ⟨x :: pre, d, post, i, rfl, fun y hy => ?_, hd, ?_⟩
      · rcases List.mem_cons.mp hy with rfl | hy
        · exact hx
        · exact hpre y hy
      · rw [List.flatten_cons, List.length_append]
        omega

theorem terminatorSeen_whole {pre post : List Bytes} {d : Bytes} {p : Nat}
    (hfirst : Lib.firstOcc headersEnd (pre ++ d :: post).flatten = some p)
    (hpre : pre.flatten.length ≤ p) (hend : p + 4 ≤ (pre.flatten ++ d).length) :
    terminatorSeen (pre ++ d :: post) = some p ∧
      (∀ x ∈ pre, Lib.firstOcc headersEnd x = none) ∧
        Lib.firstOcc headersEnd d = some (p - pre.flatten.length) := by
  induction pre generalizing p with
  | nil =>
    have hd : Lib.firstOcc headersEnd d = some p := Lib.firstOcc_of_append_left hfirst hend
    exact ⟨by rw [List.nil_append, terminatorSeen, hd], fun x hx => absurd hx List.not_mem_nil, hd⟩
  | cons x pre ih =>
    have hx : Lib.firstOcc headersEnd x = none := by
      rcases hx : Lib.firstOcc headersEnd x with _ | i
      · rfl
      · have hfound := Lib.firstOcc_append hx (pre ++ d :: post).flatten
        rw [List.cons_append, List.flatten_cons, hfound, Option.some.injEq] at hfirst
        have hroom := Lib.firstOcc_add_length hx
        have hfour : headersEnd.length = 4 := rfl
        rw [List.flatten_cons, List.length_append] at hpre
        omega
    rw [List.flatten_cons, List.length_append] at hpre
    rw [List.flatten_cons, List.append_assoc, List.length_append] at hend
    obtain ⟨p, rfl⟩ : ∃ p', p = x.length + p' := ⟨p - x.length, by omega⟩
    rw [List.cons_append, List.flatten_cons] at hfirst
    obtain ⟨hseen, hnone, hd⟩ := ih (Lib.firstOcc_of_append_right hfirst) (by omega) (by omega)
    refine ⟨?_, fun y hy => ?_, ?_⟩
    · rw [List.cons_append, terminatorSeen, hx, hseen, Option.map_some, Nat.add_comm]
    · rcases List.mem_cons.mp hy with rfl | hy
      · exact hx
      · exact hnone y hy
    · rw [hd, List.flatten_cons, List.length_append, Nat.add_sub_add_left]

theorem receive_found {pre tail : List Bytes} {d : Bytes} {i : Nat}
    (hpre : ∀ x ∈ pre, Lib.firstOcc headersEnd x = none)
    (hi : Lib.firstOcc headersEnd d = some i) :
    receive (.head 0) [] ((pre ++ d :: tail).map .exact) =
      match receiveHead (pre.flatten ++ d) (i + pre.flatten.length) with
      | .again pc => receive pc (pre.flatten ++ d) (tail.map .exact)
      | .yield pc => receive pc (pre.flatten ++ d) (tail.map .exact)
      | .done request => .returned request (pre.flatten ++ d) (tail.map .exact)
      | .throw e => .threw e (pre.flatten ++ d) (tail.map .exact) := by
  rw [List.map_append, List.map_cons]
  exact (receive_head_skip pre hpre [] _).trans (receive_head_hit hi _ _)

theorem receive_not_found {ds : List Bytes} (h : terminatorSeen ds = none) :
    receive (.head 0) [] (ds.map .exact) = .waiting (.head ds.flatten.length) ds.flatten := by
  have hskip := receive_head_skip ds (terminatorSeen_eq_none h) [] []
  rwa [List.append_nil] at hskip

/-! ## The loop for the body -/

theorem slice_append {buffer : Bytes} {start len : Nat} (h : start + len ≤ buffer.length)
    (rest : Bytes) : ((buffer ++ rest).drop start).take len = (buffer.drop start).take len := by
  rw [List.drop_append_of_le_length (by omega), List.take_append_of_le_length]
  rw [List.length_drop]
  omega

/-- What a read adds is counted behind `start`. -/
theorem counted_append {start : Nat} {buffer : Bytes} (h : start ≤ buffer.length) (d : Bytes) :
    start ≤ (buffer ++ d).length ∧
      buffer.length - start + d.length = (buffer ++ d).length - start := by
  rw [List.length_append]
  omega

theorem receive_body_short {start len : Nat} {buffer d : Bytes} (hstart : start ≤ buffer.length)
    (h : (buffer ++ d).length - start < len) (firstLine : QueryLine) (headers : StringMap)
    (reads : List ReadResult) :
    receive (.body firstLine headers start len (buffer.length - start)) buffer (.exact d :: reads) =
      receive (.body firstLine headers start len ((buffer ++ d).length - start)) (buffer ++ d)
        reads := by
  have hcount := (counted_append hstart d).2
  rw [← hcount] at h ⊢
  rw [receive_cons]
  simp only [ReadResult.exact, receiveStep_body_part h]

theorem receive_body_enough {start len : Nat} {buffer d : Bytes} (hstart : start ≤ buffer.length)
    (h : ¬ (buffer ++ d).length - start < len) (firstLine : QueryLine) (headers : StringMap)
    (reads : List ReadResult) :
    ∃ request, HttpRequest.make firstLine headers (((buffer ++ d).drop start).take len) =
        .ok request ∧
      receive (.body firstLine headers start len (buffer.length - start)) buffer
        (.exact d :: reads) = .returned request (buffer ++ d) reads := by
  obtain ⟨hstart', hcount⟩ := counted_append hstart d
  rw [← hcount] at h
  obtain ⟨request, hrequest⟩ := HttpRequest.make_ok firstLine headers
    (((buffer ++ d).drop start).take len)
  refine ⟨request, hrequest, ?_⟩
  rw [receive_cons]
  simp only [ReadResult.exact, receiveStep_body_done h hstart', hrequest, ReceiveStep.ofExcept]

theorem receive_body (firstLine : QueryLine) (headers : StringMap) {start : Nat} (len : Nat)
    {buffer : Bytes} (hstart : start ≤ buffer.length) {ds : List Bytes} (hds : ds ≠ []) :
    (receive (.body firstLine headers start len (buffer.length - start)) buffer
        (ds.map .exact)).request? =
      if start + len ≤ (buffer ++ ds.flatten).length then
        (HttpRequest.make firstLine headers (((buffer ++ ds.flatten).drop start).take len)).toOption
      else none := by
  -- by induction on the reads; `wasRead` counts what is behind `start`
  induction ds generalizing buffer with
  | nil => exact absurd rfl hds
  | cons d ds ih =>
    have hstart' := (counted_append hstart d).1
    rw [List.map_cons, List.flatten_cons, ← List.append_assoc]
    by_cases hwait : (buffer ++ d).length - start < len
    · rw [receive_body_short hstart hwait]
      rcases eq_or_ne ds [] with rfl | hds'
      · rw [List.flatten_nil, List.append_nil, if_neg (by omega)]
        rfl
      · exact ih hstart' hds'
    · obtain ⟨request, hrequest, hrun⟩ := receive_body_enough hstart hwait firstLine headers
        (ds.map .exact)
      have henough : start + len ≤ (buffer ++ d).length := by omega
      have hwhole : start + len ≤ (buffer ++ d ++ ds.flatten).length := by
        rw [List.length_append]
        exact Nat.le_add_right_of_le henough
      rw [hrun, if_pos hwhole, slice_append henough, hrequest]
      rfl

/-! ## A whole request -/

theorem RawRequest.receiveHead_eq (r : RawRequest) {firstLine : QueryLine}
    (hline : QueryLine.parse r.line = .ok firstLine) (rest : Bytes) (pos : Nat) :
    receiveHead (r.head ++ rest) pos =
      if r.hasLength then
        .again (.body firstLine (storeFields r.fields ∅) (pos + 4) r.body.length
          ((r.head ++ rest).length - (pos + 4)))
      else .ofExcept (HttpRequest.make firstLine (storeFields r.fields ∅) r.body) := by
  have hframed := r.framed
  rw [receiveHead, r.splitUntilBody_eq rest]
  simp only [hline, HeadersMap.parse_fields]
  rw [RawRequest.hasLength]
  rcases hlook : (storeFields r.fields ∅).lookup contentLength with _ | value
  · rw [hlook] at hframed
    simp only [hframed, Option.isSome_none, Bool.false_eq_true, if_false]
  · rw [hlook] at hframed
    simp only [hframed, Option.isSome_some, if_true]
    rfl

theorem RawRequest.parsed_eq (r : RawRequest) {firstLine : QueryLine}
    (hline : QueryLine.parse r.line = .ok firstLine) :
    r.parsed = HttpRequest.make firstLine (storeFields r.fields ∅) r.body := by
  rw [RawRequest.parsed, hline, HeadersMap.parse_fields]
  rfl

theorem HttpRequest.make_inj {firstLine : QueryLine} {headers : StringMap} {body body' : Bytes}
    {request : HttpRequest} (h : HttpRequest.make firstLine headers body = .ok request)
    (h' : HttpRequest.make firstLine headers body' = .ok request) : body = body' := by
  obtain ⟨params, hparams⟩ := makeParams_ok firstLine
  rw [HttpRequest.make, hparams] at h h'
  exact congrArg HttpRequest.body (Except.ok.inj (h.trans h'.symm))

/-- The first read that contains CRLF CRLF exists, and a body that is announced follows there. -/
def RawRequest.Uncut (r : RawRequest) (ds : List Bytes) : Prop :=
  ∃ q, terminatorSeen ds = some q ∧
    (r.hasLength = true → (ds.flatten.drop (q + 4)).take r.body.length = r.body)

theorem RawRequest.exists_eq_head_append (r : RawRequest) {ds : List Bytes}
    (h : r.bytes <+: ds.flatten) {pre post : List Bytes} {d : Bytes} {i : Nat}
    (hds : ds = pre ++ d :: post) (hi : Lib.firstOcc headersEnd d = some i) :
    ∃ rest, pre.flatten ++ d = r.head ++ rest := by
  -- whatever the first occurrence is, the head's own comes no later
  have hsplit : ds.flatten = (pre.flatten ++ d) ++ post.flatten := by
    rw [hds, List.flatten_append, List.flatten_cons, List.append_assoc]
  have hhead : r.head <+: ds.flatten := (List.prefix_append _ _).trans h
  have hlen : r.head.length ≤ (pre.flatten ++ d).length := by
    obtain ⟨hroom, hocc, -⟩ := Lib.firstOcc_eq_some.mp hi
    have hocc' : headersEnd <+: ds.flatten.drop (pre.flatten.length + i) := by
      rw [hsplit, List.append_assoc, ← List.drop_drop, List.drop_left,
        List.drop_append_of_le_length hroom]
      exact hocc.trans (List.prefix_append _ _)
    have hbound := Lib.firstOcc_add_length hi
    obtain ⟨j, hj, hfirst⟩ := Lib.firstOcc_le (by
      rw [hsplit, List.length_append, List.length_append]
      omega) hocc'
    obtain ⟨rest, hrest⟩ := hhead
    rw [← hrest, r.firstOcc_head rest, Option.some.injEq] at hfirst
    have hfour : headersEnd.length = 4 := rfl
    rw [List.length_append]
    omega
  obtain ⟨rest, hrest⟩ := List.prefix_of_prefix_length_le hhead ⟨_, hsplit.symm⟩ hlen
  exact ⟨rest, hrest.symm⟩

/-- A delivery is uncut when one read brings the CRLF CRLF of the head. -/
theorem RawRequest.uncut_of_whole (r : RawRequest) {pre post : List Bytes} {d : Bytes}
    (h : r.bytes <+: (pre ++ d :: post).flatten) (hpre : pre.flatten.length ≤ r.head.length - 4)
    (hend : r.head.length ≤ (pre.flatten ++ d).length) : r.Uncut (pre ++ d :: post) := by
  obtain ⟨rest, hrest⟩ := h
  have hfour := r.four_le_length_head
  have hfirst := r.firstOcc_head (r.body ++ rest)
  rw [← List.append_assoc, ← RawRequest.bytes, hrest] at hfirst
  obtain ⟨hseen, -, -⟩ := terminatorSeen_whole hfirst hpre (by omega)
  refine ⟨_, hseen, fun _ => ?_⟩
  rw [Nat.sub_add_cancel hfour, ← hrest, RawRequest.bytes, List.append_assoc, List.drop_left,
    List.take_left]

/-- A request made of as many bytes from `start` on as the body has is the one with that body
exactly when these bytes are there and are the body. -/
theorem made_of_slice_iff (firstLine : QueryLine) (headers : StringMap) {stream body : Bytes}
    {start : Nat} (hstart : start ≤ stream.length) :
    (∃ request, HttpRequest.make firstLine headers body = .ok request ∧
      (if start + body.length ≤ stream.length then
        (HttpRequest.make firstLine headers ((stream.drop start).take body.length)).toOption
      else none) = some request) ↔
      (stream.drop start).take body.length = body := by
  constructor
  · rintro ⟨request, hrequest, hreturned⟩
    split at hreturned
    · obtain ⟨request', hmade⟩ := HttpRequest.make_ok firstLine headers
        ((stream.drop start).take body.length)
      rw [hmade] at hreturned
      obtain rfl := Option.some.inj hreturned
      exact HttpRequest.make_inj hmade hrequest
    · cases hreturned
  · intro hbody
    obtain ⟨request, hrequest⟩ := HttpRequest.make_ok firstLine headers body
    have henough : start + body.length ≤ stream.length := by
      have hlength := congrArg List.length hbody
      rw [List.length_take, List.length_drop] at hlength
      omega
    rw [if_pos henough, hbody, hrequest]
    exact ⟨request, rfl, rfl⟩

theorem RawRequest.receive_seen (r : RawRequest) {firstLine : QueryLine}
    (hline : QueryLine.parse r.line = .ok firstLine) {ds : List Bytes}
    (h : r.bytes <+: ds.flatten) {q : Nat} (hseen : terminatorSeen ds = some q)
    {more : List Bytes} (hmore : more ≠ []) :
    q + 4 ≤ ds.flatten.length ∧
      (receive (.head 0) [] ((ds ++ more).map .exact)).request? =
        if r.hasLength then
          if q + 4 + r.body.length ≤ (ds ++ more).flatten.length then
            (HttpRequest.make firstLine (storeFields r.fields ∅)
              (((ds ++ more).flatten.drop (q + 4)).take r.body.length)).toOption
          else none
        else (HttpRequest.make firstLine (storeFields r.fields ∅) r.body).toOption := by
  obtain ⟨pre, d, post, i, hds, hpre, hi, hq⟩ := terminatorSeen_eq_some hseen
  obtain ⟨rest, hrest⟩ := r.exists_eq_head_append h hds hi
  have hstart : q + 4 ≤ (pre.flatten ++ d).length := by
    have := Lib.firstOcc_add_length hi
    have hfour : headersEnd.length = 4 := rfl
    rw [List.length_append, hq]
    omega
  have hflat : ds.flatten = pre.flatten ++ d ++ post.flatten := by
    rw [hds, List.flatten_append, List.flatten_cons, List.append_assoc]
  refine ⟨?_, ?_⟩
  · rw [hflat, List.length_append]
    omega
  · have hrun := @receive_found pre (post ++ more) d i hpre hi
    rw [← List.cons_append, ← List.append_assoc, ← hds, ← hq] at hrun
    have hall : pre.flatten ++ d ++ (post ++ more).flatten = (ds ++ more).flatten := by
      rw [List.flatten_append, List.flatten_append, hflat, List.append_assoc _ post.flatten]
    rw [hrun, hrest, r.receiveHead_eq hline]
    by_cases hlen : r.hasLength = true
    · rw [if_pos hlen, if_pos hlen, ← hall]
      simp only
      rw [← hrest]
      exact receive_body firstLine _ _ hstart (by simp [hmore])
    · obtain ⟨request, hrequest⟩ := HttpRequest.make_ok firstLine (storeFields r.fields ∅) r.body
      rw [if_neg hlen, if_neg hlen, hrequest]
      rfl

/-- Whatever comes behind the reads `ds`, be it nothing, `receive` returns the request, exactly
when they are uncut. -/
theorem RawRequest.receive_uncut_iff (r : RawRequest) {ds : List Bytes}
    (h : r.bytes <+: ds.flatten) :
    (∃ request, r.parsed = .ok request ∧ ∀ next later,
        (receive (.head 0) [] ((ds ++ next :: later).map .exact)).request? = some request) ↔
      r.Uncut ds := by
  obtain ⟨firstLine, hline⟩ := QueryLine.parse_ok r.line
  rcases hseen : terminatorSeen ds with _ | q
  · refine ⟨fun ⟨_, _, hreturned⟩ => ?_, fun ⟨q, hq, _⟩ => ?_⟩
    · have hnone := hreturned [] []
      rw [receive_not_found (terminatorSeen_append_nil hseen)] at hnone
      cases hnone
    · rw [hseen] at hq
      cases hq
  · have hreceive := fun next later =>
      r.receive_seen hline h hseen (List.cons_ne_nil next later)
    have huncut : r.Uncut ds ↔
        (r.hasLength = true → (ds.flatten.drop (q + 4)).take r.body.length = r.body) := by
      rw [RawRequest.Uncut, hseen]
      exact ⟨fun ⟨_, hq', hbody⟩ => Option.some.inj hq' ▸ hbody, fun hbody => ⟨q, rfl, hbody⟩⟩
    rw [huncut, r.parsed_eq hline]
    by_cases hlen : r.hasLength = true
    · simp only [hlen, forall_const]
      rw [← made_of_slice_iff firstLine (storeFields r.fields ∅) (hreceive [] []).1]
      refine exists_congr fun request => and_congr_right fun _ => ⟨fun hall => ?_, fun hsome => ?_⟩
      · have hnothing := hall [] []
        rw [(hreceive [] []).2, if_pos hlen, List.flatten_append, List.flatten_cons,
          List.flatten_nil, List.append_nil, List.append_nil] at hnothing
        exact hnothing
      · -- the body is there already, so what follows does not change the slice
        intro next later
        rw [(hreceive next later).2, if_pos hlen]
        split at hsome
        case isTrue henough =>
          rw [List.flatten_append, slice_append henough, if_pos, hsome]
          rw [List.length_append]
          omega
        case isFalse => cases hsome
    · obtain ⟨request, hrequest⟩ := HttpRequest.make_ok firstLine (storeFields r.fields ∅) r.body
      refine ⟨fun _ hl => absurd hl hlen, fun _ => ⟨request, hrequest, fun next later => ?_⟩⟩
      rw [(hreceive next later).2, if_neg hlen, hrequest]
      rfl

/-! ## The reads that bring the request -/

/-- The reads up to the one that brings the `n`-th byte. -/
def readsUntil : Nat → List Bytes → List Bytes
  | _, [] => []
  | n, d :: ds => if n ≤ d.length then [d] else d :: readsUntil (n - d.length) ds

theorem readsUntil_prefix_flatten {n : Nat} {ds : List Bytes} (h : n ≤ ds.flatten.length) :
    (readsUntil n ds).flatten <+: ds.flatten ∧ n ≤ (readsUntil n ds).flatten.length := by
  induction ds generalizing n with
  | nil => exact ⟨List.prefix_rfl, h⟩
  | cons d ds ih =>
    rw [readsUntil]
    split
    case isTrue hd =>
      rw [List.flatten_cons, List.flatten_nil, List.append_nil, List.flatten_cons]
      exact ⟨List.prefix_append _ _, hd⟩
    case isFalse hd =>
      rw [List.flatten_cons, List.length_append] at h
      obtain ⟨hfront, hlength⟩ := @ih (n - d.length) (by omega)
      rw [List.flatten_cons, List.flatten_cons, List.length_append]
      exact ⟨(List.prefix_append_right_inj d).mpr hfront, by omega⟩

theorem RawRequest.prefix_readsUntil (r : RawRequest) {ds : List Bytes}
    (h : r.bytes <+: ds.flatten) : r.bytes <+: (readsUntil r.bytes.length ds).flatten := by
  obtain ⟨hfront, hlength⟩ := readsUntil_prefix_flatten h.length_le
  exact List.prefix_of_prefix_length_le h hfront hlength

theorem readsUntil_append {n : Nat} {pre : List Bytes} (h : pre.flatten.length < n)
    (ds : List Bytes) :
    readsUntil n (pre ++ ds) = pre ++ readsUntil (n - pre.flatten.length) ds := by
  induction pre generalizing n with
  | nil => rfl
  | cons d pre ih =>
    rw [List.flatten_cons, List.length_append] at h
    rw [List.cons_append, readsUntil, if_neg (by omega), ih (by omega), List.flatten_cons,
      List.length_append, Nat.sub_add_eq, List.cons_append]

theorem readsUntil_cons (n : Nat) (d : Bytes) (ds : List Bytes) :
    ∃ post, readsUntil n (d :: ds) = d :: post := by
  rw [readsUntil]
  split
  · exact ⟨[], rfl⟩
  · exact ⟨_, rfl⟩

/-- Cuts outside the CRLF CRLF of the head do no harm. -/
theorem RawRequest.uncut_readsUntil (r : RawRequest) {pre post : List Bytes} {d : Bytes}
    (h : r.bytes <+: (pre ++ d :: post).flatten) (hpre : pre.flatten.length ≤ r.head.length - 4)
    (hend : r.head.length ≤ (pre.flatten ++ d).length) :
    r.Uncut (readsUntil r.bytes.length (pre ++ d :: post)) := by
  have hfour := r.four_le_length_head
  have hbytes : r.bytes.length = r.head.length + r.body.length := List.length_append
  obtain ⟨post', hreads⟩ := readsUntil_cons (r.bytes.length - pre.flatten.length) d post
  have hwhole := r.prefix_readsUntil h
  rw [readsUntil_append (by omega), hreads] at hwhole ⊢
  exact r.uncut_of_whole hwhole hpre hend

/-- Once the reads that bring the request are made, `receive` returns it, whatever follows them,
exactly when these reads are uncut. A `next` of no bytes is the would-block read. -/
theorem receive_returns_iff (r : RawRequest) (ds : List Bytes) (h : r.bytes <+: ds.flatten) :
    (∃ request, r.parsed = .ok request ∧ ∀ next later,
        (receive (.head 0) [] ((readsUntil r.bytes.length ds ++ next :: later).map
          .exact)).request? = some request) ↔
      r.Uncut (readsUntil r.bytes.length ds) :=
  r.receive_uncut_iff (r.prefix_readsUntil h)

def getRequest : RawRequest where
  line := ascii "GET / HTTP/1.1"
  fields := [⟨ascii "Host", ascii " a", by decide, by decide, by decide⟩]
  body := []
  line_noEndline := by decide
  fields_ne_nil := by simp
  framed := rfl

theorem receive_returns_iff_example :
    (∃ request, getRequest.parsed = .ok request ∧ ∀ next later,
        (receive (.head 0) [] ((readsUntil getRequest.bytes.length
          [getRequest.bytes.take 7, getRequest.bytes.drop 7] ++ next :: later).map
            .exact)).request? = some request) ↔
      getRequest.Uncut (readsUntil getRequest.bytes.length
        [getRequest.bytes.take 7, getRequest.bytes.drop 7]) :=
  receive_returns_iff getRequest _ (by decide)

/-- The last two bytes come with a second read; the next request would follow there. -/
theorem receive_misses_cut_terminator :
    ¬ ∀ (r : RawRequest) (ds : List Bytes), r.bytes <+: ds.flatten →
      ∃ request, r.parsed = .ok request ∧ ∀ next later,
        (receive (.head 0) [] ((readsUntil r.bytes.length ds ++ next :: later).map
          .exact)).request? = some request := by
  intro h
  obtain ⟨request, -, hreturned⟩ := h getRequest
    [getRequest.bytes.take 25, getRequest.bytes.drop 25] (by decide)
  cases hreturned [] []

end AdvCppTP.Http
