import AdvCppTP.Http.ChunkReads

/-! `receive` against a peer that has shut its end down: `::recv` then returns 0, and so does
`Connection::read()`, as for a call that would block. -/

namespace AdvCppTP.Http

/-- How often a run of `receive` is resumed, the resumption that starts it included. -/
def resumptions (pc : ReceiverPc) (buffer : Bytes) : List ReadResult → Nat
  | [] => 1
  | r :: reads =>
    let buffer := buffer ++ r.appended
    match receiveStep buffer r.count pc with
    | .again pc => resumptions pc buffer reads
    | .yield pc => resumptions pc buffer reads + 1
    | .done _ => 1
    | .throw _ => 1

def Received.Left : Received → Prop
  | .waiting _ _ => False
  | .returned _ _ _ => True
  | .threw _ _ _ => True

/-- The reads of a stream that ends behind `ds`, up to `k` of them at its end. -/
def closedReads (ds : List Bytes) (k : Nat) : List ReadResult :=
  (ds ++ List.replicate k []).map chunkRead

def LeavesInTime (ds : List Bytes) : Prop :=
  ∃ k, (receive (.head 0) [] (closedReads ds k)).Left ∧
    resumptions (.head 0) [] (closedReads ds k) ≤ ds.length + 1

/-! ## Requests -/

/-- The length of the body that a head announces, `none` without a `Content-Length`. -/
def announced (head : Bytes) : Except StdError (Option Nat) := do
  let (_, headersView) ← splitUntilBody head
  let headers ← HeadersMap.parse headersView
  match headers.lookup contentLength with
  | none => return none
  | some value => return some (← stoull value)

/-- The stream brings a head that is accepted, and the body that it announces. -/
def Complete (stream : Bytes) : Prop :=
  ∃ p, Lib.firstOcc headersEnd stream = some p ∧
    match announced (stream.take (p + 4)) with
    | .ok none => True
    | .ok (some n) => p + 4 + n ≤ stream.length
    | .error _ => False

def HeadRefused (stream : Bytes) : Prop :=
  ∃ p, Lib.firstOcc headersEnd stream = some p ∧ ∃ e, announced (stream.take (p + 4)) = .error e

/-- Where the end of the head is found behind a read of `d`: the search starts at the number of
bytes received before it. -/
def search (front : List Bytes) (d : Bytes) : Option Nat :=
  Lib.find headersEnd ((front ++ [d]).flatMap Lib.cString) front.flatten.length

def Unseen (ds : List Bytes) : Prop :=
  ∀ front d back, ds = front ++ d :: back → search front d = none

/-- A chunk brings the end of the head, and the head that is then in `buffer_` is refused, has no
`Content-Length`, or announces no more than what `buffer_` has behind it and later chunks bring. -/
def HeadSettles (ds : List Bytes) : Prop :=
  ∃ front d back p, ds = front ++ d :: back ∧ Unseen front ∧ search front d = some p ∧
    ∀ n, announced ((front ++ [d]).flatMap Lib.cString) = .ok (some n) →
      p + 4 + n ≤ ((front ++ [d]).flatMap Lib.cString).length + back.flatten.length

theorem receiveHead_announced (buffer : Bytes) (headersEndPos : Nat) :
    match announced buffer with
    | .error e => receiveHead buffer headersEndPos = .throw e
    | .ok none => ∃ request, receiveHead buffer headersEndPos = .done request
    | .ok (some n) => ∃ firstLine headers, receiveHead buffer headersEndPos =
        .again (.body firstLine headers (headersEndPos + 4) n
          (buffer.length - (headersEndPos + 4))) := by
  rw [announced, receiveHead]
  rcases splitUntilBody buffer with e | ⟨firstLineView, headersView⟩
  · rfl
  obtain ⟨firstLine, hline⟩ := QueryLine.parse_ok firstLineView
  simp only [bind, Except.bind, hline]
  rcases HeadersMap.parse headersView with e | headers
  · rfl
  simp only
  rcases headers.lookup contentLength with _ | value
  · obtain ⟨request, hrequest⟩ := HttpRequest.make_ok firstLine headers []
    exact ⟨request, by rw [hrequest]; rfl⟩
  simp only
  rcases stoull value with e | n
  · rfl
  · exact ⟨firstLine, headers, rfl⟩

/-! ## The loop for the head -/

theorem unseen_concat {ds : List Bytes} {d : Bytes} :
    Unseen (ds ++ [d]) ↔ Unseen ds ∧ search ds d = none := by
  constructor
  · intro h
    refine ⟨fun front c back heq => h front c (back ++ [d]) ?_, h ds d [] rfl⟩
    rw [heq, List.append_assoc, List.cons_append]
  · rintro ⟨hds, hd⟩ front c back heq
    rcases List.eq_nil_or_concat' back with rfl | ⟨back, b, rfl⟩
    · obtain ⟨rfl, hlast⟩ := List.append_inj' heq rfl
      rw [← List.head_eq_of_cons_eq hlast]
      exact hd
    · rw [← List.cons_append, ← List.append_assoc] at heq
      exact hds front c back (List.append_inj' heq rfl).1

theorem search_cases (ds : List Bytes) :
    Unseen ds ∨ ∃ front d back p, ds = front ++ d :: back ∧ Unseen front ∧
      search front d = some p := by
  induction ds using List.reverseRecOn with
  | nil => exact .inl fun front d back h => absurd h.symm (by simp)
  | append_singleton ds d ih =>
    rcases ih with hunseen | ⟨front, c, back, p, rfl, hfront, hp⟩
    · rcases hsearch : search ds d with _ | p
      · exact .inl (unseen_concat.mpr ⟨hunseen, hsearch⟩)
      · exact .inr ⟨ds, d, [], p, rfl, hunseen, hsearch⟩
    · exact .inr ⟨front, c, back ++ [d], p, by simp, hfront, hp⟩

/-- At the end of the stream there is nothing behind the bytes that were counted. -/
theorem search_end (ds : List Bytes) : search ds [] = none := by
  have hempty : ((ds ++ [[]]).flatMap Lib.cString).drop ds.flatten.length = [] := by
    rw [List.flatMap_append, List.flatMap_singleton, show Lib.cString [] = [] from rfl,
      List.append_nil]
    exact List.drop_eq_nil_of_le (Lib.length_cStrings_le ds)
  rw [search, Lib.find, hempty]
  rfl

theorem Unseen.append_ends {ds : List Bytes} (h : Unseen ds) (k : Nat) :
    Unseen (ds ++ List.replicate k []) := by
  induction k with
  | zero =>
    rw [List.replicate_zero, List.append_nil]
    exact h
  | succ k ih =>
    rw [List.replicate_succ', ← List.append_assoc]
    exact unseen_concat.mpr ⟨ih, search_end _⟩

theorem appended_cStrings (ds : List Bytes) (d : Bytes) :
    ds.flatMap Lib.cString ++ (chunkRead d).appended = (ds ++ [d]).flatMap Lib.cString := by
  rw [List.flatMap_append, List.flatMap_singleton]
  rfl

theorem receive_unseen {ds : List Bytes} (h : Unseen ds) (reads : List ReadResult) :
    receive (.head 0) [] (ds.map chunkRead ++ reads) =
        receive (.head ds.flatten.length) (ds.flatMap Lib.cString) reads ∧
      resumptions (.head 0) [] (ds.map chunkRead ++ reads) =
        resumptions (.head ds.flatten.length) (ds.flatMap Lib.cString) reads + ds.length := by
  induction ds using List.reverseRecOn generalizing reads with
  | nil => exact ⟨rfl, rfl⟩
  | append_singleton ds d ih =>
    obtain ⟨hds, hd⟩ := unseen_concat.mp h
    obtain ⟨hreceive, hcount⟩ := ih hds (chunkRead d :: reads)
    have hpos : ds.flatten.length + (chunkRead d).count = (ds ++ [d]).flatten.length := by
      rw [List.flatten_append, List.flatten_singleton, List.length_append]
      rfl
    have hstep : receiveStep ((ds ++ [d]).flatMap Lib.cString) (chunkRead d).count
        (.head ds.flatten.length) = .yield (.head (ds ++ [d]).flatten.length) := by
      rw [receiveStep_head_of_none _ hd, hpos]
    rw [List.map_append, List.map_singleton, List.append_assoc, List.singleton_append, hreceive,
      hcount, receive_cons, resumptions, appended_cStrings]
    simp only [hstep, List.length_append, List.length_singleton, true_and]
    omega

theorem not_left_unseen {ds : List Bytes} (h : Unseen ds) (k : Nat) :
    ¬ (receive (.head 0) [] (closedReads ds k)).Left := by
  have hrun := (receive_unseen (h.append_ends k) []).1
  rw [List.append_nil] at hrun
  rw [closedReads, hrun]
  exact id

/-! ## Behind the head -/

theorem resumptions_le (pc : ReceiverPc) (buffer : Bytes) (reads : List ReadResult) :
    resumptions pc buffer reads ≤ reads.length + 1 := by
  induction reads generalizing pc buffer with
  | nil => exact Nat.le_refl 1
  | cons r reads ih =>
    rw [resumptions, List.length_cons]
    rcases receiveStep (buffer ++ r.appended) r.count pc with pc | pc | request | e
    · exact Nat.le_succ_of_le (ih pc _)
    · exact Nat.succ_le_succ (ih pc _)
    · exact Nat.succ_le_succ (Nat.zero_le _)
    · exact Nat.succ_le_succ (Nat.zero_le _)

theorem length_flatten_ends (ds : List Bytes) (k : Nat) :
    (ds ++ List.replicate k []).flatten.length = ds.flatten.length := by
  rw [List.flatten_append, List.flatten_replicate_nil, List.append_nil]

/-- `read_body` is left as soon as the announced bytes are counted, and never without them. -/
theorem receive_body_left_iff (firstLine : QueryLine) (headers : StringMap) {start : Nat}
    (len : Nat) {buffer : Bytes} (hstart : start ≤ buffer.length) (ds : List Bytes) (k : Nat) :
    (receive (.body firstLine headers start len (buffer.length - start)) buffer
        (closedReads ds k)).Left ↔
      (ds ++ List.replicate k [] ≠ [] ∧ start + len ≤ buffer.length + ds.flatten.length) := by
  have htotal := length_flatten_ends ds k
  rcases receive_body_chunks firstLine headers len hstart (buffer.length - start)
    (ds ++ List.replicate k []) with
    ⟨pc, buf, hrun, hshort⟩ | ⟨pre, post, request, hsplit, hne, henough, hrun, -⟩
  · rw [closedReads, hrun]
    refine ⟨fun h => h.elim, fun ⟨hreads, henough⟩ => ?_⟩
    have hless := hshort.resolve_left hreads
    omega
  · rw [closedReads, hrun]
    rw [hsplit, List.flatten_append, List.length_append] at htotal
    refine ⟨fun _ => ⟨?_, by omega⟩, fun _ => trivial⟩
    rw [hsplit]
    exact List.append_ne_nil_of_left_ne_nil hne post

theorem search_room {front : List Bytes} {d : Bytes} {p : Nat} (h : search front d = some p) :
    p + 4 ≤ ((front ++ [d]).flatMap Lib.cString).length :=
  Lib.add_length_of_find (by decide) h

theorem closedReads_append (front : List Bytes) (d : Bytes) (back : List Bytes) (k : Nat) :
    closedReads (front ++ d :: back) k =
      front.map chunkRead ++ chunkRead d :: closedReads back k := by
  rw [closedReads, List.append_assoc, List.map_append]
  rfl

/-- The run that finds the end of the head in `d`. -/
theorem receive_seen {front : List Bytes} {d : Bytes} {p : Nat} (hfront : Unseen front)
    (hp : search front d = some p) (back : List Bytes) (k : Nat) :
    (receive (.head 0) [] (closedReads (front ++ d :: back) k)).Left ↔
      ∀ n, announced ((front ++ [d]).flatMap Lib.cString) = .ok (some n) →
        back ++ List.replicate k [] ≠ [] ∧
          p + 4 + n ≤ ((front ++ [d]).flatMap Lib.cString).length + back.flatten.length := by
  have hstep := receiveStep_head_of_some (chunkRead d).count hp
  have hhead := receiveHead_announced ((front ++ [d]).flatMap Lib.cString) p
  rw [closedReads_append, (receive_unseen hfront _).1, receive_cons,
    appended_cStrings, hstep]
  split at hhead
  case h_1 e he =>
    rw [hhead, he]
    exact ⟨fun _ n hn => (by cases hn), fun _ => trivial⟩
  case h_2 hnone =>
    obtain ⟨request, hrequest⟩ := hhead
    rw [hrequest, hnone]
    exact ⟨fun _ n hn => (by cases hn), fun _ => trivial⟩
  case h_3 n hn =>
    obtain ⟨firstLine, headers, hbody⟩ := hhead
    rw [hbody, hn]
    simp only [Except.ok.injEq, Option.some.injEq, forall_eq']
    exact receive_body_left_iff firstLine headers n (search_room hp) back k

theorem resumptions_seen {front : List Bytes} {d : Bytes} {p : Nat} (hfront : Unseen front)
    (hp : search front d = some p) (back : List Bytes) :
    resumptions (.head 0) [] (closedReads (front ++ d :: back) 1) ≤
      (front ++ d :: back).length + 1 := by
  have hstep := receiveStep_head_of_some (chunkRead d).count hp
  have hlength : (closedReads back 1).length = back.length + 1 := by
    rw [closedReads, List.length_map, List.length_append, List.length_replicate]
  rw [closedReads_append, (receive_unseen hfront _).2, resumptions, appended_cStrings, hstep,
    List.length_append, List.length_cons]
  -- the chunk with the end of the head is not followed by a yield
  obtain ⟨firstLine, headers, startPos, bodyLen, wasRead, hhead⟩ | ⟨request, hhead⟩ | ⟨e, hhead⟩ :=
    receiveHead_cases ((front ++ [d]).flatMap Lib.cString) p
  · have hle := resumptions_le (.body firstLine headers startPos bodyLen wasRead)
      ((front ++ [d]).flatMap Lib.cString) (closedReads back 1)
    simp only [hhead]
    omega
  · simp only [hhead]
    omega
  · simp only [hhead]
    omega

theorem leavesInTime_iff_headSettles (ds : List Bytes) : LeavesInTime ds ↔ HeadSettles ds := by
  constructor
  · rintro ⟨k, hleft, -⟩
    rcases search_cases ds with hunseen | ⟨front, d, back, p, rfl, hfront, hp⟩
    · exact absurd hleft (not_left_unseen hunseen k)
    · exact ⟨front, d, back, p, rfl, hfront, hp,
        fun n hn => ((receive_seen hfront hp back k).mp hleft n hn).2⟩
  · rintro ⟨front, d, back, p, rfl, hfront, hp, hsettles⟩
    refine ⟨1, (receive_seen hfront hp back 1).mpr fun n hn => ⟨by simp, hsettles n hn⟩, ?_⟩
    exact resumptions_seen hfront hp back

/-! ## Streams without NUL -/

/-- What stands behind the head changes its views only if no header line follows the first. -/
theorem splitUntilBody_head {front rest : Bytes}
    (h : Lib.firstOcc headersEnd (front ++ headersEnd ++ rest) = some front.length) :
    splitUntilBody (front ++ headersEnd) = splitUntilBody (front ++ headersEnd ++ rest) ∨
      splitUntilBody (front ++ headersEnd) = .ok (front, [13]) := by
  rcases hline : Lib.firstOcc endline front with _ | i
  · have hends : front ++ headersEnd = front ++ endline ++ endline := by
      rw [List.append_assoc]
      rfl
    right
    rw [hends, splitUntilBody_of_firstOcc (Lib.firstOcc_eq_none.mp hline)]
    rfl
  · obtain ⟨lines, hlines⟩ := Lib.eq_append_of_firstOcc hline
    have hfirst := Lib.not_infix_take (by decide) hline
    generalize front.take i = line at hlines hfirst
    subst hlines
    have hend : Lib.firstOcc headersEnd (lines ++ headersEnd ++ rest) = some lines.length := by
      rw [List.append_assoc (line ++ endline), List.append_assoc (line ++ endline)] at h
      refine Lib.firstOcc_of_append_right (l := line ++ endline) (h.trans ?_)
      exact congrArg some List.length_append
    have hend' : Lib.firstOcc headersEnd (lines ++ headersEnd) = some lines.length :=
      Lib.firstOcc_of_append_left hend (by rw [List.length_append])
    have hsame : (lines ++ headersEnd ++ rest).take (lines.length + 2) =
        (lines ++ headersEnd).take (lines.length + 2) := by
      refine List.take_append_of_le_length ?_
      rw [List.length_append]
      exact Nat.add_le_add_left (by decide) _
    have hsplit : splitUntilBody (line ++ endline ++ (lines ++ headersEnd)) = _ :=
      splitUntilBody_of_firstOcc hfirst
    have hsplit' : splitUntilBody (line ++ endline ++ (lines ++ headersEnd ++ rest)) = _ :=
      splitUntilBody_of_firstOcc hfirst
    rw [Lib.find_zero, hend', upTo, plus] at hsplit
    rw [Lib.find_zero, hend, upTo, plus, hsame] at hsplit'
    left
    rw [List.append_assoc (line ++ endline), List.append_assoc (line ++ endline), hsplit, hsplit']

theorem announced_take {buffer : Bytes} {p : Nat} (h : Lib.firstOcc headersEnd buffer = some p) :
    announced (buffer.take (p + 4)) = announced buffer ∨
      announced (buffer.take (p + 4)) = .ok none := by
  have hroom := Lib.firstOcc_add_length h
  obtain ⟨rest, hrest⟩ := Lib.eq_append_of_firstOcc h
  have hlen : (buffer.take p).length = p := by
    rw [List.length_take]
    omega
  generalize buffer.take p = front at hrest hlen
  subst hrest hlen
  have hhead : (front ++ headersEnd ++ rest).take (front.length + 4) = front ++ headersEnd :=
    List.take_left' (by rw [List.length_append]; rfl)
  rw [hhead, announced, announced]
  rcases splitUntilBody_head h with hsplit | hsplit
  · left
    rw [hsplit]
  · right
    rw [hsplit]
    rfl

theorem search_noNul {front : List Bytes} {d : Bytes} (h : (0 : UInt8) ∉ (front ++ [d]).flatten) :
    search front d = (Lib.firstOcc headersEnd d).map (· + front.flatten.length) := by
  rw [search, Lib.cStrings_eq_flatten h, List.flatten_append, List.flatten_singleton,
      Lib.find_append]

theorem noNul_front {front : List Bytes} {d : Bytes} {back : List Bytes}
    (h : (0 : UInt8) ∉ (front ++ d :: back).flatten) : (0 : UInt8) ∉ (front ++ [d]).flatten := by
  rw [List.append_cons, List.flatten_append] at h
  exact fun hzero => h (List.mem_append_left _ hzero)

/-- The head that the run has in `buffer_` announces what the head of the stream does, unless that
announces nothing. -/
theorem search_head {front : List Bytes} {d : Bytes} {back : List Bytes} {p : Nat}
    (hnul : (0 : UInt8) ∉ (front ++ d :: back).flatten) (hp : search front d = some p) :
    ∃ q ≤ p, Lib.firstOcc headersEnd (front ++ d :: back).flatten = some q ∧
      (announced ((front ++ d :: back).flatten.take (q + 4)) =
          announced ((front ++ [d]).flatMap Lib.cString) ∨
        announced ((front ++ d :: back).flatten.take (q + 4)) = .ok none) := by
  have hroom := search_room hp
  have hprefix : headersEnd <+: ((front ++ [d]).flatMap Lib.cString).drop p := by
    obtain ⟨i, hi, rfl⟩ := Option.map_eq_some_iff.mp hp
    obtain ⟨-, hocc, -⟩ := Lib.firstOcc_eq_some.mp hi
    rwa [List.drop_drop, Nat.add_comm] at hocc
  have hstream : (front ++ d :: back).flatten =
      (front ++ [d]).flatMap Lib.cString ++ back.flatten := by
    rw [Lib.cStrings_eq_flatten (noNul_front hnul), ← List.flatten_append, List.append_cons]
  obtain ⟨q, hle, hq⟩ := Lib.firstOcc_le (by omega) hprefix
  have hshort : q + 4 ≤ ((front ++ [d]).flatMap Lib.cString).length := by omega
  refine ⟨q, hle, ?_, ?_⟩
  · rw [hstream]
    exact Lib.firstOcc_append hq _
  · rw [hstream, List.take_append_of_le_length hshort]
    exact announced_take hq

theorem headSettles_iff_of_noNul {ds : List Bytes} (hnul : (0 : UInt8) ∉ ds.flatten)
    (h : ¬ Complete ds.flatten) :
    HeadSettles ds ↔ (∃ d ∈ ds, headersEnd <:+: d) ∧ HeadRefused ds.flatten := by
  constructor
  · rintro ⟨front, d, back, p, rfl, -, hp, hsettles⟩
    obtain ⟨q, hle, hq, hsame⟩ := search_head hnul hp
    have hfound := hp
    rw [search_noNul (noNul_front hnul)] at hfound
    obtain ⟨i, hi, -⟩ := Option.map_eq_some_iff.mp hfound
    have hinfix : headersEnd <:+: d := by
      by_contra hnone
      rw [Lib.firstOcc_eq_none.mpr hnone] at hi
      cases hi
    refine ⟨⟨d, by simp, hinfix⟩, q, hq, ?_⟩
    rcases hhead : announced ((front ++ d :: back).flatten.take (q + 4)) with e | _ | n
    · exact ⟨e, rfl⟩
    · exact absurd ⟨q, hq, by rw [hhead]; trivial⟩ h
    · -- the stream would bring all of the body
      have hannounced := hsame.resolve_right (by rw [hhead]; simp)
      have henough := hsettles n (hannounced.symm.trans hhead)
      refine absurd ⟨q, hq, ?_⟩ h
      rw [hhead]
      have hlen : (front ++ d :: back).flatten.length =
          ((front ++ [d]).flatMap Lib.cString).length + back.flatten.length := by
        rw [Lib.cStrings_eq_flatten (noNul_front hnul), ← List.length_append, ← List.flatten_append,
          List.append_cons]
      simp only [hlen]
      omega
  · rintro ⟨⟨d₀, hd₀, hinfix⟩, q', hq', e, he⟩
    -- without a NUL the search sees every terminator that one read brings
    rcases search_cases ds with hunseen | ⟨front, d, back, p, rfl, hfront, hp⟩
    · obtain ⟨front, back, rfl⟩ := List.append_of_mem hd₀
      have hnone := hunseen front d₀ back rfl
      rw [search_noNul (noNul_front hnul), Option.map_eq_none_iff] at hnone
      exact absurd hinfix (Lib.firstOcc_eq_none.mp hnone)
    · obtain ⟨q, -, hq, hsame⟩ := search_head hnul hp
      obtain rfl := Option.some.inj (hq.symm.trans hq')
      refine ⟨front, d, back, p, rfl, hfront, hp, fun n hn => ?_⟩
      rw [he, hn] at hsame
      rcases hsame with hsame | hsame <;> cases hsame

/-- Behind an incomplete stream `receive` ends only if it finds a head that it refuses; where NULs
cut reads off, also if the head that is left announces no more than was counted. -/
theorem closed_peer_leaves_iff {ds : List Bytes} (h : ¬ Complete ds.flatten) :
    (LeavesInTime ds ↔ HeadSettles ds) ∧
      ((0 : UInt8) ∉ ds.flatten →
        (LeavesInTime ds ↔ (∃ d ∈ ds, headersEnd <:+: d) ∧ HeadRefused ds.flatten)) :=
  ⟨leavesInTime_iff_headSettles ds, fun hnul =>
    (leavesInTime_iff_headSettles ds).trans (headSettles_iff_of_noNul hnul h)⟩

/-- A head with an empty value, in two chunks. -/
def refusedChunks : List Bytes := [ascii "GET / HT", ascii "TP/1.0\r\nAccept:\r\n\r\n"]

theorem not_complete_refusedChunks : ¬ Complete refusedChunks.flatten := by
  rintro ⟨p, hp, hcomplete⟩
  obtain rfl : 23 = p := Option.some.inj hp
  exact hcomplete

theorem closed_peer_leaves_iff_refused :
    (LeavesInTime refusedChunks ↔ HeadSettles refusedChunks) ∧
      ((0 : UInt8) ∉ refusedChunks.flatten →
        (LeavesInTime refusedChunks ↔
          (∃ d ∈ refusedChunks, headersEnd <:+: d) ∧ HeadRefused refusedChunks.flatten)) :=
  closed_peer_leaves_iff not_complete_refusedChunks

theorem half_a_head_never_leaves :
    ¬ ∀ ds : List Bytes, ¬ Complete ds.flatten → LeavesInTime ds := by
  intro h
  have hincomplete : ¬ Complete [ascii "GET"].flatten := fun ⟨p, hp, _⟩ => by cases hp
  obtain ⟨k, hleft, -⟩ := h [ascii "GET"] hincomplete
  have hnil : Unseen [] := fun front d back heq => absurd heq.symm (by simp)
  have hunseen : Unseen ([] ++ [ascii "GET"]) := unseen_concat.mpr ⟨hnil, rfl⟩
  exact not_left_unseen hunseen k hleft

end AdvCppTP.Http
