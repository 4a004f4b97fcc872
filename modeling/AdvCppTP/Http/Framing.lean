import AdvCppTP.Http.Messages

/-! What a client reads back from consecutive responses on one connection. -/

namespace AdvCppTP.Http

/-! ## Reading by `Content-Length` -/

def fromDecimal (s : Bytes) : Option Nat :=
  if s ≠ [] ∧ s.all fun c => (digitValue 10 c).isSome then some (readDigits 10 0 s) else none

def announcedLength (head : Bytes) : Option Nat := do
  let pos ← Lib.firstOcc (endline ++ ascii "Content-Length: ") head
  fromDecimal ((head.drop (pos + 18)).takeWhile fun c => c ≠ 13)

/-- Take the head up to the first CRLF CRLF, then exactly the announced number of bytes, and
repeat; `fuel` bounds the number of messages. -/
def readBackLoop : Nat → Bytes → Option (List (Bytes × Bytes))
  | _, [] => some []
  | 0, _ :: _ => none
  | fuel + 1, c :: stream => do
    let pos ← Lib.firstOcc headersEnd (c :: stream)
    let head := (c :: stream).take pos
    let len ← announcedLength head
    let rest := (c :: stream).drop (pos + 4)
    if rest.length < len then none
    else
      let messages ← readBackLoop fuel (rest.drop len)
      return (head, rest.take len) :: messages

def readBack (stream : Bytes) : Option (List (Bytes × Bytes)) :=
  readBackLoop stream.length stream

example : (readBack (ascii "A\r\nContent-Length: 2\r\n\r\nhiB\r\nContent-Length: 0\r\n\r\n")).map
    (List.map Prod.snd) = some [ascii "hi", []] := by decide

theorem readBackLoop_bare_end (fuel : Nat) (rest : Bytes) :
    readBackLoop fuel (headersEnd ++ rest) = none := by
  -- the head in front announces nothing
  cases fuel with
  | zero => rfl
  | succ fuel =>
    have hpos : Lib.firstOcc headersEnd (headersEnd ++ rest) = some 0 :=
      Lib.firstOcc_eq_zero (List.prefix_append _ _)
    have hnone : announcedLength [] = none := by decide
    rw [show headersEnd ++ rest = 13 :: ([10, 13, 10] ++ rest) from rfl] at hpos ⊢
    rw [readBackLoop, hpos]
    simp only [Option.bind_eq_bind, Option.bind_some, List.take_zero, hnone, Option.bind_none]

/-! ## Responses as a handler builds them -/

inductive SetCall
  | setStatus (statusCode : Nat)
  | setHeader (header value : Bytes)
  | setBody (body : Bytes)
  deriving DecidableEq, Repr

def HttpResponse.apply (response : HttpResponse) : SetCall → HttpResponse
  | .setStatus statusCode => response.setStatus statusCode
  | .setHeader header value => (response.setHeader header value).1
  | .setBody body => response.setBody body

def SetCall.body? : SetCall → Option Bytes
  | .setBody body => some body
  | _ => none

def noEndlineBytes (s : Bytes) : Prop := 13 ∉ s ∧ 10 ∉ s

instance (s : Bytes) : Decidable (noEndlineBytes s) := inferInstanceAs (Decidable (_ ∧ _))

/-- A constructor call and setter calls, one of them `setBody(body)`, that leave a known status. -/
structure Built where
  version : HttpVersion
  statusCode : Nat
  calls : List SetCall
  body : Bytes
  oneBody : calls.filterMap SetCall.body? = [body]
  clean : ∀ header value, .setHeader header value ∈ calls →
    noEndlineBytes header ∧ noEndlineBytes value ∧ header ≠ ascii "Content-Length"
  known : statusInfo (calls.foldl HttpResponse.apply (.new version statusCode)).statusCode ≠ none

def Built.response (b : Built) : HttpResponse :=
  b.calls.foldl HttpResponse.apply (.new b.version b.statusCode)

def Built.message (hash : HashOrder) (b : Built) : Bytes :=
  (b.response.message hash).getD []

theorem noEndlineBytes_toDecimal (n : Nat) : noEndlineBytes (toDecimal n) := by
  have hdigit : ∀ c ∈ toDecimal n, c ≠ 13 ∧ c ≠ 10 := by
    intro c hc
    obtain ⟨ch, hch, rfl⟩ := List.mem_map.mp hc
    have hd := Nat.isDigit_of_mem_toDigits (by decide) (by decide) hch
    simp only [Char.isDigit, Bool.and_eq_true, decide_eq_true_eq] at hd
    obtain ⟨hlow, hhigh⟩ := hd
    have h1 : 48 ≤ ch.toNat := hlow
    have h2 : ch.toNat ≤ 57 := hhigh
    constructor <;> intro heq <;> have := congrArg UInt8.toNat heq <;>
      simp only [UInt8.toNat_ofNat', UInt8.reduceToNat] at this <;> omega
  exact ⟨fun h => (hdigit 13 h).1 rfl, fun h => (hdigit 10 h).2 rfl⟩

theorem noEndlineBytes_append {s t : Bytes} (hs : noEndlineBytes s) (ht : noEndlineBytes t) :
    noEndlineBytes (s ++ t) :=
  ⟨fun h => (List.mem_append.mp h).elim hs.1 ht.1, fun h => (List.mem_append.mp h).elim hs.2 ht.2⟩

theorem not_endline_infix {s : Bytes} (hs : noEndlineBytes s) : ¬ endline <:+: s :=
  fun h => hs.1 (h.subset (by decide))

theorem body_foldl_apply (calls : List SetCall) (r : HttpResponse) :
    (calls.foldl HttpResponse.apply r).body =
      (calls.filterMap SetCall.body?).getLast?.getD r.body := by
  induction calls generalizing r with
  | nil => rfl
  | cons call calls ih =>
    rw [List.foldl_cons, ih]
    cases call with
    | setStatus statusCode => rfl
    | setHeader header value => rfl
    | setBody body =>
      rw [List.filterMap_cons_some (show SetCall.body? (.setBody body) = some body from rfl),
        List.getLast?_cons, Option.getD_some]
      rfl

theorem Built.response_body (b : Built) : b.response.body = b.body := by
  rw [Built.response, body_foldl_apply, b.oneBody]
  rfl

def cleanHeaders (headers : StringMap) : Prop :=
  ∀ e ∈ headers.entries, noEndlineBytes e.1 ∧ noEndlineBytes e.2

theorem cleanHeaders_emplace {headers : StringMap} (h : cleanHeaders headers) {header value : Bytes}
    (hheader : noEndlineBytes header) (hvalue : noEndlineBytes value) :
    cleanHeaders (Lib.emplace header value headers) := by
  by_cases hmem : header ∈ headers
  · rwa [Lib.emplace_of_mem hmem]
  · rw [Lib.emplace_of_notMem hmem]
    intro e he
    rw [AList.entries_insert_of_notMem hmem] at he
    rcases List.mem_cons.mp he with rfl | he
    · exact ⟨hheader, hvalue⟩
    · exact h e he

theorem cleanHeaders_foldl_apply {calls : List SetCall} {r : HttpResponse}
    (hr : cleanHeaders r.headers)
    (hcalls : ∀ header value, .setHeader header value ∈ calls →
      noEndlineBytes header ∧ noEndlineBytes value) :
    cleanHeaders (calls.foldl HttpResponse.apply r).headers := by
  induction calls generalizing r with
  | nil => exact hr
  | cons call calls ih =>
    refine ih ?_ fun h v hv => hcalls h v (List.mem_cons_of_mem call hv)
    cases call with
    | setStatus statusCode => exact hr
    | setHeader header value =>
      obtain ⟨hheader, hvalue⟩ := hcalls header value List.mem_cons_self
      exact cleanHeaders_emplace hr hheader hvalue
    | setBody body =>
      exact cleanHeaders_emplace hr (by decide) (noEndlineBytes_toDecimal body.length)

theorem noEndlineBytes_statusInfo {statusCode : Nat} {info : Bytes}
    (h : statusInfo statusCode = some info) : noEndlineBytes info := by
  unfold statusInfo at h
  split at h <;> cases h <;> decide

theorem Built.message_eq (hash : HashOrder) (b : Built) :
    ∃ (line : Bytes) (lines : List Bytes),
      b.message hash = headBytes line lines ++ (b.body ++ headersEnd) ∧
        ¬ endline <:+: line ∧ ∀ l ∈ lines, l ≠ [] ∧ ¬ endline <:+: l := by
  obtain ⟨info, hinfo⟩ := Option.ne_none_iff_exists'.mp b.known
  have hclean : cleanHeaders b.response.headers :=
    cleanHeaders_foldl_apply (fun e he => absurd he List.not_mem_nil) fun h v hv =>
      ⟨(b.clean h v hv).1, (b.clean h v hv).2.1⟩
  refine ⟨b.response.version.toBytes ++ ascii " " ++ toDecimal b.response.statusCode ++ ascii " " ++
      info, (hash.entries b.response.headers).map fun e => e.1 ++ ascii ": " ++ e.2, ?_, ?_, ?_⟩
  · rw [Built.message, HttpResponse.message, show statusInfo b.response.statusCode = _ from hinfo,
      Option.map_some, Option.getD_some, b.response_body, headBytes, List.flatMap_map]
    simp only [List.append_assoc]
    rfl
  · have hversion : noEndlineBytes b.response.version.toBytes := by
      cases b.response.version <;> decide
    exact not_endline_infix (noEndlineBytes_append (noEndlineBytes_append (noEndlineBytes_append
      (noEndlineBytes_append hversion (by decide)) (noEndlineBytes_toDecimal _)) (by decide))
      (noEndlineBytes_statusInfo hinfo))
  · intro l hl
    obtain ⟨e, he, rfl⟩ := List.mem_map.mp hl
    obtain ⟨e', he', rfl⟩ := List.mem_map.mp ((hash.perm _).mem_iff.mp he)
    obtain ⟨hheader, hvalue⟩ := hclean e' he'
    refine ⟨by simp [ascii], not_endline_infix ?_⟩
    exact noEndlineBytes_append (noEndlineBytes_append hheader (by decide)) hvalue

theorem Built.firstOcc_message (hash : HashOrder) (b : Built) (rest : Bytes) :
    ∃ pos, Lib.firstOcc headersEnd (b.message hash ++ rest) = some pos ∧
      (b.message hash ++ rest).drop (pos + 4) = b.body ++ (headersEnd ++ rest) := by
  obtain ⟨line, lines, hmessage, hline, hlines⟩ := b.message_eq hash
  have hshape : b.message hash ++ rest =
      headBytes line lines ++ (b.body ++ (headersEnd ++ rest)) := by
    simp only [hmessage, List.append_assoc]
  rw [hshape]
  exact ⟨_, firstOcc_headBytes hline hlines _, drop_headBytes line lines _⟩

theorem readBack_eq_some {stream : Bytes} {pos : Nat} {messages : List (Bytes × Bytes)}
    (hpos : Lib.firstOcc headersEnd stream = some pos) (hne : stream ≠ [])
    (h : readBack stream = some messages) :
    ∃ len fuel tail, len ≤ (stream.drop (pos + 4)).length ∧
      readBackLoop fuel ((stream.drop (pos + 4)).drop len) = some tail ∧
      messages = (stream.take pos, (stream.drop (pos + 4)).take len) :: tail := by
  cases stream with
  | nil => exact absurd rfl hne
  | cons c stream =>
    rw [readBack, List.length_cons, readBackLoop, hpos] at h
    simp only [Option.bind_eq_bind, Option.bind_some] at h
    obtain ⟨len, -, h⟩ := Option.bind_eq_some_iff.mp h
    split at h
    · cases h
    case isFalse hroom =>
      obtain ⟨tail, htail, h⟩ := Option.bind_eq_some_iff.mp h
      exact ⟨len, stream.length, tail, Nat.le_of_not_lt hroom, htail, (Option.some.inj h).symm⟩

/-- The four bytes that a send adds behind the body desynchronise the reader, whatever is sent. -/
theorem responses_framed_iff (hash : HashOrder) (bs : List Built) :
    (readBack (bs.flatMap (Built.message hash))).map (List.map Prod.snd) =
      some (bs.map Built.body) ↔ bs = [] := by
  refine ⟨fun h => ?_, by rintro rfl; rfl⟩
  cases bs with
  | nil => rfl
  | cons b bs =>
    exfalso
    rw [List.flatMap_cons, List.map_cons] at h
    obtain ⟨pos, hpos, hdrop⟩ := b.firstOcc_message hash (bs.flatMap (Built.message hash))
    obtain ⟨messages, hmessages, hbodies⟩ := Option.map_eq_some_iff.mp h
    have hne : b.message hash ++ bs.flatMap (Built.message hash) ≠ [] := fun hnil => by
      simp [hnil, headersEnd, ascii] at hdrop
    obtain ⟨len, fuel, tail, hlen, htail, rfl⟩ := readBack_eq_some hpos hne hmessages
    rw [hdrop] at hlen htail hbodies
    rw [List.map_cons, List.cons.injEq] at hbodies
    -- the first body read is the one that was set, so its length was announced
    have hlen' : len = b.body.length := by
      have hlength := congrArg List.length hbodies.1
      rwa [List.length_take, Nat.min_eq_left hlen] at hlength
    rw [hlen', List.drop_left, readBackLoop_bare_end] at htail
    cases htail

def emptyOk : Built where
  version := .v1_1
  statusCode := 200
  calls := [.setBody []]
  body := []
  oneBody := rfl
  clean := by simp
  known := by decide

theorem response_not_framed :
    ¬ ∀ (hash : HashOrder) (bs : List Built),
      (readBack (bs.flatMap (Built.message hash))).map (List.map Prod.snd) =
        some (bs.map Built.body) := by
  intro h
  exact absurd (h .stored [emptyOk]) (by decide)

end AdvCppTP.Http
