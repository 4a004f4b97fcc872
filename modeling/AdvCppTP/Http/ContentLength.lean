import AdvCppTP.Http.ChunkReads
import AdvCppTP.Http.QueryParams
import Mathlib.Data.List.TakeWhile

/-! The grammar of `Content-Length` against the one of `std::stoull`, and what the difference does
to `Receiver::receive`. -/

namespace AdvCppTP.Http

/-! ## The two grammars -/

def IsDigit (c : UInt8) : Prop := 48 ≤ c ∧ c ≤ 57

instance : DecidablePred IsDigit := fun c => inferInstanceAs (Decidable (48 ≤ c ∧ c ≤ 57))

def decimalValue (digits : Bytes) : Nat := digits.foldl (fun n c => n * 10 + (c.toNat - 48)) 0

/-- Decimal digits, followed only by blanks, that denote `n`. -/
def LengthText (value : Bytes) (n : Nat) : Prop :=
  ∃ digits blanks, value = digits ++ blanks ∧ digits ≠ [] ∧ (∀ c ∈ digits, IsDigit c) ∧
    (∀ c ∈ blanks, c ∈ whitespaces) ∧ decimalValue digits = n

/-- A text that `std::stoull` takes digits from. -/
structure StoullText where
  space : Bytes
  sign : Bytes
  digits : Bytes
  rest : Bytes
  space_only : ∀ c ∈ space, isSpace c = true
  sign_mem : sign ∈ [[], ascii "+", ascii "-"]
  digits_ne_nil : digits ≠ []
  digits_only : ∀ c ∈ digits, IsDigit c
  rest_head : ∀ c ∈ rest.head?, ¬ IsDigit c

def StoullText.bytes (t : StoullText) : Bytes := t.space ++ t.sign ++ t.digits ++ t.rest

/-- The values on which `std::stoull` does not throw. -/
def StoullTakes (value : Bytes) : Prop :=
  ∃ t : StoullText, t.bytes = value ∧ decimalValue t.digits < UInt64.size

theorem digitValue_ten (c : UInt8) :
    digitValue 10 c = if IsDigit c then some (c.toNat - 48) else none :=
  byte_cases (P := fun c => digitValue 10 c = if IsDigit c then some (c.toNat - 48) else none)
    (by decide +kernel) c

theorem IsDigit.clean {c : UInt8} (h : IsDigit c) : isSpace c = false ∧ c ≠ 43 ∧ c ≠ 45 := by
  have hall : ∀ c, IsDigit c → isSpace c = false ∧ c ≠ 43 ∧ c ≠ 45 := byte_cases (by decide +kernel)
  exact hall c h

theorem readDigits_append {digits rest : Bytes} (hdigits : ∀ c ∈ digits, IsDigit c)
    (hrest : ∀ c ∈ rest.head?, ¬ IsDigit c) (acc : Nat) :
    readDigits 10 acc (digits ++ rest) = digits.foldl (fun n c => n * 10 + (c.toNat - 48)) acc := by
  induction digits generalizing acc with
  | nil =>
    cases rest with
    | nil => rfl
    | cons c rest =>
      rw [List.nil_append, readDigits, digitValue_ten, if_neg (hrest c rfl)]
      rfl
  | cons c digits ih =>
    rw [List.forall_mem_cons] at hdigits
    rw [List.cons_append, readDigits, digitValue_ten, if_pos hdigits.1]
    exact ih hdigits.2 _

theorem readSign_digits {digits rest : Bytes} (hne : digits ≠ []) (h : ∀ c ∈ digits, IsDigit c) :
    readSign (digits ++ rest) = (false, digits ++ rest) := by
  obtain ⟨c, digits, rfl⟩ := List.exists_cons_of_ne_nil hne
  obtain ⟨-, hplus, hminus⟩ := (h c List.mem_cons_self).clean
  rw [List.cons_append, readSign]
  · rintro s ⟨⟩
    exact hplus rfl
  · rintro s ⟨⟩
    exact hminus rfl

theorem StoullText.stoull_eq (t : StoullText) :
    stoull t.bytes =
      if UInt64.size ≤ decimalValue t.digits then .error .outOfRange
      else .ok (if t.sign = ascii "-" then
        (UInt64.size - decimalValue t.digits) % UInt64.size else decimalValue t.digits) := by
  obtain ⟨space, sign, digits, rest, hspace, hsign, hne, hdigits, hrest⟩ := t
  obtain ⟨c, tail, hcons⟩ := List.exists_cons_of_ne_nil hne
  have hc : IsDigit c := hdigits c (hcons ▸ List.mem_cons_self)
  have hhead : ((digits ++ rest).head?).bind (digitValue 10) = some (c.toNat - 48) := by
    rw [hcons, List.cons_append, List.head?_cons, Option.bind_some, digitValue_ten, if_pos hc]
  have hvalue : readDigits 10 0 (digits ++ rest) = decimalValue digits :=
    readDigits_append hdigits hrest 0
  have hskip : (space ++ sign ++ digits ++ rest).dropWhile isSpace = sign ++ (digits ++ rest) := by
    rw [List.append_assoc, List.append_assoc, List.dropWhile_append_of_pos hspace]
    simp only [List.mem_cons, List.not_mem_nil, or_false] at hsign
    rcases hsign with rfl | rfl | rfl
    · rw [List.nil_append, hcons, List.cons_append]
      exact List.dropWhile_cons_of_neg (by rw [hc.clean.1]; decide)
    · exact List.dropWhile_cons_of_neg (by decide)
    · exact List.dropWhile_cons_of_neg (by decide)
  rw [StoullText.bytes, stoull, hskip]
  simp only [List.mem_cons, List.not_mem_nil, or_false] at hsign
  rcases hsign with rfl | rfl | rfl
  · simp only [List.nil_append, readSign_digits hne hdigits, hhead, hvalue]
    rfl
  · simp only [show readSign (ascii "+" ++ (digits ++ rest)) = (false, digits ++ rest) from rfl,
      hhead, hvalue]
    rfl
  · simp only [show readSign (ascii "-" ++ (digits ++ rest)) = (true, digits ++ rest) from rfl,
      hhead, hvalue]

theorem readSign_cases (s : Bytes) :
    ∃ sign ∈ [[], ascii "+", ascii "-"], s = sign ++ (readSign s).2 := by
  rw [readSign.eq_def]
  split
  · exact ⟨ascii "+", by simp, rfl⟩
  · exact ⟨ascii "-", by simp, rfl⟩
  · exact ⟨[], by simp, rfl⟩

theorem exists_stoullText {value : Bytes} (h : stoull value ≠ .error .invalidArgument) :
    ∃ t : StoullText, t.bytes = value := by
  obtain ⟨sign, hsign, hsplit⟩ := readSign_cases (value.dropWhile isSpace)
  rcases hs : (readSign (value.dropWhile isSpace)).2 with _ | ⟨c, s⟩
  · refine absurd ?_ h
    simp only [stoull, hs]
    rfl
  · by_cases hc : IsDigit c
    · refine ⟨⟨value.takeWhile isSpace, sign, (c :: s).takeWhile fun c => IsDigit c,
        (c :: s).dropWhile fun c => IsDigit c, fun d hd => List.mem_takeWhile_imp hd, hsign, ?_,
        fun d hd => by simpa using List.mem_takeWhile_imp hd, fun d hd => ?_⟩, ?_⟩
      · rw [List.takeWhile_cons_of_pos (by simpa using hc)]
        exact List.cons_ne_nil c _
      · have hhead := List.head?_dropWhile_not (fun c => decide (IsDigit c)) (c :: s)
        rw [Option.mem_def.mp hd] at hhead
        exact of_decide_eq_false hhead
      · simp only [StoullText.bytes, List.append_assoc, List.takeWhile_append_dropWhile]
        rw [← hs, ← hsplit, List.takeWhile_append_dropWhile]
    · refine absurd ?_ h
      simp only [stoull, hs, List.head?_cons, Option.bind_some, digitValue_ten, if_neg hc]

theorem stoullTakes_iff (value : Bytes) : StoullTakes value ↔ ∃ n, stoull value = .ok n := by
  constructor
  · rintro ⟨t, rfl, hsize⟩
    rw [t.stoull_eq, if_neg (Nat.not_le.mpr hsize)]
    exact ⟨_, rfl⟩
  · rintro ⟨n, hn⟩
    have htaken : stoull value ≠ .error .invalidArgument := by
      rw [hn]
      simp
    obtain ⟨t, rfl⟩ := exists_stoullText htaken
    refine ⟨t, rfl, Nat.not_le.mp fun hsize => ?_⟩
    rw [t.stoull_eq, if_pos hsize] at hn
    cases hn

theorem not_isDigit_of_blank {c : UInt8} (h : c ∈ whitespaces) : ¬ IsDigit c := by
  have hall : ∀ c, c ∈ whitespaces → ¬ IsDigit c := byte_cases (by decide +kernel)
  exact hall c h

theorem stoull_lengthText {value : Bytes} {n : Nat} (h : LengthText value n)
    (hn : n < UInt64.size) : stoull value = .ok n := by
  obtain ⟨digits, blanks, rfl, hne, hdigits, hblanks, rfl⟩ := h
  have htext := StoullText.stoull_eq ⟨[], [], digits, blanks, List.forall_mem_nil _, by simp, hne,
    hdigits, fun c hc => not_isDigit_of_blank (hblanks c (List.mem_of_mem_head? hc))⟩
  rw [if_neg (Nat.not_le.mpr hn)] at htext
  exact htext

/-! ## The read loop -/

/-- A run behind the head that waits for the `len` bytes behind `start` and returns them; `received`
is what `::recv` has received up to the end of the head's read, `ds` what it received since. -/
def Received.Delivers (received : Bytes) (ds : List Bytes) (start len : Nat) : Received → Prop
  | .waiting _ _ => ds = [] ∨ (received ++ ds.flatten).length < start + len
  | .returned request _ _ => start + len ≤ (received ++ ds.flatten).length ∧
      request.body = ((received ++ ds.flatten).drop start).take len
  | .threw _ _ _ => False

/-- If the body comes at all, there is no NUL from the read of `d`, which ends the head, up to the
end of the body. -/
def BodyPlain (buffer d : Bytes) (ds : List Bytes) (start len : Nat) : Prop :=
  ds = [] ∨ (buffer ++ d ++ ds.flatten).length < start + len ∨
    (0 : UInt8) ∉ (d ++ ds.flatten).take (start + len - buffer.length)

/-- Behind a common part two lists have the same slice when they agree up to its end. -/
theorem slice_eq_iff {as bs : Bytes} {start : Nat} (h : as.take start = bs.take start)
    (len : Nat) :
    (as.drop start).take len = (bs.drop start).take len ↔
      as.take (start + len) = bs.take (start + len) := by
  rw [List.take_add, List.take_add, h, List.append_cancel_left_eq]

theorem take_kept_eq {buffer d : Bytes} {start : Nat}
    (hstart : start ≤ (buffer ++ Lib.cString d).length) (kept received : Bytes) :
    (buffer ++ (Lib.cString d ++ kept)).take start = (buffer ++ (d ++ received)).take start := by
  obtain ⟨rest, hrest⟩ := Lib.cString_prefix_self d
  have hreceived : buffer ++ (d ++ received) = buffer ++ Lib.cString d ++ (rest ++ received) := by
    rw [List.append_assoc, ← List.append_assoc _ rest, hrest]
  rw [hreceived, ← List.append_assoc, List.take_append_of_le_length hstart,
    List.take_append_of_le_length hstart]

/-- What the buffer has kept of the body is what was received of it when there is no NUL up to its
end. -/
theorem kept_slice_iff {buffer d : Bytes} {start : Nat}
    (hstart : start ≤ (buffer ++ Lib.cString d).length) {len : Nat} {pre : List Bytes}
    (hroom : start + len - buffer.length ≤ (d :: pre).flatten.length) (post : List Bytes) :
    ((buffer ++ Lib.cString d ++ pre.flatMap Lib.cString).drop start).take len =
        ((buffer ++ d ++ (pre ++ post).flatten).drop start).take len ↔
      (0 : UInt8) ∉ (d ++ (pre ++ post).flatten).take (start + len - buffer.length) := by
  rw [List.append_assoc, List.append_assoc, slice_eq_iff (take_kept_eq hstart _ _),
    ← List.flatMap_cons, ← List.flatten_cons, ← List.cons_append, List.take_append,
    List.take_append, List.append_cancel_left_eq, List.flatten_append,
    List.take_append_of_le_length hroom]
  exact Lib.take_cStrings_iff (d :: pre) hroom

/-- Without a NUL up to the end of the body, what is counted behind the head has no gap. -/
theorem counted_of_plain {start len : Nat} {buffer d : Bytes} {ds : List Bytes}
    (hlen : start + len ≤ (buffer ++ d ++ ds.flatten).length)
    (hplain : (0 : UInt8) ∉ (d ++ ds.flatten).take (start + len - buffer.length)) :
    start + len ≤ (buffer ++ Lib.cString d).length + ds.flatten.length := by
  have hroom : start + len - buffer.length ≤ (d :: ds).flatten.length := by
    rw [List.flatten_cons, List.length_append]
    rw [List.length_append, List.length_append] at hlen
    omega
  have hkept := congrArg List.length ((Lib.take_cStrings_iff (d :: ds) hroom).mpr hplain)
  have hlater := Lib.length_cStrings_le ds
  rw [List.length_take, List.length_take, Nat.min_eq_left hroom, List.flatMap_cons,
    List.length_append] at hkept
  rw [List.length_append]
  omega

theorem receive_delivers_iff (firstLine : QueryLine) (headers : StringMap) {start : Nat}
    (len : Nat) {buffer d : Bytes} (hstart : start ≤ (buffer ++ Lib.cString d).length)
    (ds : List Bytes) :
    (receive (.body firstLine headers start len ((buffer ++ Lib.cString d).length - start))
        (buffer ++ Lib.cString d) (ds.map chunkRead)).Delivers (buffer ++ d) ds start len ↔
      BodyPlain buffer d ds start len := by
  have hkept : (buffer ++ Lib.cString d).length ≤ (buffer ++ d).length := by
    rw [List.length_append, List.length_append]
    exact Nat.add_le_add_left (Lib.length_cString_le d) _
  rcases receive_body_chunks firstLine headers len hstart
      ((buffer ++ Lib.cString d).length - start) ds with
    ⟨pc, buf, hrun, hshort⟩ | ⟨pre, post, request, rfl, hne, henough, hrun, hbody⟩
  · -- it waits: either bytes are missing, or a NUL in front of them has made a gap
    rw [hrun]
    refine ⟨fun h => h.imp_right .inl, fun hplain => ?_⟩
    rcases hplain with hnil | hmissing | hclean
    · exact .inl hnil
    · exact .inr hmissing
    · refine hshort.imp_right fun hcount => Nat.not_le.mp fun henough => ?_
      have hcounted := counted_of_plain henough hclean
      omega
  · have hsome : pre ++ post ≠ [] := List.append_ne_nil_of_left_ne_nil hne post
    have hreceived : start + len ≤ (buffer ++ d ++ pre.flatten).length := by
      have hsum : (buffer ++ d ++ pre.flatten).length =
          (buffer ++ d).length + pre.flatten.length := List.length_append
      omega
    have hroom : start + len - buffer.length ≤ (d :: pre).flatten.length := by
      rw [List.append_assoc, List.length_append] at hreceived
      rw [List.flatten_cons]
      omega
    have hlen : start + len ≤ (buffer ++ d ++ (pre ++ post).flatten).length := by
      rw [List.flatten_append, ← List.append_assoc]
      exact hreceived.trans (List.prefix_append _ _).length_le
    rw [hrun]
    simp only [Received.Delivers, BodyPlain, hsome, hlen, true_and, false_or, Nat.not_lt.mpr hlen]
    rw [hbody]
    exact kept_slice_iff hstart hroom post

/-- The head has come with the last read, and its header map has `content-length: value`. -/
structure HeadRead (pos : Nat) (buffer : Bytes) (headersEndPos : Nat) (value : Bytes) : Prop where
  found : Lib.find headersEnd buffer pos = some headersEndPos
  announced : ∃ line view headers, splitUntilBody buffer = .ok (line, view) ∧
    HeadersMap.parse view = .ok headers ∧ headers.lookup contentLength = some value

/-- What follows a read of `d`, which brings the head, on the chunks received behind it. -/
def afterHead (pos : Nat) (buffer d : Bytes) (ds : List Bytes) : Received :=
  receive (.head pos) buffer ((d :: ds).map chunkRead)

/-- `Content-Length` is read exactly: a decimal number gives the length, all else an exception. -/
structure LengthExact (pos : Nat) (buffer d : Bytes) (headersEndPos : Nat) (value : Bytes)
    (ds : List Bytes) : Prop where
  delivers : ∀ n < UInt64.size, LengthText value n →
    (afterHead pos buffer d ds).Delivers (buffer ++ d) ds (headersEndPos + 4) n
  throws : (∀ n < UInt64.size, ¬ LengthText value n) →
    ∃ e, afterHead pos buffer d ds = .threw e (buffer ++ Lib.cString d) (ds.map chunkRead)

theorem HeadRead.receiveHead_eq {pos : Nat} {buffer : Bytes} {headersEndPos : Nat} {value : Bytes}
    (h : HeadRead pos buffer headersEndPos value) :
    ∃ firstLine headers, receiveHead buffer headersEndPos =
      match stoull value with
      | .error e => .throw e
      | .ok n => .again (.body firstLine headers (headersEndPos + 4) n
          (buffer.length - (headersEndPos + 4))) := by
  obtain ⟨line, view, headers, hsplit, hparse, hlook⟩ := h.announced
  obtain ⟨firstLine, hline⟩ := QueryLine.parse_ok line
  refine ⟨firstLine, headers, ?_⟩
  rw [receiveHead, hsplit]
  simp only [hline, hparse, hlook]
  rfl

theorem HeadRead.start_le {pos : Nat} {buffer : Bytes} {headersEndPos : Nat} {value : Bytes}
    (h : HeadRead pos buffer headersEndPos value) : headersEndPos + 4 ≤ buffer.length :=
  Lib.add_length_of_find (by decide) h.found

theorem HeadRead.afterHead_eq {pos : Nat} {buffer d : Bytes}
    {headersEndPos : Nat} {value : Bytes}
    (h : HeadRead pos (buffer ++ Lib.cString d) headersEndPos value) :
    ∃ firstLine headers, ∀ ds, afterHead pos buffer d ds =
      match stoull value with
      | .error e => .threw e (buffer ++ Lib.cString d) (ds.map chunkRead)
      | .ok n => receive (.body firstLine headers (headersEndPos + 4) n
          ((buffer ++ Lib.cString d).length - (headersEndPos + 4))) (buffer ++ Lib.cString d)
          (ds.map chunkRead) := by
  obtain ⟨firstLine, headers, hhead⟩ := h.receiveHead_eq
  refine ⟨firstLine, headers, fun ds => ?_⟩
  rw [afterHead, List.map_cons, receive_cons]
  simp only [chunkRead, receiveStep_head_of_some _ h.found, hhead]
  rcases stoull value with e | n <;> rfl

theorem HeadRead.throws_iff {pos : Nat} {buffer d : Bytes} {headersEndPos : Nat}
    {value : Bytes} (h : HeadRead pos (buffer ++ Lib.cString d) headersEndPos value)
    (ds : List Bytes) :
    (∃ e, afterHead pos buffer d ds = .threw e (buffer ++ Lib.cString d) (ds.map chunkRead)) ↔
      ¬ StoullTakes value := by
  obtain ⟨firstLine, headers, hafter⟩ := h.afterHead_eq
  rw [stoullTakes_iff, hafter]
  rcases hvalue : stoull value with e | n
  · exact ⟨fun _ ⟨_, hn⟩ => (by cases hn), fun _ => ⟨e, rfl⟩⟩
  · refine ⟨fun ⟨e, he⟩ => ?_, fun hrefused => absurd ⟨n, rfl⟩ hrefused⟩
    rcases receive_body_chunks firstLine headers n h.start_le
      ((buffer ++ Lib.cString d).length - (headersEndPos + 4)) ds with
      ⟨pc, buf, hrun, -⟩ | ⟨pre, post, request, -, -, -, hrun, -⟩
    · exact absurd (hrun.symm.trans he) (by simp)
    · exact absurd (hrun.symm.trans he) (by simp)

/-- A length that `stoull` takes is the decimal number, or the text is not one. The body comes
back whole unless there is a NUL in it. -/
theorem lengthExact_iff {pos : Nat} {buffer d : Bytes} {headersEndPos : Nat}
    {value : Bytes} (h : HeadRead pos (buffer ++ Lib.cString d) headersEndPos value)
    (ds : List Bytes) :
    LengthExact pos buffer d headersEndPos value ds ↔
      (∃ n < UInt64.size, LengthText value n ∧
          BodyPlain buffer d ds (headersEndPos + 4) n) ∨
        (∀ n < UInt64.size, ¬ LengthText value n) ∧ ¬ StoullTakes value := by
  obtain ⟨firstLine, headers, hafter⟩ := h.afterHead_eq
  have hdelivers : ∀ n < UInt64.size, LengthText value n →
      ((afterHead pos buffer d ds).Delivers (buffer ++ d) ds (headersEndPos + 4) n ↔
        BodyPlain buffer d ds (headersEndPos + 4) n) := fun n hn htext => by
    rw [hafter, stoull_lengthText htext hn]
    exact receive_delivers_iff firstLine headers n h.start_le ds
  have hunique : ∀ n < UInt64.size, LengthText value n → ∀ m < UInt64.size, LengthText value m →
      m = n := fun n hn htext m hm htext' =>
    Except.ok.inj ((stoull_lengthText htext' hm).symm.trans (stoull_lengthText htext hn))
  constructor
  · intro hexact
    by_cases hlength : ∃ n < UInt64.size, LengthText value n
    · obtain ⟨n, hn, htext⟩ := hlength
      exact .inl ⟨n, hn, htext, (hdelivers n hn htext).mp (hexact.delivers n hn htext)⟩
    · have hnone : ∀ n < UInt64.size, ¬ LengthText value n :=
        fun n hn htext => hlength ⟨n, hn, htext⟩
      exact .inr ⟨hnone, (h.throws_iff ds).mp (hexact.throws hnone)⟩
  · rintro (⟨n, hn, htext, hplain⟩ | ⟨hnone, hrefused⟩)
    · refine ⟨fun m hm htext' => ?_, fun hnone => absurd htext (hnone n hn)⟩
      rw [hunique n hn htext m hm htext']
      exact (hdelivers n hn htext).mpr hplain
    · exact ⟨fun n hn htext => absurd htext (hnone n hn), fun _ => (h.throws_iff ds).mpr hrefused⟩

/-- A `POST` of two bytes that come with the next read. -/
def postHead (value : Bytes) : Bytes :=
  ascii "POST / HTTP/1.1\r\nContent-Length: " ++ value ++ headersEnd

theorem headRead_postHead_two :
    HeadRead 0 ([] ++ Lib.cString (postHead (ascii "2"))) 34 (ascii "2") :=
  ⟨rfl, _, _, _, rfl, rfl, rfl⟩

theorem lengthExact_iff_two :
    LengthExact 0 [] (postHead (ascii "2")) 34 (ascii "2") [ascii "ab"] ↔
      (∃ n < UInt64.size, LengthText (ascii "2") n ∧
          BodyPlain [] (postHead (ascii "2")) [ascii "ab"] (34 + 4) n) ∨
        (∀ n < UInt64.size, ¬ LengthText (ascii "2") n) ∧ ¬ StoullTakes (ascii "2") :=
  lengthExact_iff headRead_postHead_two [ascii "ab"]

theorem not_lengthText_of_mem {value : Bytes} {c : UInt8} (hc : c ∈ value)
    (hdigit : ¬ IsDigit c) (hblank : c ∉ whitespaces) (n : Nat) : ¬ LengthText value n := by
  rintro ⟨digits, blanks, rfl, -, hdigits, hblanks, -⟩
  rcases List.mem_append.mp hc with hc | hc
  · exact hdigit (hdigits c hc)
  · exact hblank (hblanks c hc)

/-- `Content-Length: 2x` -/
theorem trailing_garbage_taken :
    ¬ ∀ (pos : Nat) (buffer d : Bytes) (headersEndPos : Nat) (value : Bytes),
      HeadRead pos (buffer ++ Lib.cString d) headersEndPos value →
        ∀ ds, LengthExact pos buffer d headersEndPos value ds := by
  intro h
  have hexact := h 0 [] (postHead (ascii "2x")) 35 (ascii "2x")
    ⟨rfl, _, _, _, rfl, rfl, rfl⟩ []
  obtain ⟨e, he⟩ := hexact.throws fun n _ =>
    not_lengthText_of_mem (c := 120) (by decide) (by decide) (by decide) n
  cases he

end AdvCppTP.Http
