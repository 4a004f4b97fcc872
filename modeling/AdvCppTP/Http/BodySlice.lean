import AdvCppTP.Http.Chunking

/-! `Receiver::read_body` on its own: the slice of the stream that it returns, and when it
yields. -/

namespace AdvCppTP.Http

/-- What `read_body` did on the reads so far: `buffer_` at each `yield`, and its result. -/
structure ReadBodyRun where
  yields : List Bytes
  result : Option (Except StdError Bytes)
  deriving DecidableEq, Repr

/-- The loop of `read_body`. Its counter stays within `buffer_.size()`, so it does not wrap. -/
def readBodyLoop (startPos bodyLen wasRead : Nat) (buffer : Bytes) :
    List ReadResult → ReadBodyRun
  | [] => ⟨[], none⟩
  | r :: reads =>
    let buffer := buffer ++ r.appended
    let wasRead := wasRead + r.count
    if wasRead < bodyLen then
      let run := readBodyLoop startPos bodyLen wasRead buffer reads
      { run with yields := buffer :: run.yields }
    else ⟨[], some ((substrFrom buffer (some startPos)).map fun rest => rest.take bodyLen)⟩

def readBody (startPos bodyLen : Nat) (buffer : Bytes) (reads : List ReadResult) : ReadBodyRun :=
  readBodyLoop startPos bodyLen (buffer.length - startPos) buffer reads

/-- The part of `receive` behind the call of `read_body`. -/
theorem receive_readBodyLoop (firstLine : QueryLine) (headers : StringMap)
    (startPos bodyLen wasRead : Nat) (buffer : Bytes) (reads : List ReadResult) :
    (receive (.body firstLine headers startPos bodyLen wasRead) buffer reads).request? =
      (readBodyLoop startPos bodyLen wasRead buffer reads).result.bind fun result =>
        (result.bind (HttpRequest.make firstLine headers)).toOption := by
  induction reads generalizing wasRead buffer with
  | nil => rfl
  | cons r reads ih =>
    rw [receive_cons, receiveStep, readBodyLoop]
    by_cases hwait : wasRead + r.count < bodyLen
    · simp only [if_pos hwait]
      exact ih _ _
    · simp only [if_neg hwait]
      rcases substrFrom (buffer ++ r.appended) (some startPos) with e | rest
      · rfl
      · simp only [Option.bind_some, Except.map, Except.bind]
        rcases HttpRequest.make firstLine headers (rest.take bodyLen) with e | request <;> rfl

/-- What has come in when the reads are done. -/
def received (buffer : Bytes) (reads : List ReadResult) : Bytes :=
  buffer ++ reads.flatMap ReadResult.appended

theorem received_cons (buffer : Bytes) (r : ReadResult) (reads : List ReadResult) :
    received buffer (r :: reads) = received (buffer ++ r.appended) reads := by
  rw [received, received, List.flatMap_cons, List.append_assoc]

/-- Whatever part of the body was there before and wherever the reads are cut, `read_body` returns
the bytes of the stream that were announced, and it yields while there are fewer. -/
theorem readBody_slice {buffer : Bytes} {startPos : Nat} (hstart : startPos ≤ buffer.length)
    (bodyLen : Nat) {reads : List ReadResult} (hexact : ∀ r ∈ reads, r.count = r.appended.length) :
    (∀ result, (readBody startPos bodyLen buffer reads).result = some result →
        result = .ok (((received buffer reads).drop startPos).take bodyLen) ∧
          startPos + bodyLen ≤ (received buffer reads).length) ∧
      ∀ sofar ∈ (readBody startPos bodyLen buffer reads).yields,
        sofar <+: received buffer reads ∧ sofar.length < startPos + bodyLen := by
  -- by induction on the reads; the counter is what lies behind `startPos` in the buffer
  induction reads generalizing buffer with
  | nil => exact ⟨fun _ h => (by cases h), fun _ h => absurd h List.not_mem_nil⟩
  | cons r reads ih =>
    obtain ⟨hstart', hcount⟩ := counted_append hstart r.appended
    have hread : r.count = r.appended.length := hexact r List.mem_cons_self
    rw [readBody, readBodyLoop, hread, hcount, received_cons]
    by_cases hwait : (buffer ++ r.appended).length - startPos < bodyLen
    · simp only [if_pos hwait]
      obtain ⟨hresult, hyields⟩ := ih hstart' fun r' hr' => hexact r' (List.mem_cons_of_mem r hr')
      refine ⟨hresult, fun sofar hsofar => ?_⟩
      rcases List.mem_cons.mp hsofar with rfl | hsofar
      · exact ⟨List.prefix_append _ _, by omega⟩
      · exact hyields sofar hsofar
    · simp only [if_neg hwait]
      refine ⟨fun result hresult => ?_, fun _ h => absurd h List.not_mem_nil⟩
      have henough : startPos + bodyLen ≤ (buffer ++ r.appended).length := by omega
      rw [substrFrom_of_le hstart', Option.some.injEq] at hresult
      rw [received, slice_append henough, ← hresult, List.length_append]
      exact ⟨rfl, Nat.le_add_right_of_le henough⟩

/-- Two bytes of five are there, and a read brings the rest and the start of what follows. -/
theorem readBody_slice_overrun :
    (readBody 2 5 [0, 0, 1, 2] [.exact [3], .exact [4, 5, 9]]).result =
      some (.ok [1, 2, 3, 4, 5]) := by
  have hexact : ∀ r ∈ [ReadResult.exact [3], .exact [4, 5, 9]], r.count = r.appended.length := by
    decide
  have hstart : 2 ≤ ([0, 0, 1, 2] : Bytes).length := by decide
  obtain ⟨hresult, -⟩ := readBody_slice hstart 5 hexact
  rcases hrun : (readBody 2 5 [0, 0, 1, 2] [.exact [3], .exact [4, 5, 9]]).result with _ | result
  · cases hrun
  · rw [(hresult result hrun).1]
    rfl

end AdvCppTP.Http
