import AdvCppTP.Http.Messages

/-! `Receiver::receive` as a machine that takes the result of one `Connection::read()` a step. -/

namespace AdvCppTP.Http

/-- What one `Connection::read()` appended to `buffer_`, and the number it returned. -/
structure ReadResult where
  appended : Bytes
  count : Nat
  deriving DecidableEq, Repr

def ReadResult.exact (data : Bytes) : ReadResult := ⟨data, data.length⟩

def splitUntilBody (buffer : Bytes) : Except StdError (Bytes × Bytes) := do
  let size := Lib.find endline buffer 0
  let firstLine := upTo buffer size
  let view ← removePrefix buffer (plus size 2)
  let size := Lib.find headersEnd view 0
  return (firstLine, upTo view (some (plus size 2)))

/-- The two loops of `receive` that read: the one for the head and that of `read_body`. -/
inductive ReceiverPc
  | head (pos : Nat)
  | body (firstLine : QueryLine) (headers : StringMap) (startPos bodyLen wasRead : Nat)

/-- What follows a read: another one at once, one behind a `yield`, or the end of `receive`. -/
inductive ReceiveStep
  | again (pc : ReceiverPc)
  | yield (pc : ReceiverPc)
  | done (request : HttpRequest)
  | throw (e : StdError)

def ReceiveStep.ofExcept : Except StdError HttpRequest → ReceiveStep
  | .ok request => .done request
  | .error e => .throw e

/-- `receive` behind its first loop. -/
def receiveHead (buffer : Bytes) (headersEndPos : Nat) : ReceiveStep :=
  match splitUntilBody buffer with
  | .error e => .throw e
  | .ok (firstLineView, headersView) =>
    match QueryLine.parse firstLineView, HeadersMap.parse headersView with
    | .error e, _ => .throw e
    | _, .error e => .throw e
    | .ok firstLine, .ok headers =>
      match headers.lookup contentLength with
      | none => .ofExcept (HttpRequest.make firstLine headers [])
      | some value =>
        match stoull value with
        | .error e => .throw e
        | .ok bodyLen =>
          let startPos := headersEndPos + headersEnd.length
          .again (.body firstLine headers startPos bodyLen (buffer.length - startPos))

/-- `receive` from a read that returned `count` and left `buffer`. -/
def receiveStep (buffer : Bytes) (count : Nat) : ReceiverPc → ReceiveStep
  | .head pos =>
    match Lib.find headersEnd buffer pos with
    | some headersEndPos => receiveHead buffer headersEndPos
    | none => .yield (.head (pos + count))
  | .body firstLine headers startPos bodyLen wasRead =>
    let wasRead := wasRead + count
    if wasRead < bodyLen then .yield (.body firstLine headers startPos bodyLen wasRead)
    else
      match substrFrom buffer (some startPos) with
      | .error e => .throw e
      | .ok rest => .ofExcept (HttpRequest.make firstLine headers (rest.take bodyLen))

inductive Received
  | waiting (pc : ReceiverPc) (buffer : Bytes)
  | returned (request : HttpRequest) (buffer : Bytes) (reads : List ReadResult)
  | threw (e : StdError) (buffer : Bytes) (reads : List ReadResult)

def receive (pc : ReceiverPc) (buffer : Bytes) : List ReadResult → Received
  | [] => .waiting pc buffer
  | r :: reads =>
    let buffer := buffer ++ r.appended
    match receiveStep buffer r.count pc with
    | .again pc => receive pc buffer reads
    | .yield pc => receive pc buffer reads
    | .done request => .returned request buffer reads
    | .throw e => .threw e buffer reads

def Received.request? : Received → Option HttpRequest
  | .returned request _ _ => some request
  | _ => none

/-! ## What one read can do -/

theorem ReceiveStep.ofExcept_cases (x : Except StdError HttpRequest) :
    (∃ request, ofExcept x = .done request) ∨ ∃ e, ofExcept x = .throw e := by
  cases x with
  | ok request => exact .inl ⟨request, rfl⟩
  | error e => exact .inr ⟨e, rfl⟩

theorem receiveHead_cases (buffer : Bytes) (headersEndPos : Nat) :
    (∃ firstLine headers startPos bodyLen wasRead, receiveHead buffer headersEndPos =
        .again (.body firstLine headers startPos bodyLen wasRead)) ∨
      (∃ request, receiveHead buffer headersEndPos = .done request) ∨
        ∃ e, receiveHead buffer headersEndPos = .throw e := by
  rw [receiveHead]
  split
  · exact .inr (.inr ⟨_, rfl⟩)
  split
  · exact .inr (.inr ⟨_, rfl⟩)
  · exact .inr (.inr ⟨_, rfl⟩)
  split
  · exact .inr (ReceiveStep.ofExcept_cases _)
  split
  · exact .inr (.inr ⟨_, rfl⟩)
  · exact .inl ⟨_, _, _, _, _, rfl⟩

theorem receiveStep_head_of_none {buffer : Bytes} {pos : Nat} (count : Nat)
    (h : Lib.find headersEnd buffer pos = none) :
    receiveStep buffer count (.head pos) = .yield (.head (pos + count)) := by
  simp only [receiveStep, h]

theorem receiveStep_head_of_some {buffer : Bytes} {pos headersEndPos : Nat} (count : Nat)
    (h : Lib.find headersEnd buffer pos = some headersEndPos) :
    receiveStep buffer count (.head pos) = receiveHead buffer headersEndPos := by
  simp only [receiveStep, h]

theorem receiveStep_body_part {wasRead count bodyLen : Nat} (h : wasRead + count < bodyLen)
    (buffer : Bytes) (firstLine : QueryLine) (headers : StringMap) (startPos : Nat) :
    receiveStep buffer count (.body firstLine headers startPos bodyLen wasRead) =
      .yield (.body firstLine headers startPos bodyLen (wasRead + count)) := by
  simp only [receiveStep, if_pos h]

theorem receiveStep_body_done {wasRead count bodyLen startPos : Nat}
    (h : ¬ wasRead + count < bodyLen) {buffer : Bytes} (hstart : startPos ≤ buffer.length)
    (firstLine : QueryLine) (headers : StringMap) :
    receiveStep buffer count (.body firstLine headers startPos bodyLen wasRead) =
      .ofExcept (HttpRequest.make firstLine headers ((buffer.drop startPos).take bodyLen)) := by
  simp only [receiveStep, if_neg h, substrFrom_of_le hstart]

theorem receiveStep_body_cases (buffer : Bytes) (count : Nat) (firstLine : QueryLine)
    (headers : StringMap) (startPos bodyLen wasRead : Nat) :
    receiveStep buffer count (.body firstLine headers startPos bodyLen wasRead) =
        .yield (.body firstLine headers startPos bodyLen (wasRead + count)) ∨
      (∃ request, receiveStep buffer count (.body firstLine headers startPos bodyLen wasRead) =
        .done request) ∨
        ∃ e, receiveStep buffer count (.body firstLine headers startPos bodyLen wasRead) =
          .throw e := by
  simp only [receiveStep]
  split
  · exact .inl rfl
  split
  · exact .inr (.inr ⟨_, rfl⟩)
  · exact .inr (ReceiveStep.ofExcept_cases _)

end AdvCppTP.Http
