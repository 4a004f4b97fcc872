import AdvCppTP.Pipe.Failures

/-! `Protocol::read` and `Protocol::write` one call of the kernel at a time: between two calls
anything else may happen, to the pipe too. -/

namespace AdvCppTP.Protocol

/-! ## The two loops of `read` -/

/-- Where `Protocol::read` is: before a `::read` of its first or of its second loop, or back. -/
inductive Reading
  | sizing (buffer size : Bytes) (wasRead : Nat)
  | filling (buffer : Bytes) (wasRead : Nat)
  | back (ret : Int) (buffer : Bytes)
  deriving DecidableEq, Repr

def Reading.fill (buffer : Bytes) (wasRead : Nat) : Reading :=
  if wasRead < buffer.length then .filling buffer wasRead else .back 0 buffer

def Reading.size (rep : SizeRep) (buffer size : Bytes) (wasRead : Nat) : Reading :=
  if wasRead < size.length then .sizing buffer size wasRead
  else .fill (List.replicate (rep.value size) 0) 0

def Reading.start (rep : SizeRep) (buffer : Bytes) : Reading :=
  .size rep buffer (List.replicate 8 0) 0

/-- What the next `::read` asks for. -/
def Reading.requested : Reading → Nat
  | .sizing _ size wasRead => size.length - wasRead
  | .filling buffer wasRead => buffer.length - wasRead
  | .back _ _ => 0

/-- One `::read` and what is done with its result, up to the next one. -/
def Reading.turn (rep : SizeRep) (pipe : Bytes) (o : Outcome) : Reading → Reading × Bytes
  | .sizing buffer size wasRead =>
    let (ret, data, pipe) := sysRead (size.length - wasRead) pipe o
    let bytes := CountType.ssize.conv ret
    (if bytes ≤ 0 then .back (-1) buffer
      else .size rep buffer (overwrite size wasRead data) ((wasRead + bytes.toNat) % 2 ^ 64), pipe)
  | .filling buffer wasRead =>
    let (ret, data, pipe) := sysRead (buffer.length - wasRead) pipe o
    let bytes := CountType.size.conv ret
    (if bytes ≤ 0 then .back (-1) (overwrite buffer wasRead data)
      else .fill (overwrite buffer wasRead data) ((wasRead + bytes.toNat) % 2 ^ 64), pipe)
  | .back ret buffer => (.back ret buffer, pipe)

def Reading.turns (rep : SizeRep) : Reading → Bytes → List Outcome → Option Done
  | .back ret buffer, pipe, os => some ⟨ret, buffer, pipe, os⟩
  | .sizing _ _ _, _, [] => none
  | .filling _ _, _, [] => none
  | .sizing buffer size wasRead, pipe, o :: os =>
    let (r, pipe) := Reading.turn rep pipe o (.sizing buffer size wasRead)
    turns rep r pipe os
  | .filling buffer wasRead, pipe, o :: os =>
    let (r, pipe) := Reading.turn rep pipe o (.filling buffer wasRead)
    turns rep r pipe os

theorem Reading.turns_fill (rep : SizeRep) (buffer : Bytes) (wasRead : Nat) (pipe : Bytes)
    (os : List Outcome) :
    Reading.turns rep (.fill buffer wasRead) pipe os =
      match fillLoop .size buffer wasRead pipe os with
      | .blocked => none
      | .failed buffer pipe os => some ⟨-1, buffer, pipe, os⟩
      | .full buffer pipe os => some ⟨0, buffer, pipe, os⟩ := by
  induction os generalizing buffer wasRead pipe with
  | nil =>
    unfold fill
    split
    case isTrue h => rw [fillLoop.eq_def, if_pos h, turns]
    case isFalse h => rw [fillLoop_of_full .size pipe [] (Nat.not_lt.mp h), turns]
  | cons o os ih =>
    unfold fill
    split
    case isFalse h => rw [fillLoop_of_full .size pipe (o :: os) (Nat.not_lt.mp h), turns]
    case isTrue h =>
      rw [fillLoop_cons .size pipe o os h, turns, turn]
      by_cases hfail : CountType.size.conv (sysRead (buffer.length - wasRead) pipe o).1 ≤ 0
      · simp only [if_pos hfail, turns]
      · simp only [if_neg hfail]
        exact ih _ _ _

theorem Reading.turns_size (rep : SizeRep) (buffer size : Bytes) (wasRead : Nat) (pipe : Bytes)
    (os : List Outcome) :
    Reading.turns rep (.size rep buffer size wasRead) pipe os =
      match fillLoop .ssize size wasRead pipe os with
      | .blocked => none
      | .failed _ pipe os => some ⟨-1, buffer, pipe, os⟩
      | .full size pipe os =>
        Reading.turns rep (.fill (List.replicate (rep.value size) 0) 0) pipe os := by
  induction os generalizing size wasRead pipe with
  | nil =>
    unfold Reading.size
    split
    case isTrue h => rw [fillLoop.eq_def, if_pos h, turns]
    case isFalse h => rw [fillLoop_of_full .ssize pipe [] (Nat.not_lt.mp h)]
  | cons o os ih =>
    unfold Reading.size
    split
    case isFalse h => rw [fillLoop_of_full .ssize pipe (o :: os) (Nat.not_lt.mp h)]
    case isTrue h =>
      rw [fillLoop_cons .ssize pipe o os h, turns, turn]
      by_cases hfail : CountType.ssize.conv (sysRead (size.length - wasRead) pipe o).1 ≤ 0
      · simp only [if_pos hfail, turns]
      · simp only [if_neg hfail]
        exact ih _ _ _

/-- `Protocol::read` is its turns, one after the other. -/
theorem read_eq_turns (rep : SizeRep) (buffer pipe : Bytes) (os : List Outcome) :
    read rep buffer pipe os = (Reading.start rep buffer).turns rep pipe os := by
  unfold read Reading.start
  rw [Reading.turns_size]
  rcases fillLoop .ssize (List.replicate 8 0) 0 pipe os with ⟨size, pipe, os⟩ | ⟨size, pipe, os⟩ | _
  · exact (Reading.turns_fill rep _ 0 pipe os).symm
  · rfl
  · rfl

/-! ## The loop of `write` -/

inductive Writing
  | sending (buffer : Bytes) (wasWritten : Nat)
  | back (ret : Int)
  deriving DecidableEq, Repr

def Writing.send (buffer : Bytes) (wasWritten : Nat) : Writing :=
  if wasWritten < buffer.length then .sending buffer wasWritten else .back 0

def Writing.start (rep : SizeRep) (data : Bytes) : Writing :=
  .send (rep.bytes data.length ++ data) 0

def Writing.requested : Writing → Nat
  | .sending buffer wasWritten => buffer.length - wasWritten
  | .back _ => 0

def Writing.turn (pipe : Bytes) (o : Outcome) : Writing → Writing × Bytes
  | .sending buffer wasWritten =>
    let (bytes, data) := sysWrite (buffer.drop wasWritten) o
    (if bytes ≤ 0 then .back (-1) else .send buffer (wasWritten + bytes.toNat), pipe ++ data)
  | .back ret => (.back ret, pipe)

/-- What `writeLoop` returns and leaves; the buffer of the call is `data`. -/
def Writing.turns (data : Bytes) : Writing → Bytes → List Outcome → Option Done
  | .back ret, pipe, os => some ⟨ret, data, pipe, os⟩
  | .sending _ _, _, [] => none
  | .sending buffer wasWritten, pipe, o :: os =>
    let (w, pipe) := Writing.turn pipe o (.sending buffer wasWritten)
    turns data w pipe os

theorem Writing.turns_send (buffer : Bytes) (wasWritten : Nat) (pipe : Bytes) (os : List Outcome) :
    Writing.turns buffer (.send buffer wasWritten) pipe os =
      writeLoop buffer wasWritten pipe os := by
  induction os generalizing wasWritten pipe with
  | nil =>
    unfold send
    split
    case isTrue h => rw [writeLoop.eq_def, if_pos h, turns]
    case isFalse h => rw [writeLoop_of_done pipe [] (Nat.not_lt.mp h), turns]
  | cons o os ih =>
    unfold send
    split
    case isFalse h => rw [writeLoop_of_done pipe (o :: os) (Nat.not_lt.mp h), turns]
    case isTrue h =>
      rw [writeLoop_cons pipe o os h, turns, turn]
      by_cases hfail : (sysWrite (buffer.drop wasWritten) o).1 ≤ 0
      · simp only [if_pos hfail, turns]
      · simp only [if_neg hfail]
        exact ih _ _

/-- `Protocol::write` is its turns, one after the other. -/
theorem write_eq_turns (rep : SizeRep) (data : StdString) (pipe : Bytes) (os : List Outcome) :
    write rep data pipe os =
      (Writing.start rep data.bytes).turns (frame rep data) pipe os :=
  (Writing.turns_send (frame rep data) 0 pipe os).symm

/-! ## On the way through a frame -/

def encode (rep : SizeRep) (message : Bytes) : Bytes := rep.bytes message.length ++ message

@[simp] theorem length_encode (rep : SizeRep) (message : Bytes) :
    (encode rep message).length = 8 + message.length := by
  rw [encode, List.length_append, rep.length_bytes]

/-- Memory that has the first `k` bytes of what it is for, and zeros behind them. -/
def zeroed (whole : Bytes) (k : Nat) : Bytes := whole.take k ++ List.replicate (whole.length - k) 0

theorem length_zeroed {whole : Bytes} {k : Nat} (hk : k ≤ whole.length) :
    (zeroed whole k).length = whole.length := by
  rw [zeroed, List.length_append, List.length_take, List.length_replicate]
  omega

theorem zeroed_zero (whole : Bytes) : zeroed whole 0 = List.replicate whole.length 0 := by
  rw [zeroed, List.take_zero, List.nil_append, Nat.sub_zero]

theorem zeroed_length (whole : Bytes) : zeroed whole whole.length = whole := by
  rw [zeroed, List.take_length, Nat.sub_self, List.replicate_zero, List.append_nil]

theorem overwrite_zeroed {whole : Bytes} {k j : Nat} (h : k + j ≤ whole.length) :
    overwrite (zeroed whole k) k ((whole.drop k).take j) = zeroed whole (k + j) := by
  have hlen : (whole.take k).length = k := List.length_take_of_le (by omega)
  have hpiece : ((whole.drop k).take j).length = j := by
    rw [List.length_take, List.length_drop]
    omega
  have hhead : (zeroed whole k).take k = whole.take k := by
    rw [zeroed, List.take_left' hlen]
  have htail : (zeroed whole k).drop (k + j) = List.replicate (whole.length - (k + j)) 0 := by
    rw [zeroed, List.drop_append, List.drop_of_length_le (by omega), hlen, List.nil_append,
      List.drop_replicate]
    congr 1
    omega
  rw [overwrite, hhead, hpiece, htail, zeroed, List.take_add]

/-- Where `Protocol::read` is when it has taken `k` bytes of the frame of `message`. -/
def Reading.after (rep : SizeRep) (buffer message : Bytes) (k : Nat) : Reading :=
  if k < 8 then .sizing buffer (zeroed (rep.bytes message.length) k) k
  else if k < 8 + message.length then .filling (zeroed message (k - 8)) (k - 8)
  else .back 0 message

theorem Reading.after_zero (rep : SizeRep) (buffer message : Bytes) :
    Reading.after rep buffer message 0 = .start rep buffer := by
  have h8 := rep.length_bytes message.length
  rw [after, if_pos (by decide), zeroed_zero, h8, start, Reading.size, if_pos (by decide)]

theorem Reading.fill_zeroed (rep : SizeRep) (buffer message : Bytes) {k : Nat}
    (hk : k ≤ message.length) :
    Reading.fill (zeroed message k) k = .after rep buffer message (8 + k) := by
  have hbehind : ¬ 8 + k < 8 := by omega
  rw [fill, after, length_zeroed hk, if_neg hbehind, Nat.add_sub_cancel_left]
  rcases Nat.lt_or_ge k message.length with hlt | hge
  · rw [if_pos hlt, if_pos (Nat.add_lt_add_left hlt 8)]
  · obtain rfl := Nat.le_antisymm hk hge
    simp only [Nat.lt_irrefl, if_false, zeroed_length]

theorem Reading.size_zeroed (rep : SizeRep) (buffer : Bytes) {message : Bytes}
    (hfits : message.length < 2 ^ 64) {k : Nat} (hk : k ≤ 8) :
    Reading.size rep buffer (zeroed (rep.bytes message.length) k) k =
      .after rep buffer message k := by
  have h8 := rep.length_bytes message.length
  rw [Reading.size, length_zeroed (by omega), h8]
  rcases Nat.lt_or_ge k 8 with hlt | hge
  · rw [if_pos hlt, after, if_pos hlt]
  · obtain rfl := Nat.le_antisymm hk hge
    have hwhole : zeroed (rep.bytes message.length) 8 = rep.bytes message.length := by
      conv_lhs => rw [← h8, zeroed_length]
    rw [if_neg (Nat.lt_irrefl _), hwhole, rep.value_bytes _ hfits, ← zeroed_zero]
    exact fill_zeroed rep buffer message (Nat.zero_le _)

/-- A `::read` of the next `j` bytes of the frame takes them off the pipe, and no more happens. -/
theorem Reading.turn_after {rep : SizeRep} (buffer : Bytes) {message pipe : Bytes}
    (hfits : message.length < 2 ^ 64) {k j : Nat} (hk : k < 8 + message.length) (hj : 1 ≤ j)
    (hasked : j ≤ (Reading.after rep buffer message k).requested) (hthere : j ≤ pipe.length)
    (hpipe : pipe <+: (encode rep message).drop k) :
    (Reading.after rep buffer message k).turn rep pipe (.moved j) =
      (.after rep buffer message (k + j), pipe.drop j) := by
  have h8 := rep.length_bytes message.length
  have hpiece : pipe.take j = ((encode rep message).drop k).take j := by
    obtain ⟨rest, hrest⟩ := hpipe
    rw [← hrest, List.take_append_of_le_length hthere]
  rcases Nat.lt_or_ge k 8 with hlt | hge
  · -- in the first loop
    rw [after, if_pos hlt] at hasked ⊢
    rw [requested, length_zeroed (by omega), h8] at hasked
    have hfrom : pipe.take j = ((rep.bytes message.length).drop k).take j := by
      rw [hpiece, encode, List.drop_append_of_le_length (by omega),
        List.take_append_of_le_length (by rw [List.length_drop]; omega)]
    rw [turn, length_zeroed (by omega), h8, sysRead_delivered hthere, min_eq_left hasked]
    simp only [CountType.ssize.conv_natCast (by omega : j < 2 ^ 64), Int.toNat_natCast]
    rw [if_neg (by omega), Nat.mod_eq_of_lt (by omega), hfrom, overwrite_zeroed (by omega),
      size_zeroed rep buffer hfits (by omega)]
  · -- in the second loop
    obtain ⟨i, rfl⟩ := Nat.exists_eq_add_of_le hge
    rw [after, if_neg (by omega), if_pos hk, Nat.add_sub_cancel_left] at hasked ⊢
    rw [requested, length_zeroed (by omega)] at hasked
    have hfrom : pipe.take j = (message.drop i).take j := by
      rw [hpiece, encode, ← h8, List.drop_length_add_append]
    rw [turn, length_zeroed (by omega), sysRead_delivered hthere, min_eq_left hasked]
    simp only [CountType.size.conv_natCast (by omega : j < 2 ^ 64), Int.toNat_natCast]
    rw [if_neg (by omega), Nat.mod_eq_of_lt (by omega), hfrom, overwrite_zeroed (by omega),
      fill_zeroed rep buffer message (by omega), Nat.add_assoc]

theorem Writing.start_eq (rep : SizeRep) (data : Bytes) :
    Writing.start rep data = .sending (encode rep data) 0 := by
  rw [start, ← encode, send, if_pos (by rw [length_encode]; omega)]

/-- A `::write` that takes `j` bytes more puts them into the pipe. -/
theorem Writing.turn_sending {buffer : Bytes} {w j : Nat} (hj : 1 ≤ j) (hw : w + j ≤ buffer.length)
    {k : Nat} (hk : k ≤ w) :
    (Writing.sending buffer w).turn ((buffer.take w).drop k) (.moved j) =
      (.send buffer (w + j), (buffer.take (w + j)).drop k) := by
  have hlen : ((buffer.drop w).take j).length = j := by
    rw [List.length_take, List.length_drop]
    omega
  have hpipe : (buffer.take w).drop k ++ (buffer.drop w).take j = (buffer.take (w + j)).drop k := by
    rw [List.take_add, List.drop_append_of_le_length (by rw [List.length_take]; omega)]
  simp only [turn, sysWrite, hlen, hpipe, Int.toNat_natCast]
  rw [if_neg (by omega)]

end AdvCppTP.Protocol
