import AdvCppTP.Tcp.Reading

/-! `writeExact` and `readExact` of `tcp::Connection`: those of `hw-3` on memory of the caller's,
`readExact` of `hw-4` into `buffer_`. -/

namespace AdvCppTP.Tcp

open Lib

/-- How many bytes `::send` could send, or -1 for another reason than `EINTR`, which `write` of
`hw-4` does not report. -/
inductive Sent
  | bytes (n : Nat)
  | failed
  deriving DecidableEq, Repr

/-- A connection, the memory at `data` and what has gone through the socket. -/
structure Socket where
  connection : Connection
  kernel : Kernel
  data : Bytes
  stream : Bytes
  deriving DecidableEq, Repr

def Socket.close (s : Socket) : Socket :=
  let (connection, kernel) := s.connection.close s.kernel
  { s with connection, kernel }

def Socket.isOpened (s : Socket) : Bool := s.connection.isOpened s.kernel

def Reader.isOpened (s : Reader) : Bool := s.connection.isOpened s.kernel

/-- `write(data + written, size)` -/
def Socket.write (written size : Nat) (outcome : Option Sent) : Prog Thrown Socket Nat := fun s =>
  match outcome with
  | none => .waits s
  | some .failed => .throws (.socketError "Error to write") s
  | some (.bytes n) =>
    .returns (min n size)
      { s with stream := s.stream ++ (s.data.drop written).take (min n size) }

/-- `read(data + was_read, size)` -/
def Socket.read (wasRead size : Nat) (outcome : Option Received) : Prog Thrown Socket Nat :=
  fun s =>
  match outcome with
  | none => .waits s
  | some (.failed errno) => .throws (.socketError ("Read error:" ++ errno)) s
  | some (.data bytes) =>
    let received := bytes.take size
    .returns received.length
      { s with
        data := s.data.take wasRead ++ received ++ s.data.drop (wasRead + received.length)
        stream := s.stream ++ received }

def Socket.closing (msg : String) : Prog Thrown Socket Unit :=
  (Prog.update Socket.close).andThen fun _ => .throw (.socketError msg)

/-- `errno` is what a call of `::send` that sends nothing leaves there. -/
def Socket.writeExact (len : Nat) (errno : String) (outcomes : List Sent) :
    Prog Thrown Socket Unit :=
  .transfer Socket.write (Socket.closing ("writeExact error: " ++ errno)) len 0 outcomes

def Socket.readExact (len : Nat) (errno : String) (outcomes : List Received) :
    Prog Thrown Socket Unit :=
  .transfer Socket.read (Socket.closing ("readExact error: " ++ errno)) len 0 outcomes

/-! ## How a transfer exits -/

/-- One that throws leaves the connection closed, one that returns has moved what it had to. -/
def ExitsWell {S : Type} (isOpened : S → Bool) (moved : S → Prop) : Outcome Thrown S Unit → Prop
  | .returns _ s => moved s
  | .throws _ s => isOpened s = false
  | .waits _ => True

def Socket.Wrote (s : Socket) (len : Nat) (s' : Socket) : Prop :=
  (s.data.take len).length = len ∧ s'.stream = s.stream ++ s.data.take len

def Socket.Got (s : Socket) (len : Nat) (s' : Socket) : Prop :=
  ∃ bytes, bytes.length = len ∧ s'.stream = s.stream ++ bytes ∧
    s'.data = bytes ++ s.data.drop len

def Reader.Got (s : Reader) (len : Nat) (s' : Reader) : Prop :=
  ∃ bytes, bytes.length = len ∧ receivedBytes s'.recvs = receivedBytes s.recvs ++ bytes ∧
    s'.connection.buffer = s.connection.buffer ++ bytes

/-- No `::recv` since `s` has written behind the end of the static buffer, which is undefined. -/
def Reader.Fits (s s' : Reader) : Prop :=
  ∀ c ∈ s'.recvs.drop s.recvs.length, c.received.length ≤ c.room

/-! ## Which calls move how much -/

def Sent.amount (size : Nat) : Sent → Option Nat
  | .bytes n => some (min n size)
  | .failed => none

def Received.amount (size : Nat) : Received → Option Nat
  | .data bytes => some (bytes.take size).length
  | .failed _ => none

/-- As `Received.amount`, through `readSize`. -/
def Received.amountRead (size : Nat) (outcome : Received) : Option Nat :=
  outcome.amount (readSize size)

def pieces (calls : List (Nat × Received)) : List Bytes :=
  calls.map fun call => call.2.piece (readSize call.1)

/-- No call of `::recv` fails while the connection is open, and there is a static buffer, with room
for what each call receives, however the transfer ends. -/
def Reader.Undisturbed (maxSize len : Nat) (outcomes : List Received) (s : Reader) : Prop :=
  match s.room maxSize len with
  | none => 0 < len → s.isOpened = false
  | some room =>
    (∀ piece ∈ pieces (Prog.moving Received.amountRead len outcomes), piece.length ≤ room) ∧
      (Prog.ending Received.amountRead len outcomes = .failed → s.isOpened = false)

theorem Socket.isOpened_close (s : Socket) : s.close.isOpened = false := by
  simp [Socket.isOpened, Socket.close, Connection.close, Connection.isOpened]

theorem Reader.isOpened_close (s : Reader) : s.close.isOpened = false := by
  simp [Reader.isOpened, Reader.close, Connection.close, Connection.isOpened]

/-- A transfer whose calls leave the connection as it was where they throw, and closed where they
move nothing. -/
theorem transfer_exitsWell_iff {S O : Type} {isOpened : S → Bool} {closed : Bool}
    {one : Nat → Nat → Option O → Prog Thrown S Nat} {onNone : Prog Thrown S Unit} {len : Nat}
    {amount : Nat → O → Option Nat} (inv : List (Nat × O) → Nat → S → Prop)
    (hone : ∀ made moved o s, moved < len → inv made moved s →
      match amount (len - moved) o with
      | none => ∃ x s', one moved (len - moved) (some o) s = .throws x s' ∧ isOpened s' = closed
      | some n => n ≤ len - moved ∧ ∃ s', one moved (len - moved) (some o) s = .returns n s' ∧
          inv (made ++ [(len - moved, o)]) (moved + n) s')
    (hwait : ∀ made moved s, moved < len → inv made moved s →
      ∃ s', one moved (len - moved) none s = .waits s')
    (hnone : ∀ s, ∃ x s', onNone s = .throws x s' ∧ isOpened s' = false)
    {s : S} (hs : inv [] 0 s) {outcomes : List O} {moved : S → Prop} {fits : Prop}
    (hmoved : ∀ s', inv (Prog.moving amount len outcomes) len s' → (moved s' ↔ fits)) :
    ExitsWell isOpened moved (Prog.transfer one onNone len 0 outcomes s) ↔
      match Prog.ending amount len outcomes with
      | .complete => fits
      | .failed => closed = false
      | _ => True := by
  have hwaits : ∀ made moved s, moved < len → inv made moved s →
      ∃ s', one moved (len - moved) none s = .waits s' ∧ True := fun made moved s hlt hinv =>
    (hwait made moved s hlt hinv).imp fun _ h => ⟨h, trivial⟩
  have hends := @Prog.transfer_ends _ _ _ one onNone len amount inv
    (fun _ s' => isOpened s' = closed) (fun _ s' => isOpened s' = false) (fun _ _ => True) hone
    hwaits (fun _ _ _ s _ _ => hnone s) [] 0 (Nat.zero_le len) s hs outcomes
  cases hending : Prog.ending amount len outcomes with
  | complete =>
    rw [Nat.sub_zero, hending] at hends
    obtain ⟨s', hreturns, hinv⟩ := hends
    rw [hreturns]
    exact hmoved s' hinv
  | empty =>
    rw [Nat.sub_zero, hending] at hends
    obtain ⟨x, s', hthrows, hclosed⟩ := hends
    rw [hthrows]
    exact iff_of_true hclosed trivial
  | failed =>
    rw [Nat.sub_zero, hending] at hends
    obtain ⟨x, s', hthrows, hsame⟩ := hends
    rw [hthrows, ← hsame]
    exact Iff.rfl
  | waiting =>
    rw [Nat.sub_zero, hending] at hends
    obtain ⟨s', hwaits, -⟩ := hends
    rw [hwaits]
    exact Iff.rfl

theorem Socket.closing_ends (msg : String) (s : Socket) :
    ∃ x s', Socket.closing msg s = .throws x s' ∧ s'.isOpened = false :=
  ⟨_, s.close, rfl, s.isOpened_close⟩

/-- After `written` bytes of a `writeExact` that began with `s₀`. -/
structure Socket.Writing (s₀ : Socket) (written : Nat) (s : Socket) : Prop where
  isOpened : s.isOpened = s₀.isOpened
  data : s.data = s₀.data
  stream : s.stream = s₀.stream ++ s₀.data.take written

theorem Socket.Writing.write {s₀ s : Socket} {written : Nat} (h : s₀.Writing written s)
    (size : Nat) (outcome : Sent) :
    match outcome.amount size with
    | none => ∃ x s', Socket.write written size (some outcome) s = .throws x s' ∧
        s'.isOpened = s₀.isOpened
    | some n => n ≤ size ∧ ∃ s', Socket.write written size (some outcome) s = .returns n s' ∧
        s₀.Writing (written + n) s' := by
  cases outcome with
  | failed => exact ⟨_, s, rfl, h.isOpened⟩
  | bytes n =>
    refine ⟨Nat.min_le_right n size, _, rfl, h.isOpened, h.data, ?_⟩
    show s.stream ++ (s.data.drop written).take (min n size) = _
    rw [h.stream, h.data, List.append_assoc, ← List.take_add]

theorem Socket.writeExact_exits_iff (len : Nat) (errno : String) (outcomes : List Sent)
    {s : Socket} (hlen : len ≤ s.data.length) :
    ExitsWell Socket.isOpened (s.Wrote len) (Socket.writeExact len errno outcomes s) ↔
      (Prog.ending Sent.amount len outcomes = .failed → s.isOpened = false) := by
  refine (transfer_exitsWell_iff (fun _ => s.Writing)
    (fun _ written outcome s' _ hs => hs.write (len - written) outcome)
    (fun _ _ s' _ _ => ⟨s', rfl⟩) (Socket.closing_ends _)
    ⟨rfl, rfl, (List.append_nil _).symm⟩
    (fun s' hs => iff_true_intro ⟨List.length_take_of_le hlen, hs.stream⟩)).trans ?_
  cases Prog.ending Sent.amount len outcomes <;> simp

/-- After `wasRead` bytes of a `readExact` that began with `s₀`. -/
structure Socket.Reading (s₀ : Socket) (wasRead : Nat) (s : Socket) : Prop where
  isOpened : s.isOpened = s₀.isOpened
  got : s₀.Got wasRead s

theorem Socket.Reading.read {s₀ s : Socket} {wasRead : Nat} (h : s₀.Reading wasRead s)
    (size : Nat) (outcome : Received) :
    match outcome.amount size with
    | none => ∃ x s', Socket.read wasRead size (some outcome) s = .throws x s' ∧
        s'.isOpened = s₀.isOpened
    | some n => n ≤ size ∧ ∃ s', Socket.read wasRead size (some outcome) s = .returns n s' ∧
        s₀.Reading (wasRead + n) s' := by
  cases outcome with
  | failed errno => exact ⟨_, s, rfl, h.isOpened⟩
  | data bytes =>
    obtain ⟨read, hlength, hstream, hdata⟩ := h.got
    refine ⟨List.length_take_le _ _, _, rfl, h.isOpened, read ++ bytes.take size, ?_, ?_, ?_⟩
    · rw [List.length_append, hlength]
    · show s.stream ++ bytes.take size = _
      rw [hstream, List.append_assoc]
    · show s.data.take wasRead ++ bytes.take size ++ s.data.drop (wasRead + _) = _
      rw [hdata, ← hlength, List.take_left, List.drop_length_add_append, List.drop_drop]

theorem Socket.readExact_exits_iff (len : Nat) (errno : String) (outcomes : List Received)
    (s : Socket) :
    ExitsWell Socket.isOpened (s.Got len) (Socket.readExact len errno outcomes s) ↔
      (Prog.ending Received.amount len outcomes = .failed → s.isOpened = false) := by
  refine (transfer_exitsWell_iff (fun _ => s.Reading)
    (fun _ wasRead outcome s' _ hs => hs.read (len - wasRead) outcome)
    (fun _ _ s' _ _ => ⟨s', rfl⟩) (Socket.closing_ends _)
    ⟨rfl, [], rfl, (List.append_nil _).symm, rfl⟩ (fun s' hs => iff_true_intro hs.got)).trans ?_
  cases Prog.ending Received.amount len outcomes <;> simp

/-! ## Through the static buffer -/

/-- The call of `::recv` behind a read, where the static buffer has this room. -/
def recvCall (room : Nat) (call : Nat × Received) : RecvCall :=
  let piece := call.2.piece (readSize call.1)
  ⟨readSize call.1, room, piece, piece.take room⟩

/-- After the calls `made` of a `readExact` that began with `s₀`, where the static buffer has this
room. -/
structure Reader.Reading (maxSize len room : Nat) (s₀ : Reader) (made : List (Nat × Received))
    (wasRead : Nat) (s : Reader) : Prop where
  isOpened : s.isOpened = s₀.isOpened
  static : s.room maxSize (len - wasRead) = some room
  wasRead : (pieces made).flatten.length = wasRead
  recvs : s.recvs = s₀.recvs ++ made.map (recvCall room)
  buffer : s.connection.buffer =
    s₀.connection.buffer ++ ((pieces made).map (List.take room)).flatten

/-- As behind the calls `made`, and one more that has received nothing. -/
structure Reader.Stopped (room : Nat) (s₀ : Reader) (made : List (Nat × Received)) (s : Reader) :
    Prop where
  recvs : ∃ last, s.recvs = s₀.recvs ++ (made.map (recvCall room) ++ [last]) ∧ last.received = []

theorem pieces_snoc (made : List (Nat × Received)) (size : Nat) (bytes : Bytes) :
    pieces (made ++ [(size, .data bytes)]) = pieces made ++ [bytes.take (readSize size)] := by
  rw [pieces, List.map_append]
  rfl

theorem Reader.Reading.read {maxSize len room wasRead : Nat} {s₀ s : Reader}
    {made : List (Nat × Received)} (h : s₀.Reading maxSize len room made wasRead s)
    (outcome : Received) :
    match outcome.amountRead (len - wasRead) with
    | none => ∃ x s', Tcp.read maxSize (len - wasRead) (some outcome) s = .throws x s' ∧
        s'.isOpened = s₀.isOpened ∧ s₀.Stopped room made s'
    | some n => n ≤ len - wasRead ∧
        ∃ s', Tcp.read maxSize (len - wasRead) (some outcome) s = .returns n s' ∧
          s₀.Reading maxSize len room (made ++ [(len - wasRead, outcome)]) (wasRead + n) s' := by
  obtain ⟨buffer, hlength, hread⟩ := read_of_room h.static
  rw [hread]
  cases outcome with
  | failed errno =>
    refine ⟨_, _, rfl, h.isOpened, ⟨readSize (len - wasRead), buffer.length, [], []⟩, ?_, rfl⟩
    show s.recvs ++ [_] = _
    rw [h.recvs, List.append_assoc]
  | data bytes =>
    refine ⟨(List.length_take_le _ _).trans (readSize_le _), _, rfl, h.isOpened, ?_, ?_, ?_, ?_⟩
    · exact congrArg some ((length_overwritten _ _).trans hlength)
    · rw [pieces_snoc, List.flatten_append, List.length_append, h.wasRead, List.flatten_singleton]
    · show s.recvs ++ [_] = _
      rw [h.recvs, List.map_append, ← List.append_assoc, take_overwritten, hlength]
      rfl
    · show s.connection.buffer ++ _ = _
      rw [pieces_snoc, List.map_append, List.flatten_append, ← List.append_assoc, ← h.buffer,
        take_overwritten, hlength, List.map_singleton, List.flatten_singleton]

theorem Reader.Reading.stop {maxSize len room wasRead : Nat} {s₀ s : Reader}
    {made : List (Nat × Received)} (h : s₀.Reading maxSize len room made wasRead s) :
    ∃ s', Tcp.read maxSize (len - wasRead) none s = .waits s' ∧ s₀.Stopped room made s' := by
  obtain ⟨buffer, -, hread⟩ := read_of_room h.static
  rw [hread]
  refine ⟨_, rfl, ⟨readSize (len - wasRead), buffer.length, [], []⟩, ?_, rfl⟩
  show s.recvs ++ [_] = _
  rw [h.recvs, List.append_assoc]

/-- Behind a call that moved nothing the connection is closed. -/
theorem Reader.Reading.closed {maxSize len room wasRead : Nat} {s₀ s : Reader}
    {made : List (Nat × Received)} {outcome : Received}
    (h : s₀.Reading maxSize len room (made ++ [(len - wasRead, outcome)]) wasRead s)
    (errno : String) (hnone : outcome.amountRead (len - wasRead) = some 0) :
    ∃ x s', ((Prog.update Reader.close).andThen fun _ =>
        .throw (.socketError ("readExact error: " ++ errno)) : Prog Thrown Reader Unit) s =
          .throws x s' ∧ s'.isOpened = false ∧ s₀.Stopped room made s' := by
  refine ⟨_, s.close, rfl, s.isOpened_close, recvCall room (len - wasRead, outcome), ?_, ?_⟩
  · show s.recvs = _
    rw [h.recvs, List.map_append, List.map_singleton]
  · cases outcome with
    | failed errno => rfl
    | data bytes => exact List.length_eq_zero_iff.mp (Option.some.inj hnone)

theorem receivedBytes_recvCalls (room : Nat) (made : List (Nat × Received)) :
    receivedBytes (made.map (recvCall room)) = (pieces made).flatten := by
  rw [receivedBytes, pieces, List.flatMap_map, List.flatMap_def]
  rfl

theorem Reader.Reading.received {maxSize len room wasRead : Nat} {s₀ s : Reader}
    {made : List (Nat × Received)} (h : s₀.Reading maxSize len room made wasRead s) :
    receivedBytes s.recvs = receivedBytes s₀.recvs ++ (pieces made).flatten := by
  rw [h.recvs, ← receivedBytes_recvCalls room made]
  exact List.flatMap_append

theorem forall_recvCall_iff (room : Nat) (made : List (Nat × Received)) :
    (∀ c ∈ made.map (recvCall room), c.received.length ≤ c.room) ↔
      ∀ piece ∈ pieces made, piece.length ≤ room := by
  rw [pieces, List.forall_mem_map, List.forall_mem_map]
  rfl

theorem Reader.Reading.fits_iff {maxSize len room wasRead : Nat} {s₀ s : Reader}
    {made : List (Nat × Received)} (h : s₀.Reading maxSize len room made wasRead s) :
    s₀.Fits s ↔ ∀ piece ∈ pieces made, piece.length ≤ room := by
  rw [Reader.Fits, h.recvs, List.drop_left, forall_recvCall_iff]

theorem Reader.Stopped.fits_iff {room : Nat} {s₀ s : Reader} {made : List (Nat × Received)}
    (h : s₀.Stopped room made s) :
    s₀.Fits s ↔ ∀ piece ∈ pieces made, piece.length ≤ room := by
  obtain ⟨last, hrecvs, hnothing⟩ := h
  rw [Reader.Fits, hrecvs, List.drop_left, List.forall_mem_append, forall_recvCall_iff,
    List.forall_mem_singleton, hnothing]
  exact and_iff_left (Nat.zero_le _)

theorem length_flatten_map_take_le (pieces : List Bytes) (n : Nat) :
    (pieces.map (List.take n)).flatten.length ≤ pieces.flatten.length := by
  induction pieces with
  | nil => exact Nat.le_refl 0
  | cons piece pieces ih =>
    rw [List.map_cons, List.flatten_cons, List.flatten_cons, List.length_append,
      List.length_append]
    exact Nat.add_le_add (List.length_take_le' n piece) ih

/-- Nothing is lost exactly if no piece is longer than what is taken of it. -/
theorem flatten_map_take_eq_iff (pieces : List Bytes) (n : Nat) :
    (pieces.map (List.take n)).flatten = pieces.flatten ↔
      ∀ piece ∈ pieces, piece.length ≤ n := by
  induction pieces with
  | nil => exact iff_of_true rfl fun piece hpiece => absurd hpiece List.not_mem_nil
  | cons piece pieces ih =>
    rw [List.map_cons, List.flatten_cons, List.flatten_cons, List.forall_mem_cons, ← ih]
    constructor
    · intro h
      have hle := length_flatten_map_take_le pieces n
      have hlength := congrArg List.length h
      rw [List.length_append, List.length_append, List.length_take] at hlength
      have hpiece : piece.length ≤ n := by omega
      rw [List.take_of_length_le hpiece] at h
      exact ⟨hpiece, List.append_cancel_left h⟩
    · rintro ⟨hpiece, h⟩
      rw [List.take_of_length_le hpiece, h]

theorem Reader.Reading.got_iff {maxSize len room : Nat} {s₀ s : Reader}
    {made : List (Nat × Received)} (h : s₀.Reading maxSize len room made len s) :
    s₀.Got len s ↔ ∀ piece ∈ pieces made, piece.length ≤ room := by
  rw [← flatten_map_take_eq_iff]
  constructor
  · rintro ⟨bytes, -, hreceived, hbuffer⟩
    rw [List.append_cancel_left (h.buffer.symm.trans hbuffer)]
    exact (List.append_cancel_left (h.received.symm.trans hreceived)).symm
  · intro hwhole
    exact ⟨(pieces made).flatten, h.wasRead, h.received, hwhole ▸ h.buffer⟩

/-- However it exits, there must be room for all that it receives. -/
theorem readExact_exits_iff (maxSize len : Nat) (errno : String) (outcomes : List Received)
    (s : Reader) :
    ExitsWell Reader.isOpened (s.Got len) (readExact maxSize len errno outcomes s) ∧
        s.Fits (readExact maxSize len errno outcomes s).state ↔
      s.Undisturbed maxSize len outcomes := by
  rw [Reader.Undisturbed]
  rcases hroom : s.room maxSize len with _ | room
  · have hnothing : s.Fits s := by
      rw [Reader.Fits, List.drop_length]
      exact List.forall_mem_nil _
    rcases Nat.eq_zero_or_pos len with rfl | hlen
    · rw [readExact_zero]
      exact iff_of_true ⟨⟨[], rfl, (List.append_nil _).symm, (List.append_nil _).symm⟩, hnothing⟩
        fun hpos => absurd hpos (Nat.lt_irrefl 0)
    · rw [readExact_of_no_room hroom hlen]
      exact ⟨fun h _ => h.1, fun h => ⟨h hlen, hnothing⟩⟩
  have hstart : s.Reading maxSize len room [] 0 s :=
    ⟨rfl, hroom, rfl, (List.append_nil _).symm, (List.append_nil _).symm⟩
  have hends := @Prog.transfer_ends _ _ _ _ _ len Received.amountRead (s.Reading maxSize len room)
    (fun made s' => s'.isOpened = s.isOpened ∧ s.Stopped room made s')
    (fun made s' => s'.isOpened = false ∧ s.Stopped room made s') (s.Stopped room)
    (fun _ _ outcome _ _ hs => hs.read outcome) (fun _ _ _ _ hs => hs.stop)
    (fun _ _ _ _ hnone hs => hs.closed errno hnone) [] 0 (Nat.zero_le len) s hstart outcomes
  simp only
  cases hending : Prog.ending Received.amountRead len outcomes with
  | complete =>
    rw [Nat.sub_zero, hending] at hends
    obtain ⟨s', hreturns, hreading⟩ := hends
    rw [readExact, hreturns]
    show s.Got len s' ∧ s.Fits s' ↔ _
    rw [hreading.got_iff, hreading.fits_iff]
    simp
  | empty =>
    rw [Nat.sub_zero, hending] at hends
    obtain ⟨x, s', hthrows, hclosed, hstopped⟩ := hends
    rw [readExact, hthrows]
    show s'.isOpened = false ∧ s.Fits s' ↔ _
    rw [hclosed, hstopped.fits_iff]
    simp
  | failed =>
    rw [Nat.sub_zero, hending] at hends
    obtain ⟨x, s', hthrows, hopened, hstopped⟩ := hends
    rw [readExact, hthrows]
    show s'.isOpened = false ∧ s.Fits s' ↔ _
    rw [hopened, hstopped.fits_iff, and_comm]
    simp
  | waiting =>
    rw [Nat.sub_zero, hending] at hends
    obtain ⟨s', hwaits, hstopped⟩ := hends
    rw [readExact, hwaits]
    show True ∧ s.Fits s' ↔ _
    rw [hstopped.fits_iff]
    simp

/-- An exact transfer that throws leaves the connection closed, and one that returns has moved all
its bytes in order, exactly if no call fails while the connection is open; through the static
buffer, without an overrun, if there is room for what is received too. -/
theorem exact_transfers_exit_iff (maxSize len : Nat) (errno : String) (sent : List Sent)
    (received : List Received) {s : Socket} (hlen : len ≤ s.data.length) (r : Reader) :
    (ExitsWell Socket.isOpened (s.Wrote len) (Socket.writeExact len errno sent s) ↔
      (Prog.ending Sent.amount len sent = .failed → s.isOpened = false)) ∧
    (ExitsWell Socket.isOpened (s.Got len) (Socket.readExact len errno received s) ↔
      (Prog.ending Received.amount len received = .failed → s.isOpened = false)) ∧
    (ExitsWell Reader.isOpened (r.Got len) (readExact maxSize len errno received r) ∧
        r.Fits (readExact maxSize len errno received r).state ↔
      r.Undisturbed maxSize len received) :=
  ⟨Socket.writeExact_exits_iff len errno sent hlen, s.readExact_exits_iff len errno received,
    readExact_exits_iff maxSize len errno received r⟩

/-- `::send` has no room for the other three bytes, `::recv` gets five in two calls. -/
theorem exact_transfers_exit_example :
    let s : Socket := ⟨⟨3, []⟩, ⟨[1, 2, 3], []⟩, [104, 101, 108, 108, 111], []⟩
    ExitsWell Socket.isOpened (s.Wrote 5)
        (Socket.writeExact 5 "Broken pipe" [.bytes 2, .bytes 0] s) ∧
      ExitsWell Socket.isOpened (s.Got 5)
        (Socket.readExact 5 "Broken pipe" [.data [119, 111], .data [114, 108, 100]] s) := by
  intro s
  obtain ⟨hwrite, hread, -⟩ := exact_transfers_exit_iff 64 5 "Broken pipe" [.bytes 2, .bytes 0]
    [.data [119, 111], .data [114, 108, 100]] (s := s) (by decide)
    ⟨s.connection, s.kernel, none, []⟩
  exact ⟨hwrite.mpr fun h => absurd h (by decide), hread.mpr fun h => absurd h (by decide)⟩

/-- Two bytes of five have been sent when `::send` fails. -/
theorem failed_send_leaves_open :
    ¬ ∀ (len : Nat) (errno : String) (outcomes : List Sent) (s : Socket), len ≤ s.data.length →
      ExitsWell Socket.isOpened (s.Wrote len) (Socket.writeExact len errno outcomes s) := by
  intro h
  have hclosed := h 5 "Connection reset by peer" [.bytes 2, .failed]
    ⟨⟨3, []⟩, ⟨[1, 2, 3], []⟩, [104, 101, 108, 108, 111], []⟩ (by decide)
  have hopened : true = false := hclosed
  cases hopened

end AdvCppTP.Tcp
