import AdvCppTP.Lib.Runs
import AdvCppTP.Lib.Scope
import AdvCppTP.Tcp.EpollManager

/-! `read` and `readExact` of `tcp::Connection`, through a `static` buffer that all connections of
the process have in common. -/

namespace AdvCppTP.Tcp

open Lib

def maxBytesRead : Nat := 512

/-- -1 as a `size_t`. -/
def sizeMax : Nat := 2 ^ 64 - 1

def readSize (size : Nat) : Nat := if size = sizeMax then maxBytesRead else size

inductive Thrown
  | socketError (msg : String)
  | badIpAddress (ip : String)
  | connectionError (msg : String)
  | lengthError
  deriving DecidableEq, Repr

/-- What `::recv` has for a call, or -1. -/
inductive Received
  | data (bytes : Bytes)
  | failed (errno : String)
  deriving DecidableEq, Repr

/-- What `::recv` gives to a call that asks for `size`. -/
def Received.piece (size : Nat) : Received → Bytes
  | .data bytes => bytes.take size
  | .failed _ => []

/-- A call of `::recv`: the length it was given and that of the buffer, the bytes it has received
and those of them that `buffer_` has got. -/
structure RecvCall where
  size : Nat
  room : Nat
  received : Bytes
  appended : Bytes
  deriving DecidableEq, Repr

def receivedBytes (recvs : List RecvCall) : Bytes := recvs.flatMap RecvCall.received

/-- What a reading connection works on. -/
structure Reader where
  connection : Connection
  kernel : Kernel
  staticBuffer : Option Bytes
  recvs : List RecvCall
  deriving DecidableEq, Repr

def Reader.close (s : Reader) : Reader :=
  let (connection, kernel) := s.connection.close s.kernel
  { s with connection, kernel }

/-- `static std::string buffer(size + 1, '\0')`, where a string has at most `maxSize` bytes. -/
def initBuffer (maxSize size : Nat) : Prog Thrown Reader Bytes := fun s =>
  match s.staticBuffer with
  | some buffer => .returns buffer s
  | none =>
    let buffer := List.replicate (size + 1) 0
    if maxSize < size + 1 then .throws .lengthError s
    else .returns buffer { s with staticBuffer := some buffer }

/-- Bytes that are received behind the end of the buffer are lost. -/
def recv (size : Nat) (outcome : Option Received) (buffer : Bytes) : Prog Thrown Reader Nat :=
  fun s =>
  match outcome with
  | none => .waits { s with recvs := s.recvs ++ [⟨size, buffer.length, [], []⟩] }
  | some (.failed errno) =>
    .throws (.socketError ("Read error:" ++ errno))
      { s with recvs := s.recvs ++ [⟨size, buffer.length, [], []⟩] }
  | some (.data bytes) =>
    let received := bytes.take size
    let filled := received.take buffer.length ++ buffer.drop received.length
    let appended := filled.take received.length
    .returns received.length
      { s with
        connection.buffer := s.connection.buffer ++ appended
        staticBuffer := some filled
        recvs := s.recvs ++ [⟨size, buffer.length, received, appended⟩] }

def read (maxSize size : Nat) (outcome : Option Received) : Prog Thrown Reader Nat :=
  (initBuffer maxSize (readSize size)).andThen (recv (readSize size) outcome)

/-- `errno` is what a call of `::recv` that receives nothing leaves there. -/
def readExact (maxSize len : Nat) (errno : String) (outcomes : List Received) :
    Prog Thrown Reader Unit :=
  .transfer (fun _ size outcome => read maxSize size outcome)
    ((Prog.update Reader.close).andThen fun _ =>
      .throw (.socketError ("readExact error: " ++ errno)))
    len 0 outcomes

/-! ## Any number of connections -/

structure Process where
  connections : Nat → Connection
  kernel : Kernel
  staticBuffer : Option Bytes
  recvs : List RecvCall

def Process.init (connections : Nat → Connection) (kernel : Kernel) : Process :=
  ⟨connections, kernel, none, []⟩

def Process.reader (p : Process) (obj : Nat) : Reader :=
  ⟨p.connections obj, p.kernel, p.staticBuffer, p.recvs⟩

def Process.put (p : Process) (obj : Nat) (s : Reader) : Process :=
  ⟨Function.update p.connections obj s.connection, s.kernel, s.staticBuffer, s.recvs⟩

inductive ReadCall
  | read (obj size : Nat) (outcome : Received)
  | readExact (obj len : Nat) (errno : String) (outcomes : List Received)
  deriving DecidableEq, Repr

def Process.step (maxSize : Nat) (p : Process) : ReadCall → Process × Option Thrown
  | .read obj size outcome =>
    let o := read maxSize size (some outcome) (p.reader obj)
    (p.put obj o.state, o.thrown)
  | .readExact obj len errno outcomes =>
    let o := readExact maxSize len errno outcomes (p.reader obj)
    (p.put obj o.state, o.thrown)

/-- The calls of `::recv` in a process that begins with these connections. -/
def recvCalls (maxSize : Nat) (connections : Nat → Connection) (kernel : Kernel)
    (calls : List ReadCall) : List RecvCall :=
  (runs (Process.step maxSize) (.init connections kernel) calls).1.recvs

/-- The size that the call is to give `::recv` first. -/
def ReadCall.asks : ReadCall → Option Nat
  | .read _ size _ => some (readSize size)
  | .readExact _ len _ _ => if 0 < len then some (readSize len) else none

/-- What a call for -1 bytes gets. -/
def firstPiece (outcomes : List Received) : Bytes :=
  (outcomes.head?.map (Received.piece maxBytesRead)).getD []

/-- The largest size that a transfer of `todo` bytes gives `::recv`. For -1 it asks for 512 at
first, and then for all that is left of 2^64 - 1 bytes. -/
def largestAsked (todo : Nat) (outcomes : List Received) : Nat :=
  if todo ≠ sizeMax ∨ firstPiece outcomes = [] then readSize todo
  else todo - (firstPiece outcomes).length

def ReadCall.largest : ReadCall → Nat
  | .read _ size _ => readSize size
  | .readExact _ len _ outcomes => largestAsked len outcomes

/-- The call can build the static buffer. -/
def ReadCall.builds (maxSize : Nat) (call : ReadCall) : Bool :=
  call.asks.any fun size => size + 1 ≤ maxSize

/-- The calls from the one on that builds the static buffer. -/
def behindFirst (maxSize : Nat) (calls : List ReadCall) : List ReadCall :=
  calls.dropWhile fun call => !call.builds maxSize

/-- The buffer has the length that the first call gave it, and a byte more. -/
structure SizedByFirst (staticBuffer : Option Bytes) (recvs : List RecvCall) : Prop where
  first : match staticBuffer, recvs with
    | none, [] => True
    | some buffer, first :: _ => buffer.length = first.size + 1
    | _, _ => False
  rooms : ∀ first ∈ recvs.head?, ∀ c ∈ recvs, c.room = first.size + 1
  fits : ∀ c ∈ recvs, c.received.length ≤ c.size ∧ c.appended = c.received.take c.room

theorem sizedByFirst_init : SizedByFirst none [] where
  first := trivial
  rooms _ h := by cases h
  fits _ h := absurd h List.not_mem_nil

/-- What is written over a buffer that is long enough is what `append` then takes. -/
theorem take_overwritten (received buffer : Bytes) :
    (received.take buffer.length ++ buffer.drop received.length).take received.length =
      received.take buffer.length := by
  rcases Nat.le_total received.length buffer.length with hle | hle
  · rw [List.take_of_length_le hle, List.take_left]
  · rw [List.drop_eq_nil_of_le hle, List.append_nil, List.take_take, Nat.min_eq_right hle]

theorem length_overwritten (received buffer : Bytes) :
    (received.take buffer.length ++ buffer.drop received.length).length = buffer.length := by
  rw [List.length_append, List.length_take, List.length_drop]
  omega

/-- One more call, through the buffer of the first one or as the first one. -/
theorem SizedByFirst.snoc {buffer buffer' : Bytes} {recvs : List RecvCall} {c : RecvCall}
    (h : recvs = [] ∧ buffer.length = c.size + 1 ∨ SizedByFirst (some buffer) recvs)
    (hlength : buffer'.length = buffer.length) (hroom : c.room = buffer.length)
    (hreceived : c.received.length ≤ c.size) (happended : c.appended = c.received.take c.room) :
    SizedByFirst (some buffer') (recvs ++ [c]) := by
  obtain ⟨rfl, hfirst⟩ | h := h
  · refine ⟨hlength.trans hfirst, fun first heq => ?_, ?_⟩
    · obtain rfl : c = first := Option.some.inj heq
      exact List.forall_mem_singleton.mpr (hroom.trans hfirst)
    · exact List.forall_mem_singleton.mpr ⟨hreceived, happended⟩
  · cases recvs with
    | nil => exact False.elim h.first
    | cons first recvs =>
      have hfirst : buffer.length = first.size + 1 := h.first
      refine ⟨hlength.trans hfirst, fun first' heq => ?_, ?_⟩
      · obtain rfl : first = first' := Option.some.inj heq
        exact List.forall_mem_append.mpr
          ⟨h.rooms first rfl, List.forall_mem_singleton.mpr (hroom.trans hfirst)⟩
      · exact List.forall_mem_append.mpr
          ⟨h.fits, List.forall_mem_singleton.mpr ⟨hreceived, happended⟩⟩

def Reader.Sized (s : Reader) : Prop := SizedByFirst s.staticBuffer s.recvs

theorem recv_sized {size : Nat} {buffer : Bytes} {s : Reader} (outcome : Option Received)
    (hbuffer : s.staticBuffer = some buffer)
    (h : s.recvs = [] ∧ buffer.length = size + 1 ∨ SizedByFirst (some buffer) s.recvs) :
    (recv size outcome buffer s).state.Sized := by
  have hnothing : SizedByFirst s.staticBuffer (s.recvs ++ [⟨size, buffer.length, [], []⟩]) := by
    rw [hbuffer]
    exact SizedByFirst.snoc h rfl rfl (Nat.zero_le _) List.take_nil.symm
  rcases outcome with _ | bytes | errno
  · exact hnothing
  · refine SizedByFirst.snoc h (length_overwritten _ _) rfl ?_ (take_overwritten _ _)
    exact List.length_take_le _ _
  · exact hnothing

theorem initBuffer_of_some {maxSize size : Nat} {s : Reader} {buffer : Bytes}
    (h : s.staticBuffer = some buffer) : initBuffer maxSize size s = .returns buffer s := by
  simp only [initBuffer, h]

theorem initBuffer_of_none {maxSize size : Nat} {s : Reader} (h : s.staticBuffer = none)
    (hsize : size + 1 ≤ maxSize) :
    initBuffer maxSize size s = .returns (List.replicate (size + 1) 0)
      { s with staticBuffer := some (List.replicate (size + 1) 0) } := by
  simp only [initBuffer, h, if_neg (Nat.not_lt.mpr hsize)]

theorem initBuffer_tooLong {maxSize size : Nat} {s : Reader} (h : s.staticBuffer = none)
    (hsize : maxSize < size + 1) : initBuffer maxSize size s = .throws .lengthError s := by
  simp only [initBuffer, h, if_pos hsize]

theorem Reader.Sized.recvs_eq_nil {s : Reader} (h : s.Sized) (hnone : s.staticBuffer = none) :
    s.recvs = [] := by
  have hfirst := h.first
  rw [hnone] at hfirst
  cases hrecvs : s.recvs with
  | nil => rfl
  | cons first recvs =>
    rw [hrecvs] at hfirst
    exact False.elim hfirst

theorem read_sized (maxSize size : Nat) (outcome : Option Received) :
    (read maxSize size outcome).Keeps Reader.Sized := by
  intro s h
  cases hbuffer : s.staticBuffer with
  | some buffer =>
    rw [read, Prog.andThen, initBuffer_of_some hbuffer]
    refine recv_sized outcome hbuffer (.inr ?_)
    rw [← hbuffer]
    exact h
  | none =>
    by_cases hsize : readSize size + 1 ≤ maxSize
    · rw [read, Prog.andThen, initBuffer_of_none hbuffer hsize]
      exact recv_sized outcome rfl (.inl ⟨h.recvs_eq_nil hbuffer, List.length_replicate⟩)
    · rw [read, Prog.andThen, initBuffer_tooLong hbuffer (Nat.lt_of_not_le hsize)]
      exact h

/-- What every read keeps, and closing the connection too, `readExact` keeps. -/
theorem readExact_keeps {I : Reader → Prop} {maxSize : Nat}
    (hread : ∀ size outcome, (read maxSize size outcome).Keeps I)
    (hclose : ∀ s : Reader, I s → I s.close) (len : Nat) (errno : String)
    (outcomes : List Received) : (readExact maxSize len errno outcomes).Keeps I := by
  have hthrow : ((Prog.update Reader.close).andThen fun _ =>
      .throw (.socketError ("readExact error: " ++ errno)) : Prog Thrown Reader Unit).Keeps I :=
    (Prog.keeps_update hclose).andThen fun _ => Prog.keeps_throw I _
  exact Prog.keeps_transfer (fun _ size outcome => hread size outcome) hthrow len 0 outcomes

theorem readExact_sized (maxSize len : Nat) (errno : String) (outcomes : List Received) :
    (readExact maxSize len errno outcomes).Keeps Reader.Sized :=
  readExact_keeps (read_sized maxSize) (fun _ hs => hs) len errno outcomes

theorem recvCalls_sized (maxSize : Nat) (connections : Nat → Connection) (kernel : Kernel)
    (calls : List ReadCall) :
    SizedByFirst (runs (Process.step maxSize) (.init connections kernel) calls).1.staticBuffer
      (recvCalls maxSize connections kernel calls) := by
  refine runs_invariant (I := fun p : Process => SizedByFirst p.staticBuffer p.recvs)
    (fun p c hp => ?_) sizedByFirst_init calls
  cases c with
  | read obj size outcome => exact read_sized maxSize size (some outcome) (p.reader obj) hp
  | readExact obj len errno outcomes =>
    exact readExact_sized maxSize len errno outcomes (p.reader obj) hp

/-! ## What is appended -/

/-- Since `s₀`, `buffer_` has got what has been appended to it, which is all that there was room
for. -/
def Reader.GrownFrom (s₀ s : Reader) : Prop :=
  ∃ new, s.recvs = s₀.recvs ++ new ∧
    s.connection.buffer = s₀.connection.buffer ++ new.flatMap RecvCall.appended ∧
    ∀ c ∈ new, c.appended = c.received.take c.room

theorem Reader.grownFrom_refl (s : Reader) : s.GrownFrom s :=
  ⟨[], (List.append_nil _).symm, (List.append_nil _).symm, fun _ hc => absurd hc List.not_mem_nil⟩

theorem Reader.GrownFrom.snoc {s₀ s s' : Reader} (h : s₀.GrownFrom s) {c : RecvCall}
    (hrecvs : s'.recvs = s.recvs ++ [c])
    (hbuffer : s'.connection.buffer = s.connection.buffer ++ c.appended)
    (hc : c.appended = c.received.take c.room) : s₀.GrownFrom s' := by
  obtain ⟨new, hnew, hgrown, happended⟩ := h
  refine ⟨new ++ [c], ?_, ?_, ?_⟩
  · rw [hrecvs, hnew, List.append_assoc]
  · rw [hbuffer, hgrown, List.flatMap_append, List.append_assoc, List.flatMap_singleton]
  · exact List.forall_mem_append.mpr ⟨happended, List.forall_mem_singleton.mpr hc⟩

theorem recv_grown (s₀ : Reader) (size : Nat) (outcome : Option Received) (buffer : Bytes) :
    (recv size outcome buffer).Keeps s₀.GrownFrom := by
  intro s hs
  rcases outcome with _ | bytes | errno
  · exact hs.snoc rfl (List.append_nil _).symm List.take_nil.symm
  · exact hs.snoc rfl rfl (take_overwritten _ _)
  · exact hs.snoc rfl (List.append_nil _).symm List.take_nil.symm

theorem initBuffer_grown (s₀ : Reader) (maxSize size : Nat) :
    (initBuffer maxSize size).Keeps s₀.GrownFrom := by
  intro s hs
  cases hbuffer : s.staticBuffer with
  | some buffer =>
    rw [initBuffer_of_some hbuffer]
    exact hs
  | none =>
    by_cases hsize : size + 1 ≤ maxSize
    · rw [initBuffer_of_none hbuffer hsize]
      exact hs
    · rw [initBuffer_tooLong hbuffer (Nat.lt_of_not_le hsize)]
      exact hs

theorem read_grown (s₀ : Reader) (maxSize size : Nat) (outcome : Option Received) :
    (read maxSize size outcome).Keeps s₀.GrownFrom :=
  (initBuffer_grown s₀ maxSize (readSize size)).andThen fun buffer =>
    recv_grown s₀ (readSize size) outcome buffer

theorem readExact_grown (s₀ : Reader) (maxSize len : Nat) (errno : String)
    (outcomes : List Received) : (readExact maxSize len errno outcomes).Keeps s₀.GrownFrom :=
  readExact_keeps (read_grown s₀ maxSize) (fun _ hs => hs) len errno outcomes

/-- As the calls of `::recv` say it. -/
theorem recvCalls_fit_iff (maxSize : Nat) (connections : Nat → Connection) (kernel : Kernel)
    (calls : List ReadCall) :
    (∀ c ∈ recvCalls maxSize connections kernel calls,
        c.size ≤ c.room ∧ c.appended = c.received) ↔
      ∀ first ∈ (recvCalls maxSize connections kernel calls).head?,
        ∀ c ∈ recvCalls maxSize connections kernel calls, c.size ≤ first.size + 1 := by
  obtain ⟨-, hrooms, hfits⟩ := recvCalls_sized maxSize connections kernel calls
  generalize recvCalls maxSize connections kernel calls = recvs at hrooms hfits ⊢
  constructor
  · intro h first hfirst c hc
    rw [← hrooms first hfirst c hc]
    exact (h c hc).1
  · intro h c hc
    obtain ⟨first, hfirst⟩ : ∃ first, recvs.head? = some first :=
      Option.ne_none_iff_exists'.mp fun hnone =>
        absurd hc (List.head?_eq_none_iff.mp hnone ▸ List.not_mem_nil)
    have hroom : c.size ≤ c.room := hrooms first hfirst c hc ▸ h first hfirst c hc
    obtain ⟨hreceived, happended⟩ := hfits c hc
    exact ⟨hroom, happended.trans (List.take_of_length_le (hreceived.trans hroom))⟩

/-! ## What is asked for -/

/-- The length of the static buffer, as it is or as a read of `size` bytes builds it. -/
def Reader.room (maxSize size : Nat) (s : Reader) : Option Nat :=
  match s.staticBuffer with
  | some buffer => some buffer.length
  | none => if readSize size + 1 ≤ maxSize then some (readSize size + 1) else none

theorem read_of_room {maxSize size room : Nat} {s : Reader} (h : s.room maxSize size = some room) :
    ∃ buffer, buffer.length = room ∧ ∀ outcome, read maxSize size outcome s =
      recv (readSize size) outcome buffer { s with staticBuffer := some buffer } := by
  rw [Reader.room] at h
  cases hbuffer : s.staticBuffer with
  | some buffer =>
    rw [hbuffer] at h
    refine ⟨buffer, Option.some.inj h, fun outcome => ?_⟩
    rw [read, Prog.andThen, initBuffer_of_some hbuffer, ← hbuffer]
  | none =>
    rw [hbuffer] at h
    obtain ⟨hsize, hroom⟩ := Option.ite_none_right_eq_some.mp h
    obtain rfl := Option.some.inj hroom
    refine ⟨List.replicate (readSize size + 1) 0, List.length_replicate, fun outcome => ?_⟩
    rw [read, Prog.andThen, initBuffer_of_none hbuffer hsize]

theorem read_of_no_room {maxSize size : Nat} {s : Reader} (h : s.room maxSize size = none)
    (outcome : Option Received) : read maxSize size outcome s = .throws .lengthError s := by
  rw [Reader.room] at h
  cases hbuffer : s.staticBuffer with
  | some buffer =>
    rw [hbuffer] at h
    cases h
  | none =>
    rw [hbuffer] at h
    have hsize : ¬ readSize size + 1 ≤ maxSize := fun hle => by simp [hle] at h
    rw [read, Prog.andThen, initBuffer_tooLong hbuffer (Nat.lt_of_not_le hsize)]

theorem readSize_le (size : Nat) : readSize size ≤ size := by
  rw [readSize]
  split
  case isTrue h => exact h ▸ by decide
  case isFalse => exact Nat.le_refl size

theorem Reader.exists_room {maxSize size : Nat} {s : Reader}
    (h : s.staticBuffer ≠ none ∨ readSize size + 1 ≤ maxSize) :
    ∃ room, s.room maxSize size = some room := by
  rw [Reader.room]
  cases hbuffer : s.staticBuffer with
  | some buffer => exact ⟨_, rfl⟩
  | none => exact ⟨_, if_pos (h.resolve_left (absurd hbuffer))⟩

theorem largestAsked_le (todo : Nat) (outcomes : List Received) :
    largestAsked todo outcomes ≤ todo := by
  rw [largestAsked]
  split
  · exact readSize_le todo
  · exact Nat.sub_le _ _

/-- Behind the calls `before`, `::recv` has been called for `first` bytes at first, and for
`largest` at most; there is a static buffer now. -/
structure Asked (before : List RecvCall) (first largest : Nat) (staticBuffer : Option Bytes)
    (recvs : List RecvCall) : Prop where
  static : staticBuffer ≠ none
  calls : ∃ c new, recvs = before ++ c :: new ∧ c.size = first ∧
    ∀ bound, (∀ c' ∈ c :: new, c'.size ≤ bound) ↔ largest ≤ bound

theorem Asked.single {before : List RecvCall} {staticBuffer : Option Bytes} (c : RecvCall)
    (h : staticBuffer ≠ none) : Asked before c.size c.size staticBuffer (before ++ [c]) :=
  ⟨h, c, [], rfl, rfl, fun _ => List.forall_mem_singleton⟩

theorem Asked.trans {before recvs recvs' : List RecvCall} {first first' largest largest' : Nat}
    {staticBuffer staticBuffer' : Option Bytes} (h : Asked before first largest staticBuffer recvs)
    (h' : Asked recvs first' largest' staticBuffer' recvs') :
    Asked before first (max largest largest') staticBuffer' recvs' := by
  obtain ⟨-, c, new, rfl, hsize, hbound⟩ := h
  obtain ⟨hstatic, c', new', rfl, -, hbound'⟩ := h'
  refine ⟨hstatic, c, new ++ c' :: new', ?_, hsize, fun bound => ?_⟩
  · rw [List.append_assoc, List.cons_append]
  · rw [← List.cons_append, List.forall_mem_append, hbound, hbound', Nat.max_le]

def Reader.Asked (s : Reader) (first largest : Nat) (s' : Reader) : Prop :=
  Tcp.Asked s.recvs first largest s'.staticBuffer s'.recvs

theorem recv_asked (size : Nat) (outcome : Option Received) (buffer : Bytes) {s : Reader}
    (h : s.staticBuffer ≠ none) : s.Asked size size (recv size outcome buffer s).state := by
  rcases outcome with _ | bytes | errno
  · exact Asked.single ⟨size, buffer.length, [], []⟩ h
  · exact Asked.single ⟨size, buffer.length, _, _⟩ (Option.some_ne_none _)
  · exact Asked.single ⟨size, buffer.length, [], []⟩ h

theorem read_asked {maxSize size room : Nat} {s : Reader} (h : s.room maxSize size = some room)
    (outcome : Option Received) :
    s.Asked (readSize size) (readSize size) (read maxSize size outcome s).state := by
  obtain ⟨buffer, -, hread⟩ := read_of_room h
  rw [hread]
  exact recv_asked (readSize size) outcome buffer
    (s := { s with staticBuffer := some buffer }) (Option.some_ne_none _)

theorem readSize_of_ne {size : Nat} (h : size ≠ sizeMax) : readSize size = size := if_neg h

theorem largestAsked_of_ne {todo : Nat} (h : todo ≠ sizeMax) (outcomes : List Received) :
    largestAsked todo outcomes = todo :=
  (if_pos (.inl h)).trans (readSize_of_ne h)

theorem largestAsked_nothing {todo : Nat} {bytes : Bytes} (h : bytes.take (readSize todo) = [])
    (outcomes : List Received) : largestAsked todo (.data bytes :: outcomes) = readSize todo := by
  refine if_pos ((ne_or_eq todo sizeMax).imp_right fun htodo => ?_)
  rwa [readSize, if_pos htodo] at h

/-- What is left of the length is asked for next, but for a length of -1 that is no more. -/
theorem largestAsked_more {todo : Nat} {bytes : Bytes} (hsome : bytes.take (readSize todo) ≠ [])
    (outcomes outcomes' : List Received) :
    max (readSize todo)
        (largestAsked (todo - (bytes.take (readSize todo)).length) outcomes) =
      largestAsked todo (.data bytes :: outcomes') := by
  have hpos := List.length_pos_iff.mpr hsome
  have hle := List.length_take_le (readSize todo) bytes
  by_cases htodo : todo = sizeMax
  · have hread : readSize todo = maxBytesRead := if_pos htodo
    have hmax : maxBytesRead + maxBytesRead ≤ todo := htodo ▸ by decide
    have hfirst : firstPiece (.data bytes :: outcomes') = bytes.take maxBytesRead := rfl
    rw [hread] at hsome hpos hle ⊢
    rw [largestAsked_of_ne (by omega), largestAsked, hfirst, if_neg (by simp [htodo, hsome])]
    omega
  · rw [readSize_of_ne htodo, largestAsked_of_ne htodo]
    exact Nat.max_eq_left ((largestAsked_le _ _).trans (Nat.sub_le _ _))

theorem transfer_done {X S O : Type*} {one : Nat → Nat → Option O → Prog X S Nat}
    {onNone : Prog X S Unit} {len moved : Nat} (h : ¬ moved < len) (outcomes : List O) :
    Prog.transfer one onNone len moved outcomes = .pure () := by
  cases outcomes <;> rw [Prog.transfer, if_neg h]

/-- What a transfer asks for, from any point of it on. -/
theorem transfer_asked {maxSize len : Nat} {onNone : Prog Thrown Reader Unit}
    (hnone : ∀ s, (onNone s).state.staticBuffer = s.staticBuffer ∧ (onNone s).state.recvs = s.recvs)
    {moved room : Nat} {s : Reader} (hlt : moved < len)
    (hroom : s.room maxSize (len - moved) = some room) (outcomes : List Received) :
    s.Asked (readSize (len - moved)) (largestAsked (len - moved) outcomes)
      (Prog.transfer (fun _ size outcome => read maxSize size outcome) onNone len moved outcomes
        s).state := by
  induction outcomes generalizing moved s room with
  | nil =>
    have hasked := read_asked hroom none
    obtain ⟨buffer, -, hread⟩ := read_of_room hroom
    rw [Prog.transfer, if_pos hlt, largestAsked, if_pos (.inr rfl)]
    simp only [Prog.andThen, hread] at hasked ⊢
    exact hasked
  | cons outcome outcomes ih =>
    have hasked := read_asked hroom (some outcome)
    obtain ⟨buffer, -, hread⟩ := read_of_room hroom
    rw [hread] at hasked
    rw [Prog.transfer, if_pos hlt]
    cases outcome with
    | failed errno =>
      rw [largestAsked, if_pos (.inr rfl)]
      simp only [Prog.andThen, hread]
      exact hasked
    | data bytes =>
      obtain ⟨s₁, hreturns⟩ : ∃ s₁, recv (readSize (len - moved)) (some (.data bytes)) buffer
          { s with staticBuffer := some buffer } =
            .returns (bytes.take (readSize (len - moved))).length s₁ := ⟨_, rfl⟩
      rw [hreturns] at hasked
      simp only [Prog.andThen, hread, hreturns]
      by_cases hsome : bytes.take (readSize (len - moved)) = []
      · rw [largestAsked_nothing hsome, hsome, List.length_nil, if_pos rfl]
        rw [Reader.Asked, (hnone s₁).1, (hnone s₁).2]
        exact hasked
      · have hpos := List.length_pos_iff.mpr hsome
        have hle := (List.length_take_le (readSize (len - moved)) bytes).trans (readSize_le _)
        have hmore := largestAsked_more hsome outcomes outcomes
        generalize (bytes.take (readSize (len - moved))).length = n at hpos hle hmore ⊢
        rw [← hmore, if_neg hpos.ne']
        by_cases hrest : moved + n < len
        · -- the rest is a transfer of what is left, with a static buffer
          have hleft : len - moved - n = len - (moved + n) := by omega
          obtain ⟨room', hroom'⟩ : ∃ room', s₁.room maxSize (len - (moved + n)) = some room' :=
            Reader.exists_room (.inl hasked.static)
          rw [hleft]
          exact hasked.trans (ih hrest hroom')
        · have hnothing : largestAsked (len - moved - n) outcomes = 0 :=
            Nat.eq_zero_of_le_zero ((largestAsked_le _ _).trans (by omega))
          rw [transfer_done hrest, hnothing, Nat.max_zero]
          exact hasked

theorem readExact_zero (maxSize : Nat) (errno : String) (outcomes : List Received) :
    readExact maxSize 0 errno outcomes = .pure () :=
  transfer_done (Nat.lt_irrefl 0) outcomes

/-- Where there can be no static buffer, a first read throws before it calls `::recv`. -/
theorem readExact_of_no_room {maxSize len : Nat} {s : Reader} (h : s.room maxSize len = none)
    (hlen : 0 < len) (errno : String) (outcomes : List Received) :
    readExact maxSize len errno outcomes s = .throws .lengthError s := by
  have hread := read_of_no_room h
  cases outcomes with
  | nil => rw [readExact, Prog.transfer, Nat.sub_zero, if_pos hlen, Prog.andThen, hread]
  | cons outcome outcomes =>
    rw [readExact, Prog.transfer, Nat.sub_zero, if_pos hlen, Prog.andThen, hread]

/-! ## From call to call -/

section

variable (maxSize : Nat) {size : Nat} {p : Process} {call : ReadCall}

/-- A call that asks for bytes, and has a buffer for them or can build it. -/
theorem Process.step_asked (hasks : call.asks = some size)
    (hbuilds : p.staticBuffer ≠ none ∨ size + 1 ≤ maxSize) :
    Asked p.recvs size call.largest (p.step maxSize call).1.staticBuffer
      (p.step maxSize call).1.recvs := by
  cases call with
  | read obj size' outcome =>
    obtain rfl := Option.some.inj hasks
    obtain ⟨room, hroom⟩ := Reader.exists_room (s := p.reader obj) hbuilds
    exact read_asked hroom (some outcome)
  | readExact obj len errno outcomes =>
    obtain ⟨hlt, hsize⟩ := Option.ite_none_right_eq_some.mp hasks
    obtain rfl := Option.some.inj hsize
    obtain ⟨room, hroom⟩ := Reader.exists_room (s := p.reader obj) hbuilds
    exact transfer_asked (fun _ => ⟨rfl, rfl⟩) hlt hroom outcomes

/-- A call that asks for nothing, or throws before it does. -/
theorem Process.step_unasked
    (h : ∀ size ∈ call.asks, p.staticBuffer = none ∧ ¬ size + 1 ≤ maxSize) :
    (p.step maxSize call).1.staticBuffer = p.staticBuffer ∧
      (p.step maxSize call).1.recvs = p.recvs := by
  have hnone : ∀ {obj size}, p.staticBuffer = none ∧ ¬ readSize size + 1 ≤ maxSize →
      (p.reader obj).room maxSize size = none := fun hno => by
    simp only [Reader.room, Process.reader, hno.1, if_neg hno.2]
  cases call with
  | read obj size outcome =>
    simp only [Process.step, read_of_no_room (hnone (h _ rfl))]
    exact ⟨rfl, rfl⟩
  | readExact obj len errno outcomes =>
    rcases Nat.eq_zero_or_pos len with rfl | hlen
    · simp only [Process.step, readExact_zero]
      exact ⟨rfl, rfl⟩
    · simp only [Process.step, readExact_of_no_room (hnone (h _ (if_pos hlen))) hlen]
      exact ⟨rfl, rfl⟩

theorem ReadCall.largest_of_asks_none (h : call.asks = none) : call.largest = 0 := by
  cases call with
  | read obj size outcome => cases h
  | readExact obj len errno outcomes =>
    have hzero : len = 0 := by simpa [ReadCall.asks] using h
    exact Nat.eq_zero_of_le_zero (hzero ▸ largestAsked_le len outcomes)

/-- With a static buffer there, all calls get to `::recv`. -/
theorem Process.runs_asked (hstatic : p.staticBuffer ≠ none) (calls : List ReadCall) :
    ∃ new, (runs (Process.step maxSize) p calls).1.recvs = p.recvs ++ new ∧
      ∀ bound, (∀ c ∈ new, c.size ≤ bound) ↔ ∀ call ∈ calls, call.largest ≤ bound := by
  induction calls generalizing p with
  | nil => exact ⟨[], (List.append_nil _).symm, fun _ => by simp⟩
  | cons call calls ih =>
    rcases hasks : call.asks with _ | size
    · obtain ⟨hsame, hrecvs⟩ := Process.step_unasked maxSize (p := p)
        fun size hsize => by cases hasks.symm.trans hsize
      obtain ⟨new, hnew, hbound⟩ := ih (hsame ▸ hstatic)
      refine ⟨new, hrecvs ▸ hnew, fun bound => ?_⟩
      rw [hbound, List.forall_mem_cons, ReadCall.largest_of_asks_none hasks]
      exact (and_iff_right (Nat.zero_le bound)).symm
    · obtain ⟨hstatic', c, new, hrecvs, -, hbound⟩ :=
        Process.step_asked maxSize hasks (.inl hstatic)
      obtain ⟨new', hnew', hbound'⟩ := ih hstatic'
      refine ⟨c :: new ++ new', ?_, fun bound => ?_⟩
      · rw [runs, hnew', hrecvs, List.append_assoc]
      · rw [List.forall_mem_append, hbound, hbound', List.forall_mem_cons]

/-- What the process asks for at first, and at most. -/
theorem Process.runs_first (hstatic : p.staticBuffer = none) (hrecvs : p.recvs = [])
    (calls : List ReadCall) :
    match behindFirst maxSize calls with
    | [] => (runs (Process.step maxSize) p calls).1.recvs = []
    | first :: later => ∃ size c new, first.asks = some size ∧ c.size = size ∧
        (runs (Process.step maxSize) p calls).1.recvs = c :: new ∧
        ∀ bound, (∀ c' ∈ c :: new, c'.size ≤ bound) ↔
          ∀ call ∈ first :: later, call.largest ≤ bound := by
  induction calls generalizing p with
  | nil => exact hrecvs
  | cons call calls ih =>
    rw [behindFirst, List.dropWhile_cons]
    cases hbuilds : call.builds maxSize with
    | false =>
      obtain ⟨hsame, hnone⟩ := Process.step_unasked maxSize (p := p)
        fun size hsize => by
          refine ⟨hstatic, fun hle => ?_⟩
          rw [ReadCall.builds, Option.mem_def.mp hsize, Option.any_some, decide_eq_false_iff_not]
            at hbuilds
          exact hbuilds hle
      exact ih (hsame.trans hstatic) (hnone.trans hrecvs)
    | true =>
      obtain ⟨size, hasks, hsize⟩ := (Option.any_eq_true ..).mp hbuilds
      obtain ⟨hstatic', c, new, hcalls, hc, hbound⟩ :=
        Process.step_asked maxSize (p := p) hasks (.inr (of_decide_eq_true hsize))
      obtain ⟨new', hnew', hbound'⟩ := Process.runs_asked maxSize hstatic' calls
      refine ⟨size, c, new ++ new', hasks, hc, ?_, fun bound => ?_⟩
      · rw [runs, hnew', hcalls, hrecvs, List.nil_append, List.cons_append]
      · rw [← List.cons_append, List.forall_mem_append, hbound, hbound', List.forall_mem_cons]

end

/-- Each call of `::recv` in a process has room for what it may receive, and appends what it does
receive, exactly if none of the calls is to ask for more than the one that builds the buffer asks
for at first, and a byte. -/
theorem recv_fits_iff (maxSize : Nat) (connections : Nat → Connection) (kernel : Kernel)
    (calls : List ReadCall) :
    (∀ c ∈ recvCalls maxSize connections kernel calls,
        c.size ≤ c.room ∧ c.appended = c.received) ↔
      ∀ first later, behindFirst maxSize calls = first :: later → ∀ size ∈ first.asks,
        ∀ call ∈ first :: later, call.largest ≤ size + 1 := by
  have hfirst := Process.runs_first maxSize (p := .init connections kernel) rfl rfl calls
  rw [recvCalls_fit_iff, recvCalls]
  rcases hbehind : behindFirst maxSize calls with _ | ⟨first, later⟩
  · rw [hbehind] at hfirst
    simp only [hfirst]
    exact iff_of_true (fun _ h => by cases h) fun _ _ h => by cases h
  · rw [hbehind] at hfirst
    obtain ⟨size, c, new, hasks, hc, hrecvs, hbound⟩ := hfirst
    rw [hrecvs]
    constructor
    · rintro h _ _ ⟨⟩ size' hsize'
      obtain rfl := Option.some.inj (hasks.symm.trans hsize')
      exact (hbound _).mp (hc ▸ h c rfl)
    · rintro h _ ⟨⟩
      exact (hbound _).mpr (hc ▸ h first later rfl size hasks)

/-- The first read of the process asked for 10 bytes. -/
theorem later_read_overruns :
    ¬ ∀ (maxSize : Nat) (connections : Nat → Connection) (kernel : Kernel) (calls : List ReadCall),
      ∀ c ∈ recvCalls maxSize connections kernel calls,
        c.size ≤ c.room ∧ c.appended = c.received := by
  intro h
  have hfits := h (2 ^ 63) (fun obj => ⟨obj, []⟩) ⟨[1, 2], []⟩
    [.read 1 10 (.data [104]), .read 2 sizeMax (.data [105])]
    ⟨512, 11, [105], [105]⟩ (by decide)
  exact absurd hfits.1 (by decide)

end AdvCppTP.Tcp
