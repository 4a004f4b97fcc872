import AdvCppTP.Tcp.ExactTransfers

/-! The server of `hw-4/examples/echo_server.cpp`: `EpollManager` under a callback that collects
what a client sends and sends it back in packets. -/

namespace AdvCppTP.Tcp.EchoServer

open Lib

def packetSize : Nat := 1048576

/-- `EPOLLIN` -/
def readEvent : UInt32 := 1

/-- `EPOLLOUT` -/
def writeEvent : UInt32 := 4

/-- `"stop"` -/
def stop : Bytes := [115, 116, 111, 112]

/-- `buffer.substr(buffer.size() - 4) == "stop"`, or `none` where `substr` throws: below 4 bytes the
difference is a `size_t` behind every end. -/
def endsInStop (buffer : Bytes) : Option Bool :=
  if buffer.length < 4 then none else some (buffer.drop (buffer.length - 4) = stop)

/-! ## The callback -/

/-- A call of `::send`, and how much of its data it has taken. -/
structure Send where
  data : Bytes
  taken : Nat
  deriving DecidableEq, Repr

/-- What has gone through a connection. -/
structure Traffic where
  recvs : List RecvCall
  sends : List Send
  deriving DecidableEq, Repr

def Traffic.none : Traffic := ⟨[], []⟩

def Traffic.received (t : Traffic) : Bytes := receivedBytes t.recvs

/-- What `::send` was given. -/
def Traffic.handed (t : Traffic) : Bytes := (t.sends.map Send.data).flatten

/-- What `::send` has taken. -/
def Traffic.echoed (t : Traffic) : Bytes :=
  (t.sends.map fun send => send.data.take send.taken).flatten

/-- What the callback works on. -/
structure Turn where
  call : Call
  staticBuffer : Option Bytes
  traffic : Traffic
  deriving DecidableEq, Repr

def Turn.buffer (t : Turn) : Bytes := t.call.connection.buffer

def Turn.reader (t : Turn) : Reader :=
  ⟨t.call.connection, t.call.kernel, t.staticBuffer, t.traffic.recvs⟩

def Turn.withReader (t : Turn) (s : Reader) : Turn where
  call := { t.call with connection := s.connection, kernel := s.kernel }
  staticBuffer := s.staticBuffer
  traffic := { t.traffic with recvs := s.recvs }

def Turn.withBuffer (t : Turn) (buffer : Bytes) : Turn :=
  { t with call.connection.buffer := buffer }

def Turn.setEvent (t : Turn) (event : UInt32) : Turn := { t with call.event := event }

def Turn.close (t : Turn) : Turn :=
  let (connection, kernel) := t.call.connection.close t.call.kernel
  { t with call.connection := connection, call.kernel := kernel }

def Turn.sent (t : Turn) (data : Bytes) (n : Nat) : Turn :=
  { t with traffic.sends := t.traffic.sends ++ [⟨data, min n data.length⟩] }

/-- The branch for `READ_EVENT` behind `connection.read()`; `true` when it ends by an exception. -/
def afterRead (bytes : Nat) (t : Turn) : Turn × Bool :=
  if bytes = 0 then (t.close, false)
  else if packetSize ≤ t.buffer.length then (t.setEvent writeEvent, false)
  else
    match endsInStop t.buffer with
    | none => (t, true)
    | some true => (t.setEvent writeEvent, false)
    | some false => (t, false)

def receive (maxSize : Nat) (received : Received) (t : Turn) : Turn × Bool :=
  match read maxSize sizeMax (some received) t.reader with
  | .returns bytes s => afterRead bytes (t.withReader s)
  | .throws _ s => (t.withReader s, true)
  | .waits s => (t.withReader s, true)

/-- The other branch; what `write` returns is not used. -/
def answer (sent : Sent) (t : Turn) : Turn × Bool :=
  match endsInStop t.buffer with
  | none => (t, true)
  | some toClose =>
    let data := if toClose then t.buffer.take (t.buffer.length - 4) else t.buffer
    let t := t.withBuffer data
    match sent with
    | .failed => (t, true)
    | .bytes n =>
      let t := t.sent data n
      if toClose then (t.close, false) else ((t.withBuffer []).setEvent readEvent, false)

def callback (maxSize : Nat) (received : Received) (sent : Sent) (t : Turn) : Turn × Bool :=
  if t.call.event &&& readEvent ≠ 0 then receive maxSize received t else answer sent t

/-! ## The server -/

/-- The manager, the events its descriptors are registered for, the static buffer of `read`, and
the traffic of the descriptors since they were registered. -/
structure Server where
  manager : Manager
  registered : Int → UInt32
  staticBuffer : Option Bytes
  traffic : Int → Traffic

def Server.init (others : List Nat) : Server :=
  ⟨.init others, fun _ => 0, none, fun _ => .none⟩

/-- `manager` has accepted clients. -/
def Server.accepted (s : Server) (manager : Manager) : Server where
  manager
  registered key :=
    if key ∉ s.manager.kernel.interest ∧ key ∈ manager.kernel.interest then readEvent
    else s.registered key
  staticBuffer := s.staticBuffer
  traffic key :=
    if key ∉ s.manager.kernel.interest ∧ key ∈ manager.kernel.interest then .none
    else s.traffic key

/-- What a descriptor is registered for behind `handleClient`, which may have called
`changeEvent`. -/
def registeredAfter (oldEvent : UInt16) (call : Call) (registered : UInt32) : UInt32 :=
  if call.connection.isOpened call.kernel = true ∧ oldEvent.toUInt32 ≠ call.event then call.event
  else registered

/-- The callback has left `t` of the connection in the node of `key`, and `handleClient`
`manager`. -/
def Server.after (s : Server) (key : Int) (oldEvent : UInt16) (t : Turn) (manager : Manager) :
    Server where
  manager
  registered := Function.update s.registered key
    (registeredAfter oldEvent t.call (s.registered key))
  staticBuffer := t.staticBuffer
  traffic := Function.update s.traffic key t.traffic

/-- `handleClient` with the callback of this server. -/
def handleClient (maxSize : Nat) (key : Int) (event : UInt32) (received : Received) (sent : Sent)
    (failure : Option String) (s : Server) : Except Ended Server :=
  match s.manager.slaveSockets.lookup key with
  | none => .error .undefined
  | some connection =>
    if hangsUp event then .ok { s with manager := s.manager.deleteConnection connection }
    else
      let oldEvent := event.toUInt16
      let r := callback maxSize received sent
        ⟨⟨connection, event, s.manager.kernel⟩, s.staticBuffer, s.traffic key⟩
      (afterCallback key oldEvent failure s.manager (r.1.call, r.2)).map
        (s.after key oldEvent r.1)

/-- An event of the master socket, or one of the connection in the node of `key`, with what
`::recv` or `::send` does if the callback calls it. -/
inductive Event
  | masterSocket (outcomes : List AcceptOutcome)
  | client (key : Int) (event : UInt32) (received : Received) (sent : Sent)
      (failure : Option String)
  deriving DecidableEq, Repr

def step (maxSize : Nat) (s : Server) : Event → Except Ended Server
  | .masterSocket outcomes => (acceptClients outcomes s.manager).map s.accepted
  | .client key event received sent failure =>
    handleClient maxSize key event received sent failure s

/-- `::accept` returns descriptors that are not open, and `::epoll_wait` what a registered one is
registered for, or that it has failed or been hung up. -/
def Honest (s : Server) : Event → Prop
  | .masterSocket outcomes => AcceptsNew outcomes s.manager
  | .client key event _ _ _ =>
    key ∈ s.manager.kernel.interest ∧
      (hangsUp event = true ∨ event ≠ 0 ∧ event &&& s.registered key = event)

/-! ## Packets -/

/-- A buffer that is read into. -/
structure Filling (buffer : Bytes) : Prop where
  start : buffer = [] ∨ 4 ≤ buffer.length
  short : buffer.length < packetSize
  unstopped : endsInStop buffer ≠ some true

/-- A buffer that is to be sent. -/
structure Full (buffer : Bytes) : Prop where
  least : 4 ≤ buffer.length
  most : buffer.length < packetSize + maxBytesRead
  complete : packetSize ≤ buffer.length ∨ endsInStop buffer = some true

/-- An open connection: all it has received was handed to `::send`, by packets, or is in the
buffer, and the event it waits for is that of the buffer. -/
structure Echoing (registered : UInt32) (buffer : Bytes) (t : Traffic) : Prop where
  received : t.received = t.handed ++ buffer
  packets : ∀ send ∈ t.sends, packetSize ≤ send.data.length ∧
    send.data.length < packetSize + maxBytesRead ∧ send.taken ≤ send.data.length
  phase : registered = readEvent ∧ Filling buffer ∨ registered = writeEvent ∧ Full buffer

/-- The last call of `::recv` has received `data`. -/
def Traffic.EndsWith (t : Traffic) (data : Bytes) : Prop :=
  ∃ recvs c, t.recvs = recvs ++ [c] ∧ c.received = data

/-- A closed one: the peer has gone and left what is in the buffer, or sent `stop`. -/
structure Finished (buffer : Bytes) (t : Traffic) : Prop where
  received : t.EndsWith [] ∧ t.received = t.handed ++ buffer ∨ t.received = t.handed ++ stop
  taken : ∀ send ∈ t.sends, send.taken ≤ send.data.length

theorem endsInStop_eq_none {buffer : Bytes} : endsInStop buffer = none ↔ buffer.length < 4 := by
  unfold endsInStop
  split
  case isTrue h => exact iff_of_true rfl h
  case isFalse h => exact iff_of_false (Option.some_ne_none _) h

theorem le_length_of_endsInStop {buffer : Bytes} {ends : Bool}
    (h : endsInStop buffer = some ends) : 4 ≤ buffer.length := by
  apply Nat.le_of_not_lt
  rw [← endsInStop_eq_none, h]
  exact Option.some_ne_none _

theorem take_append_stop {buffer : Bytes} (h : endsInStop buffer = some true) :
    buffer.take (buffer.length - 4) ++ stop = buffer := by
  unfold endsInStop at h
  split at h
  case isTrue => cases h
  case isFalse =>
    have hstop : buffer.drop (buffer.length - 4) = stop := of_decide_eq_true (Option.some.inj h)
    rw [← hstop, List.take_append_drop]

theorem filling_nil : Filling [] where
  start := .inl rfl
  short := by decide
  unstopped := by decide

theorem Full.endsInStop {buffer : Bytes} (h : Full buffer) :
    ∃ toClose, endsInStop buffer = some toClose ∧
      (toClose = false → packetSize ≤ buffer.length) := by
  have hne : EchoServer.endsInStop buffer ≠ none := fun hnone =>
    absurd (endsInStop_eq_none.mp hnone) (Nat.not_lt.mpr h.least)
  obtain ⟨toClose, hsome⟩ := Option.ne_none_iff_exists'.mp hne
  refine ⟨toClose, hsome, fun hfalse => h.complete.resolve_right fun htrue => ?_⟩
  rw [hsome, hfalse] at htrue
  cases htrue

theorem Traffic.handed_sent (t : Turn) (data : Bytes) (n : Nat) :
    (t.sent data n).traffic.handed = t.traffic.handed ++ data := by
  unfold Traffic.handed
  rw [Turn.sent, List.map_append, List.flatten_append, List.map_singleton, List.flatten_singleton]

theorem length_flatten_taken_le (sends : List Send) :
    (sends.map fun send => send.data.take send.taken).flatten.length ≤
      (sends.map Send.data).flatten.length := by
  induction sends with
  | nil => exact Nat.le_refl 0
  | cons send sends ih =>
    rw [List.map_cons, List.map_cons, List.flatten_cons, List.flatten_cons, List.length_append,
      List.length_append]
    exact Nat.add_le_add (List.length_take_le' _ _) ih

/-- What has been handed to `::send` has been echoed exactly if each call has taken all of it. -/
theorem echoed_eq_handed_iff (t : Traffic)
    (htaken : ∀ send ∈ t.sends, send.taken ≤ send.data.length) :
    t.echoed = t.handed ↔ ∀ send ∈ t.sends, send.taken = send.data.length := by
  unfold Traffic.echoed Traffic.handed
  generalize t.sends = sends at htaken
  induction sends with
  | nil => exact iff_of_true rfl fun send hsend => absurd hsend List.not_mem_nil
  | cons send sends ih =>
    obtain ⟨hfirst, hrest⟩ := List.forall_mem_cons.mp htaken
    rw [List.map_cons, List.map_cons, List.flatten_cons, List.flatten_cons, List.forall_mem_cons,
      ← ih hrest]
    constructor
    · intro h
      have hle := length_flatten_taken_le sends
      have hlength := congrArg List.length h
      rw [List.length_append, List.length_append, List.length_take] at hlength
      have hall : send.taken = send.data.length := by omega
      rw [hall, List.take_length] at h
      exact ⟨hall, List.append_cancel_left h⟩
    · rintro ⟨hall, h⟩
      rw [hall, List.take_length, h]

/-! ## One call of the callback -/

/-- The static buffer has the length that `read()` builds it with. -/
def Sized (staticBuffer : Option Bytes) : Prop :=
  ∀ buffer ∈ staticBuffer, buffer.length = maxBytesRead + 1

theorem sized_none : Sized none := fun _ hbuffer => nomatch hbuffer

theorem sized_some {buffer : Bytes} (h : buffer.length = maxBytesRead + 1) :
    Sized (some buffer) := by
  intro other hother
  rw [← Option.some.inj hother]
  exact h

theorem room_of_sized {maxSize : Nat} (hmax : maxBytesRead + 1 ≤ maxSize) {s : Reader}
    (hsized : Sized s.staticBuffer) : s.room maxSize sizeMax = some (maxBytesRead + 1) := by
  unfold Reader.room
  cases hbuffer : s.staticBuffer with
  | none => exact if_pos hmax
  | some buffer => exact congrArg some (hsized buffer hbuffer)

/-- Whatever connections have read before, what is received is appended as it is. -/
theorem read_data {maxSize : Nat} (hmax : maxBytesRead + 1 ≤ maxSize) {s : Reader}
    (hsized : Sized s.staticBuffer) (bytes : Bytes) :
    ∃ filled c, filled.length = maxBytesRead + 1 ∧ c.received = bytes.take maxBytesRead ∧
      read maxSize sizeMax (some (.data bytes)) s = .returns (bytes.take maxBytesRead).length
        { s with
          connection.buffer := s.connection.buffer ++ bytes.take maxBytesRead
          staticBuffer := some filled
          recvs := s.recvs ++ [c] } := by
  obtain ⟨buffer, hlength, hread⟩ := read_of_room (room_of_sized hmax hsized)
  have hfits : (bytes.take maxBytesRead).take buffer.length = bytes.take maxBytesRead := by
    apply List.take_of_length_le
    rw [hlength]
    exact (List.length_take_le _ _).trans (Nat.le_succ _)
  refine ⟨_, ⟨readSize sizeMax, buffer.length, bytes.take maxBytesRead, bytes.take maxBytesRead⟩,
    (length_overwritten (bytes.take maxBytesRead) buffer).trans hlength, rfl, ?_⟩
  rw [hread, recv, show readSize sizeMax = maxBytesRead from rfl]
  simp only [hfits, List.take_left]

theorem read_failed {maxSize : Nat} (hmax : maxBytesRead + 1 ≤ maxSize) {s : Reader}
    (hsized : Sized s.staticBuffer) (errno : String) :
    ∃ filled c, filled.length = maxBytesRead + 1 ∧ c.received = [] ∧
      read maxSize sizeMax (some (.failed errno)) s =
        .throws (.socketError ("Read error:" ++ errno))
          { s with staticBuffer := some filled, recvs := s.recvs ++ [c] } := by
  obtain ⟨buffer, hlength, hread⟩ := read_of_room (room_of_sized hmax hsized)
  exact ⟨buffer, ⟨readSize sizeMax, buffer.length, [], []⟩, hlength, rfl, hread _⟩

/-- The callback throws: `::recv` or `::send` has failed, or less than 4 bytes have begun a
packet. -/
def Throws (event : UInt32) (buffer : Bytes) (received : Received) (sent : Sent) : Prop :=
  if event &&& readEvent ≠ 0 then
    match received with
    | .failed _ => True
    | .data bytes => buffer = [] ∧ 0 < bytes.length ∧ bytes.length < 4
  else sent = .failed

/-- How the callback may leave its turn. -/
inductive Left (t : Turn) (throws : Prop) : Turn × Bool → Prop
  | threw (h : throws) (t' : Turn) (hfd : t'.call.connection.fd = t.call.connection.fd) :
      Left t throws (t', true)
  | closed (h : ¬ throws) (t' : Turn) (hsized : Sized t'.staticBuffer)
      (hfd : t'.call.connection.fd = -1)
      (hkernel : t'.call.kernel = t.call.kernel.close t.call.connection.fd)
      (hfinished : Finished t'.buffer t'.traffic) : Left t throws (t', false)
  | kept (h : ¬ throws) (t' : Turn) (hsized : Sized t'.staticBuffer)
      (hfd : t'.call.connection.fd = t.call.connection.fd)
      (hkernel : t'.call.kernel = t.call.kernel)
      (hechoing : Echoing t'.call.event t'.buffer t'.traffic) : Left t throws (t', false)

theorem Left.threw_iff {t : Turn} {throws : Prop} {r : Turn × Bool} (h : Left t throws r) :
    r.2 = true ↔ throws := by
  cases h with
  | threw hthrows t' hfd => exact iff_of_true rfl hthrows
  | closed hthrows t' hsized hfd hkernel hfinished => exact iff_of_false (by simp) hthrows
  | kept hthrows t' hsized hfd hkernel hechoing => exact iff_of_false (by simp) hthrows

theorem Traffic.received_snoc (t : Traffic) (c : RecvCall) :
    Traffic.received { t with recvs := t.recvs ++ [c] } = t.received ++ c.received := by
  unfold Traffic.received receivedBytes
  rw [List.flatMap_append, List.flatMap_singleton]

theorem Filling.length_append_lt {buffer data : Bytes} (h : Filling buffer)
    (hdata : data.length ≤ maxBytesRead) :
    (buffer ++ data).length < packetSize + maxBytesRead := by
  rw [List.length_append]
  exact Nat.add_lt_add_of_lt_of_le h.short hdata

/-- What has been read into a buffer makes it one to be sent or one to be read into, unless it is
the too short beginning of a packet. -/
theorem Filling.append {buffer data : Bytes} (h : Filling buffer)
    (hdata : data.length ≤ maxBytesRead) :
    packetSize ≤ (buffer ++ data).length ∧ Full (buffer ++ data) ∨
      (buffer ++ data).length < packetSize ∧
        (endsInStop (buffer ++ data) = some true ∧ Full (buffer ++ data) ∨
          endsInStop (buffer ++ data) = some false ∧ Filling (buffer ++ data) ∨
          endsInStop (buffer ++ data) = none ∧ buffer = [] ∧ data.length < 4) := by
  have hmost := h.length_append_lt hdata
  rcases Nat.lt_or_ge (buffer ++ data).length packetSize with hshort | hlong
  · refine .inr ⟨hshort, ?_⟩
    rcases hends : endsInStop (buffer ++ data) with _ | _ | _
    · have hlength := endsInStop_eq_none.mp hends
      refine .inr (.inr ⟨rfl, h.start.resolve_right fun hleast => ?_, ?_⟩)
      · rw [List.length_append] at hlength
        omega
      · exact (Nat.le_add_left _ _).trans_lt (List.length_append ▸ hlength)
    · have hleast := le_length_of_endsInStop hends
      exact .inr (.inl ⟨rfl, .inr hleast, hshort, by rw [hends]; decide⟩)
    · exact .inl ⟨rfl, le_length_of_endsInStop hends, hmost, .inr hends⟩
  · exact .inl ⟨hlong, (by decide : 4 ≤ packetSize).trans hlong, hmost, .inl hlong⟩

/-- Behind a read of `data` into what was a buffer to be read into. -/
theorem afterRead_left {t t₁ : Turn} {data : Bytes} {throws : Prop} (hfilling : Filling t.buffer)
    (hpackets : ∀ send ∈ t.traffic.sends, packetSize ≤ send.data.length ∧
      send.data.length < packetSize + maxBytesRead ∧ send.taken ≤ send.data.length)
    (hdata : data.length ≤ maxBytesRead)
    (hthrows : throws ↔ t.buffer = [] ∧ 0 < data.length ∧ data.length < 4)
    (hfd : 0 ≤ t.call.connection.fd) (hfd₁ : t₁.call.connection.fd = t.call.connection.fd)
    (hkernel₁ : t₁.call.kernel = t.call.kernel) (hsized₁ : Sized t₁.staticBuffer)
    (hevent₁ : t₁.call.event = readEvent) (hbuffer₁ : t₁.buffer = t.buffer ++ data)
    (hsends₁ : t₁.traffic.sends = t.traffic.sends) (hlast₁ : t₁.traffic.EndsWith data)
    (hreceived₁ : t₁.traffic.received = t₁.traffic.handed ++ t₁.buffer) :
    Left t throws (afterRead data.length t₁) := by
  rw [← hsends₁] at hpackets
  unfold afterRead
  by_cases hzero : data.length = 0
  · rw [if_pos hzero]
    rw [List.length_eq_zero_iff.mp hzero] at hlast₁
    refine .closed (fun h => ?_) _ hsized₁ rfl ?_
      ⟨.inl ⟨hlast₁, hreceived₁⟩, fun send hsend => (hpackets send hsend).2.2⟩
    · exact absurd hzero (Nat.ne_of_gt (hthrows.mp h).2.1)
    · rw [← hkernel₁, ← hfd₁]
      exact if_pos (hfd₁ ▸ hfd)
  · rw [if_neg hzero, hbuffer₁]
    have hnot (hleast : 4 ≤ (t.buffer ++ data).length) : ¬ throws := by
      rw [hthrows]
      rintro ⟨hnil, -, hshort⟩
      rw [hnil, List.nil_append] at hleast
      exact absurd hshort (Nat.not_lt.mpr hleast)
    have hkept {event : UInt32} (hleast : 4 ≤ (t.buffer ++ data).length)
        (hphase : event = readEvent ∧ Filling (t.buffer ++ data) ∨
          event = writeEvent ∧ Full (t.buffer ++ data)) :
        Left t throws (t₁.setEvent event, false) := by
      rw [← hbuffer₁] at hphase
      exact .kept (hnot hleast) _ hsized₁ hfd₁ hkernel₁ ⟨hreceived₁, hpackets, hphase⟩
    obtain ⟨hlong, hfull⟩ | ⟨hlt, ⟨hends, hfull⟩ | ⟨hends, hfill⟩ | ⟨hends, hnil, hshort⟩⟩ :=
      hfilling.append hdata
    · rw [if_pos hlong]
      exact hkept hfull.least (.inr ⟨rfl, hfull⟩)
    · rw [if_neg (Nat.not_le.mpr hlt), hends]
      exact hkept hfull.least (.inr ⟨rfl, hfull⟩)
    · have hsame : t₁.setEvent readEvent = t₁ := by
        rw [← hevent₁]
        rfl
      rw [if_neg (Nat.not_le.mpr hlt), hends, ← hsame]
      exact hkept (le_length_of_endsInStop hends) (.inl ⟨rfl, hfill⟩)
    · rw [if_neg (Nat.not_le.mpr hlt), hends]
      exact .threw (hthrows.mpr ⟨hnil, Nat.pos_of_ne_zero hzero, hshort⟩) _ hfd₁

section

variable {t : Turn} (hsized : Sized t.staticBuffer) (hfd : 0 ≤ t.call.connection.fd)

include hsized hfd

theorem receive_left {maxSize : Nat} (hmax : maxBytesRead + 1 ≤ maxSize)
    (hevent : t.call.event = readEvent) (hechoing : Echoing readEvent t.buffer t.traffic)
    (received : Received) (sent : Sent) :
    Left t (Throws t.call.event t.buffer received sent) (receive maxSize received t) := by
  have hfilling : Filling t.buffer := by
    obtain ⟨-, hfilling⟩ | ⟨hother, -⟩ := hechoing.phase
    · exact hfilling
    · exact absurd hother (by decide)
  have hbit : readEvent &&& readEvent ≠ 0 := by decide
  unfold receive Throws
  rw [hevent, if_pos hbit]
  cases received with
  | failed errno =>
    obtain ⟨filled, c, -, -, hread⟩ := read_failed hmax (s := t.reader) hsized errno
    rw [hread]
    exact .threw trivial _ rfl
  | data bytes =>
    obtain ⟨filled, c, hlength, hc, hread⟩ := read_data hmax (s := t.reader) hsized bytes
    have htaken : (bytes.take maxBytesRead).length = min maxBytesRead bytes.length :=
      List.length_take
    rw [hread]
    refine afterRead_left hfilling hechoing.packets (List.length_take_le _ _) ?_ hfd rfl rfl ?_
      hevent rfl rfl ⟨_, c, rfl, hc⟩ ?_
    · unfold maxBytesRead at htaken ⊢
      exact and_congr_right fun _ => by omega
    · exact sized_some hlength
    · show Traffic.received { t.traffic with recvs := t.traffic.recvs ++ [c] } =
        t.traffic.handed ++ (t.buffer ++ bytes.take maxBytesRead)
      rw [Traffic.received_snoc, hechoing.received, hc, List.append_assoc]

theorem answer_left (hevent : t.call.event = writeEvent)
    (hechoing : Echoing writeEvent t.buffer t.traffic) (received : Received) (sent : Sent) :
    Left t (Throws t.call.event t.buffer received sent) (answer sent t) := by
  have hfull : Full t.buffer := by
    obtain ⟨hother, -⟩ | ⟨-, hfull⟩ := hechoing.phase
    · exact absurd hother (by decide)
    · exact hfull
  have hbit : ¬ writeEvent &&& readEvent ≠ 0 := by decide
  obtain ⟨toClose, hends, hlong⟩ := hfull.endsInStop
  unfold answer Throws
  rw [hevent, if_neg hbit, hends]
  cases sent with
  | failed => exact .threw rfl _ rfl
  | bytes n =>
    cases toClose with
    | true =>
      -- the last packet of the connection, without its `stop`
      refine .closed (fun h => nomatch h) _ hsized rfl (if_pos hfd) ⟨.inr ?_, ?_⟩
      · show t.traffic.received = Traffic.handed (t.sent _ n).traffic ++ stop
        rw [Traffic.handed_sent, hechoing.received, List.append_assoc, if_pos rfl,
          take_append_stop hends]
      · refine List.forall_mem_append.mpr ⟨fun send hsend => (hechoing.packets send hsend).2.2, ?_⟩
        exact List.forall_mem_singleton.mpr (Nat.min_le_right _ _)
    | false =>
      refine .kept (fun h => nomatch h) _ hsized rfl rfl ⟨?_, ?_, .inl ⟨rfl, filling_nil⟩⟩
      · show t.traffic.received = Traffic.handed (t.sent t.buffer n).traffic ++ []
        rw [Traffic.handed_sent, hechoing.received, List.append_nil]
      · refine List.forall_mem_append.mpr ⟨hechoing.packets, List.forall_mem_singleton.mpr ?_⟩
        exact ⟨hlong rfl, hfull.most, Nat.min_le_right _ _⟩

theorem callback_left {maxSize : Nat} (hmax : maxBytesRead + 1 ≤ maxSize)
    (hechoing : Echoing t.call.event t.buffer t.traffic) (received : Received) (sent : Sent) :
    Left t (Throws t.call.event t.buffer received sent) (callback maxSize received sent t) := by
  have hread : readEvent &&& readEvent ≠ 0 := by decide
  have hwrite : ¬ writeEvent &&& readEvent ≠ 0 := by decide
  unfold callback
  obtain ⟨hevent, -⟩ | ⟨hevent, -⟩ := hechoing.phase
  · have hleft := receive_left hsized hfd hmax hevent (hevent ▸ hechoing) received sent
    rwa [if_pos (hevent ▸ hread)]
  · have hleft := answer_left hsized hfd hevent (hevent ▸ hechoing) received sent
    rwa [if_neg (hevent ▸ hwrite)]

end

end AdvCppTP.Tcp.EchoServer
