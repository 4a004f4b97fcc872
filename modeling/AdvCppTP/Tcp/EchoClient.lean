import AdvCppTP.Pipe.Programs
import AdvCppTP.Tcp.EchoServer

/-! `hw-4/examples/client.cpp` and its connection to the echo server: what is typed comes back in
order, in whatever order client and server take their turns. -/

namespace AdvCppTP.Tcp.EchoServer

open Lib
open Protocol.Dialogue (getline getline_split newline)

/-! ## The client -/

/-- Where `main` is: in front of a line, in the first loop of reads, in front of its `"stop"`, in
the last loop of reads, behind it, or terminated by an exception. -/
inductive Phase
  | typing
  | reading (eof : Bool)
  | stopping
  | leaving
  | ended
  | failed
  deriving DecidableEq, Repr

/-- Behind a read of 0 bytes. -/
def Phase.atEnd : Phase → Phase
  | .reading eof => if eof then .stopping else .typing
  | .leaving => .ended
  | phase => phase

/-- Behind a `socket_error`, which both loops `continue` after. -/
def Phase.caught : Phase → Phase
  | .reading eof => if eof then .stopping else .typing
  | phase => phase

def Phase.reads : Phase → Bool
  | .reading _ => true
  | .leaving => true
  | _ => false

/-- Its connection is closed, by `main` or by the kernel. -/
def Phase.gone : Phase → Bool
  | .ended => true
  | .failed => true
  | _ => false

structure Client where
  connection : Turn
  stdin : Bytes
  printed : Bytes
  phase : Phase
  deriving DecidableEq, Repr

/-- `connection.write(data)`, whose exception nothing catches. -/
def Client.write (data : Bytes) (next : Phase) (sent : Sent) (c : Client) : Client :=
  match sent with
  | .bytes n => { c with connection := c.connection.sent data n, phase := next }
  | .failed => { c with phase := .failed }

/-- A line is read, and sent with its newline, if it has one. -/
def Client.types (sent : Sent) (c : Client) : Client :=
  let (line, stdin, eof) := getline c.stdin
  let str := if eof then line else line ++ [newline]
  { c with stdin }.write str (.reading eof) sent

/-- `connection.read()`, and `get_buffer()` printed and cleared. -/
def Client.read (maxSize : Nat) (received : Received) (c : Client) : Client :=
  match Tcp.read maxSize sizeMax (some received) c.connection.reader with
  | .returns bytes s =>
    let connection := c.connection.withReader s
    if bytes = 0 then { c with connection, phase := c.phase.atEnd }
    else
      { c with
        connection := connection.withBuffer []
        printed := c.printed ++ connection.buffer }
  | .throws (.socketError _) s =>
    { c with connection := c.connection.withReader s, phase := c.phase.caught }
  | .throws _ s => { c with connection := c.connection.withReader s, phase := .failed }
  | .waits s => { c with connection := c.connection.withReader s }

/-! ## The two of them -/

structure Talk where
  client : Client
  server : Turn
  deriving DecidableEq, Repr

inductive Act
  | types (sent : Sent)
  | reads (received : Received)
  | stops (sent : Sent)
  | serves (received : Received) (sent : Sent)
  deriving DecidableEq, Repr

/-- What `::recv` may do when this has been received of what was sent, and the sender may be
gone: get the next of it, find the end, or fail. -/
def Delivers (received sent : Bytes) (gone : Bool) : Received → Prop
  | .failed _ => True
  | .data bytes => bytes.length ≤ maxBytesRead ∧ received ++ bytes <+: sent ∧
      (bytes = [] → gone = true ∧ received = sent)

instance Delivers.decidable (received sent : Bytes) (gone : Bool) (outcome : Received) :
    Decidable (Delivers received sent gone outcome) :=
  match outcome with
  | .failed _ => .isTrue trivial
  | .data bytes => inferInstanceAs (Decidable (bytes.length ≤ maxBytesRead ∧
      received ++ bytes <+: sent ∧ (bytes = [] → gone = true ∧ received = sent)))

def Talk.Possible (t : Talk) : Act → Prop
  | .types _ => t.client.phase = .typing
  | .reads received => t.client.phase.reads = true ∧
      Delivers t.client.connection.traffic.received t.server.traffic.echoed
        (t.server.call.connection.fd = -1) received
  | .stops _ => t.client.phase = .stopping
  | .serves received _ => 0 ≤ t.server.call.connection.fd ∧
      (t.server.call.event &&& readEvent ≠ 0 →
        Delivers t.server.traffic.received t.client.connection.traffic.echoed t.client.phase.gone
          received)

instance Talk.Possible.decidable (t : Talk) (a : Act) : Decidable (t.Possible a) :=
  match a with
  | .types _ => inferInstanceAs (Decidable (t.client.phase = .typing))
  | .reads received => inferInstanceAs (Decidable (t.client.phase.reads = true ∧
      Delivers t.client.connection.traffic.received t.server.traffic.echoed
        (t.server.call.connection.fd = -1) received))
  | .stops _ => inferInstanceAs (Decidable (t.client.phase = .stopping))
  | .serves received _ => inferInstanceAs (Decidable (0 ≤ t.server.call.connection.fd ∧
      (t.server.call.event &&& readEvent ≠ 0 →
        Delivers t.server.traffic.received t.client.connection.traffic.echoed t.client.phase.gone
          received)))

/-- `none` when the server's callback throws, and what follows is undefined. -/
def Talk.act (maxSize : Nat) (t : Talk) : Act → Option Talk
  | .types sent => some { t with client := t.client.types sent }
  | .reads received => some { t with client := t.client.read maxSize received }
  | .stops sent => some { t with client := t.client.write stop .leaving sent }
  | .serves received sent =>
    let r := callback maxSize received sent t.server
    if r.2 then none else some { t with server := r.1 }

def Talk.step (maxSize : Nat) : Talk → Act → Option Talk := guarded Talk.Possible (Talk.act maxSize)

/-- The connection is made, and has the descriptor `fd` in the server. -/
def Talk.start (kernel : Kernel) (fd : Nat) (staticBuffer : Option Bytes) (stdin : Bytes) :
    Talk where
  client := ⟨⟨⟨⟨3, []⟩, 0, ⟨[3], []⟩⟩, none, .none⟩, stdin, [], .typing⟩
  server := ⟨⟨⟨fd, []⟩, readEvent, kernel⟩, staticBuffer, .none⟩

/-! ## What a call does to the traffic -/

theorem afterRead_traffic (bytes : Nat) (t : Turn) : (afterRead bytes t).1.traffic = t.traffic := by
  unfold afterRead
  split
  · rfl
  split
  · rfl
  split <;> rfl

theorem answer_traffic (sent : Sent) (t : Turn) :
    ∃ new, (answer sent t).1.traffic = { t.traffic with sends := t.traffic.sends ++ new } := by
  have hsame : t.traffic = { t.traffic with sends := t.traffic.sends ++ [] } := by
    rw [List.append_nil]
  unfold answer
  split
  · exact ⟨[], hsame⟩
  · cases sent with
    | failed => exact ⟨[], hsame⟩
    | bytes n =>
      simp only
      split
      · exact ⟨_, rfl⟩
      · exact ⟨_, rfl⟩

theorem receive_traffic {maxSize : Nat} (hmax : maxBytesRead + 1 ≤ maxSize) {t : Turn}
    (hsized : Sized t.staticBuffer) (bytes : Bytes) :
    ∃ c, c.received = bytes.take maxBytesRead ∧
      (receive maxSize (.data bytes) t).1.traffic =
        { t.traffic with recvs := t.traffic.recvs ++ [c] } := by
  obtain ⟨filled, c, -, hc, hread⟩ := read_data hmax (s := t.reader) hsized bytes
  refine ⟨c, hc, ?_⟩
  unfold receive
  rw [hread]
  exact afterRead_traffic _ _

theorem Traffic.echoed_append (t : Traffic) (new : List Send) :
    t.echoed <+: Traffic.echoed { t with sends := t.sends ++ new } := by
  unfold Traffic.echoed
  rw [List.map_append, List.flatten_append]
  exact List.prefix_append _ _

theorem Delivers.take_eq {received sent data : Bytes} {gone : Bool}
    (h : Delivers received sent gone (.data data)) : data.take maxBytesRead = data :=
  List.take_of_length_le h.1

/-! ## What holds all the time -/

/-- What has been passed to `write`, by where `main` is. -/
def Said (stdin handed input : Bytes) : Phase → Prop
  | .typing => handed ++ stdin = input
  | .reading eof => handed ++ stdin = input ∧ (eof = true → stdin = [])
  | .stopping => handed = input
  | .leaving => handed = input ++ stop
  | .ended => handed = input ++ stop
  | .failed => handed <+: input ++ stop

structure Talking (input : Bytes) (t : Talk) : Prop where
  clientSized : Sized t.client.connection.staticBuffer
  cleared : t.client.connection.buffer = []
  printed : t.client.printed = t.client.connection.traffic.received
  taken : ∀ send ∈ t.client.connection.traffic.sends, send.taken ≤ send.data.length
  said : Said t.client.stdin t.client.connection.traffic.handed input t.client.phase
  delivered : t.client.connection.traffic.received <+: t.server.traffic.echoed
  serverSized : Sized t.server.staticBuffer
  server : 0 ≤ t.server.call.connection.fd ∧
      Echoing t.server.call.event t.server.buffer t.server.traffic ∨
    t.server.call.connection.fd = -1 ∧ Finished t.server.buffer t.server.traffic
  arrived : t.server.traffic.received <+: t.client.connection.traffic.echoed
  left : ∀ c ∈ t.server.traffic.recvs, c.received = [] → t.client.phase = .failed
  ended : t.client.phase = .ended → t.server.call.connection.fd = -1 ∧
    t.client.connection.traffic.received = t.server.traffic.echoed

theorem Said.handed_le {stdin handed input : Bytes} {phase : Phase}
    (h : Said stdin handed input phase) : handed <+: input ++ stop := by
  cases phase with
  | typing =>
    rw [← (show handed ++ stdin = input from h), List.append_assoc]
    exact List.prefix_append _ _
  | reading eof =>
    rw [← h.1, List.append_assoc]
    exact List.prefix_append _ _
  | stopping =>
    rw [← (show handed = input from h)]
    exact List.prefix_append _ _
  | leaving =>
    rw [show handed = input ++ stop from h]
  | ended =>
    rw [show handed = input ++ stop from h]
  | failed => exact h

section

variable {input : Bytes} {t : Talk}

theorem Talking.writes (h : Talking input t) {data stdin : Bytes} {next : Phase} (sent : Sent)
    (hphase : t.client.phase ≠ .failed) (hnext : next ≠ .ended)
    (hsaid : Said stdin (t.client.connection.traffic.handed ++ data) input next) :
    Talking input { t with client := Client.write data next sent { t.client with stdin } } := by
  cases sent with
  | failed =>
    refine ⟨h.clientSized, h.cleared, h.printed, h.taken, h.said.handed_le, h.delivered,
      h.serverSized, h.server, h.arrived, fun _ _ _ => rfl, fun hended => nomatch hended⟩
  | bytes n =>
    refine ⟨h.clientSized, h.cleared, h.printed, ?_, ?_, h.delivered, h.serverSized, h.server,
      ?_, fun c hc hempty => absurd (h.left c hc hempty) hphase,
      fun hended => absurd hended hnext⟩
    · exact List.forall_mem_append.mpr ⟨h.taken, List.forall_mem_singleton.mpr
        (Nat.min_le_right _ _)⟩
    · show Said stdin (Traffic.handed (t.client.connection.sent data n).traffic) input next
      rw [Traffic.handed_sent]
      exact hsaid
    · exact h.arrived.trans (Traffic.echoed_append _ _)

theorem Talking.types (h : Talking input t) (hphase : t.client.phase = .typing) (sent : Sent) :
    Talking input { t with client := t.client.types sent } := by
  have hsaid : t.client.connection.traffic.handed ++ t.client.stdin = input := by
    have hsaid := h.said
    rwa [hphase] at hsaid
  unfold Client.types
  obtain ⟨line, rest, hgetline, -, hstdin⟩ | ⟨line, hgetline, -, hstdin⟩ :=
    getline_split t.client.stdin
  · rw [hgetline]
    have hwritten : t.client.connection.traffic.handed ++ (line ++ [newline]) ++ rest = input := by
      rw [List.append_assoc, List.append_assoc, List.singleton_append, ← hstdin]
      exact hsaid
    exact h.writes sent (hphase ▸ Phase.noConfusion) Phase.noConfusion ⟨hwritten, Bool.noConfusion⟩
  · rw [hgetline]
    have hwritten : t.client.connection.traffic.handed ++ line ++ [] = input := by
      rw [List.append_nil, ← hstdin]
      exact hsaid
    exact h.writes sent (hphase ▸ Phase.noConfusion) Phase.noConfusion ⟨hwritten, fun _ => rfl⟩

theorem Talking.stops (h : Talking input t) (hphase : t.client.phase = .stopping) (sent : Sent) :
    Talking input { t with client := t.client.write stop .leaving sent } := by
  have hsaid : t.client.connection.traffic.handed = input := by
    have hsaid := h.said
    rwa [hphase] at hsaid
  have hwritten : Said t.client.stdin (t.client.connection.traffic.handed ++ stop) input
      .leaving := by
    rw [hsaid]
    rfl
  exact h.writes sent (hphase ▸ Phase.noConfusion) Phase.noConfusion hwritten

theorem Said.caught {stdin handed : Bytes} {phase : Phase} (h : Said stdin handed input phase) :
    Said stdin handed input phase.caught := by
  cases phase with
  | reading eof =>
    cases eof with
    | true =>
      have hall := h.1
      rwa [h.2 rfl, List.append_nil] at hall
    | false => exact h.1
  | typing => exact h
  | stopping => exact h
  | leaving => exact h
  | ended => exact h
  | failed => exact h

theorem Said.atEnd {stdin handed : Bytes} {phase : Phase} (h : Said stdin handed input phase) :
    Said stdin handed input phase.atEnd := by
  cases phase with
  | reading eof => exact h.caught
  | typing => exact h
  | stopping => exact h
  | leaving => exact h
  | ended => exact h
  | failed => exact h

/-- A read that gets nothing: the loop that it is in goes on, or `main` does. -/
theorem Talking.turns (h : Talking input t) {s : Reader} {next : Phase}
    (hsized : Sized s.staticBuffer) (hbuffer : s.connection.buffer = [])
    (hreceived : receivedBytes s.recvs = t.client.connection.traffic.received)
    (hsaid : Said t.client.stdin t.client.connection.traffic.handed input next)
    (hphase : t.client.phase ≠ .failed)
    (hended : next = .ended → t.server.call.connection.fd = -1 ∧
      t.client.connection.traffic.received = t.server.traffic.echoed) :
    Talking input { t with
      client := { t.client with
        connection := t.client.connection.withReader s
        phase := next } } := by
  refine ⟨hsized, hbuffer, h.printed.trans hreceived.symm, h.taken, hsaid, ?_, h.serverSized,
    h.server, h.arrived, fun c hc hempty => absurd (h.left c hc hempty) hphase, ?_⟩
  · show receivedBytes s.recvs <+: _
    rw [hreceived]
    exact h.delivered
  · intro hnext
    exact ⟨(hended hnext).1, hreceived.trans (hended hnext).2⟩

theorem reads_goes_on {phase : Phase} (h : phase.reads = true) :
    phase ≠ .failed ∧ phase.caught ≠ .ended := by
  cases phase with
  | reading eof =>
    refine ⟨Phase.noConfusion, ?_⟩
    cases eof with
    | true => exact Phase.noConfusion
    | false => exact Phase.noConfusion
  | leaving => exact ⟨Phase.noConfusion, Phase.noConfusion⟩
  | typing => cases h
  | stopping => cases h
  | ended => cases h
  | failed => cases h

theorem Talking.reads {maxSize : Nat} (hmax : maxBytesRead + 1 ≤ maxSize) (h : Talking input t)
    {received : Received} (hphase : t.client.phase.reads = true)
    (hdelivers : Delivers t.client.connection.traffic.received t.server.traffic.echoed
      (t.server.call.connection.fd = -1) received) :
    Talking input { t with client := t.client.read maxSize received } := by
  unfold Client.read
  obtain ⟨hfailed, hcaught⟩ := reads_goes_on hphase
  cases received with
  | failed errno =>
    obtain ⟨filled, c, hlength, hc, hread⟩ :=
      read_failed hmax (s := t.client.connection.reader) h.clientSized errno
    rw [hread]
    refine h.turns (sized_some hlength) h.cleared ?_ h.said.caught hfailed
      fun hended => absurd hended hcaught
    rw [← List.append_nil t.client.connection.traffic.received, ← hc]
    exact Traffic.received_snoc _ c
  | data bytes =>
    obtain ⟨filled, c, hlength, hc, hread⟩ :=
      read_data hmax (s := t.client.connection.reader) h.clientSized bytes
    rw [hdelivers.take_eq] at hc hread
    have hreceived : receivedBytes (t.client.connection.traffic.recvs ++ [c]) =
        t.client.connection.traffic.received ++ bytes := by
      rw [← hc]
      exact Traffic.received_snoc _ c
    have hbuffer : t.client.connection.buffer ++ bytes = bytes := by
      rw [h.cleared, List.nil_append]
    rw [hread]
    by_cases hempty : bytes = []
    · -- the server has closed the connection, and all it has sent is here
      obtain ⟨hserver, hall⟩ := hdelivers.2.2 hempty
      simp only [hempty, List.length_nil, if_true]
      rw [hempty, List.append_nil] at hreceived hbuffer
      refine h.turns (sized_some hlength) ?_ hreceived h.said.atEnd hfailed
        fun _ => ⟨of_decide_eq_true hserver, hall⟩
      rw [List.append_nil]
      exact h.cleared
    · simp only [List.length_eq_zero_iff, hempty, if_false]
      refine ⟨sized_some hlength, rfl, ?_, h.taken, h.said, ?_, h.serverSized, h.server, h.arrived,
        h.left, ?_⟩
      · show t.client.printed ++ (t.client.connection.buffer ++ bytes) = receivedBytes _
        rw [hbuffer, h.printed, ← hreceived]
        rfl
      · show receivedBytes (t.client.connection.traffic.recvs ++ [c]) <+: _
        rw [hreceived]
        exact hdelivers.2.1
      · intro hended
        rw [show t.client.phase = .ended from hended] at hphase
        cases hphase

end

theorem failed_of_gone {phase : Phase} (hgone : phase.gone = true) (hended : phase ≠ .ended) :
    phase = .failed := by
  cases phase with
  | failed => rfl
  | ended => exact absurd rfl hended
  | typing => cases hgone
  | reading eof => cases hgone
  | stopping => cases hgone
  | leaving => cases hgone

/-- What the callback adds to the traffic where it does not throw. -/
theorem callback_traffic {maxSize : Nat} (hmax : maxBytesRead + 1 ≤ maxSize) {t : Turn}
    (hsized : Sized t.staticBuffer) {received : Received} {sent : Sent}
    (hreturns : (callback maxSize received sent t).2 = false) :
    (t.call.event &&& readEvent ≠ 0 ∧ ∃ bytes c, received = .data bytes ∧
        c.received = bytes.take maxBytesRead ∧ (callback maxSize received sent t).1.traffic =
          { t.traffic with recvs := t.traffic.recvs ++ [c] }) ∨
      ∃ new, (callback maxSize received sent t).1.traffic =
        { t.traffic with sends := t.traffic.sends ++ new } := by
  unfold callback at hreturns ⊢
  split
  case isTrue hread =>
    rw [if_pos hread] at hreturns
    cases received with
    | failed errno =>
      obtain ⟨filled, c, -, -, hthrows⟩ := read_failed hmax (s := t.reader) hsized errno
      unfold receive at hreturns
      rw [hthrows] at hreturns
      cases hreturns
    | data bytes =>
      obtain ⟨c, hc, htraffic⟩ := receive_traffic hmax hsized bytes
      exact .inl ⟨hread, bytes, c, rfl, hc, htraffic⟩
  case isFalse => exact .inr (answer_traffic sent t)

theorem Talking.serves {maxSize : Nat} (hmax : maxBytesRead + 1 ≤ maxSize) {input : Bytes}
    {t : Talk} (h : Talking input t) {received : Received} {sent : Sent}
    (hopen : 0 ≤ t.server.call.connection.fd)
    (hdelivers : t.server.call.event &&& readEvent ≠ 0 → Delivers t.server.traffic.received
      t.client.connection.traffic.echoed t.client.phase.gone received)
    (hreturns : (callback maxSize received sent t.server).2 = false) :
    Talking input { t with server := (callback maxSize received sent t.server).1 } := by
  have hechoing : Echoing t.server.call.event t.server.buffer t.server.traffic := by
    obtain ⟨-, hechoing⟩ | ⟨hclosed, -⟩ := h.server
    · exact hechoing
    · omega
  have hended : t.client.phase ≠ .ended := fun hended => by
    have hclosed := (h.ended hended).1
    omega
  have hleft := callback_left h.serverSized hopen hmax hechoing received sent
  have htraffic := callback_traffic hmax h.serverSized hreturns
  generalize callback maxSize received sent t.server = r at hleft htraffic hreturns ⊢
  have hsized : Sized r.1.staticBuffer ∧ (0 ≤ r.1.call.connection.fd ∧
      Echoing r.1.call.event r.1.buffer r.1.traffic ∨
      r.1.call.connection.fd = -1 ∧ Finished r.1.buffer r.1.traffic) := by
    cases hleft with
    | threw hthrows t' hfd => cases hreturns
    | closed hthrows t' hsized hfd hkernel hfinished => exact ⟨hsized, .inr ⟨hfd, hfinished⟩⟩
    | kept hthrows t' hsized hfd hkernel hechoing => exact ⟨hsized, .inl ⟨hfd ▸ hopen, hechoing⟩⟩
  obtain ⟨hread, bytes, c, rfl, hc, hrecvs⟩ | ⟨new, hsends⟩ := htraffic
  · have hnext := hdelivers hread
    rw [hnext.take_eq] at hc
    refine ⟨h.clientSized, h.cleared, h.printed, h.taken, h.said, ?_, hsized.1, hsized.2, ?_, ?_,
      fun hphase => absurd hphase hended⟩
    · show t.client.connection.traffic.received <+: r.1.traffic.echoed
      rw [hrecvs]
      exact h.delivered
    · show r.1.traffic.received <+: t.client.connection.traffic.echoed
      rw [hrecvs, Traffic.received_snoc, hc]
      exact hnext.2.1
    · intro c' hc' hempty
      rw [hrecvs] at hc'
      obtain hold | hnew := List.mem_append.mp hc'
      · exact h.left c' hold hempty
      · -- 0 bytes were received: the client has gone, and not at the end of `main`
        obtain rfl := List.mem_singleton.mp hnew
        exact failed_of_gone (hnext.2.2 (hc.symm.trans hempty)).1 hended
  · refine ⟨h.clientSized, h.cleared, h.printed, h.taken, h.said, ?_, hsized.1, hsized.2, ?_, ?_,
      fun hphase => absurd hphase hended⟩
    · show t.client.connection.traffic.received <+: r.1.traffic.echoed
      rw [hsends]
      exact h.delivered.trans (Traffic.echoed_append _ _)
    · show r.1.traffic.received <+: t.client.connection.traffic.echoed
      rw [hsends]
      exact h.arrived
    · intro c hc
      rw [hsends] at hc
      exact h.left c hc

theorem Talking.start {kernel : Kernel} {fd : Nat} {staticBuffer : Option Bytes}
    (hsized : Sized staticBuffer) (stdin : Bytes) :
    Talking stdin (.start kernel fd staticBuffer stdin) where
  clientSized := sized_none
  cleared := rfl
  printed := rfl
  taken _ hsend := absurd hsend List.not_mem_nil
  said := rfl
  delivered := List.prefix_rfl
  serverSized := hsized
  server := .inl ⟨Int.natCast_nonneg fd, rfl, fun _ hsend => absurd hsend List.not_mem_nil,
    .inl ⟨rfl, filling_nil⟩⟩
  arrived := List.prefix_rfl
  left _ hc := absurd hc List.not_mem_nil
  ended hended := nomatch hended

theorem Talking.step {maxSize : Nat} (hmax : maxBytesRead + 1 ≤ maxSize) {input : Bytes}
    {t t' : Talk} {a : Act} (h : Talking input t) (hstep : t.step maxSize a = some t') :
    Talking input t' := by
  obtain ⟨hpossible, hact⟩ := guarded_eq_some.mp hstep
  cases a with
  | types sent => exact Option.some.inj hact ▸ h.types hpossible sent
  | reads received => exact Option.some.inj hact ▸ h.reads hmax hpossible.1 hpossible.2
  | stops sent => exact Option.some.inj hact ▸ h.stops hpossible sent
  | serves received sent =>
    obtain ⟨hreturns, hserver⟩ := Option.ite_none_left_eq_some.mp hact
    rw [Bool.not_eq_true] at hreturns
    exact Option.some.inj hserver ▸ h.serves hmax hpossible.1 hpossible.2 hreturns

/-! ## What is printed -/

/-- What the server has received it has handed on, or has it still. -/
theorem Talking.handed_le {input : Bytes} {t : Talk} (h : Talking input t) :
    t.server.traffic.handed <+: t.server.traffic.received ∧
      ∀ send ∈ t.server.traffic.sends, send.taken ≤ send.data.length := by
  obtain ⟨-, hechoing⟩ | ⟨-, hfinished⟩ := h.server
  · refine ⟨?_, fun send hsend => (hechoing.packets send hsend).2.2⟩
    rw [hechoing.received]
    exact List.prefix_append _ _
  · refine ⟨?_, hfinished.taken⟩
    obtain ⟨-, hreceived⟩ | hreceived := hfinished.received
    · rw [hreceived]
      exact List.prefix_append _ _
    · rw [hreceived]
      exact List.prefix_append _ _

/-- The server has closed the connection of a client that has come to the end of `main`, and for
its `stop`. -/
theorem Talking.stopped {input : Bytes} {t : Talk} (h : Talking input t)
    (hended : t.client.phase = .ended) :
    t.server.traffic.received = t.server.traffic.handed ++ stop := by
  obtain ⟨hopen, -⟩ | ⟨-, hfinished⟩ := h.server
  · have hclosed := (h.ended hended).1
    omega
  · obtain ⟨⟨recvs, c, hrecvs, hempty⟩, -⟩ | hreceived := hfinished.received
    · have hin : c ∈ t.server.traffic.recvs := by
        rw [hrecvs]
        exact List.mem_append_right recvs (List.mem_singleton_self c)
      have hfailed := h.left c hin hempty
      rw [hended] at hfailed
      cases hfailed
    · exact hreceived

/-- Each `::send` has taken all it was given. -/
def Talk.Whole (t : Talk) : Prop :=
  (∀ send ∈ t.client.connection.traffic.sends, send.taken = send.data.length) ∧
    ∀ send ∈ t.server.traffic.sends, send.taken = send.data.length

/-- Client and server in any order: what is printed is what the server has echoed, and what the
server has received what was sent, as far as they have come. Where no `::send` has cut its data
short, the client prints nothing but its input, in order; and when it ends the server has received
what is printed and a `stop` behind it, so that all the input is printed exactly if the server has
received all of it. -/
theorem talk_in_order {maxSize : Nat} (hmax : maxBytesRead + 1 ≤ maxSize) {kernel : Kernel}
    {fd : Nat} {staticBuffer : Option Bytes} (hsized : Sized staticBuffer) {input : Bytes}
    {acts : List Act} {t : Talk}
    (hrun : steps (Talk.step maxSize) (.start kernel fd staticBuffer input) acts = some t) :
    t.client.printed <+: t.server.traffic.echoed ∧
      t.server.traffic.received <+: t.client.connection.traffic.echoed ∧
      (t.Whole → t.client.printed <+: input ++ stop ∧
        (t.client.phase = .ended → t.server.traffic.received = t.client.printed ++ stop ∧
          (t.client.printed = input ↔ t.server.traffic.received = input ++ stop))) := by
  have h := steps_invariant (fun _ _ _ hs hstep => hs.step hmax hstep)
    (Talking.start hsized input) hrun
  rw [h.printed]
  refine ⟨h.delivered, h.arrived, fun hwhole => ?_⟩
  obtain ⟨hhanded, htaken⟩ := h.handed_le
  have hclient := (echoed_eq_handed_iff _ h.taken).mpr hwhole.1
  have hserver := (echoed_eq_handed_iff _ htaken).mpr hwhole.2
  have harrived := h.arrived
  have hdelivered := h.delivered
  rw [hclient] at harrived
  rw [hserver] at hdelivered
  refine ⟨hdelivered.trans (hhanded.trans (harrived.trans h.said.handed_le)), fun hended => ?_⟩
  have hall := (h.ended hended).2
  rw [hserver] at hall
  rw [hall, h.stopped hended]
  refine ⟨rfl, fun hinput => by rw [hinput], fun hreceived => ?_⟩
  exact List.append_cancel_right hreceived

/-- `abcd` is typed, and comes back when the client has said `stop`. -/
def abcdActs : List Act :=
  [.types (.bytes 4), .serves (.data [97, 98, 99, 100]) .failed, .reads (.failed "EAGAIN"),
    .stops (.bytes 4), .serves (.data stop) .failed, .serves (.failed "") (.bytes 4),
    .reads (.data [97, 98, 99, 100]), .reads (.data [])]

set_option maxRecDepth 8192 in
theorem abcdActs_end : ∃ t,
    steps (Talk.step 1024) (.start ⟨[5], [5]⟩ 5 none [97, 98, 99, 100]) abcdActs = some t ∧
      t.client.phase = .ended ∧ t.client.printed = [97, 98, 99, 100] :=
  ⟨_, rfl, rfl, rfl⟩

theorem talk_in_order_abcd : ∃ t : Talk, t.client.phase = .ended ∧
    t.client.printed <+: t.server.traffic.echoed ∧
      t.server.traffic.received <+: t.client.connection.traffic.echoed ∧
      (t.Whole → t.client.printed <+: [97, 98, 99, 100] ++ stop ∧
        (t.client.phase = .ended → t.server.traffic.received = t.client.printed ++ stop ∧
          (t.client.printed = [97, 98, 99, 100] ↔
            t.server.traffic.received = [97, 98, 99, 100] ++ stop))) := by
  obtain ⟨t, hrun, hended, -⟩ := abcdActs_end
  exact ⟨t, hended, talk_in_order (by decide) sized_none hrun⟩

end AdvCppTP.Tcp.EchoServer
