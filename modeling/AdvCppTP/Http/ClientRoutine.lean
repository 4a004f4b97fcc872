import AdvCppTP.Coroutine.Routine
import AdvCppTP.Http.Receiver

/-! `EpollManager::clientRoutine` between two `yield`s, over the client's own entry of `routines_`
and what the kernel and the handler answer. -/

namespace AdvCppTP.Http

inductive Thrown
  | tcpError (msg : String)
  | httpError (msg : String)
  | epollError (msg : String)
  | stdException (msg : String)
  | other
  deriving DecidableEq, Repr

abbrev Exn := Coroutine.Exn Thrown

/-! ## `Connection` -/

/-- What `::recv` does: `wouldBlock` is -1 with `EAGAIN`, `error` is -1 with another error. -/
inductive RecvOutcome
  | received (data : Bytes)
  | wouldBlock
  | error (errno : String)
  deriving DecidableEq, Repr

/-- `Connection::read()` on an outcome of `::recv`. The bytes are appended as a C string. -/
def RecvOutcome.read : RecvOutcome → Except Exn ReadResult
  | .received data => .ok ⟨Lib.cString data, data.length⟩
  | .wouldBlock => .ok ⟨[], 0⟩
  | .error errno => .error (.user (.tcpError ("Read error:" ++ errno)))

inductive SendOutcome
  | accepted (bytes : Nat)
  | eintr
  | error
  deriving DecidableEq, Repr

/-- `Connection::write(data, size)`, and the outcomes that it leaves. A socket with nothing more
to say accepts everything. -/
def connectionWrite (size : Nat) : List SendOutcome → Except Exn Nat × List SendOutcome
  | [] => (.ok size, [])
  | .accepted bytes :: sends => (.ok (min bytes size), sends)
  | .eintr :: sends => connectionWrite size sends
  | .error :: sends => (.error (.user (.tcpError "Error to write")), sends)

/-! ## The state of a client -/

inductive EpollEvent
  | epollin
  | epollout
  deriving DecidableEq, Repr

/-- `RoutineInfo` in its node of the map; `node` tells two entries with one key apart. -/
structure RoutineInfo where
  node : Nat
  fd : Nat
  buffer : Bytes
  currentEvent : EpollEvent
  timeout : Nat
  deriving DecidableEq, Repr

/-- A call of `onRequest`, with the bytes that `clear_buffer` discarded before it. -/
structure Served where
  request : HttpRequest
  discarded : Bytes

/-- The outcomes of `::recv`, `::send` and `epoll_ctl` to come, and the calls of the handler. A
socket without further input would block, and `epoll_ctl` succeeds unless there is a text of
`errno` with which it fails. -/
structure Io where
  recvs : List RecvOutcome
  sends : List SendOutcome
  ctls : List (Option String)
  served : List Served

/-- The text of `errno` where the next call of `epoll_ctl` fails. -/
def ctlError (ctls : List (Option String)) : Option String := ctls.head?.join

structure Server where
  onRequest : List Served → HttpRequest → Except Exn HttpResponse
  hash : HashOrder
  readTimeout : Nat
  writeTimeout : Nat

structure Client where
  info : RoutineInfo
  io : Io

/-- The places of `clientRoutine` and of what it calls that are behind a `yield`. -/
inductive RoutinePc
  | receiving (pc : ReceiverPc)
  | sending (request : HttpRequest) (msg : Bytes) (sended : Nat)
  | served

inductive RoutineSeg
  | yield (pc : RoutinePc)
  | ret
  | throw (e : Exn)
  | undefined

def RoutineSeg.ofStd : StdError → RoutineSeg
  | .outOfRange => .throw .outOfRange
  | .invalidArgument => .throw (.invalidArgument "stoull")
  | .undefined => .undefined

/-! ## `clientRoutine` -/

def Client.read (c : Client) : Except Exn Nat × Client :=
  match c.io.recvs with
  | [] => (.ok 0, c)
  | recv :: recvs =>
    match recv.read with
    | .error e => (.error e, { c with io.recvs := recvs })
    | .ok r =>
      (.ok r.count,
        { c with info.buffer := c.info.buffer ++ r.appended, io.recvs := recvs })

def Client.changeEvent (c : Client) (newEvent : EpollEvent) : Option Exn × Client :=
  let c := { c with info.currentEvent := newEvent }
  match c.io.ctls with
  | [] => (none, c)
  | none :: ctls => (none, { c with io.ctls := ctls })
  | some errno :: ctls =>
    (some (.user (.epollError ("Epoll mod error: " ++ errno))), { c with io.ctls := ctls })

/-- `clientRoutine` behind `response.send(connection)`. -/
def Client.afterSend (c : Client) (request : HttpRequest) : RoutineSeg × Client :=
  if request.keepAlive then
    match c.changeEvent .epollin with
    | (some e, c) => (.throw e, c)
    | (none, c) => (.yield .served, c)
  else (.ret, c)

/-- The loop of `HttpResponse::send` from a call of `connection.write` on. -/
def Client.sendRest (c : Client) (request : HttpRequest) (msg : Bytes) (sended : Nat) :
    RoutineSeg × Client :=
  match connectionWrite (msg.length - sended) c.io.sends with
  | (.error e, sends) => (.throw e, { c with io.sends := sends })
  | (.ok bytes, sends) =>
    let c := { c with io.sends := sends }
    let sended := sended + bytes
    if sended < msg.length then (.yield (.sending request msg sended), c)
    else c.afterSend request

/-- `clientRoutine` behind `receiver.receive()`. -/
def Client.respond (server : Server) (c : Client) (request : HttpRequest) : RoutineSeg × Client :=
  let served := ⟨request, c.info.buffer⟩
  let history := c.io.served
  let c := { c with info.buffer := [], io.served := history ++ [served] }
  match server.onRequest history request with
  | .error e => (.throw e, c)
  | .ok response =>
    match c.changeEvent .epollout with
    | (some e, c) => (.throw e, c)
    | (none, c) =>
      match response.message server.hash with
      | none => (.throw .outOfRange, c)
      | some msg => c.sendRest request msg 0

/-- One read in a loop of `receive` and what follows it; `next` is a loop that is entered. -/
def Client.turn (server : Server) (next : ReceiverPc → Client → RoutineSeg × Client)
    (pc : ReceiverPc) (c : Client) : RoutineSeg × Client :=
  match c.read with
  | (.error e, c) => (.throw e, c)
  | (.ok count, c) =>
    match receiveStep c.info.buffer count pc with
    | .again pc => next pc c
    | .yield pc => (.yield (.receiving pc), c)
    | .done request => c.respond server request
    | .throw e => (.ofStd e, c)

/-- The loops of `receive` up to the next `yield`: that of `read_body` is the last one. -/
def Client.receive (server : Server) (pc : ReceiverPc) (c : Client) : RoutineSeg × Client :=
  c.turn server (Client.turn server fun pc c => (.yield (.receiving pc), c)) pc

/-- `clientRoutine` behind a `yield`; it starts as it goes on behind the last one. -/
def Client.resume (server : Server) (pc : RoutinePc) (c : Client) : RoutineSeg × Client :=
  match pc with
  | .receiving pc => c.receive server pc
  | .sending request msg sended => c.sendRest request msg sended
  | .served => c.receive server (.head 0)

end AdvCppTP.Http
