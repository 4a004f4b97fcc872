import AdvCppTP.Coroutine.Unwinding
import AdvCppTP.Http.ClientRoutine

/-! `EpollManager`: its table of connections, the coroutines of its thread, and what one turn of
`run` does with an event. -/

namespace AdvCppTP.Http

/-- The places of the coroutines' code. A suspended one holds a reference to the `RoutineInfo` of
`id` in the node it had then. -/
inductive ClientPc
  | clientRoutine
  | suspended (id node : Nat) (pc : RoutinePc)

/-- `routines_`, and `nodes` as the count of the nodes it has ever had. -/
structure World where
  routines : AList fun _ : Nat => RoutineInfo
  nodes : Nat
  io : Io
  undefined : Bool

/-- `clientRoutine` for client `id` up to its next `yield`. -/
def World.segment (server : Server) (w : World) (id : Nat) (info : RoutineInfo) (pc : RoutinePc) :
    Coroutine.Seg ClientPc Thrown × World :=
  let r := Client.resume server pc ⟨info, w.io⟩
  let w := { w with routines := w.routines.insert id r.2.info, io := r.2.io }
  match r.1 with
  | .yield pc => (.yield (.suspended id info.node pc), w)
  | .ret => (.ret, w)
  | .throw e => (.throw e, w)
  | .undefined => (.ret, { w with undefined := true })

def clientRun (server : Server) (current : Nat) (place : ClientPc)
    (signal : Coroutine.Signal Thrown) (w : World) : Coroutine.Seg ClientPc Thrown × World :=
  match signal, place with
  | .raised e, _ => (.throw e, w)
  | _, .clientRoutine =>
    match w.routines.lookup current with
    | none => (.throw .outOfRange, w)
    | some info => w.segment server current info .served
  | _, .suspended id node pc =>
    match w.routines.lookup id with
    | none => (.ret, { w with undefined := true })
    | some info =>
      -- another node at the same key: the routine's references dangle
      if info.node = node then w.segment server id info pc
      else (.ret, { w with undefined := true })

def clientCode (server : Server) : Coroutine.Code ClientPc Thrown World where
  run := clientRun server
  unwinds := ⟨fun _ => ⟨_, fun _ ⟨_, _, _, _, h⟩ => by cases h⟩⟩

theorem clientCode_propagates (server : Server) : (clientCode server).Propagates :=
  fun _ _ _ _ => rfl

structure State where
  o : Coroutine.Ordinator ClientPc Thrown
  w : World

def State.init (io : Io) : State := ⟨.init, ⟨∅, 0, io, false⟩⟩

inductive Ended
  | threw (e : Exn)
  | undefined
  deriving DecidableEq, Repr

/-! ## Accepting -/

def addNewConnection (server : Server) (fd now : Nat) (s : State) : Except Ended State :=
  let info : RoutineInfo :=
    { node := s.w.nodes, fd, buffer := [], currentEvent := .epollin,
      timeout := now + server.readTimeout }
  let w := { s.w with routines := Lib.emplace fd info s.w.routines, nodes := s.w.nodes + 1 }
  let o := (Coroutine.create s.o fd (some .clientRoutine)).1
  match w.io.ctls with
  | [] => .ok ⟨o, w⟩
  | none :: ctls => .ok ⟨o, { w with io.ctls := ctls }⟩
  | some errno :: _ => .error (.threw (.user (.epollError ("Epoll add error: " ++ errno))))

/-- What `::accept4` does; `unnamed` is a connection on which `::getsockname` then fails. -/
inductive AcceptOutcome
  | connected (fd now : Nat)
  | unnamed (errno : String)
  | eintr
  | wouldBlock
  | error
  deriving DecidableEq, Repr

/-- `acceptClients()`, whose counter stays at 0. -/
def acceptClients (server : Server) : List AcceptOutcome → State → Except Ended State
  | [], s => .ok s
  | .connected fd now :: outcomes, s => do
    acceptClients server outcomes (← addNewConnection server fd now s)
  | .unnamed errno :: _, _ =>
    .error (.threw (.user (.tcpError ("Fail to get socket data: " ++ errno))))
  | .eintr :: outcomes, s => acceptClients server outcomes s
  | .wouldBlock :: _, s => .ok s
  | .error :: _, _ => .error (.threw (.user (.tcpError "Accept error")))

/-! ## Client events and timeouts -/

/-- `deleteConnection(id)`; `none` is the `out_of_range` of its `at`. -/
def deleteConnection (id : Nat) (w : World) : Option World :=
  match w.routines.lookup id with
  | none => none
  | some _ => some { w with routines := w.routines.erase id }

/-- The new timeout behind `resume` in `handleClient`. -/
def renewTimeout (server : Server) (id now : Nat) (w : World) : World :=
  match w.routines.lookup id with
  | none => w
  | some info =>
    let timeout := match info.currentEvent with
      | .epollin => now + server.readTimeout
      | .epollout => now + server.writeTimeout
    { w with routines := w.routines.insert id { info with timeout } }

def handleClient (server : Server) (id : Nat) (errOrHup : Bool) (now : Nat) (s : State) :
    Except Ended State :=
  match s.w.routines.lookup id with
  | none => .error (.threw .outOfRange)
  | some _ =>
    if errOrHup then
      match deleteConnection id s.w with
      | none => .error (.threw .outOfRange)
      | some w => .ok ⟨s.o, w⟩
    else
      let r := Coroutine.resume (clientCode server) s.o s.w id
      if r.1.2.undefined then .error .undefined
      else
        match r.2.value with
        | .error (.user (.epollError msg)) => .error (.threw (.user (.epollError msg)))
        | .error _ => .ok ⟨r.1.1, (deleteConnection id r.1.2).getD r.1.2⟩
        | .ok _ =>
          -- there is no `return` here: a suspended routine is deleted like a finished one
          let w := renewTimeout server id now r.1.2
          .ok ⟨r.1.1, (deleteConnection id w).getD w⟩

/-- One turn of the second loop of `checkTimeouts`. -/
def expire (server : Server) (s : State) (id : Nat) : Except Ended State :=
  let r := Coroutine.kill (clientCode server) s.o s.w id
    (some (.user (.httpError "Timeout reached")))
  if r.1.2.undefined then .error .undefined
  else
    match deleteConnection id r.1.2 with
    | none => .error (.threw .outOfRange)
    | some w => .ok ⟨r.1.1, w⟩

/-- The `ids` of `checkTimeouts`. -/
def expired (now : Nat) (w : World) : List Nat :=
  (w.routines.entries.filter fun e => e.2.timeout < now).map Sigma.fst

def checkTimeouts (server : Server) (now : Nat) (s : State) : Except Ended State :=
  (expired now s.w).foldlM (expire server) s

/-! ## Turns of `run` -/

inductive Event
  | masterSocket (outcomes : List AcceptOutcome)
  | client (id : Nat) (errOrHup : Bool) (now : Nat)
  | timeout (now : Nat)
  deriving DecidableEq, Repr

def step (server : Server) (s : State) : Event → Except Ended State
  | .masterSocket outcomes => acceptClients server outcomes s
  | .client id errOrHup now => handleClient server id errOrHup now s
  | .timeout now => checkTimeouts server now s

end AdvCppTP.Http
