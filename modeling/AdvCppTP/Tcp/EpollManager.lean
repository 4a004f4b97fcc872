import Mathlib.Data.List.AList
import Mathlib.Data.UInt

/-! `tcp::Server::EpollManager` of `hw-4`: the table of its connections, which are looked up by
descriptor and referred to by the nodes they are in, over the kernel's descriptors. -/

namespace AdvCppTP.Tcp

abbrev Bytes := List UInt8

/-! ## Connections -/

/-- The open descriptors, and those that are registered with the manager's epoll object. -/
structure Kernel where
  opened : List Int
  interest : List Int
  deriving DecidableEq, Repr

/-- `::close(fd)`, which takes `fd` out of the epoll object too. -/
def Kernel.close (fd : Int) (kernel : Kernel) : Kernel where
  opened := kernel.opened.filter fun fd' => fd' ≠ fd
  interest := kernel.interest.filter fun fd' => fd' ≠ fd

structure Connection where
  fd : Int
  buffer : Bytes
  deriving DecidableEq, Repr

def Connection.new : Connection := ⟨-1, []⟩

def Connection.close (connection : Connection) (kernel : Kernel) : Connection × Kernel :=
  ({ connection with fd := -1 },
    if 0 ≤ connection.fd then kernel.close connection.fd else kernel)

def Connection.isOpened (connection : Connection) (kernel : Kernel) : Bool :=
  0 ≤ connection.fd ∧ connection.fd ∈ kernel.opened

/-! ## The callback -/

/-- What a callback does next: `read` and `write` with what `::recv` and `::send` then do, where
`none` and `false` are -1. -/
inductive Action
  | read (received : Option Bytes)
  | write (sent : Bool)
  | setEvent (event : UInt32)
  | close
  | throw
  deriving DecidableEq, Repr

/-- What a callback works on: its two references, and the kernel. -/
structure Call where
  connection : Connection
  event : UInt32
  kernel : Kernel
  deriving DecidableEq, Repr

/-- One call of the user's callback; `true` when it ends by an exception. -/
def callback : List Action → Call → Call × Bool
  | [], call => (call, false)
  | .read received :: actions, call =>
    match received with
    | some data =>
      if call.connection.fd < 0 then (call, true)
      else
        let buffer := call.connection.buffer ++ data
        callback actions { call with connection := { call.connection with buffer } }
    | none => (call, true)
  | .write sent :: actions, call =>
    if sent = false ∨ call.connection.fd < 0 then (call, true) else callback actions call
  | .setEvent event :: actions, call => callback actions { call with event }
  | .close :: actions, call =>
    let (connection, kernel) := call.connection.close call.kernel
    callback actions { call with connection, kernel }
  | .throw :: _, call => (call, true)

/-! ## The manager -/

structure Manager where
  slaveSockets : AList fun _ : Int => Connection
  kernel : Kernel

/-- `others` are open: the master socket and the epoll object among them. -/
def Manager.init (others : List Nat) : Manager := ⟨∅, ⟨others.map Int.ofNat, []⟩⟩

inductive Failure
  | epollError (msg : String)
  | epollAddError (msg : String)
  | acceptError (msg : String)
  | socketError (msg : String)
  deriving DecidableEq, Repr

inductive Ended
  | threw (failure : Failure)
  | undefined
  deriving DecidableEq, Repr

/-- `slaveSockets_.erase(connection.fd_)` -/
def Manager.deleteConnection (m : Manager) (connection : Connection) : Manager :=
  match m.slaveSockets.lookup connection.fd with
  | none => m
  | some erased =>
    { slaveSockets := m.slaveSockets.erase connection.fd, kernel := (erased.close m.kernel).2 }

def epollErr : UInt32 := 8

def epollHup : UInt32 := 16

def hangsUp (event : UInt32) : Bool := event &&& epollErr ≠ 0 ∨ event &&& epollHup ≠ 0

/-- The end of `handleClient`, behind the call of the callback in its `try`; `failure` is what
`::epoll_ctl` says if `changeEvent` calls it and it fails. -/
def afterCallback (key : Int) (oldEvent : UInt16) (failure : Option String) (m : Manager)
    (r : Call × Bool) : Except Ended Manager :=
  let called : Manager := ⟨m.slaveSockets.insert key r.1.connection, r.1.kernel⟩
  let caught := if r.2 then called.deleteConnection r.1.connection else called
  match caught.slaveSockets.lookup key with
  -- the node that the reference `connection` refers to has been destroyed
  | none => .error .undefined
  | some connection =>
    if connection.isOpened caught.kernel = false then .ok (caught.deleteConnection connection)
    else if oldEvent.toUInt32 ≠ r.1.event then
      match failure with
      | none => .ok caught
      | some errno => .error (.threw (.epollError ("Epoll mod error: " ++ errno)))
    else .ok caught

/-- `handleClient` for the connection in the node of `key`. -/
def handleClient (key : Int) (event : UInt32) (actions : List Action) (failure : Option String)
    (m : Manager) : Except Ended Manager :=
  match m.slaveSockets.lookup key with
  | none => .error .undefined
  | some connection =>
    if hangsUp event then .ok (m.deleteConnection connection)
    else
      let oldEvent := event.toUInt16
      afterCallback key oldEvent failure m (callback actions ⟨connection, event, m.kernel⟩)

/-- `addNewConnection`: an entry that is there at `fd` is assigned to, and closes what it had. -/
def addNewConnection (fd : Int) (failure : Option String) (m : Manager) : Except Ended Manager :=
  let old := (m.slaveSockets.lookup fd).getD .new
  let kernel := (old.close m.kernel).2
  match failure with
  | none =>
    .ok ⟨m.slaveSockets.insert fd ⟨fd, []⟩, { kernel with interest := fd :: kernel.interest }⟩
  | some errno => .error (.threw (.epollAddError ("Epoll add error: " ++ errno)))

/-- What `::accept` does, and then `set_nonblock`, `::getsockname` and `::epoll_ctl`. -/
inductive AcceptOutcome
  | connected (fd : Nat) (nonblock : Bool) (unnamed notAdded : Option String)
  | eintr
  | wouldBlock
  | error (errno : String)
  deriving DecidableEq, Repr

/-- One turn of the loop of `acceptClients`; `true` when there is another. -/
def acceptOne (outcome : AcceptOutcome) (m : Manager) : Except Ended (Manager × Bool) :=
  match outcome with
  | .connected fd nonblock unnamed notAdded =>
    let m := { m with kernel.opened := (fd : Int) :: m.kernel.opened }
    if nonblock = false then .ok ({ m with kernel := m.kernel.close fd }, true)
    else
      match unnamed with
      | some errno => .error (.threw (.socketError ("Fail to get socket data: " ++ errno)))
      | none => (addNewConnection fd notAdded m).map fun m => (m, true)
  | .eintr => .ok (m, true)
  | .wouldBlock => .ok (m, false)
  | .error errno => .error (.threw (.acceptError ("Accept failed: " ++ errno)))

/-- `acceptClients()`, whose counter stays at 0. -/
def acceptClients : List AcceptOutcome → Manager → Except Ended Manager
  | [], m => .ok m
  | outcome :: outcomes, m => do
    let (m, more) ← acceptOne outcome m
    if more then acceptClients outcomes m else .ok m

/-- What `run` handles: an event of the master socket, or one of the connection in the node of
`key` and what the callback does with it. -/
inductive Event
  | masterSocket (outcomes : List AcceptOutcome)
  | client (key : Int) (event : UInt32) (actions : List Action) (failure : Option String)
  deriving DecidableEq, Repr

def step (m : Manager) : Event → Except Ended Manager
  | .masterSocket outcomes => acceptClients outcomes m
  | .client key event actions failure => handleClient key event actions failure m

/-! ## What the kernel promises -/

/-- `::accept` returns descriptors that are not open. -/
def AcceptsNew : List AcceptOutcome → Manager → Prop
  | [], _ => True
  | outcome :: outcomes, m =>
    (∀ fd nonblock unnamed notAdded, outcome = .connected fd nonblock unnamed notAdded →
      (fd : Int) ∉ m.kernel.opened) ∧
    ∀ m', acceptOne outcome m = .ok (m', true) → AcceptsNew outcomes m'

/-- The events of clients are those of registered connections. -/
def Honest (m : Manager) : Event → Prop
  | .masterSocket outcomes => AcceptsNew outcomes m
  | .client key _ _ _ => key ∈ m.kernel.interest

end AdvCppTP.Tcp
