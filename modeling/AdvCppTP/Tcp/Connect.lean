import AdvCppTP.Lib.Scope
import AdvCppTP.Tcp.EpollManager

/-! `Connection::connect` of `hw-4` and of `hw-6`, which differ in what they throw. -/

namespace AdvCppTP.Tcp

open Lib

/-- The members of a `Connection`. -/
structure Endpoint extends Connection where
  dstAddr : String
  srcAddr : String
  srcPort : UInt16
  dstPort : UInt16
  deriving DecidableEq, Repr

def Endpoint.new : Endpoint := ⟨.new, "", "", 0, 0⟩

structure Client where
  endpoint : Endpoint
  kernel : Kernel
  deriving DecidableEq, Repr

def Client.close (c : Client) : Client :=
  let (connection, kernel) := c.endpoint.toConnection.close c.kernel
  ⟨{ c.endpoint with toConnection := connection }, kernel⟩

def Client.withSocket (c : Client) (fd : Nat) : Client :=
  { c with kernel.opened := (fd : Int) :: c.kernel.opened }

/-- What the calls of one `connect` give, or the text of `errno`. -/
structure ConnectCalls where
  socket : Except String Nat
  inetAton : Bool
  connected : Bool
  getsockname : Except String (String × UInt16)

/-- The classes of the exceptions. -/
structure ConnectErrors (X : Type*) where
  socket : String → X
  address : String → X
  connection : String → X
  name : String → X

section

variable {X : Type*} (errors : ConnectErrors X) (calls : ConnectCalls)

def openSocket : Prog X Client Nat := fun c =>
  match calls.socket with
  | .error errno => .throws (errors.socket ("Socket creation error: " ++ errno)) c
  | .ok fd => .returns fd (c.withSocket fd)

/-- `~Descriptor` of the local `fd`. -/
def dropSocket (fd : Nat) (c : Client) : Client := { c with kernel := c.kernel.close fd }

def connectSocket (ip : String) (port : UInt16) : Prog X Client Unit :=
  if calls.inetAton = false then .throw (errors.address ip)
  else if calls.connected = false then
    .throw (errors.connection ("Failure to connect to " ++ ip ++ ":" ++ toString port.toNat))
  else .pure ()

/-- `close(); fd_ = std::move(fd);`, where `fd_` is -1 after the `close`. -/
def adoptSocket (ip : String) (port : UInt16) (fd : Nat) (c : Client) : Client :=
  let closed := c.close
  { closed with endpoint.fd := fd, endpoint.dstAddr := ip, endpoint.dstPort := port }

def getBindedIpPort : Prog X Client Unit := fun c =>
  match calls.getsockname with
  | .error errno => .throws (errors.name ("Fail to get socket data: " ++ errno)) c
  | .ok (ip, port) => .returns () { c with endpoint.srcAddr := ip, endpoint.srcPort := port }

/-- The local descriptor is destroyed by what throws before it has been moved from. -/
def connect (ip : String) (port : UInt16) : Prog X Client Unit :=
  (openSocket errors calls).andThen fun fd =>
    ((connectSocket errors calls ip port).unwinding (dropSocket fd)).andThen fun _ =>
      (Prog.update (adoptSocket ip port fd)).andThen fun _ => getBindedIpPort errors calls

/-- A client that is as before, with its connection, and a socket that is not there any more. -/
structure Untouched (c c' : Client) : Prop where
  endpoint : c'.endpoint = c.endpoint
  open_ : c.endpoint.fd ∈ c.kernel.opened → c.endpoint.fd ∈ c'.kernel.opened
  closed : ∀ fd, calls.socket = .ok fd → (fd : Int) ∉ c'.kernel.opened

/-- Everything but the last step succeeds. -/
def ConnectCalls.OnlyNameFails : Prop :=
  (∃ fd, calls.socket = .ok fd) ∧ calls.inetAton = true ∧ calls.connected = true ∧
    ∃ errno, calls.getsockname = .error errno

variable {errors calls} {ip : String} {port : UInt16} {c : Client}

theorem connect_of_openSocket {errno : String} (h : calls.socket = .error errno) :
    connect errors calls ip port c =
      .throws (errors.socket ("Socket creation error: " ++ errno)) c := by
  simp only [connect, Prog.andThen, openSocket, h]

theorem Kernel.close_opened {kernel : Kernel} {fd : Int} (hnew : fd ∉ kernel.opened) :
    (Kernel.close fd { kernel with opened := fd :: kernel.opened }).opened = kernel.opened := by
  rw [Kernel.close, List.filter_cons_of_neg (by simp)]
  exact List.filter_eq_self.mpr fun fd' hfd' => decide_eq_true fun heq => hnew (heq ▸ hfd')

/-- The socket is closed again where it cannot be connected. -/
theorem connect_of_connectSocket {fd : Nat} (hsocket : calls.socket = .ok fd) {x : X}
    (hthrows : ∀ c, connectSocket errors calls ip port c = .throws x c) :
    connect errors calls ip port c = .throws x (dropSocket fd (c.withSocket fd)) := by
  simp only [connect, Prog.andThen, openSocket, hsocket, Prog.unwinding, hthrows]

theorem connectSocket_of_not (h : ¬ (calls.inetAton = true ∧ calls.connected = true)) :
    ∃ x, ∀ c, connectSocket errors calls ip port c = .throws x c := by
  rw [connectSocket]
  cases haddress : calls.inetAton with
  | false => exact ⟨_, fun c => rfl⟩
  | true =>
    have hconnected : calls.connected = false :=
      Bool.eq_false_iff.mpr fun hconnected => h ⟨haddress, hconnected⟩
    exact ⟨errors.connection ("Failure to connect to " ++ ip ++ ":" ++ toString port.toNat),
      fun c => by rw [if_neg (by decide), if_pos hconnected]; rfl⟩

theorem connect_of_getBindedIpPort {fd : Nat} (hsocket : calls.socket = .ok fd)
    (haddress : calls.inetAton = true) (hconnected : calls.connected = true) :
    connect errors calls ip port c =
      getBindedIpPort errors calls (adoptSocket ip port fd (c.withSocket fd)) := by
  simp only [connect, Prog.andThen, openSocket, hsocket, Prog.unwinding, connectSocket, haddress,
    hconnected, Bool.true_eq_false, if_false, Prog.pure, Prog.update]

/-- It throws before there is a socket, or closes the one it has opened and throws, or it ends with
`getBindedIpPort` on the new one. -/
theorem connect_cases (errors : ConnectErrors X) (calls : ConnectCalls) (ip : String)
    (port : UInt16) (c : Client) :
    (∃ errno x, calls.socket = .error errno ∧ connect errors calls ip port c = .throws x c) ∨
    (∃ fd x, calls.socket = .ok fd ∧ ¬ (calls.inetAton = true ∧ calls.connected = true) ∧
      connect errors calls ip port c = .throws x (dropSocket fd (c.withSocket fd))) ∨
    (∃ fd, calls.socket = .ok fd ∧ calls.inetAton = true ∧ calls.connected = true ∧
      connect errors calls ip port c =
        getBindedIpPort errors calls (adoptSocket ip port fd (c.withSocket fd))) := by
  rcases hsocket : calls.socket with errno | fd
  · exact .inl ⟨errno, _, rfl, connect_of_openSocket hsocket⟩
  · by_cases hconnect : calls.inetAton = true ∧ calls.connected = true
    · exact .inr (.inr ⟨fd, rfl, hconnect.1, hconnect.2,
        connect_of_getBindedIpPort hsocket hconnect.1 hconnect.2⟩)
    · obtain ⟨x, hx⟩ := connectSocket_of_not hconnect
      exact .inr (.inl ⟨fd, x, rfl, hconnect, connect_of_connectSocket hsocket hx⟩)

theorem untouched_dropSocket {fd : Nat} (hsocket : calls.socket = .ok fd)
    (hnew : (fd : Int) ∉ c.kernel.opened) :
    Untouched calls c (dropSocket fd (c.withSocket fd)) := by
  have hopened : (dropSocket fd (c.withSocket fd)).kernel.opened = c.kernel.opened :=
    Kernel.close_opened hnew
  refine ⟨rfl, fun hopen => hopened.symm ▸ hopen, fun fd' hfd' => ?_⟩
  obtain rfl : fd = fd' := Except.ok.inj (hsocket.symm.trans hfd')
  exact hopened.symm ▸ hnew

/-- The new descriptor is in the place of the old one. -/
theorem not_untouched_adoptSocket {fd : Nat}
    (hc : c.endpoint.fd = -1 ∨ c.endpoint.fd ∈ c.kernel.opened)
    (hnew : (fd : Int) ∉ c.kernel.opened) :
    ¬ Untouched calls c (adoptSocket ip port fd (c.withSocket fd)) := by
  intro h
  have hsame : (fd : Int) = c.endpoint.fd :=
    congrArg (fun endpoint : Endpoint => endpoint.fd) h.endpoint
  rcases hc with hnone | hopen
  · omega
  · exact hnew (hsame ▸ hopen)

/-- From a client that is connected, or not at all. -/
theorem untouched_iff (hc : c.endpoint.fd = -1 ∨ c.endpoint.fd ∈ c.kernel.opened)
    (hnew : ∀ fd, calls.socket = .ok fd → (fd : Int) ∉ c.kernel.opened) :
    (∀ x c', connect errors calls ip port c = .throws x c' → Untouched calls c c') ↔
      ¬ calls.OnlyNameFails := by
  obtain ⟨errno, x, hsocket, hconnect⟩ | ⟨fd, x, hsocket, hnot, hconnect⟩ |
    ⟨fd, hsocket, haddress, hconnected, hconnect⟩ := connect_cases errors calls ip port c
  · refine iff_of_true (fun x' c' hthrows => ?_) ?_
    · cases hconnect.symm.trans hthrows
      exact ⟨rfl, id, hnew⟩
    · rintro ⟨⟨fd, hfd⟩, -⟩
      cases hsocket.symm.trans hfd
  · refine iff_of_true (fun x' c' hthrows => ?_) fun h => hnot ⟨h.2.1, h.2.2.1⟩
    cases hconnect.symm.trans hthrows
    exact untouched_dropSocket hsocket (hnew fd hsocket)
  · rcases hname : calls.getsockname with errno | name
    · rw [getBindedIpPort, hname] at hconnect
      have hfails : calls.OnlyNameFails := ⟨⟨fd, hsocket⟩, haddress, hconnected, errno, hname⟩
      refine iff_of_false (fun h => ?_) (not_not.mpr hfails)
      exact not_untouched_adoptSocket hc (hnew fd hsocket) (h _ _ hconnect)
    · rw [getBindedIpPort, hname] at hconnect
      refine iff_of_true (fun x' c' hthrows => ?_) ?_
      · cases hconnect.symm.trans hthrows
      · rintro ⟨-, -, -, errno, herror⟩
        cases hname.symm.trans herror

end

end AdvCppTP.Tcp
