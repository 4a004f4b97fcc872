import AdvCppTP.Tcp.Connect

/-! `HttpFramework::Connection::connect`, which is all or nothing up to its last step. -/

namespace AdvCppTP.Http

open Lib Tcp

inductive TcpError
  | tcpError (msg : String)
  | socketCreationError (msg : String)
  | badIpAddress (ip : String)
  | connectionError (msg : String)
  deriving DecidableEq, Repr

def connectErrors : ConnectErrors TcpError :=
  ⟨.socketCreationError, .badIpAddress, .connectionError, .tcpError⟩

def Connection.connect (calls : ConnectCalls) (ip : String) (port : UInt16) :
    Prog TcpError Tcp.Client Unit :=
  Tcp.connect connectErrors calls ip port

/-- A `connect` that throws leaves the old connection as it was and no new one, unless all of it
has succeeded but `getsockname`. -/
theorem connect_untouched_iff {c : Tcp.Client}
    (hc : c.endpoint.fd = -1 ∨ c.endpoint.fd ∈ c.kernel.opened) {calls : ConnectCalls}
    (hnew : ∀ fd, calls.socket = .ok fd → (fd : Int) ∉ c.kernel.opened) (ip : String)
    (port : UInt16) :
    (∀ x c', Connection.connect calls ip port c = .throws x c' → Untouched calls c c') ↔
      ¬ calls.OnlyNameFails :=
  untouched_iff hc hnew

/-- Descriptor 5 is connected to port 80 of a host. -/
def connectedClient : Tcp.Client :=
  ⟨⟨⟨5, [104, 105]⟩, "10.0.0.1", "10.0.0.9", 40000, 80⟩, ⟨[5], []⟩⟩

theorem connect_refused_untouched :
    Untouched ⟨.ok 6, true, false, .error "EBADF"⟩ connectedClient connectedClient := by
  refine (connect_untouched_iff (.inr (by decide)) (fun fd hfd => ?_) "10.0.0.2" 8080).mpr ?_
    _ _ rfl
  · cases hfd
    decide
  · rintro ⟨-, -, hconnected, -⟩
    cases hconnected

theorem unnamed_connect_drops_the_old :
    ¬ ∀ (c : Tcp.Client) (calls : ConnectCalls) (ip : String) (port : UInt16),
      (c.endpoint.fd = -1 ∨ c.endpoint.fd ∈ c.kernel.opened) →
      (∀ fd, calls.socket = .ok fd → (fd : Int) ∉ c.kernel.opened) →
      ∀ x c', Connection.connect calls ip port c = .throws x c' → Untouched calls c c' := by
  intro h
  have huntouched := h connectedClient ⟨.ok 6, true, true, .error "ENOBUFS"⟩ "10.0.0.2" 8080
    (.inr (by decide)) (fun fd hfd => by cases hfd; decide) _ _ rfl
  exact absurd huntouched.endpoint (by decide)

end AdvCppTP.Http
