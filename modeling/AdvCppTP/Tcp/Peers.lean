import AdvCppTP.Tcp.Connect
import AdvCppTP.Tcp.Reading

/-! Whose bytes are in `buffer_`, over the calls of one `tcp::Connection` that connects, reads and
closes any number of times. -/

namespace AdvCppTP.Tcp

open Lib

def connectErrors : ConnectErrors Thrown :=
  ⟨.socketError, .badIpAddress, .connectionError, .socketError⟩

/-- A connection with how many bytes it had received at the later of its last `connect` and its last
`clear_buffer`, and at the latter. -/
structure Session where
  client : Client
  staticBuffer : Option Bytes
  recvs : List RecvCall
  peerFrom : Nat
  clearedFrom : Nat

def Session.init (kernel : Kernel) (staticBuffer : Option Bytes) : Session :=
  ⟨⟨.new, kernel⟩, staticBuffer, [], 0, 0⟩

def Session.received (s : Session) : Bytes := receivedBytes s.recvs

/-- What has been received from the current peer and not been cleared. -/
def Session.current (s : Session) : Bytes := s.received.drop s.peerFrom

def Session.uncleared (s : Session) : Bytes := s.received.drop s.clearedFrom

def Session.buffer (s : Session) : Bytes := s.client.endpoint.buffer

def Session.reader (s : Session) : Reader :=
  ⟨s.client.endpoint.toConnection, s.client.kernel, s.staticBuffer, s.recvs⟩

def Session.withReader (s : Session) (r : Reader) : Session :=
  { s with
    client := ⟨{ s.client.endpoint with toConnection := r.connection }, r.kernel⟩
    staticBuffer := r.staticBuffer
    recvs := r.recvs }

inductive PeerCall
  | connect (ip : String) (port : UInt16) (calls : ConnectCalls)
  | read (size : Nat) (outcome : Received)
  | readExact (len : Nat) (errno : String) (outcomes : List Received)
  | clearBuffer
  | close

def completed {S α : Type*} : Outcome Thrown S α → Except (Option Thrown) S
  | .returns _ s => .ok s
  | .throws x _ => .error (some x)
  | .waits _ => .error none

def Session.step (maxSize : Nat) (s : Session) : PeerCall → Except (Option Thrown) Session
  | .connect ip port calls =>
    (completed (connect connectErrors calls ip port s.client)).map fun client =>
      { s with client, peerFrom := s.received.length }
  | .read size outcome => (completed (Tcp.read maxSize size outcome s.reader)).map s.withReader
  | .readExact len errno outcomes =>
    (completed (Tcp.readExact maxSize len errno outcomes s.reader)).map s.withReader
  | .clearBuffer =>
    .ok { s with
      client.endpoint.buffer := []
      peerFrom := s.received.length
      clearedFrom := s.received.length }
  | .close => .ok { s with client := s.client.close }

/-- The call returns, and `::recv` has written no further than to the end of its buffer. -/
def Session.Succeeds (maxSize : Nat) (s : Session) (c : PeerCall) : Prop :=
  ∃ s', s.step maxSize c = .ok s' ∧ ∀ r ∈ s'.recvs, r.received.length ≤ r.room

def Session.KeepsCurrent (maxSize : Nat) (s : Session) (c : PeerCall) : Prop :=
  ∀ s', s.step maxSize c = .ok s' → s'.buffer = s'.current

/-- A `connect` comes when all that has been received has been cleared. -/
def Session.ConnectsCleared (s : Session) : PeerCall → Prop
  | .connect _ _ _ => s.uncleared = []
  | _ => True

/-- The buffer is never cleared but by `clear_buffer`. -/
structure Session.Accounted (s : Session) : Prop where
  buffer : s.buffer = s.uncleared
  peerFrom : s.peerFrom ≤ s.received.length
  clearedFrom : s.clearedFrom ≤ s.received.length

theorem connect_returns {X : Type*} {errors : ConnectErrors X} {calls : ConnectCalls}
    {ip : String} {port : UInt16} {c c' : Client}
    (h : connect errors calls ip port c = .returns () c') :
    ∃ fd srcAddr srcPort, c' = { adoptSocket ip port fd (c.withSocket fd) with
      endpoint.srcAddr := srcAddr, endpoint.srcPort := srcPort } := by
  obtain ⟨errno, x, -, hconnect⟩ | ⟨fd, x, -, -, hconnect⟩ | ⟨fd, -, -, -, hconnect⟩ :=
    connect_cases errors calls ip port c
  · cases hconnect.symm.trans h
  · cases hconnect.symm.trans h
  · rw [getBindedIpPort] at hconnect
    rcases hname : calls.getsockname with errno | name
    · rw [hname] at hconnect
      cases hconnect.symm.trans h
    · rw [hname] at hconnect
      cases hconnect.symm.trans h
      exact ⟨fd, name.1, name.2, rfl⟩

theorem returns_of_map_completed {S T α : Type*} {o : Outcome Thrown S α} {f : S → T} {t : T}
    (h : (completed o).map f = .ok t) : ∃ a s, o = .returns a s ∧ f s = t := by
  cases o with
  | returns a s => exact ⟨a, s, rfl, Except.ok.inj h⟩
  | throws x s => cases h
  | waits s => cases h

/-- A read that has not written behind its buffer adds the same to it and to what has been
received. -/
theorem Session.withReader_received {s : Session} {r : Reader} (h : s.reader.GrownFrom r)
    (hwithin : ∀ c ∈ r.recvs, c.received.length ≤ c.room) :
    ∃ bytes, (s.withReader r).received = s.received ++ bytes ∧
      (s.withReader r).buffer = s.buffer ++ bytes := by
  obtain ⟨new, hrecvs, hbuffer, happended⟩ := h
  have hsame : new.flatMap RecvCall.appended = receivedBytes new := by
    rw [receivedBytes, List.flatMap_def, List.flatMap_def]
    congr 1
    refine List.map_congr_left fun c hc => ?_
    rw [happended c hc]
    exact List.take_of_length_le (hwithin c (hrecvs ▸ List.mem_append_right _ hc))
  refine ⟨receivedBytes new, ?_, hsame ▸ hbuffer⟩
  show receivedBytes r.recvs = receivedBytes s.recvs ++ receivedBytes new
  rw [hrecvs, receivedBytes, List.flatMap_append]
  rfl

theorem Session.Accounted.read {s : Session} (h : s.Accounted) (hcurrent : s.buffer = s.current)
    {r : Reader} (hgrown : s.reader.GrownFrom r)
    (hwithin : ∀ c ∈ r.recvs, c.received.length ≤ c.room) :
    (s.withReader r).Accounted ∧ (s.withReader r).buffer = (s.withReader r).current := by
  obtain ⟨bytes, hreceived, hbuffer⟩ := Session.withReader_received hgrown hwithin
  have hdrop : ∀ n, n ≤ s.received.length →
      (s.withReader r).received.drop n = s.received.drop n ++ bytes := by
    intro n hn
    rw [hreceived, List.drop_append_of_le_length hn]
  have hlength : s.received.length ≤ (s.withReader r).received.length := by
    rw [hreceived, List.length_append]
    omega
  refine ⟨⟨?_, h.peerFrom.trans hlength, h.clearedFrom.trans hlength⟩, ?_⟩
  · rw [hbuffer, h.buffer]
    exact (hdrop _ h.clearedFrom).symm
  · rw [hbuffer, hcurrent]
    exact (hdrop _ h.peerFrom).symm

theorem Session.Accounted.step {maxSize : Nat} {s s' : Session} (h : s.Accounted)
    (hcurrent : s.buffer = s.current) {c : PeerCall} (hstep : s.step maxSize c = .ok s')
    (hwithin : ∀ r ∈ s'.recvs, r.received.length ≤ r.room) :
    s'.Accounted ∧ (s'.buffer = s'.current ↔ s.ConnectsCleared c) := by
  cases c with
  | connect ip port calls =>
    obtain ⟨_, client, hreturns, rfl⟩ := returns_of_map_completed hstep
    obtain ⟨fd, srcAddr, srcPort, rfl⟩ := connect_returns hreturns
    have hbuffer := h.buffer
    refine ⟨⟨hbuffer, Nat.le_refl _, h.clearedFrom⟩, ?_⟩
    show s.buffer = s.received.drop s.received.length ↔ s.uncleared = []
    rw [List.drop_length, hbuffer]
  | read size outcome =>
    obtain ⟨n, r, hreturns, rfl⟩ := returns_of_map_completed hstep
    have hgrown :=
      read_grown s.reader maxSize size (some outcome) s.reader s.reader.grownFrom_refl
    rw [hreturns] at hgrown
    obtain ⟨haccounted, hsame⟩ := h.read hcurrent hgrown hwithin
    exact ⟨haccounted, iff_of_true hsame trivial⟩
  | readExact len errno outcomes =>
    obtain ⟨n, r, hreturns, rfl⟩ := returns_of_map_completed hstep
    have hgrown :=
      readExact_grown s.reader maxSize len errno outcomes s.reader s.reader.grownFrom_refl
    rw [hreturns] at hgrown
    obtain ⟨haccounted, hsame⟩ := h.read hcurrent hgrown hwithin
    exact ⟨haccounted, iff_of_true hsame trivial⟩
  | clearBuffer =>
    obtain rfl := Except.ok.inj hstep
    have hempty : s.received.drop s.received.length = [] := List.drop_length
    exact ⟨⟨hempty.symm, Nat.le_refl _, Nat.le_refl _⟩, iff_of_true hempty.symm trivial⟩
  | close =>
    obtain rfl := Except.ok.inj hstep
    exact ⟨⟨h.buffer, h.peerFrom, h.clearedFrom⟩, iff_of_true hcurrent trivial⟩

/-- Over calls that succeed, `buffer_` has the bytes of the current peer and no others exactly if no
`connect` finds bytes there that have not been cleared. -/
theorem buffer_of_current_peer_iff (maxSize : Nat) (kernel : Kernel) (staticBuffer : Option Bytes)
    {calls : List PeerCall}
    (hcalls : Throughout (Session.step maxSize) (Session.Succeeds maxSize)
      (.init kernel staticBuffer) calls) :
    Throughout (Session.step maxSize) (Session.KeepsCurrent maxSize) (.init kernel staticBuffer)
        calls ↔
      Throughout (Session.step maxSize) Session.ConnectsCleared (.init kernel staticBuffer)
        calls := by
  refine throughout_congr_of (I := fun s => s.Accounted ∧ s.buffer = s.current)
    (fun s c hs hc => ?_) (fun s c s' hs hc hcleared hstep => ?_)
    ⟨⟨rfl, Nat.le_refl _, Nat.le_refl _⟩, rfl⟩ hcalls
  · obtain ⟨s', hstep, hwithin⟩ := hc
    rw [← (hs.1.step hs.2 hstep hwithin).2]
    refine ⟨fun h => h s' hstep, fun h s₁ hstep₁ => ?_⟩
    obtain rfl := Except.ok.inj (hstep.symm.trans hstep₁)
    exact h
  · obtain ⟨s₁, hstep₁, hwithin⟩ := hc
    obtain rfl := Except.ok.inj (hstep.symm.trans hstep₁)
    obtain ⟨haccounted, hiff⟩ := hs.1.step hs.2 hstep hwithin
    exact ⟨haccounted, hiff.mpr hcleared⟩

/-- A socket that is opened as `fd` and gets connected. -/
def connects (fd : Nat) : PeerCall :=
  .connect "127.0.0.1" 8080 ⟨.ok fd, true, true, .ok ("127.0.0.1", 40000)⟩

theorem buffer_of_current_peer_example :
    Throughout (Session.step 64) (Session.KeepsCurrent 64) (.init ⟨[1, 2], []⟩ none)
      [connects 3, .read 8 (.data [104, 105]), .clearBuffer, .close, connects 3] := by
  refine (buffer_of_current_peer_iff 64 ⟨[1, 2], []⟩ none ?_).mpr ?_
  · refine ⟨⟨_, rfl, by decide⟩, fun s₁ h₁ => ?_⟩
    cases h₁
    refine ⟨⟨_, rfl, by decide⟩, fun s₂ h₂ => ?_⟩
    cases h₂
    refine ⟨⟨_, rfl, by decide⟩, fun s₃ h₃ => ?_⟩
    cases h₃
    refine ⟨⟨_, rfl, by decide⟩, fun s₄ h₄ => ?_⟩
    cases h₄
    exact ⟨⟨_, rfl, by decide⟩, fun _ _ => trivial⟩
  · refine ⟨rfl, fun s₁ h₁ => ⟨trivial, fun s₂ h₂ => ⟨trivial, fun s₃ h₃ => ⟨trivial, ?_⟩⟩⟩⟩
    intro s₄ h₄
    cases h₁
    cases h₂
    cases h₃
    cases h₄
    exact ⟨rfl, fun _ _ => trivial⟩

/-- What the first peer has sent is there when the second one is connected. -/
theorem bytes_of_the_former_peer :
    ¬ ∀ (maxSize : Nat) (kernel : Kernel) (calls : List PeerCall),
      Throughout (Session.step maxSize) (Session.Succeeds maxSize) (.init kernel none) calls →
      Throughout (Session.step maxSize) (Session.KeepsCurrent maxSize) (.init kernel none)
        calls := by
  intro h
  obtain ⟨-, hrest⟩ := h 64 ⟨[1, 2], []⟩ [connects 3, .read 8 (.data [104, 105]), connects 4] (by
    refine ⟨⟨_, rfl, by decide⟩, fun s₁ h₁ => ?_⟩
    cases h₁
    refine ⟨⟨_, rfl, by decide⟩, fun s₂ h₂ => ?_⟩
    cases h₂
    exact ⟨⟨_, rfl, by decide⟩, fun _ _ => trivial⟩)
  obtain ⟨-, hrest⟩ := hrest _ rfl
  obtain ⟨hcurrent, -⟩ := hrest _ rfl
  exact absurd (hcurrent _ rfl) (by decide)

end AdvCppTP.Tcp
