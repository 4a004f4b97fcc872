import AdvCppTP.Tcp.EchoServer
import AdvCppTP.Tcp.Entries

/-! The traffic of each client of the echo server, over whole runs with any number of them. -/

namespace AdvCppTP.Tcp.EchoServer

open Lib

/-! ## Runs -/

/-- The entry of an open connection, registered for what it waits for. -/
structure Live (s : Server) (key : Int) (connection : Connection) : Prop where
  fd : connection.fd = key
  opened : key ∈ s.manager.kernel.opened
  interest : key ∈ s.manager.kernel.interest
  echoing : Echoing (s.registered key) connection.buffer (s.traffic key)

/-- The entry of a connection that its callback has closed. -/
structure Dead (s : Server) (key : Int) (connection : Connection) : Prop where
  fd : connection.fd = -1
  interest : key ∉ s.manager.kernel.interest
  finished : Finished connection.buffer (s.traffic key)

structure Serving (s : Server) : Prop where
  sized : Sized s.staticBuffer
  opened : ∀ fd ∈ s.manager.kernel.opened, 0 ≤ fd
  keys : ∀ key ∈ s.manager.slaveSockets, 0 ≤ key
  listed : ∀ fd ∈ s.manager.kernel.interest, fd ∈ s.manager.slaveSockets
  entries : ∀ key connection, s.manager.slaveSockets.lookup key = some connection →
    Live s key connection ∨ Dead s key connection

theorem serving_init (others : List Nat) : Serving (.init others) where
  sized := sized_none
  opened := (linked_init others).opened
  keys key hkey := absurd hkey (AList.notMem_empty key)
  listed fd hfd := absurd hfd List.not_mem_nil
  entries key connection hlook := by
    rw [Server.init, Manager.init, AList.lookup_empty] at hlook
    cases hlook

theorem Serving.live {s : Server} (h : Serving s) {key : Int}
    (hkey : key ∈ s.manager.kernel.interest) :
    ∃ connection, s.manager.slaveSockets.lookup key = some connection ∧ Live s key connection := by
  obtain ⟨connection, hlook⟩ := exists_lookup (h.listed key hkey)
  refine ⟨connection, hlook, (h.entries key connection hlook).resolve_right fun hdead => ?_⟩
  exact hdead.interest hkey

theorem Serving.settled {s : Server} (h : Serving s) : s.manager.Settled where
  entries key connection hlook := by
    obtain hlive | hdead := h.entries key connection hlook
    · exact .inl ⟨hlive.fd, hlive.opened⟩
    · exact .inr hdead.fd
  interest fd hfd := by
    obtain ⟨connection, -, hlive⟩ := h.live hfd
    exact hlive.opened

theorem Serving.accepted {s : Server} {manager : Manager} (h : Serving s)
    (hall : ∀ key, s.manager.Kept manager key ∨ s.manager.Came manager key) :
    Serving (s.accepted manager) where
  sized := h.sized
  opened fd hfd := by
    obtain hkept | hcame := hall fd
    · exact h.opened fd (hkept.opened.mp hfd)
    · exact hcame.nonneg
  keys key hkey := by
    obtain hkept | hcame := hall key
    · obtain ⟨connection, hlook⟩ := exists_lookup hkey
      exact h.keys key (mem_of_lookup (hkept.lookup.symm.trans hlook))
    · exact hcame.nonneg
  listed fd hfd := by
    obtain hkept | hcame := hall fd
    · obtain ⟨connection, hlook⟩ := exists_lookup (h.listed fd (hkept.interest.mp hfd))
      exact mem_of_lookup (hkept.lookup.trans hlook)
    · exact mem_of_lookup hcame.lookup
  entries key connection hlook := by
    obtain hkept | hcame := hall key
    · -- a descriptor that stays keeps its registration and its traffic
      have hold : ¬ (key ∉ s.manager.kernel.interest ∧ key ∈ manager.kernel.interest) :=
        fun hnew => hnew.1 (hkept.interest.mp hnew.2)
      have hregistered : (s.accepted manager).registered key = s.registered key := if_neg hold
      have htraffic : (s.accepted manager).traffic key = s.traffic key := if_neg hold
      obtain hlive | hdead := h.entries key connection (hkept.lookup.symm.trans hlook)
      · refine .inl ⟨hlive.fd, hkept.opened.mpr hlive.opened, hkept.interest.mpr hlive.interest, ?_⟩
        rw [hregistered, htraffic]
        exact hlive.echoing
      · refine .inr ⟨hdead.fd, hdead.interest ∘ hkept.interest.mp, ?_⟩
        rw [htraffic]
        exact hdead.finished
    · have hregistered : (s.accepted manager).registered key = readEvent :=
        if_pos ⟨hcame.new.2, hcame.interest⟩
      have htraffic : (s.accepted manager).traffic key = .none :=
        if_pos ⟨hcame.new.2, hcame.interest⟩
      obtain rfl := Option.some.inj (hcame.lookup.symm.trans hlook)
      refine .inl ⟨rfl, hcame.opened, hcame.interest, ?_⟩
      rw [hregistered, htraffic]
      exact ⟨rfl, fun send hsend => absurd hsend List.not_mem_nil, .inl ⟨rfl, filling_nil⟩⟩

/-- Nothing but the entry of `key`, its descriptor and what is kept of it has changed. -/
structure Frame (s s' : Server) (key : Int) : Prop where
  lookup : ∀ other ≠ key,
    s'.manager.slaveSockets.lookup other = s.manager.slaveSockets.lookup other
  opened : ∀ other ≠ key, other ∈ s'.manager.kernel.opened ↔ other ∈ s.manager.kernel.opened
  interest : ∀ other ≠ key, other ∈ s'.manager.kernel.interest ↔ other ∈ s.manager.kernel.interest
  registered : ∀ other ≠ key, s'.registered other = s.registered other
  traffic : ∀ other ≠ key, s'.traffic other = s.traffic other

theorem Serving.framed {s s' : Server} {key : Int} (h : Serving s) (hframe : Frame s s' key)
    (hkey : 0 ≤ key) (hsized : Sized s'.staticBuffer)
    (hlisted : key ∈ s'.manager.kernel.interest → key ∈ s'.manager.slaveSockets)
    (hentry : ∀ connection, s'.manager.slaveSockets.lookup key = some connection →
      Live s' key connection ∨ Dead s' key connection) : Serving s' where
  sized := hsized
  opened fd hfd := by
    rcases eq_or_ne fd key with rfl | hne
    · exact hkey
    · exact h.opened fd ((hframe.opened fd hne).mp hfd)
  keys other hother := by
    rcases eq_or_ne other key with rfl | hne
    · exact hkey
    · obtain ⟨connection, hlook⟩ := exists_lookup hother
      exact h.keys other (mem_of_lookup ((hframe.lookup other hne).symm.trans hlook))
  listed fd hfd := by
    rcases eq_or_ne fd key with rfl | hne
    · exact hlisted hfd
    · obtain ⟨connection, hlook⟩ := exists_lookup (h.listed fd ((hframe.interest fd hne).mp hfd))
      exact mem_of_lookup ((hframe.lookup fd hne).trans hlook)
  entries other connection hlook := by
    rcases eq_or_ne other key with rfl | hne
    · exact hentry connection hlook
    · rw [hframe.lookup other hne] at hlook
      obtain hlive | hdead := h.entries other connection hlook
      · refine .inl ⟨hlive.fd, (hframe.opened other hne).mpr hlive.opened,
          (hframe.interest other hne).mpr hlive.interest, ?_⟩
        rw [hframe.registered other hne, hframe.traffic other hne]
        exact hlive.echoing
      · refine .inr ⟨hdead.fd, hdead.interest ∘ (hframe.interest other hne).mp, ?_⟩
        rw [hframe.traffic other hne]
        exact hdead.finished

/-- The callback of an event ends by an exception. -/
def Event.CallbackThrows (maxSize : Nat) (s : Server) : Event → Prop
  | .masterSocket _ => False
  | .client key event received sent _ =>
    hangsUp event = false ∧ ∃ connection, s.manager.slaveSockets.lookup key = some connection ∧
      (callback maxSize received sent
        ⟨⟨connection, event, s.manager.kernel⟩, s.staticBuffer, s.traffic key⟩).2 = true

/-- What makes the callback of an event throw. -/
def Event.Throws (s : Server) : Event → Prop
  | .masterSocket _ => False
  | .client key event received sent _ =>
    hangsUp event = false ∧ ∃ connection, s.manager.slaveSockets.lookup key = some connection ∧
      EchoServer.Throws event connection.buffer received sent

theorem Serving.throws_iff {s : Server} {key : Int} {connection : Connection}
    (hlook : s.manager.slaveSockets.lookup key = some connection) {event : UInt32}
    (hhup : hangsUp event = false) (received : Received) (sent : Sent) (failure : Option String) :
    Event.Throws s (.client key event received sent failure) ↔
      EchoServer.Throws event connection.buffer received sent := by
  constructor
  · rintro ⟨-, connection', hlook', hthrows⟩
    obtain rfl := Option.some.inj (hlook.symm.trans hlook')
    exact hthrows
  · intro hthrows
    exact ⟨hhup, connection, hlook, hthrows⟩

/-- What is reported of a descriptor that is registered for one event is that event. -/
theorem event_eq {registered event : UInt32}
    (hphase : registered = readEvent ∨ registered = writeEvent) (hne : event ≠ 0)
    (hin : event &&& registered = event) : event = registered := by
  have hle : event.toNat ≤ registered.toNat := by
    rw [← hin, UInt32.toNat_and]
    exact Nat.and_le_right
  have hbits : event = 0 ∨ event = 1 ∨ event = 2 ∨ event = 3 ∨ event = 4 := by
    simp only [← UInt32.toNat_inj]
    have hfour : registered.toNat ≤ 4 := by
      obtain rfl | rfl := hphase
      · decide
      · decide
    change event.toNat = 0 ∨ event.toNat = 1 ∨ event.toNat = 2 ∨ event.toNat = 3 ∨ event.toNat = 4
    omega
  obtain rfl | rfl := hphase
  · rcases hbits with rfl | rfl | rfl | rfl | rfl <;> revert hne hin <;> decide
  · rcases hbits with rfl | rfl | rfl | rfl | rfl <;> revert hne hin <;> decide

/-- `deleteConnection` of an open connection. -/
theorem Serving.erased {s : Server} {key : Int} (h : Serving s) (hkey : 0 ≤ key) :
    Serving { s with
      manager := ⟨s.manager.slaveSockets.erase key, s.manager.kernel.close key⟩ } := by
  have hframe : Frame s { s with
      manager := ⟨s.manager.slaveSockets.erase key, s.manager.kernel.close key⟩ } key := by
    refine ⟨?_, ?_, ?_, fun _ _ => rfl, fun _ _ => rfl⟩
    · exact fun _ hne => AList.lookup_erase_ne hne
    · exact fun _ hne => Kernel.mem_close_opened.trans (and_iff_left hne)
    · exact fun _ hne => Kernel.mem_close_interest.trans (and_iff_left hne)
  refine h.framed hframe hkey h.sized ?_ ?_
  · exact fun hreg => absurd rfl (Kernel.mem_close_interest.mp hreg).2
  · intro connection hlook
    rw [AList.lookup_erase] at hlook
    cases hlook

theorem traffic_after (s : Server) (key : Int) (oldEvent : UInt16) (t : Turn) (manager : Manager) :
    (s.after key oldEvent t manager).traffic key = t.traffic :=
  Function.update_self _ _ _

theorem registered_after (s : Server) (key : Int) (oldEvent : UInt16) (t : Turn)
    (manager : Manager) : (s.after key oldEvent t manager).registered key =
      registeredAfter oldEvent t.call (s.registered key) :=
  Function.update_self _ _ _

theorem frame_after {s : Server} {key : Int} (oldEvent : UInt16) {t : Turn}
    (hopened : ∀ other ≠ key, other ∈ t.call.kernel.opened ↔ other ∈ s.manager.kernel.opened)
    (hinterest : ∀ other ≠ key,
      other ∈ t.call.kernel.interest ↔ other ∈ s.manager.kernel.interest) :
    Frame s (s.after key oldEvent t
      ⟨s.manager.slaveSockets.insert key t.call.connection, t.call.kernel⟩) key where
  lookup _ hne := AList.lookup_insert_ne hne
  opened := hopened
  interest := hinterest
  registered _ hne := Function.update_of_ne hne _ _
  traffic _ hne := Function.update_of_ne hne _ _

section

variable {s : Server} (h : Serving s) {key : Int} (hkey : 0 ≤ key) (oldEvent : UInt16) {t : Turn}
  (hsized : Sized t.staticBuffer)

include h hkey hsized

theorem Serving.after_closed (hfd : t.call.connection.fd = -1)
    (hkernel : t.call.kernel = s.manager.kernel.close key)
    (hfinished : Finished t.buffer t.traffic) :
    Serving (s.after key oldEvent t
      ⟨s.manager.slaveSockets.insert key t.call.connection, t.call.kernel⟩) := by
  have hunregistered : key ∉ t.call.kernel.interest := by
    rw [hkernel, Kernel.mem_close_interest]
    exact fun hin => hin.2 rfl
  refine h.framed (frame_after oldEvent ?_ ?_) hkey hsized (fun hin => absurd hin hunregistered) ?_
  · intro other hne
    rw [hkernel, Kernel.mem_close_opened]
    exact and_iff_left hne
  · intro other hne
    rw [hkernel, Kernel.mem_close_interest]
    exact and_iff_left hne
  · intro connection hlook
    obtain rfl := Option.some.inj ((AList.lookup_insert _).symm.trans hlook)
    refine .inr ⟨hfd, hunregistered, ?_⟩
    rw [traffic_after]
    exact hfinished

theorem Serving.after_kept {connection : Connection} (hlive : Live s key connection)
    (hold : oldEvent.toUInt32 = s.registered key) (hfd : t.call.connection.fd = key)
    (hkernel : t.call.kernel = s.manager.kernel)
    (hechoing : Echoing t.call.event t.buffer t.traffic) :
    Serving (s.after key oldEvent t
      ⟨s.manager.slaveSockets.insert key t.call.connection, t.call.kernel⟩) := by
  have hopened := isOpened_of_mem hkey hfd (hkernel ▸ hlive.opened)
  -- `changeEvent` is called for each event that is not the one registered
  have hregistered : registeredAfter oldEvent t.call (s.registered key) = t.call.event := by
    unfold registeredAfter
    split
    case isTrue => rfl
    case isFalse hsame =>
      rw [← hold]
      exact Decidable.of_not_not fun hne => hsame ⟨hopened, hne⟩
  refine h.framed (frame_after oldEvent (fun other hne => by rw [hkernel])
    fun other hne => by rw [hkernel]) hkey hsized (fun _ => (AList.mem_insert _).mpr (.inl rfl)) ?_
  intro connection' hlook
  obtain rfl := Option.some.inj ((AList.lookup_insert _).symm.trans hlook)
  refine .inl ⟨hfd, hkernel ▸ hlive.opened, hkernel ▸ hlive.interest, ?_⟩
  rw [registered_after, traffic_after, hregistered]
  exact hechoing

end

/-- What is reported of a client that has not hung up is what it is registered for. -/
theorem Live.event_eq {s : Server} {key : Int} {connection : Connection}
    (hlive : Live s key connection) {event : UInt32} (hhup : hangsUp event = false)
    (hreport : hangsUp event = true ∨ event ≠ 0 ∧ event &&& s.registered key = event) :
    event = s.registered key ∧ event.toUInt16.toUInt32 = s.registered key := by
  have hphase := hlive.echoing.phase.imp And.left And.left
  have hevent : event = s.registered key := by
    obtain hhup' | ⟨hne, hsub⟩ := hreport
    · rw [hhup] at hhup'
      cases hhup'
    · exact EchoServer.event_eq hphase hne hsub
  refine ⟨hevent, ?_⟩
  rw [hevent]
  obtain hphase | hphase := hphase
  · rw [hphase]
    rfl
  · rw [hphase]
    rfl

/-- What follows a callback of an open connection, by how it has left its turn. -/
theorem Serving.called {s : Server} (h : Serving s) {key : Int} (hkey : 0 ≤ key)
    {connection : Connection} (hlive : Live s key connection) {event : UInt32}
    {oldEvent : UInt16} (hold : oldEvent.toUInt32 = s.registered key) {throws : Prop}
    {r : Turn × Bool} (hleft : Left
      ⟨⟨connection, event, s.manager.kernel⟩, s.staticBuffer, s.traffic key⟩ throws r)
    (failure : Option String) :
    throws ∧ (afterCallback key oldEvent failure s.manager (r.1.call, r.2)).map
        (s.after key oldEvent r.1) = .error .undefined ∨
      ¬ throws ∧
        ((∃ s', (afterCallback key oldEvent failure s.manager (r.1.call, r.2)).map
            (s.after key oldEvent r.1) = .ok s' ∧ Serving s') ∨
          ∃ error, (afterCallback key oldEvent failure s.manager (r.1.call, r.2)).map
            (s.after key oldEvent r.1) = .error (.threw error)) := by
  cases hleft with
  | threw hthrows t' hfd =>
    refine .inl ⟨hthrows, ?_⟩
    rw [afterCallback_threw hkey _ failure (hfd.trans hlive.fd)]
    rfl
  | closed hthrows t' hsized hfd hkernel hfinished =>
    rw [hlive.fd] at hkernel
    refine .inr ⟨hthrows, .inl ⟨_, ?_,
      h.after_closed hkey oldEvent hsized hfd hkernel hfinished⟩⟩
    rw [afterCallback_closed hkey _ failure h.keys hfd]
    rfl
  | kept hthrows t' hsized hfd hkernel hechoing =>
    refine .inr ⟨hthrows, ?_⟩
    obtain hok | ⟨error, herror⟩ := afterCallback_kept (m := s.manager) hkey oldEvent failure
      (hfd.trans hlive.fd) (hkernel ▸ hlive.opened)
    · refine .inl ⟨_, ?_, h.after_kept hkey oldEvent hsized hlive hold (hfd.trans hlive.fd)
        hkernel hechoing⟩
      rw [hok]
      rfl
    · refine .inr ⟨error, ?_⟩
      rw [herror]
      rfl

/-- An event of a client: its callback throws, and what follows is undefined, or the event is
handled, if the kernel lets it. -/
theorem Serving.client {maxSize : Nat} (hmax : maxBytesRead + 1 ≤ maxSize) {s : Server}
    (h : Serving s) {key : Int} {event : UInt32} {received : Received} {sent : Sent}
    {failure : Option String} (hhonest : Honest s (.client key event received sent failure)) :
    Event.Throws s (.client key event received sent failure) ∧
        handleClient maxSize key event received sent failure s = .error .undefined ∨
      ¬ Event.Throws s (.client key event received sent failure) ∧
        ((∃ s', handleClient maxSize key event received sent failure s = .ok s' ∧ Serving s') ∨
          ∃ error, handleClient maxSize key event received sent failure s =
            .error (.threw error)) := by
  obtain ⟨hin, hreport⟩ := hhonest
  obtain ⟨connection, hlook, hlive⟩ := h.live hin
  have hkey := h.keys key (mem_of_lookup hlook)
  unfold handleClient
  simp only [hlook]
  cases hhup : hangsUp event with
  | true =>
    refine .inr ⟨fun hthrows => ?_, .inl ⟨_, if_pos rfl, ?_⟩⟩
    · rw [Event.Throws, hhup] at hthrows
      exact Bool.noConfusion hthrows.1
    · rw [s.manager.deleteConnection_of_lookup hkey hlive.fd hlook]
      exact h.erased hkey
  | false =>
    obtain ⟨hevent, hold⟩ := hlive.event_eq hhup hreport
    have hleft := callback_left
      (t := ⟨⟨connection, event, s.manager.kernel⟩, s.staticBuffer, s.traffic key⟩) h.sized
      (hlive.fd ▸ hkey) hmax (hevent ▸ hlive.echoing) received sent
    rw [Serving.throws_iff hlook hhup]
    simp only [Bool.false_eq_true, if_false]
    exact h.called hkey hlive hold hleft failure

/-- What an honest event does to a server. -/
theorem Serving.step {maxSize : Nat} (hmax : maxBytesRead + 1 ≤ maxSize) {s : Server}
    (h : Serving s) {e : Event} (hhonest : Honest s e) :
    e.Throws s ∧ step maxSize s e = .error .undefined ∨
      ¬ e.Throws s ∧ ((∃ s', step maxSize s e = .ok s' ∧ Serving s') ∨
        ∃ error, step maxSize s e = .error (.threw error)) := by
  cases e with
  | client key event received sent failure => exact h.client hmax hhonest
  | masterSocket outcomes =>
    refine .inr ⟨id, ?_⟩
    simp only [EchoServer.step]
    rcases hresult : acceptClients outcomes s.manager with (error | _) | manager
    · exact .inr ⟨error, rfl⟩
    · exact absurd hresult (acceptClients_defined outcomes s.manager)
    · exact .inl ⟨_, rfl, h.accepted (h.settled.acceptClients hhonest hresult)⟩

theorem Serving.keeps {maxSize : Nat} (hmax : maxBytesRead + 1 ≤ maxSize) {s s' : Server}
    {e : Event} (h : Serving s) (hhonest : Honest s e)
    (hstep : EchoServer.step maxSize s e = .ok s') : Serving s' := by
  obtain ⟨-, hundefined⟩ | ⟨-, ⟨s₁, hok, hserving⟩ | ⟨error, herror⟩⟩ := h.step hmax hhonest
  · cases hundefined.symm.trans hstep
  · exact Except.ok.inj (hok.symm.trans hstep) ▸ hserving
  · cases herror.symm.trans hstep

/-- A client sends `histop`, and `::send` takes one byte of what is left of it. -/
def stopRun : List Event :=
  [.masterSocket [.connected 5 true none none, .wouldBlock],
    .client 5 1 (.data [104, 105, 115, 116, 111, 112]) .failed none,
    .client 5 4 (.failed "") (.bytes 1) none]

set_option maxRecDepth 8192 in
theorem stopRun_honest : Throughout (step 1024) Honest (.init [3, 4]) stopRun := by
  refine ⟨acceptsNew_one (by decide), fun s₁ h₁ => ?_⟩
  cases h₁
  refine ⟨⟨List.mem_cons_self, .inr ⟨by decide, rfl⟩⟩, fun s₂ h₂ => ?_⟩
  cases h₂
  exact ⟨⟨List.mem_cons_self, .inr ⟨by decide, rfl⟩⟩, fun _ _ => trivial⟩

/-- In every state a server gets to, whatever its clients do, all that an open connection has
received was handed to `::send` by packets of `packetSize` bytes or little more, in order, or waits
in its buffer; of a closed one it is all but what came behind the last packet. The clients have got
that back exactly if each `::send` took all it was given. -/
theorem clients_accounted {maxSize : Nat} (hmax : maxBytesRead + 1 ≤ maxSize) (others : List Nat)
    {es : List Event} (hhonest : Throughout (step maxSize) Honest (.init others) es) {s : Server}
    (hrun : es.foldlM (step maxSize) (.init others) = .ok s) {key : Int} {connection : Connection}
    (hlook : s.manager.slaveSockets.lookup key = some connection) :
    (Live s key connection ∨ Dead s key connection) ∧
      ((s.traffic key).echoed = (s.traffic key).handed ↔
        ∀ send ∈ (s.traffic key).sends, send.taken = send.data.length) := by
  have hserving := foldlM_invariant_throughout (fun _ _ _ hs he => hs.keeps hmax he)
    (serving_init others) hhonest hrun
  have hentry := hserving.entries key connection hlook
  refine ⟨hentry, echoed_eq_handed_iff _ ?_⟩
  obtain hlive | hdead := hentry
  · exact fun send hsend => (hlive.echoing.packets send hsend).2.2
  · exact hdead.finished.taken

set_option maxRecDepth 8192 in
theorem clients_accounted_stop : ∃ s connection,
    stopRun.foldlM (step 1024) (.init [3, 4]) = .ok s ∧
      s.manager.slaveSockets.lookup 5 = some connection ∧
      (Live s 5 connection ∨ Dead s 5 connection) ∧
      ((s.traffic 5).echoed = (s.traffic 5).handed ↔
        ∀ send ∈ (s.traffic 5).sends, send.taken = send.data.length) :=
  ⟨_, _, rfl, rfl, clients_accounted (by decide) [3, 4] stopRun_honest rfl rfl⟩

theorem Serving.callbackThrows_iff {maxSize : Nat} (hmax : maxBytesRead + 1 ≤ maxSize)
    {s : Server} (h : Serving s) {e : Event} (hhonest : Honest s e) :
    e.CallbackThrows maxSize s ↔ e.Throws s := by
  cases e with
  | masterSocket outcomes => exact Iff.rfl
  | client key event received sent failure =>
    obtain ⟨hin, hreport⟩ := hhonest
    obtain ⟨connection, hlook, hlive⟩ := h.live hin
    refine and_congr_right fun hhup => exists_congr fun connection' => and_congr_right fun heq => ?_
    obtain rfl := Option.some.inj (hlook.symm.trans heq)
    obtain ⟨hevent, -⟩ := hlive.event_eq hhup hreport
    exact (callback_left
      (t := ⟨⟨connection, event, s.manager.kernel⟩, s.staticBuffer, s.traffic key⟩) h.sized
      (hlive.fd ▸ h.keys key (mem_of_lookup hlook)) hmax (hevent ▸ hlive.echoing) received
      sent).threw_iff

/-- A server's run has only effects that C++ defines exactly if no callback on it throws, and a
callback throws exactly where `::recv` or `::send` fails or a packet begins with less than 4
bytes. -/
theorem defined_iff {maxSize : Nat} (hmax : maxBytesRead + 1 ≤ maxSize) (others : List Nat)
    {es : List Event} (hhonest : Throughout (step maxSize) Honest (.init others) es) :
    (Throughout (step maxSize) (fun s e => step maxSize s e ≠ .error .undefined)
        (.init others) es ↔
      Throughout (step maxSize) (fun s e => ¬ e.CallbackThrows maxSize s) (.init others) es) ∧
    (Throughout (step maxSize) (fun s e => step maxSize s e ≠ .error .undefined)
        (.init others) es ↔
      Throughout (step maxSize) (fun s e => ¬ e.Throws s) (.init others) es) ∧
    Throughout (step maxSize) (fun s e => e.CallbackThrows maxSize s ↔ e.Throws s)
      (.init others) es := by
  have hdefined : Throughout (step maxSize) (fun s e => step maxSize s e ≠ .error .undefined)
      (.init others) es ↔
      Throughout (step maxSize) (fun s e => ¬ e.Throws s) (.init others) es := by
    refine throughout_congr_of (I := Serving) (fun s e hs he => ?_)
      (fun _ _ _ hs he _ => hs.keeps hmax he) (serving_init others) hhonest
    obtain ⟨hthrows, hundefined⟩ | ⟨hthrows, ⟨s₁, hok, -⟩ | ⟨error, herror⟩⟩ := hs.step hmax he
    · exact iff_of_false (fun h => h hundefined) fun h => h hthrows
    · refine iff_of_true (fun hundefined => ?_) hthrows
      cases hok.symm.trans hundefined
    · refine iff_of_true (fun hundefined => ?_) hthrows
      cases herror.symm.trans hundefined
  refine ⟨hdefined.trans ?_, hdefined, ?_⟩
  · exact throughout_congr_of (I := Serving)
      (fun _ _ hs he => not_congr (hs.callbackThrows_iff hmax he).symm)
      (fun _ _ _ hs he _ => hs.keeps hmax he) (serving_init others) hhonest
  · exact throughout_of_throughout (I := Serving) (fun _ _ hs he => hs.callbackThrows_iff hmax he)
      (fun _ _ _ hs he => hs.keeps hmax he) (serving_init others) hhonest

theorem defined_iff_stop :
    (Throughout (step 1024) (fun s e => step 1024 s e ≠ .error .undefined) (.init [3, 4]) stopRun ↔
      Throughout (step 1024) (fun s e => ¬ e.CallbackThrows 1024 s) (.init [3, 4]) stopRun) ∧
    (Throughout (step 1024) (fun s e => step 1024 s e ≠ .error .undefined) (.init [3, 4]) stopRun ↔
      Throughout (step 1024) (fun s e => ¬ e.Throws s) (.init [3, 4]) stopRun) ∧
    Throughout (step 1024) (fun s e => e.CallbackThrows 1024 s ↔ e.Throws s) (.init [3, 4])
      stopRun :=
  defined_iff (by decide) [3, 4] stopRun_honest

end AdvCppTP.Tcp.EchoServer
