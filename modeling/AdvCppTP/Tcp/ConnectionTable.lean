import AdvCppTP.Lib.Emplace
import AdvCppTP.Lib.Runs
import AdvCppTP.Tcp.EpollManager

/-! Whether `slaveSockets_` holds its connections under their descriptors, over whole runs of
`EpollManager`. -/

namespace AdvCppTP.Tcp

/-- Every entry is that of the open descriptor it is looked up by. -/
def Manager.Faithful (m : Manager) : Prop :=
  ∀ key connection, m.slaveSockets.lookup key = some connection →
    connection.fd = key ∧ connection.fd ∈ m.kernel.opened

/-- A faithful table which the kernel's set has no descriptors beside. -/
structure Manager.Linked (m : Manager) : Prop where
  faithful : m.Faithful
  opened : ∀ fd ∈ m.kernel.opened, 0 ≤ fd
  registered : ∀ fd ∈ m.kernel.interest, fd ∈ m.slaveSockets

theorem linked_init (others : List Nat) : (Manager.init others).Linked where
  faithful key connection h := by
    rw [Manager.init, AList.lookup_empty] at h
    cases h
  opened fd h := by
    obtain ⟨n, -, rfl⟩ := List.mem_map.mp h
    exact Int.natCast_nonneg n
  registered fd h := absurd h List.not_mem_nil

theorem Manager.Linked.key_nonneg {m : Manager} (h : m.Linked) {key : Int}
    (hkey : key ∈ m.slaveSockets) : 0 ≤ key := by
  obtain ⟨connection, hlook⟩ := Lib.exists_lookup hkey
  obtain ⟨hfd, hopen⟩ := h.faithful key connection hlook
  exact hfd ▸ h.opened _ hopen

/-! ## The callback -/

/-- Neither a `close` nor anything that throws, as long as the connection is open. -/
def Action.harmless : Action → Bool
  | .read (some _) => true
  | .write true => true
  | .setEvent _ => true
  | _ => false

theorem callback_closed (actions : List Action) {c : Call} (h : c.connection.fd = -1) :
    (callback actions c).1.connection.fd = -1 ∧
      (callback actions c).1.kernel = c.kernel := by
  induction actions generalizing c with
  | nil => exact ⟨h, rfl⟩
  | cons action actions ih =>
    have hneg : c.connection.fd < 0 := by omega
    cases action with
    | read received =>
      cases received with
      | none => exact ⟨h, rfl⟩
      | some data =>
        rw [callback]
        simp only [hneg, if_true]
        exact ⟨h, trivial⟩
    | write sent =>
      rw [callback, if_pos (.inr hneg)]
      exact ⟨h, rfl⟩
    | setEvent event => exact ih (c := { c with event }) h
    | close =>
      have hkernel : (c.connection.close c.kernel).2 = c.kernel := if_neg (by omega)
      have hrest := ih (c := { c with
        connection := (c.connection.close c.kernel).1
        kernel := (c.connection.close c.kernel).2 }) rfl
      exact ⟨hrest.1, hrest.2.trans hkernel⟩
    | throw => exact ⟨h, rfl⟩

/-- How a callback leaves its connection: open, and then it throws unless all of it is harmless, or
closed. -/
theorem callback_cases (actions : List Action) {c : Call} (h : 0 ≤ c.connection.fd) :
    (callback actions c).1.connection.fd = c.connection.fd ∧
        (callback actions c).1.kernel = c.kernel ∧
        ((callback actions c).2 = false ↔ ∀ action ∈ actions, action.harmless = true) ∨
      (callback actions c).1.connection.fd = -1 ∧
        (callback actions c).1.kernel = c.kernel.close c.connection.fd ∧
        ¬ ∀ action ∈ actions, action.harmless = true := by
  -- by induction on the actions; the first that throws or closes decides
  induction actions generalizing c with
  | nil => exact .inl ⟨rfl, rfl, by simp [callback]⟩
  | cons action actions ih =>
    have hneg : ¬ c.connection.fd < 0 := by omega
    rw [List.forall_mem_cons]
    cases action with
    | read received =>
      cases received with
      | none => exact .inl ⟨rfl, rfl, by simp [callback, Action.harmless]⟩
      | some data =>
        rw [callback]
        simp only [hneg, if_false, Action.harmless, true_and]
        exact ih (c := { c with
          connection := { c.connection with buffer := c.connection.buffer ++ data } }) h
    | write sent =>
      cases sent with
      | false => exact .inl ⟨rfl, rfl, by simp [callback, Action.harmless]⟩
      | true =>
        rw [callback, if_neg (by simpa using hneg)]
        simp only [Action.harmless, true_and]
        exact ih h
    | setEvent event =>
      simp only [callback, Action.harmless, true_and]
      exact ih (c := { c with event }) h
    | close =>
      have hclosed := callback_closed actions (c := { c with
        connection := (c.connection.close c.kernel).1
        kernel := (c.connection.close c.kernel).2 }) rfl
      refine .inr ⟨hclosed.1, hclosed.2.trans (if_pos h), ?_⟩
      simp [Action.harmless]
    | throw => exact .inl ⟨rfl, rfl, by simp [callback, Action.harmless]⟩

/-! ## Entries -/

theorem Kernel.mem_close_opened {kernel : Kernel} {fd fd' : Int} :
    fd' ∈ (kernel.close fd).opened ↔ fd' ∈ kernel.opened ∧ fd' ≠ fd := by
  simp [Kernel.close]

theorem Kernel.mem_close_interest {kernel : Kernel} {fd fd' : Int} :
    fd' ∈ (kernel.close fd).interest ↔ fd' ∈ kernel.interest ∧ fd' ≠ fd := by
  simp [Kernel.close]

theorem Manager.deleteConnection_of_notMem {m : Manager} {connection : Connection}
    (h : connection.fd ∉ m.slaveSockets) : m.deleteConnection connection = m := by
  rw [Manager.deleteConnection, AList.lookup_eq_none.mpr h]

/-- A connection that is in the entry of its own descriptor. -/
theorem Manager.deleteConnection_of_lookup {m : Manager} {connection : Connection} {key : Int}
    (hkey : 0 ≤ key) (hfd : connection.fd = key)
    (hlook : m.slaveSockets.lookup key = some connection) :
    m.deleteConnection connection = ⟨m.slaveSockets.erase key, m.kernel.close key⟩ := by
  subst hfd
  rw [Manager.deleteConnection, hlook]
  exact congrArg (Manager.mk _) (if_pos hkey)

theorem Manager.Linked.erase {m : Manager} (h : m.Linked) (key : Int) :
    (Manager.mk (m.slaveSockets.erase key) (m.kernel.close key)).Linked where
  faithful key' connection hlook := by
    have hne : key' ≠ key := by
      rintro rfl
      rw [AList.lookup_erase] at hlook
      cases hlook
    rw [AList.lookup_erase_ne hne] at hlook
    obtain ⟨hfd, hopen⟩ := h.faithful key' connection hlook
    exact ⟨hfd, Kernel.mem_close_opened.mpr ⟨hopen, hfd ▸ hne⟩⟩
  opened fd hfd := h.opened fd (Kernel.mem_close_opened.mp hfd).1
  registered fd hfd := by
    obtain ⟨hin, hne⟩ := Kernel.mem_close_interest.mp hfd
    exact AList.mem_erase.mpr ⟨hne, h.registered fd hin⟩

/-- A connection that keeps its descriptor stays where it is. -/
theorem Manager.Linked.insert {m : Manager} (h : m.Linked) (connection : Connection) {key : Int}
    (hfd : connection.fd = key) (hopen : key ∈ m.kernel.opened) :
    (Manager.mk (m.slaveSockets.insert key connection) m.kernel).Linked where
  faithful key' connection' hlook := by
    rcases eq_or_ne key' key with rfl | hne
    · rw [AList.lookup_insert, Option.some.injEq] at hlook
      subst hlook
      exact ⟨hfd, hfd ▸ hopen⟩
    · rw [AList.lookup_insert_ne hne] at hlook
      exact h.faithful key' connection' hlook
  opened := h.opened
  registered fd hin := (AList.mem_insert _).mpr (.inr (h.registered fd hin))

/-! ## Client events -/

section

variable {m : Manager} {key : Int} {connection : Connection} {event : UInt32}
  {actions : List Action} (failure : Option String)

theorem handleClient_hangsUp (hm : m.Linked) (hlook : m.slaveSockets.lookup key = some connection)
    (hhup : hangsUp event = true) :
    ∃ m', handleClient key event actions failure m = .ok m' ∧ m'.Linked := by
  refine ⟨_, ?_, hm.erase key⟩
  simp only [handleClient, hlook]
  rw [if_pos hhup, m.deleteConnection_of_lookup (hm.key_nonneg (Lib.mem_of_lookup hlook))
    (hm.faithful key connection hlook).1 hlook]

/-- A callback that does nothing but what is harmless leaves its connection in the table. -/
theorem handleClient_harmless (hm : m.Linked)
    (hlook : m.slaveSockets.lookup key = some connection) (hhup : hangsUp event = false)
    (hactions : ∀ action ∈ actions, action.harmless = true) :
    (∃ m', handleClient key event actions failure m = .ok m' ∧ m'.Linked) ∨
      ∃ error, handleClient key event actions failure m = .error (.threw error) := by
  obtain ⟨hfd, hopen⟩ := hm.faithful key connection hlook
  have hkey := hm.key_nonneg (Lib.mem_of_lookup hlook)
  obtain ⟨hfd', hkernel, hthrew⟩ | ⟨-, -, hharm⟩ := callback_cases actions
    (c := ⟨connection, event, m.kernel⟩) (hfd ▸ hkey)
  case inr => exact absurd hactions hharm
  simp only [handleClient, hlook, hhup, Bool.false_eq_true, if_false]
  generalize callback actions ⟨connection, event, m.kernel⟩ = r at hfd' hkernel hthrew
  have hisOpened : r.1.connection.isOpened m.kernel = true := by
    simp [Connection.isOpened, hfd', hfd, hkey, hfd ▸ hopen]
  have hlinked := hm.insert r.1.connection (hfd'.trans hfd) (hfd ▸ hopen)
  simp only [afterCallback, hthrew.mpr hactions, Bool.false_eq_true, if_false, AList.lookup_insert,
    hkernel, hisOpened, Bool.true_eq_false]
  split
  · split
    · exact .inl ⟨_, rfl, hlinked⟩
    · exact .inr ⟨_, rfl⟩
  · exact .inl ⟨_, rfl, hlinked⟩

/-- Any other callback has its connection closed in the table, or destroyed under the reference. -/
theorem handleClient_harmful (hm : m.Linked)
    (hlook : m.slaveSockets.lookup key = some connection) (hhup : hangsUp event = false)
    (hactions : ¬ ∀ action ∈ actions, action.harmless = true) :
    handleClient key event actions failure m = .error .undefined ∨
      ∃ m' closed, handleClient key event actions failure m = .ok m' ∧
        m'.slaveSockets.lookup key = some closed ∧ closed.fd = -1 := by
  obtain ⟨hfd, hopen⟩ := hm.faithful key connection hlook
  have hkey := hm.key_nonneg (Lib.mem_of_lookup hlook)
  simp only [handleClient, hlook, hhup, Bool.false_eq_true, if_false]
  obtain ⟨hfd', hkernel, hthrew⟩ | ⟨hfd', hkernel, -⟩ := callback_cases actions
    (c := ⟨connection, event, m.kernel⟩) (hfd ▸ hkey)
  · -- it threw: the entry is erased, and the reference to it used
    refine .inl ?_
    generalize callback actions ⟨connection, event, m.kernel⟩ = r at hfd' hkernel hthrew
    rw [← hthrew, Bool.not_eq_false] at hactions
    have hdelete := Manager.deleteConnection_of_lookup
      (m := ⟨m.slaveSockets.insert key r.1.connection, r.1.kernel⟩) hkey (hfd'.trans hfd)
      (AList.lookup_insert _)
    simp only [afterCallback, hactions, if_true, hdelete, AList.lookup_erase]
  · -- it closed: no entry has the key -1, so the closed one stays
    refine .inr ?_
    generalize callback actions ⟨connection, event, m.kernel⟩ = r at hfd' hkernel
    have hnone : r.1.connection.fd ∉ m.slaveSockets.insert key r.1.connection := by
      intro hin
      rw [hfd', AList.mem_insert] at hin
      obtain hin | hin := hin
      · omega
      · exact absurd (hm.key_nonneg hin) (by omega)
    have hdelete : ∀ kernel, (Manager.mk (m.slaveSockets.insert key r.1.connection)
        kernel).deleteConnection r.1.connection =
          ⟨m.slaveSockets.insert key r.1.connection, kernel⟩ := fun kernel =>
      Manager.deleteConnection_of_notMem hnone
    have hisOpened : ∀ kernel, r.1.connection.isOpened kernel = false := fun kernel => by
      simp [Connection.isOpened, hfd']
    refine ⟨⟨m.slaveSockets.insert key r.1.connection, r.1.kernel⟩, r.1.connection, ?_,
      AList.lookup_insert _, hfd'⟩
    simp only [afterCallback, hdelete, ite_self, AList.lookup_insert, hisOpened, if_true]

end

/-! ## Accepting -/

/-- A descriptor that was not open has no entry. -/
theorem Manager.Linked.notMem_of_new {m : Manager} (h : m.Linked) {fd : Int}
    (hnew : fd ∉ m.kernel.opened) : fd ∉ m.slaveSockets := by
  intro hin
  obtain ⟨connection, hlook⟩ := Lib.exists_lookup hin
  obtain ⟨hfd, hopen⟩ := h.faithful fd connection hlook
  exact hnew (hfd ▸ hopen)

/-- A descriptor that is opened and closed again leaves no trace. -/
theorem Manager.Linked.reclosed {m : Manager} (h : m.Linked) {fd : Nat}
    (hnew : (fd : Int) ∉ m.kernel.opened) :
    (Manager.mk m.slaveSockets
      (Kernel.close fd ⟨(fd : Int) :: m.kernel.opened, m.kernel.interest⟩)).Linked where
  faithful key connection hlook := by
    obtain ⟨hfd, hopen⟩ := h.faithful key connection hlook
    refine ⟨hfd, Kernel.mem_close_opened.mpr ⟨List.mem_cons_of_mem _ hopen, ?_⟩⟩
    exact fun heq => hnew (heq ▸ hopen)
  opened fd' hfd' := by
    obtain heq | hopen := List.mem_cons.mp (Kernel.mem_close_opened.mp hfd').1
    · exact heq ▸ Int.natCast_nonneg fd
    · exact h.opened fd' hopen
  registered fd' hfd' := h.registered fd' (Kernel.mem_close_interest.mp hfd').1

theorem Manager.Linked.added {m : Manager} (h : m.Linked) (fd : Nat) :
    (Manager.mk (m.slaveSockets.insert fd ⟨fd, []⟩)
      ⟨(fd : Int) :: m.kernel.opened, (fd : Int) :: m.kernel.interest⟩).Linked where
  faithful key connection hlook := by
    rcases eq_or_ne key fd with rfl | hne
    · rw [AList.lookup_insert, Option.some.injEq] at hlook
      subst hlook
      exact ⟨rfl, List.mem_cons_self⟩
    · rw [AList.lookup_insert_ne hne] at hlook
      obtain ⟨hfd, hopen⟩ := h.faithful key connection hlook
      exact ⟨hfd, List.mem_cons_of_mem _ hopen⟩
  opened := List.forall_mem_cons.mpr ⟨Int.natCast_nonneg fd, h.opened⟩
  registered fd' hfd' :=
    (AList.mem_insert _).mpr ((List.mem_cons.mp hfd').imp_right (h.registered fd'))

theorem Manager.Linked.acceptOne {m m' : Manager} (h : m.Linked) {outcome : AcceptOutcome}
    {more : Bool}
    (hnew : ∀ fd nonblock unnamed notAdded, outcome = .connected fd nonblock unnamed notAdded →
      (fd : Int) ∉ m.kernel.opened) (hstep : acceptOne outcome m = .ok (m', more)) : m'.Linked := by
  rcases outcome with ⟨fd, _ | _, unnamed, notAdded⟩ | _ | _ | errno
  · obtain ⟨rfl, -⟩ := Prod.mk.inj (Except.ok.inj hstep)
    exact h.reclosed (hnew fd _ unnamed notAdded rfl)
  · have hnotMem := h.notMem_of_new (hnew fd _ unnamed notAdded rfl)
    rcases unnamed with _ | errno
    · rcases notAdded with _ | errno
      · obtain ⟨rfl, -⟩ := Prod.mk.inj (Except.ok.inj hstep)
        simp only [AList.lookup_eq_none.mpr hnotMem, Option.getD_none]
        exact h.added fd
      · cases hstep
    · cases hstep
  · obtain ⟨rfl, -⟩ := Prod.mk.inj (Except.ok.inj hstep)
    exact h
  · obtain ⟨rfl, -⟩ := Prod.mk.inj (Except.ok.inj hstep)
    exact h
  · cases hstep

theorem Manager.Linked.acceptClients {outcomes : List AcceptOutcome} {m m' : Manager} (h : m.Linked)
    (hnew : AcceptsNew outcomes m) (hstep : acceptClients outcomes m = .ok m') : m'.Linked := by
  induction outcomes generalizing m with
  | nil => exact Except.ok.inj hstep ▸ h
  | cons outcome outcomes ih =>
    rw [Tcp.acceptClients] at hstep
    rcases hone : Tcp.acceptOne outcome m with ended | ⟨m₁, more⟩
    · rw [hone] at hstep
      cases hstep
    · rw [hone] at hstep
      have hlinked := h.acceptOne hnew.1 hone
      cases more with
      | true => exact ih hlinked (hnew.2 m₁ hone) hstep
      | false => exact Except.ok.inj hstep ▸ hlinked

theorem acceptClients_defined (outcomes : List AcceptOutcome) (m : Manager) :
    acceptClients outcomes m ≠ .error .undefined := by
  induction outcomes generalizing m with
  | nil => simp [acceptClients]
  | cons outcome outcomes ih =>
    have hone : acceptOne outcome m ≠ .error .undefined := by
      rcases outcome with ⟨fd, _ | _, _ | _, _ | _⟩ | _ | _ | _ <;>
        simp [acceptOne, addNewConnection, Except.map]
    rw [acceptClients]
    rcases hresult : acceptOne outcome m with ended | ⟨m₁, _ | _⟩
    · intro heq
      rw [hresult] at hone
      exact hone (congrArg _ (Except.error.inj heq))
    · intro heq
      cases heq
    · exact ih m₁

/-! ## Runs -/

/-- The callback of the event closes the connection in the node of `key`. -/
def ClosedByCallback (m : Manager) (e : Event) (key : Int) : Prop :=
  ∃ event actions failure connection, e = .client key event actions failure ∧
    hangsUp event = false ∧ m.slaveSockets.lookup key = some connection ∧
    (callback actions ⟨connection, event, m.kernel⟩).1.connection.fd < 0

/-- The event is handled with effects that C++ defines; where that completes, the table is faithful
and has no connection that its callback closed. -/
def KeepsTable (m : Manager) (e : Event) : Prop :=
  step m e ≠ .error .undefined ∧ ∀ m', step m e = .ok m' →
    m'.Faithful ∧ ∀ key, ClosedByCallback m e key → key ∉ m'.slaveSockets

/-- The event hangs up, or the callback neither closes its connection nor throws. -/
def Event.Harmless : Event → Prop
  | .masterSocket _ => True
  | .client _ event actions _ =>
    hangsUp event = true ∨ ∀ action ∈ actions, action.harmless = true

theorem Event.Harmless.actions {key : Int} {event : UInt32} {actions : List Action}
    {failure : Option String} (h : (Event.client key event actions failure).Harmless)
    (hhup : hangsUp event = false) : ∀ action ∈ actions, action.harmless = true :=
  h.resolve_left (by rw [hhup]; exact Bool.false_ne_true)

/-- A harmless event completes, or it ends the run by an exception. -/
theorem Manager.Linked.step {m : Manager} (h : m.Linked) {e : Event} (hhonest : Honest m e)
    (he : e.Harmless) :
    (∃ m', step m e = .ok m' ∧ m'.Linked) ∨ ∃ error, step m e = .error (.threw error) := by
  cases e with
  | masterSocket outcomes =>
    rw [Tcp.step]
    rcases hresult : Tcp.acceptClients outcomes m with (error | _) | m'
    · exact .inr ⟨error, rfl⟩
    · exact absurd hresult (acceptClients_defined outcomes m)
    · exact .inl ⟨m', rfl, h.acceptClients hhonest hresult⟩
  | client key event actions failure =>
    obtain ⟨connection, hlook⟩ := Lib.exists_lookup (h.registered key hhonest)
    rcases hhup : hangsUp event with _ | _
    · exact handleClient_harmless failure h hlook hhup (he.actions hhup)
    · exact .inl (handleClient_hangsUp failure h hlook hhup)

/-- A harmless callback closes nothing. -/
theorem Manager.Linked.not_closedByCallback {m : Manager} (h : m.Linked) {e : Event}
    (he : e.Harmless) (key : Int) : ¬ ClosedByCallback m e key := by
  rintro ⟨event, actions, failure, connection, rfl, hhup, hlook, hclosed⟩
  have hactions := he.actions hhup
  have hkey := h.key_nonneg (Lib.mem_of_lookup hlook)
  have hfd := (h.faithful key connection hlook).1
  obtain ⟨hfd', -⟩ | ⟨-, -, hharm⟩ := callback_cases actions
    (c := ⟨connection, event, m.kernel⟩) (hfd ▸ hkey)
  · simp only at hfd'
    omega
  · exact hharm hactions

theorem Manager.Linked.keepsTable_iff {m : Manager} (h : m.Linked) {e : Event}
    (hhonest : Honest m e) : KeepsTable m e ↔ e.Harmless := by
  constructor
  · rintro ⟨hdefined, htable⟩
    cases e with
    | masterSocket outcomes => trivial
    | client key event actions failure =>
      obtain ⟨connection, hlook⟩ := Lib.exists_lookup (h.registered key hhonest)
      rcases hhup : hangsUp event with _ | _
      · refine .inr ?_
        by_contra hactions
        obtain hundefined | ⟨m', closed, hok, hclosed, hfd⟩ :=
          handleClient_harmful failure h hlook hhup hactions
        · exact hdefined hundefined
        · have hkey := h.key_nonneg (Lib.mem_of_lookup hlook)
          have hfaithful := ((htable m' hok).1 key closed hclosed).1
          omega
      · exact .inl hhup
  · intro he
    rw [KeepsTable]
    obtain ⟨m₁, hok, hlinked⟩ | ⟨error, herror⟩ := h.step hhonest he
    · refine ⟨by rw [hok]; simp, fun m' hstep => ?_⟩
      obtain rfl := Except.ok.inj (hok.symm.trans hstep)
      exact ⟨hlinked.faithful, fun key hclosed => absurd hclosed (h.not_closedByCallback he key)⟩
    · refine ⟨by rw [herror]; simp, fun m' hstep => ?_⟩
      cases herror.symm.trans hstep

/-- Under an honest kernel the table is faithful throughout a run exactly as long as no callback
closes its connection or throws. -/
theorem table_faithful_iff (others : List Nat) {es : List Event}
    (hhonest : Lib.Throughout step Honest (.init others) es) :
    Lib.Throughout step KeepsTable (.init others) es ↔
      Lib.Throughout step (fun _ e => e.Harmless) (.init others) es := by
  refine Lib.throughout_congr_of (I := Manager.Linked) (fun _ _ hm he => hm.keepsTable_iff he)
    (fun m e m' hm he hharmless hstep => ?_) (linked_init others) hhonest
  obtain ⟨m₁, hok, hlinked⟩ | ⟨error, herror⟩ := hm.step he hharmless
  · exact Except.ok.inj (hok.symm.trans hstep) ▸ hlinked
  · cases herror.symm.trans hstep

theorem acceptsNew_one {m : Manager} {fd : Nat} (h : (fd : Int) ∉ m.kernel.opened) :
    AcceptsNew [.connected fd true none none, .wouldBlock] m := by
  refine ⟨?_, fun _ _ => ⟨?_, fun _ _ => trivial⟩⟩
  · rintro fd' nonblock unnamed notAdded hconnected
    cases hconnected
    exact h
  · rintro fd' nonblock unnamed notAdded hconnected
    cases hconnected

theorem table_faithful_reading :
    Lib.Throughout step KeepsTable (.init [3, 4])
      [.masterSocket [.connected 5 true none none, .wouldBlock],
        .client 5 1 [.read (some [104, 105]), .setEvent 4] none, .client 5 16 [] none] := by
  refine (table_faithful_iff [3, 4] ?_).mpr ?_
  · refine ⟨acceptsNew_one (by decide), fun m₁ h₁ => ?_⟩
    cases h₁
    refine ⟨List.mem_cons_self, fun m₂ h₂ => ?_⟩
    cases h₂
    exact ⟨List.mem_cons_self, fun _ _ => trivial⟩
  · refine ⟨trivial, fun m₁ h₁ => ⟨.inr (by decide), fun m₂ h₂ => ⟨.inl (by decide), ?_⟩⟩⟩
    exact fun _ _ => trivial

theorem closed_connection_stays :
    ¬ ∀ (others : List Nat) (es : List Event), Lib.Throughout step Honest (.init others) es →
      Lib.Throughout step KeepsTable (.init others) es := by
  intro h
  have hhonest : Lib.Throughout step Honest (.init [3, 4])
      [.masterSocket [.connected 5 true none none, .wouldBlock], .client 5 1 [.close] none] := by
    refine ⟨acceptsNew_one (by decide), fun m₁ h₁ => ?_⟩
    cases h₁
    exact ⟨List.mem_cons_self, fun _ _ => trivial⟩
  obtain ⟨-, hrest⟩ := h _ _ hhonest
  obtain ⟨⟨-, htable⟩, -⟩ := hrest _ rfl
  exact absurd ((htable _ rfl).1 5 _ rfl).1 (by decide)

end AdvCppTP.Tcp
