import AdvCppTP.Http.ClientTables

/-! The loop of `run` over what the kernel knows: the descriptors that are open, and those whose
events `epoll_wait` reports. -/

namespace AdvCppTP.Http

/-! ## The kernel -/

structure Machine where
  s : State
  opened : List Nat
  interest : List Nat

/-- The loop's start: `masterSocket` is registered, and `others` are open. -/
def Machine.init (masterSocket : Nat) (others : List Nat) (io : Io) : Machine :=
  ⟨.init io, masterSocket :: others, [masterSocket]⟩

/-- The descriptors that are closed as their entries are destroyed. -/
def closed (w w' : World) : List Nat :=
  (w.routines.entries.filter fun e => e.1 ∉ w'.routines).map fun e => e.2.fd

/-- `accepted` have been opened and registered; a descriptor that is closed leaves the set. -/
def Machine.settle (m : Machine) (accepted : List Nat) (s : State) : Machine where
  s := s
  opened := (accepted ++ m.opened).filter fun fd => fd ∉ closed m.s.w s.w
  interest := (accepted ++ m.interest).filter fun fd => fd ∉ closed m.s.w s.w

/-- The descriptors that one call of `acceptClients` adds. -/
def accepted : List AcceptOutcome → List Nat
  | .connected fd _ :: outcomes => fd :: accepted outcomes
  | .eintr :: outcomes => accepted outcomes
  | _ => []

def PollEvent.accepted (masterSocket : Nat) (e : PollEvent) : List Nat :=
  if e.id = masterSocket then Http.accepted e.outcomes else []

def Machine.dispatch (code : Coroutine.Code ClientPc Thrown World) (server : Server)
    (masterSocket : Nat) (m : Machine) (e : PollEvent) : Except Ended Machine :=
  (Http.dispatch code server masterSocket m.s e).map (m.settle (e.accepted masterSocket))

def Machine.expire (code : Coroutine.Code ClientPc Thrown World) (m : Machine) (id : Nat) :
    Except Ended Machine :=
  (expireWith code m.s id).map (m.settle [])

def Machine.iterate (code : Coroutine.Code ClientPc Thrown World) (server : Server)
    (masterSocket : Nat) (m : Machine) (wakeup : Wakeup) : Except Ended Machine :=
  match wakeup.result with
  | .failed errno => .error (.threw (.user (.epollError ("epoll_wait error: " ++ errno))))
  | .interrupted => .ok m
  | .timedOut now => (expired now m.s.w).foldlM (Machine.expire code) m
  | .ready events => events.foldlM (Machine.dispatch code server masterSocket) m

theorem map_settle (r : Except Ended State) (m : Machine) (fds : List Nat) :
    (r.map (m.settle fds)).map Machine.s = r := by
  cases r <;> rfl

/-- The manager does what it does without the kernel beside it. -/
theorem iterate_machine (code : Coroutine.Code ClientPc Thrown World) (server : Server)
    (masterSocket : Nat) (m : Machine) (wakeup : Wakeup) :
    (Machine.iterate code server masterSocket m wakeup).map Machine.s =
      Http.iterate code server masterSocket m.s wakeup := by
  rw [Machine.iterate, Http.iterate]
  rcases wakeup.result with _ | _ | now | events
  · rfl
  · rfl
  · exact Lib.foldlM_map (fun m id => map_settle _ m _) m _
  · exact Lib.foldlM_map (fun m e => map_settle _ m _) m events

theorem settle_of_map {r : Except Ended State} {m m' : Machine} {fds : List Nat}
    (h : r.map (m.settle fds) = .ok m') : ∃ s', r = .ok s' ∧ m' = m.settle fds s' := by
  cases r with
  | error e => cases h
  | ok s' => exact ⟨s', rfl, (Except.ok.inj h).symm⟩

/-! ## The tables and the kernel's set -/

/-- A descriptor in the kernel's set is the master socket or a key of both tables, and the entry
at a key holds that descriptor open. -/
structure Machine.Linked (masterSocket : Nat) (m : Machine) : Prop where
  registered : ∀ id ∈ m.interest, id = masterSocket ∨ id ∈ m.s.w.routines
  coroutine : ∀ id, id ∈ m.s.w.routines → id ∈ m.s.o.routines
  fd : ∀ id info, m.s.w.routines.lookup id = some info → info.fd = id
  opened : ∀ id, id ∈ m.s.w.routines → id ∈ m.opened
  master : masterSocket ∈ m.opened ∧ masterSocket ∉ m.s.w.routines

theorem linked_init (masterSocket : Nat) (others : List Nat) (io : Io) :
    (Machine.init masterSocket others io).Linked masterSocket where
  registered id h := .inl (List.mem_singleton.mp h)
  coroutine id h := absurd h (AList.notMem_empty id)
  fd id info h := by
    rw [Machine.init, State.init, AList.lookup_empty] at h
    cases h
  opened id h := absurd h (AList.notMem_empty id)
  master := ⟨List.mem_cons_self, AList.notMem_empty masterSocket⟩

theorem Machine.Linked.mem_closed {masterSocket : Nat} {m : Machine} (h : m.Linked masterSocket)
    {w' : World} {fd : Nat} :
    fd ∈ closed m.s.w w' ↔ fd ∈ m.s.w.routines ∧ fd ∉ w'.routines := by
  simp only [closed, List.mem_map, List.mem_filter, decide_eq_true_eq]
  constructor
  · rintro ⟨⟨id, info⟩, ⟨hentry, hgone⟩, rfl⟩
    have hlook := AList.mem_lookup_iff.mpr hentry
    rw [h.fd id info hlook]
    exact ⟨Lib.mem_of_lookup hlook, hgone⟩
  · rintro ⟨hin, hgone⟩
    obtain ⟨info, hlook⟩ := Lib.exists_lookup hin
    exact ⟨⟨fd, info⟩, ⟨AList.mem_lookup_iff.mp hlook, hgone⟩, h.fd fd info hlook⟩

/-- What the operations of the loop do to the tables, as far as the kernel depends on it. -/
structure Registers (s s' : State) (accepted : List Nat) : Prop where
  keys : ∀ j, j ∈ s'.w.routines → j ∈ accepted ∨ j ∈ s.w.routines
  added : ∀ j ∈ accepted, j ∈ s'.w.routines
  coroutine : ∀ j, j ∈ s'.w.routines → j ∈ s'.o.routines
  fd : ∀ j info, s'.w.routines.lookup j = some info → info.fd = j

theorem Machine.Linked.settle {masterSocket : Nat} {m : Machine} (h : m.Linked masterSocket)
    {s' : State} {accepted : List Nat} (hs : Registers m.s s' accepted)
    (hfresh : ∀ fd ∈ accepted, fd ∉ m.opened) : (m.settle accepted s').Linked masterSocket where
  registered id hid := by
    obtain ⟨hid, hkept⟩ := List.mem_filter.mp hid
    rw [decide_eq_true_eq, h.mem_closed, not_and_not_right] at hkept
    obtain hid | hid := List.mem_append.mp hid
    · exact .inr (hs.added id hid)
    · exact (h.registered id hid).imp_right hkept
  coroutine := hs.coroutine
  fd := hs.fd
  opened id hid := by
    refine List.mem_filter.mpr ⟨?_, ?_⟩
    · exact List.mem_append.mpr ((hs.keys id hid).imp_right (h.opened id))
    · rw [decide_eq_true_eq, h.mem_closed]
      exact fun hgone => hgone.2 hid
  master := by
    refine ⟨List.mem_filter.mpr ⟨?_, ?_⟩, fun hin => ?_⟩
    · exact List.mem_append.mpr (.inr h.master.1)
    · rw [decide_eq_true_eq, h.mem_closed]
      exact fun hgone => h.master.2 hgone.1
    · exact (hs.keys masterSocket hin).elim (fun hnew => hfresh _ hnew h.master.1) h.master.2

theorem Machine.Linked.settle_interest {masterSocket : Nat} {m : Machine}
    (h : m.Linked masterSocket) {s' : State} {accepted : List Nat} {id : Nat}
    (hid : id ∈ m.interest) (hkept : id ∈ m.s.w.routines → id ∈ s'.w.routines) :
    id ∈ (m.settle accepted s').interest := by
  refine List.mem_filter.mpr ⟨List.mem_append.mpr (.inr hid), ?_⟩
  rw [decide_eq_true_eq, h.mem_closed]
  exact fun hgone => hgone.2 (hkept hgone.1)

/-! ## Operations -/

theorem acceptClients_mem {server : Server} {outcomes : List AcceptOutcome} {s s' : State}
    (h : acceptClients server outcomes s = .ok s') :
    (∀ j, j ∈ s'.w.routines ↔ j ∈ accepted outcomes ∨ j ∈ s.w.routines) ∧
      ∀ j, j ∈ s'.o.routines ↔ j ∈ accepted outcomes ∨ j ∈ s.o.routines := by
  induction outcomes generalizing s with
  | nil =>
    obtain rfl := Except.ok.inj h
    simp [accepted]
  | cons outcome outcomes ih =>
    cases outcome with
    | connected fd now =>
      obtain ⟨s₁, hadd, hrest⟩ := acceptClients_connected_ok h
      obtain ⟨ho, hw, -⟩ := addNewConnection_spec server fd now hadd
      obtain ⟨hw', ho'⟩ := ih hrest
      refine ⟨fun j => ?_, fun j => ?_⟩
      · rw [hw', hw, accepted, List.mem_cons]
        tauto
      · rw [ho', ho, Coroutine.mem_create_iff, accepted, List.mem_cons]
        tauto
    | unnamed errno => cases h
    | eintr => exact ih h
    | wouldBlock =>
      obtain rfl := Except.ok.inj h
      simp [accepted]
    | error => cases h

theorem acceptClients_fd {server : Server} {outcomes : List AcceptOutcome} {s s' : State}
    (hs : ∀ j info, s.w.routines.lookup j = some info → info.fd = j)
    (h : acceptClients server outcomes s = .ok s') :
    ∀ j info, s'.w.routines.lookup j = some info → info.fd = j := by
  refine acceptClients_invariant server
    (I := fun s => ∀ j info, s.w.routines.lookup j = some info → info.fd = j)
    (fun fd now s₁ s₂ _ hs₁ hadd j info hinfo => ?_) hs h
  obtain ⟨new, hentries, hfd, -⟩ := addNewConnection_entries hadd
  rw [hentries] at hinfo
  rcases eq_or_ne j fd with rfl | hne
  · rw [Lib.lookup_emplace_self, Option.some.injEq] at hinfo
    rcases hlook : s₁.w.routines.lookup j with _ | old
    · rw [hlook, Option.getD_none] at hinfo
      exact hinfo ▸ hfd
    · rw [hlook, Option.getD_some] at hinfo
      exact hinfo ▸ hs₁ j old hlook
  · rw [Lib.lookup_emplace_ne _ _ hne] at hinfo
    exact hs₁ j info hinfo

theorem acceptClients_ne_outOfRange (server : Server) (outcomes : List AcceptOutcome) (s : State) :
    acceptClients server outcomes s ≠ .error (.threw .outOfRange) := by
  induction outcomes generalizing s with
  | nil => simp [acceptClients]
  | cons outcome outcomes ih =>
    cases outcome with
    | connected fd now =>
      rcases hadd : addNewConnection server fd now s with e | s₁
      · rw [acceptClients, hadd]
        rw [addNewConnection] at hadd
        simp only at hadd
        split at hadd
        · cases hadd
        · cases hadd
        · obtain rfl := Except.error.inj hadd
          intro h
          cases h
      · rw [acceptClients, hadd]
        exact ih s₁
    | unnamed errno => simp [acceptClients]
    | eintr => exact ih s
    | wouldBlock => simp [acceptClients]
    | error => simp [acceptClients]

/-- Entries that keep their fixed part, but for one that goes. -/
theorem Machine.Linked.registers_of_dropped {masterSocket : Nat} {m : Machine}
    (h : m.Linked masterSocket) {s' : State} {id : Nat} (hgone : id ∉ s'.w.routines)
    (hsame : ∀ j, j ≠ id → SameFixed m.s.w s'.w j)
    (hcoroutine : ∀ j, j ≠ id → (j ∈ s'.o.routines ↔ j ∈ m.s.o.routines)) :
    Registers m.s s' [] := by
  have hne : ∀ j, j ∈ s'.w.routines → j ≠ id := fun j hj heq => hgone (heq ▸ hj)
  refine ⟨fun j hj => ?_, by simp, fun j hj => ?_, fun j info hinfo => ?_⟩
  · exact .inr ((hsame j (hne j hj)).mem_iff.mp hj)
  · rw [hcoroutine j (hne j hj)]
    exact h.coroutine j ((hsame j (hne j hj)).mem_iff.mp hj)
  · obtain ⟨info₀, hinfo₀, hfixed⟩ := (hsame j (hne j (Lib.mem_of_lookup hinfo))).lookup hinfo
    rw [← h.fd j info₀ hinfo₀]
    exact (congrArg (fun f => f.2.1) hfixed).symm

/-! ## Lookups -/

/-- Every lookup of `id` succeeds: that of `handleClient`, those of `resume` and `kill`, those of a
routine that runs inside them, and that of `deleteConnection` behind them. -/
structure Present (code : Coroutine.Code ClientPc Thrown World) (s : State) (id : Nat) : Prop where
  entry : id ∈ s.w.routines
  coroutine : id ∈ s.o.routines
  resumed : id ∈ (Coroutine.resume code s.o s.w id).1.2.routines
  killed : ∀ ex, id ∈ (Coroutine.kill code s.o s.w id ex).1.2.routines

theorem Machine.Linked.present {masterSocket : Nat} {m : Machine} (h : m.Linked masterSocket)
    (code : KeepingCode) {id : Nat} (hid : id ∈ m.s.w.routines) : Present code.toCode m.s id where
  entry := hid
  coroutine := h.coroutine id hid
  resumed := (code.resume_fixed m.s id id).mem_iff.mpr hid
  killed ex := (code.kill_fixed m.s id id ex).mem_iff.mpr hid

theorem Present.handleClientWith {code : Coroutine.Code ClientPc Thrown World} {s : State}
    {id : Nat} (h : Present code s id) (server : Server) (errOrHup : Bool) (now : Nat) :
    handleClientWith code server id errOrHup now s ≠ .error (.threw .outOfRange) := by
  cases errOrHup with
  | true =>
    rw [handleClientWith_hup _ _ _ h.entry]
    simp
  | false =>
    obtain ⟨-, herror⟩ | ⟨-, ⟨msg, -, herror⟩ | ⟨s₁, hok, -⟩⟩ :=
      handleClientWith_cases code server now h.entry h.resumed
    · rw [herror]
      simp
    · rw [herror]
      simp
    · rw [hok]
      simp

theorem Present.expireWith {code : Coroutine.Code ClientPc Thrown World} {s : State} {id : Nat}
    (h : Present code s id) : expireWith code s id ≠ .error (.threw .outOfRange) := by
  rw [Http.expireWith]
  simp only [deleteConnection_of_mem (h.killed _)]
  split
  · simp
  · simp

theorem map_settle_ne_outOfRange {r : Except Ended State} (h : r ≠ .error (.threw .outOfRange))
    (m : Machine) (fds : List Nat) : r.map (m.settle fds) ≠ .error (.threw .outOfRange) := by
  intro heq
  cases r with
  | error e => exact h (congrArg _ (Except.error.inj heq))
  | ok s => cases heq

/-- The event is one of the master socket, or all its lookups succeed. -/
def Machine.FindsClient (code : Coroutine.Code ClientPc Thrown World) (server : Server)
    (masterSocket : Nat) (m : Machine) (e : PollEvent) : Prop :=
  (e.id = masterSocket ∨ Present code m.s e.id) ∧
    Machine.dispatch code server masterSocket m e ≠ .error (.threw .outOfRange)

def Machine.FindsExpired (code : Coroutine.Code ClientPc Thrown World) (masterSocket : Nat)
    (m : Machine) (id : Nat) : Prop :=
  id ≠ masterSocket ∧ Present code m.s id ∧ Machine.expire code m id ≠ .error (.threw .outOfRange)

/-- In an iteration every event, and every turn of `checkTimeouts`, finds its client. -/
def Machine.NeverMisses (code : Coroutine.Code ClientPc Thrown World) (server : Server)
    (masterSocket : Nat) (m : Machine) (wakeup : Wakeup) : Prop :=
  match wakeup.result with
  | .timedOut now =>
    Lib.Throughout (Machine.expire code) (Machine.FindsExpired code masterSocket) m
      (expired now m.s.w)
  | .ready events =>
    Lib.Throughout (Machine.dispatch code server masterSocket)
      (Machine.FindsClient code server masterSocket) m events
  | _ => True

def Machine.AcceptsNew (masterSocket : Nat) (m : Machine) (e : PollEvent) : Prop :=
  (e.accepted masterSocket).Nodup ∧ ∀ fd ∈ e.accepted masterSocket, fd ∉ m.opened

/-- `epoll_wait` reports descriptors of the set, each once, and `accept4` returns descriptors that
are not open. -/
def Machine.Honest (code : Coroutine.Code ClientPc Thrown World) (server : Server)
    (masterSocket : Nat) (m : Machine) (wakeup : Wakeup) : Prop :=
  match wakeup.result with
  | .ready events =>
    (events.map PollEvent.id).Nodup ∧ (∀ e ∈ events, e.id ∈ m.interest) ∧
      Lib.Throughout (Machine.dispatch code server masterSocket) (Machine.AcceptsNew masterSocket) m
        events
  | _ => True

theorem Machine.Linked.dispatch {masterSocket : Nat} {m : Machine} (h : m.Linked masterSocket)
    (code : KeepingCode) {server : Server} {e : PollEvent} (hnew : m.AcceptsNew masterSocket e)
    {m' : Machine} (hstep : Machine.dispatch code.toCode server masterSocket m e = .ok m') :
    m'.Linked masterSocket ∧ ∀ id ∈ m.interest, id ≠ e.id → id ∈ m'.interest := by
  obtain ⟨s', hrun, rfl⟩ := settle_of_map hstep
  have hregisters : Registers m.s s' (e.accepted masterSocket) ∧
      ∀ id, id ≠ e.id → id ∈ m.s.w.routines → id ∈ s'.w.routines := by
    rw [Http.dispatch] at hrun
    rw [PollEvent.accepted]
    by_cases hmaster : e.id = masterSocket
    · rw [if_pos hmaster] at hrun ⊢
      obtain ⟨hw, ho⟩ := acceptClients_mem hrun
      refine ⟨⟨fun j hj => (hw j).mp hj, fun j hj => (hw j).mpr (.inl hj), fun j hj => ?_,
        acceptClients_fd h.fd hrun⟩, fun id _ hid => (hw id).mpr (.inr hid)⟩
      exact (ho j).mpr (((hw j).mp hj).imp_right (h.coroutine j))
    · rw [if_neg hmaster] at hrun ⊢
      obtain ⟨-, hgone, hsame, hcoroutine⟩ := handleClientWith_ok code server hrun
      exact ⟨h.registers_of_dropped hgone hsame hcoroutine,
        fun id hne hid => (hsame id hne).mem_iff.mpr hid⟩
  exact ⟨h.settle hregisters.1 hnew.2,
    fun id hid hne => h.settle_interest hid (hregisters.2 id hne)⟩

theorem Machine.Linked.expire {masterSocket : Nat} {m : Machine} (h : m.Linked masterSocket)
    (code : KeepingCode) {id : Nat} {m' : Machine}
    (hstep : Machine.expire code.toCode m id = .ok m') :
    m'.Linked masterSocket ∧
      ∀ j, j ≠ id → j ∈ m.s.w.routines → j ∈ m'.s.w.routines := by
  obtain ⟨s', hrun, rfl⟩ := settle_of_map hstep
  obtain ⟨hgone, hsame, hcoroutine⟩ := expireWith_ok code hrun
  refine ⟨h.settle (h.registers_of_dropped hgone hsame hcoroutine) (by simp), fun j hne hj => ?_⟩
  exact (hsame j hne).mem_iff.mpr hj

/-! ## Batches -/

theorem Machine.Linked.findsClient {masterSocket : Nat} {m : Machine} (h : m.Linked masterSocket)
    (code : KeepingCode) (server : Server) {e : PollEvent} (he : e.id ∈ m.interest) :
    m.FindsClient code.toCode server masterSocket e := by
  rw [Machine.FindsClient, Machine.dispatch, Http.dispatch]
  by_cases hmaster : e.id = masterSocket
  · refine ⟨.inl hmaster, map_settle_ne_outOfRange ?_ m _⟩
    rw [if_pos hmaster]
    exact acceptClients_ne_outOfRange server e.outcomes m.s
  · have hpresent := h.present code ((h.registered e.id he).resolve_left hmaster)
    refine ⟨.inr hpresent, map_settle_ne_outOfRange ?_ m _⟩
    rw [if_neg hmaster]
    exact hpresent.handleClientWith server e.errOrHup e.now

theorem Machine.Linked.batch {masterSocket : Nat} {m : Machine} (h : m.Linked masterSocket)
    (code : KeepingCode) {server : Server} {events : List PollEvent}
    (hnodup : (events.map PollEvent.id).Nodup) (hevents : ∀ e ∈ events, e.id ∈ m.interest)
    (hnew : Lib.Throughout (Machine.dispatch code.toCode server masterSocket)
      (Machine.AcceptsNew masterSocket) m events) :
    Lib.Throughout (Machine.dispatch code.toCode server masterSocket)
        (Machine.FindsClient code.toCode server masterSocket) m events ∧
      ∀ m', events.foldlM (Machine.dispatch code.toCode server masterSocket) m = .ok m' →
        m'.Linked masterSocket := by
  -- by induction on the batch: what is left of it stays in the kernel's set
  induction events generalizing m with
  | nil =>
    refine ⟨trivial, fun m' hm' => ?_⟩
    exact Except.ok.inj hm' ▸ h
  | cons e events ih =>
    rw [List.map_cons, List.nodup_cons] at hnodup
    obtain ⟨hfirst, hrest⟩ := List.forall_mem_cons.mp hevents
    have hnext : ∀ m₁, Machine.dispatch code.toCode server masterSocket m e = .ok m₁ →
        Lib.Throughout (Machine.dispatch code.toCode server masterSocket)
            (Machine.FindsClient code.toCode server masterSocket) m₁ events ∧
          ∀ m', events.foldlM (Machine.dispatch code.toCode server masterSocket) m₁ = .ok m' →
            m'.Linked masterSocket := by
      intro m₁ hstep
      obtain ⟨hlinked, hinterest⟩ := h.dispatch code hnew.1 hstep
      refine ih hlinked hnodup.2 (fun e' he' => hinterest e'.id (hrest e' he') ?_)
        (hnew.2 m₁ hstep)
      exact fun heq => hnodup.1 (List.mem_map.mpr ⟨e', he', heq⟩)
    refine ⟨⟨h.findsClient code server hfirst, fun m₁ hstep => (hnext m₁ hstep).1⟩,
      fun m' hm' => ?_⟩
    obtain ⟨m₁, hstep, hfold⟩ := Lib.foldlM_cons_eq_ok.mp hm'
    exact (hnext m₁ hstep).2 m' hfold

theorem Machine.Linked.sweep {masterSocket : Nat} {m : Machine} (h : m.Linked masterSocket)
    (code : KeepingCode) {ids : List Nat} (hnodup : ids.Nodup)
    (hids : ∀ id ∈ ids, id ∈ m.s.w.routines) :
    Lib.Throughout (Machine.expire code.toCode) (Machine.FindsExpired code.toCode masterSocket) m
      ids := by
  induction ids generalizing m with
  | nil => trivial
  | cons id ids ih =>
    rw [List.nodup_cons] at hnodup
    obtain ⟨hfirst, hrest⟩ := List.forall_mem_cons.mp hids
    have hpresent := h.present code hfirst
    refine ⟨⟨fun heq => h.master.2 (heq ▸ hfirst), hpresent,
      map_settle_ne_outOfRange hpresent.expireWith m []⟩, fun m₁ hstep => ?_⟩
    obtain ⟨hlinked, hkept⟩ := h.expire code hstep
    refine ih hlinked hnodup.2 fun j hj => hkept j ?_ (hrest j hj)
    exact fun heq => hnodup.1 (heq ▸ hj)

theorem Machine.Linked.iterate {masterSocket : Nat} {m : Machine} (h : m.Linked masterSocket)
    (code : KeepingCode) {server : Server} {wakeup : Wakeup}
    (hhonest : m.Honest code.toCode server masterSocket wakeup) :
    m.NeverMisses code.toCode server masterSocket wakeup ∧
      ∀ m', Machine.iterate code.toCode server masterSocket m wakeup = .ok m' →
        m'.Linked masterSocket := by
  rw [Machine.Honest] at hhonest
  rw [Machine.NeverMisses, Machine.iterate]
  rcases hresult : wakeup.result with _ | _ | now | events
  · refine ⟨trivial, fun m' hm' => ?_⟩
    cases hm'
  · refine ⟨trivial, fun m' hm' => ?_⟩
    exact Except.ok.inj hm' ▸ h
  · refine ⟨h.sweep code (nodup_expired now m.s.w) fun id hid => ?_, fun m' hm' => ?_⟩
    · obtain ⟨info, hinfo, -⟩ := mem_expired.mp hid
      exact Lib.mem_of_lookup hinfo
    · exact Lib.foldlM_invariant (fun _ _ _ hlinked hstep => (hlinked.expire code hstep).1) h hm'
  · rw [hresult] at hhonest
    exact h.batch code hhonest.1 hhonest.2.1 hhonest.2.2

/-- In every run under an honest kernel, whatever the coroutines do, no event and no timeout is
one of a client that either table has lost. -/
theorem dispatch_never_misses (code : KeepingCode) (server : Server) (masterSocket : Nat)
    (others : List Nat) (io : Io) (wakeups : List Wakeup)
    (hhonest : Lib.Throughout (Machine.iterate code.toCode server masterSocket)
      (Machine.Honest code.toCode server masterSocket) (.init masterSocket others io) wakeups) :
    Lib.Throughout (Machine.iterate code.toCode server masterSocket)
      (Machine.NeverMisses code.toCode server masterSocket) (.init masterSocket others io)
      wakeups :=
  Lib.throughout_of_throughout (I := Machine.Linked masterSocket)
    (fun _ _ hm hwakeup => (hm.iterate code hwakeup).1)
    (fun _ _ m' hm hwakeup hstep => (hm.iterate code hwakeup).2 m' hstep)
    (linked_init masterSocket others io) hhonest

theorem dispatch_never_misses_reused :
    let server : Server := ⟨fun _ _ => .error (.user .other), .stored, 10, 10⟩
    let wakeups : List Wakeup :=
      [⟨0, .ready [⟨3, false, [.connected 5 0, .connected 6 0], 0⟩]⟩,
        ⟨1, .ready [⟨5, true, [], 1⟩, ⟨3, false, [.connected 5 1], 1⟩, ⟨6, false, [], 1⟩]⟩,
        ⟨20, .timedOut 20⟩]
    Lib.Throughout (Machine.iterate (clientCode server) server 3)
      (Machine.NeverMisses (clientCode server) server 3) (.init 3 [0, 1, 2, 4] ⟨[], [], [], []⟩)
      wakeups := by
  intro server wakeups
  refine dispatch_never_misses (keepingClientCode server) server 3 [0, 1, 2, 4] ⟨[], [], [], []⟩
    wakeups ?_
  refine ⟨⟨by decide, by decide, ⟨by decide, by decide⟩, fun _ _ => trivial⟩, fun m₁ h₁ => ?_⟩
  cases h₁
  refine ⟨⟨by decide, by decide, ⟨by decide, by decide⟩, fun m₂ h₂ => ?_⟩, fun m₁ h₁ => ?_⟩
  · cases h₂
    refine ⟨⟨by decide, by decide⟩, fun m₃ h₃ => ?_⟩
    cases h₃
    exact ⟨⟨by decide, by decide⟩, fun _ _ => trivial⟩
  · cases h₁
    exact ⟨trivial, fun _ _ => trivial⟩

end AdvCppTP.Http
