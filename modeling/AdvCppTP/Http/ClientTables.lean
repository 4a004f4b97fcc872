import AdvCppTP.Http.EventLoop

/-! The two tables that know a client, `routines_` and the thread's coroutines, over whole runs of
`EpollManager`: when a suspended client keeps its entry, and when no coroutine outlives it. -/

namespace AdvCppTP.Http

/-! ## A coroutine that starts -/

theorem clientRun_start (server : Server) (id : Nat) (w : World) :
    (∀ j, j ∈ (clientRun server id .clientRoutine .start w).2.routines ↔ j ∈ w.routines) ∧
      (clientRun server id .clientRoutine .start w).2.undefined = w.undefined := by
  rcases hlook : w.routines.lookup id with _ | info
  · simp only [clientRun, hlook, implies_true, and_self]
  have hmem := Lib.mem_of_lookup hlook
  have hinsert : ∀ info' j, j ∈ w.routines.insert id info' ↔ j ∈ w.routines := fun info' j => by
    rw [AList.mem_insert]
    exact ⟨fun h => h.elim (fun e => e ▸ hmem) fun h => h, Or.inr⟩
  obtain ⟨-, hdefined⟩ := Client.start_ends_iff server ⟨info, w.io⟩
  simp only [clientRun, hlook, World.segment]
  rcases hseg : Client.resume server .served ⟨info, w.io⟩ with ⟨seg, c⟩
  rw [hseg] at hdefined
  cases seg with
  | yield pc => exact ⟨hinsert c.info, rfl⟩
  | ret => exact ⟨hinsert c.info, rfl⟩
  | throw e => exact ⟨hinsert c.info, rfl⟩
  | undefined => exact absurd rfl hdefined

theorem clientRun_start_yields_iff (server : Server) {id : Nat} {w : World} {info : RoutineInfo}
    (h : w.routines.lookup id = some info) :
    (∃ k, (clientRun server id .clientRoutine .start w).1 = .yield k) ↔
      ¬ Client.AtOnce server ⟨info, w.io⟩ := by
  obtain ⟨hends, hdefined⟩ := Client.start_ends_iff server ⟨info, w.io⟩
  rw [← hends]
  simp only [clientRun, h, World.segment]
  rcases hseg : Client.resume server .served ⟨info, w.io⟩ with ⟨seg, c⟩
  rw [hseg] at hdefined
  cases seg with
  | yield pc => exact ⟨fun _ => not_false, fun _ => ⟨_, rfl⟩⟩
  | ret => simp [RoutineSeg.Ends]
  | throw e => simp [RoutineSeg.Ends]
  | undefined => exact absurd rfl hdefined

/-- As long as no client has been suspended, every coroutine is as `create` left it. -/
structure State.Fresh (s : State) : Prop where
  created : ∀ id r, s.o.routines.lookup id = some r → r.Created (some .clientRoutine)
  coroutine : ∀ id, id ∈ s.w.routines → id ∈ s.o.routines
  defined : s.w.undefined = false

theorem fresh_init (io : Io) : (State.init io).Fresh :=
  ⟨fun id r h => by simp [State.init, Coroutine.Ordinator.init] at h,
    fun id h => absurd h (AList.notMem_empty id), rfl⟩

/-! ## Accepting -/

theorem addNewConnection_entries {server : Server} {fd now : Nat} {s s' : State}
    (h : addNewConnection server fd now s = .ok s') :
    ∃ info : RoutineInfo, s'.w.routines = Lib.emplace fd info s.w.routines ∧ info.fd = fd ∧
      info.timeout = now + server.readTimeout := by
  rw [addNewConnection] at h
  simp only at h
  split at h
  · obtain rfl := Except.ok.inj h
    exact ⟨_, rfl, rfl, rfl⟩
  · obtain rfl := Except.ok.inj h
    exact ⟨_, rfl, rfl, rfl⟩
  · cases h

theorem addNewConnection_spec (server : Server) (fd now : Nat) {s s' : State}
    (h : addNewConnection server fd now s = .ok s') :
    s'.o = (Coroutine.create s.o fd (some .clientRoutine)).1 ∧
      (∀ j, j ∈ s'.w.routines ↔ j = fd ∨ j ∈ s.w.routines) ∧
      s'.w.undefined = s.w.undefined := by
  rw [addNewConnection] at h
  simp only at h
  split at h
  · obtain rfl := Except.ok.inj h
    exact ⟨rfl, fun j => Lib.mem_emplace _ _, rfl⟩
  · obtain rfl := Except.ok.inj h
    exact ⟨rfl, fun j => Lib.mem_emplace _ _, rfl⟩
  · cases h

theorem State.Fresh.addNewConnection {s s' : State} (hs : s.Fresh) {server : Server} {fd now : Nat}
    (h : addNewConnection server fd now s = .ok s') :
    s'.Fresh ∧ ((∀ j, j ∈ s.w.routines ↔ j ∈ s.o.routines) →
      ∀ j, j ∈ s'.w.routines ↔ j ∈ s'.o.routines) := by
  obtain ⟨ho, hw, hdefined⟩ := addNewConnection_spec server fd now h
  obtain ⟨hother, hold, hnew⟩ := Coroutine.create_spec s.o fd (some ClientPc.clientRoutine)
  have hcreated : ∀ j r, s'.o.routines.lookup j = some r → r.Created (some .clientRoutine) := by
    intro j r hr
    rw [ho] at hr
    rcases eq_or_ne j fd with rfl | hne
    · rcases hlook : s.o.routines.lookup j with _ | r'
      · obtain ⟨r', hr', hr'new⟩ := hnew hlook
        exact Option.some.inj (hr'.symm.trans hr) ▸ hr'new
      · exact Option.some.inj ((hold r' hlook).symm.trans hr) ▸ hs.created j r' hlook
    · exact hs.created j r ((hother j hne).symm.trans hr)
  refine ⟨⟨hcreated, fun j hj => ?_, hdefined.trans hs.defined⟩, fun hsame j => ?_⟩
  · rw [ho, Coroutine.mem_create_iff]
    exact ((hw j).mp hj).imp_right (hs.coroutine j)
  · rw [hw, ho, Coroutine.mem_create_iff, hsame]

theorem State.Fresh.acceptClients {server : Server} (outcomes : List AcceptOutcome) {s s' : State}
    (hs : s.Fresh) (h : acceptClients server outcomes s = .ok s') :
    s'.Fresh ∧ ((∀ j, j ∈ s.w.routines ↔ j ∈ s.o.routines) →
      ∀ j, j ∈ s'.w.routines ↔ j ∈ s'.o.routines) := by
  refine acceptClients_invariant server (I := fun s₁ => s₁.Fresh ∧
    ((∀ j, j ∈ s.w.routines ↔ j ∈ s.o.routines) → ∀ j, j ∈ s₁.w.routines ↔ j ∈ s₁.o.routines))
    (fun fd now s₁ s₂ _ hs₁ hadd => ?_) ⟨hs, fun hsame => hsame⟩ h
  obtain ⟨hs₂, hsame⟩ := hs₁.1.addNewConnection hadd
  exact ⟨hs₂, fun h => hsame (hs₁.2 h)⟩

/-! ## Client events -/

theorem handleClient_cases (server : Server) {id : Nat} (now : Nat) {s : State}
    (hid : id ∈ s.w.routines)
    (hmem : id ∈ (Coroutine.resume (clientCode server) s.o s.w id).1.2.routines)
    (hdefined : (Coroutine.resume (clientCode server) s.o s.w id).1.2.undefined = false) :
    (∃ msg, (Coroutine.resume (clientCode server) s.o s.w id).2.value =
        .error (.user (.epollError msg)) ∧
        handleClient server id false now s = .error (.threw (.user (.epollError msg)))) ∨
      ∃ s', handleClient server id false now s = .ok s' ∧
        s'.o = (Coroutine.resume (clientCode server) s.o s.w id).1.1 ∧
        (∀ j, j ∈ s'.w.routines ↔
          j ≠ id ∧ j ∈ (Coroutine.resume (clientCode server) s.o s.w id).1.2.routines) ∧
        s'.w.undefined = false := by
  obtain ⟨hundefined, -⟩ | ⟨-, hcases⟩ := handleClientWith_cases (clientCode server) server now hid
    hmem
  · exact absurd (hundefined.symm.trans hdefined) (by simp)
  · refine hcases.imp_right fun ⟨s', hok, ho, hdrop, hdefined'⟩ => ?_
    exact ⟨s', hok, ho, hdrop.mem_iff, hdefined'⟩

structure Resumed (server : Server) (s : State) (id : Nat) (atOnce : Prop) : Prop where
  entries : ∀ j, j ∈ (Coroutine.resume (clientCode server) s.o s.w id).1.2.routines ↔
    j ∈ s.w.routines
  defined : (Coroutine.resume (clientCode server) s.o s.w id).1.2.undefined = false
  other : ∀ j, j ≠ id →
    (Coroutine.resume (clientCode server) s.o s.w id).1.1.routines.lookup j = s.o.routines.lookup j
  suspended : id ∈ (Coroutine.resume (clientCode server) s.o s.w id).1.1.routines ↔ ¬ atOnce
  thrown : ∀ e, (Coroutine.resume (clientCode server) s.o s.w id).2.value = .error e → atOnce

theorem State.Fresh.resume {s : State} (hs : s.Fresh) (server : Server) {id : Nat} (hid : id ≠ 0)
    {info : RoutineInfo} (hinfo : s.w.routines.lookup id = some info) :
    Resumed server s id (Client.AtOnce server ⟨info, s.w.io⟩) := by
  obtain ⟨r, hr⟩ := Lib.exists_lookup (hs.coroutine id (Lib.mem_of_lookup hinfo))
  obtain ⟨hmem, hdefined⟩ := clientRun_start server id s.w
  have hyields := clientRun_start_yields_iff server hinfo
  obtain ⟨hworld, hother, hseg⟩ := Coroutine.resume_created (clientCode server) hid hr
    (hs.created id r hr) s.w
  have hrun : (clientCode server).run id .clientRoutine .start s.w =
      clientRun server id .clientRoutine .start s.w := rfl
  rw [hrun] at hworld hseg
  refine ⟨fun j => ?_, ?_, hother, ?_, ?_⟩
  · rw [hworld, hmem]
  · rw [hworld, hdefined, hs.defined]
  · rw [← hyields]
    rcases hend : (clientRun server id .clientRoutine .start s.w).1 with k | _ | e
    · rw [hend] at hseg
      exact ⟨fun _ => ⟨k, rfl⟩, fun _ => Lib.mem_of_lookup hseg.1⟩
    · rw [hend] at hseg
      exact ⟨fun h => absurd h (AList.lookup_eq_none.mp hseg.1), fun ⟨k, hk⟩ => absurd hk (by simp)⟩
    · rw [hend] at hseg
      exact ⟨fun h => absurd h (AList.lookup_eq_none.mp hseg.1), fun ⟨k, hk⟩ => absurd hk (by simp)⟩
  · intro e hvalue
    by_contra hnot
    obtain ⟨k, hk⟩ := hyields.mpr hnot
    rw [hk] at hseg
    exact absurd (hseg.2.symm.trans hvalue) (by simp)

theorem State.Fresh.handleClient {s : State} (hs : s.Fresh) (server : Server) {id : Nat}
    (now : Nat) (hid : id ≠ 0) {info : RoutineInfo} (hinfo : s.w.routines.lookup id = some info) :
    (Client.AtOnce server ⟨info, s.w.io⟩ ∧ ∃ e, handleClient server id false now s = .error e) ∨
      ∃ s', handleClient server id false now s = .ok s' ∧
        s'.o = (Coroutine.resume (clientCode server) s.o s.w id).1.1 ∧
        (∀ j, j ∈ s'.w.routines ↔ j ≠ id ∧ j ∈ s.w.routines) ∧ s'.w.undefined = false := by
  have hresumed := hs.resume server hid hinfo
  have hmem := Lib.mem_of_lookup hinfo
  obtain ⟨msg, hvalue, hthrow⟩ | ⟨s', hok, ho, hw, hdefined⟩ := handleClient_cases server now hmem
    ((hresumed.entries id).mpr hmem) hresumed.defined
  · exact .inl ⟨hresumed.thrown _ hvalue, _, hthrow⟩
  · refine .inr ⟨s', hok, ho, fun j => ?_, hdefined⟩
    rw [hw, hresumed.entries]

theorem handleClient_zero (server : Server) (now : Nat) {s : State} (hs : s.Fresh)
    (hmem : 0 ∈ s.w.routines) :
    ∃ s', handleClient server 0 false now s = .ok s' ∧ s'.o = s.o ∧ 0 ∉ s'.w.routines := by
  have hresume : Coroutine.resume (clientCode server) s.o s.w 0 = ((s.o, s.w), ⟨[], .ok false⟩) :=
    if_pos rfl
  have hcases := handleClient_cases server now hmem
  rw [hresume] at hcases
  obtain ⟨msg, hvalue, -⟩ | ⟨s', hok, ho, hw, -⟩ := hcases hmem hs.defined
  · cases hvalue
  · exact ⟨s', hok, ho, fun h => ((hw 0).mp h).1 rfl⟩

/-! ## Timeouts -/

theorem State.Fresh.expire {s : State} (hs : s.Fresh) (server : Server) {id : Nat}
    (hmem : id ∈ s.w.routines) :
    ∃ s', expire server s id = .ok s' ∧ s'.Fresh ∧
      (∀ j, j ∈ s'.w.routines ↔ j ≠ id ∧ j ∈ s.w.routines) ∧
      ∀ j, j ∈ s'.o.routines ↔ (j = id → id = 0) ∧ j ∈ s.o.routines := by
  -- routine 0 is not killed, only its entry goes
  by_cases hid : id = 0
  · have hkill : ∀ e, Coroutine.kill (clientCode server) s.o s.w id (some e) =
        ((s.o, s.w), ⟨[], .error (.invalidArgument "You can't kill main routine")⟩) :=
      fun e => if_pos hid
    refine ⟨⟨s.o, { s.w with routines := s.w.routines.erase id }⟩, ?_, ⟨hs.created, ?_, hs.defined⟩,
      fun j => AList.mem_erase, fun j => ⟨fun h => ⟨fun _ => hid, h⟩, fun h => h.2⟩⟩
    · simp only [Http.expire, hkill, hs.defined, deleteConnection_of_mem hmem, Bool.false_eq_true,
        if_false]
    · exact fun j hj => hs.coroutine j (AList.mem_erase.mp hj).2
  · obtain ⟨r, hr⟩ := Lib.exists_lookup (hs.coroutine id hmem)
    obtain ⟨hentries, hundefined⟩ := clientRun_start server id s.w
    obtain ⟨hworld, hother, hgone⟩ := Coroutine.kill_created (clientCode_propagates server) hid hr
      (hs.created id r hr) s.w (.user (.httpError "Timeout reached"))
    have hrun : (clientCode server).run id .clientRoutine .start s.w =
        clientRun server id .clientRoutine .start s.w := rfl
    rw [hrun] at hworld
    rw [← hworld] at hentries hundefined
    simp only [Http.expire]
    generalize Coroutine.kill (clientCode server) s.o s.w id
      (some (.user (.httpError "Timeout reached"))) = k at *
    have hleft : ∀ j, j ∈ k.1.1.routines ↔ j ≠ id ∧ j ∈ s.o.routines := fun j => by
      rcases eq_or_ne j id with rfl | hne
      · exact ⟨fun h => absurd h (AList.lookup_eq_none.mp hgone), fun h => absurd rfl h.1⟩
      · rw [← AList.lookup_isSome, hother j hne, AList.lookup_isSome]
        exact ⟨fun h => ⟨hne, h⟩, fun h => h.2⟩
    refine ⟨⟨k.1.1, { k.1.2 with routines := k.1.2.routines.erase id }⟩, ?_, ⟨?_, ?_, ?_⟩, ?_, ?_⟩
    · simp only [hundefined, hs.defined, deleteConnection_of_mem ((hentries id).mpr hmem),
        Bool.false_eq_true, if_false]
    · intro j r' hj
      have hne : j ≠ id := ((hleft j).mp (Lib.mem_of_lookup hj)).1
      exact hs.created j r' ((hother j hne).symm.trans hj)
    · intro j hj
      obtain ⟨hne, hj⟩ := AList.mem_erase.mp hj
      exact (hleft j).mpr ⟨hne, hs.coroutine j ((hentries j).mp hj)⟩
    · exact hundefined.trans hs.defined
    · exact fun j => by rw [AList.mem_erase, hentries]
    · intro j
      rw [hleft]
      exact and_congr_left fun _ => ⟨fun hne e => absurd e hne, fun h e => hid (h e)⟩

theorem State.Fresh.sweep (server : Server) (ids : List Nat) {s : State} (hs : s.Fresh)
    (hnodup : ids.Nodup) (hids : ∀ id ∈ ids, id ∈ s.w.routines) :
    ∃ s', ids.foldlM (Http.expire server) s = .ok s' ∧ s'.Fresh ∧
      (∀ j, j ∈ s'.w.routines ↔ j ∉ ids ∧ j ∈ s.w.routines) ∧
      ∀ j, j ∈ s'.o.routines ↔ (j ∈ ids → j = 0) ∧ j ∈ s.o.routines := by
  -- by induction on the list: no turn touches the entries of the later ones
  induction ids generalizing s with
  | nil => exact ⟨s, rfl, hs, fun j => by simp, fun j => by simp⟩
  | cons id ids ih =>
    obtain ⟨hnot, hnodup⟩ := List.nodup_cons.mp hnodup
    obtain ⟨s₁, hstep, hs₁, hw₁, ho₁⟩ := hs.expire server (hids id List.mem_cons_self)
    obtain ⟨s', hrest, hs', hw', ho'⟩ := ih hs₁ hnodup fun j hj =>
      (hw₁ j).mpr ⟨fun e => hnot (e ▸ hj), hids j (List.mem_cons_of_mem id hj)⟩
    refine ⟨s', ?_, hs', fun j => ?_, fun j => ?_⟩
    · rw [List.foldlM_cons, hstep]
      exact hrest
    · rw [hw', hw₁, List.mem_cons, not_or]
      tauto
    · rw [ho', ho₁, List.mem_cons]
      rcases eq_or_ne j id with rfl | hne
      · tauto
      · simp only [hne, false_imp_iff, false_or, true_and]

theorem mem_expired {now : Nat} {w : World} {id : Nat} :
    id ∈ expired now w ↔ ∃ info, w.routines.lookup id = some info ∧ info.timeout < now := by
  simp only [expired, List.mem_map, List.mem_filter, decide_eq_true_eq]
  constructor
  · rintro ⟨⟨j, info⟩, ⟨hentry, hlate⟩, rfl⟩
    exact ⟨info, AList.mem_lookup_iff.mpr hentry, hlate⟩
  · rintro ⟨info, hinfo, hlate⟩
    exact ⟨⟨id, info⟩, ⟨AList.mem_lookup_iff.mp hinfo, hlate⟩, rfl⟩

theorem nodup_expired (now : Nat) (w : World) : (expired now w).Nodup :=
  w.routines.keys_nodup.sublist (List.filter_sublist.map Sigma.fst)

theorem State.Fresh.checkTimeouts {s : State} (hs : s.Fresh) (server : Server) (now : Nat) :
    ∃ s', checkTimeouts server now s = .ok s' ∧ s'.Fresh ∧
      (∀ j, j ∈ s'.w.routines ↔ j ∉ expired now s.w ∧ j ∈ s.w.routines) ∧
      ∀ j, j ∈ s'.o.routines ↔ (j ∈ expired now s.w → j = 0) ∧ j ∈ s.o.routines :=
  hs.sweep server (expired now s.w) (nodup_expired now s.w) fun id hid => by
    obtain ⟨info, hinfo, -⟩ := mem_expired.mp hid
    exact Lib.mem_of_lookup hinfo

/-! ## Suspended clients -/

/-- When a client's coroutine outlives its `resume`, `handleClient` keeps its entry, with the
connection and its buffer. -/
def KeepsSuspended (server : Server) (s : State) : Event → Prop
  | .client id false now =>
    id ∈ s.w.routines →
      id ∈ (Coroutine.resume (clientCode server) s.o s.w id).1.1.routines →
        ∃ s' info info', handleClient server id false now s = .ok s' ∧
          (Coroutine.resume (clientCode server) s.o s.w id).1.2.routines.lookup id = some info ∧
          s'.w.routines.lookup id = some info' ∧
          info'.node = info.node ∧ info'.fd = info.fd ∧ info'.buffer = info.buffer
  | _ => True

/-- An event of a client brings everything its coroutine needs to end. -/
def AnsweredAtOnce (server : Server) (s : State) : Event → Prop
  | .client id false _ =>
    ∀ info, s.w.routines.lookup id = some info →
      id ≠ 0 ∧ Client.AtOnce server ⟨info, s.w.io⟩
  | _ => True

theorem State.Fresh.keepsSuspended_iff {s : State} (hs : s.Fresh) (server : Server) (e : Event) :
    KeepsSuspended server s e ↔ AnsweredAtOnce server s e := by
  rcases e with outcomes | ⟨id, _ | _, now⟩ | now
  · exact Iff.rfl
  · constructor
    · intro h info hinfo
      have hmem := Lib.mem_of_lookup hinfo
      -- whatever is suspended loses its entry
      have hdropped : ∀ s', Http.handleClient server id false now s = .ok s' → id ∉ s'.w.routines →
          id ∉ (Coroutine.resume (clientCode server) s.o s.w id).1.1.routines := by
        intro s' hok hgone hin
        obtain ⟨s'', _, info', hok', -, hlook, -⟩ := h hmem hin
        obtain rfl := Except.ok.inj (hok.symm.trans hok')
        exact hgone (Lib.mem_of_lookup hlook)
      have hid : id ≠ 0 := by
        rintro rfl
        obtain ⟨s', hok, -, hgone⟩ := handleClient_zero server now hs hmem
        exact hdropped s' hok hgone (hs.coroutine 0 hmem)
      refine ⟨hid, ?_⟩
      obtain ⟨hat, -⟩ | ⟨s', hok, -, hw, -⟩ := hs.handleClient server now hid hinfo
      · exact hat
      · by_contra hnot
        exact hdropped s' hok (fun hin => ((hw id).mp hin).1 rfl)
          ((hs.resume server hid hinfo).suspended.mpr hnot)
    · intro h hmem hin
      obtain ⟨info, hinfo⟩ := Lib.exists_lookup hmem
      obtain ⟨hid, hat⟩ := h info hinfo
      exact absurd hat ((hs.resume server hid hinfo).suspended.mp hin)
  · exact Iff.rfl
  · exact Iff.rfl

theorem State.Fresh.step {s s' : State} (hs : s.Fresh) {server : Server} {e : Event}
    (he : AnsweredAtOnce server s e) (h : step server s e = .ok s') : s'.Fresh := by
  rcases e with outcomes | ⟨id, _ | _, now⟩ | now
  · exact (hs.acceptClients outcomes h).1
  · rcases hinfo : s.w.routines.lookup id with _ | info
    · simp only [Http.step, Http.handleClient, hinfo] at h
      cases h
    obtain ⟨hid, hat⟩ := he info hinfo
    have hresumed := hs.resume server hid hinfo
    obtain ⟨-, e, hthrow⟩ | ⟨s'', hok, ho, hw, hdefined⟩ := hs.handleClient server now hid hinfo
    · cases hthrow.symm.trans h
    obtain rfl := Except.ok.inj (hok.symm.trans h)
    refine ⟨fun j r hj => ?_, fun j hj => ?_, hdefined⟩
    · rw [ho] at hj
      have hne : j ≠ id := by
        rintro rfl
        exact hresumed.suspended.mp (Lib.mem_of_lookup hj) hat
      exact hs.created j r ((hresumed.other j hne).symm.trans hj)
    · obtain ⟨hne, hj⟩ := (hw j).mp hj
      rw [ho, ← AList.lookup_isSome, hresumed.other j hne, AList.lookup_isSome]
      exact hs.coroutine j hj
  · rcases hinfo : s.w.routines.lookup id with _ | info
    · simp only [Http.step, Http.handleClient, hinfo] at h
      cases h
    simp only [Http.step, Http.handleClient, hinfo, if_true,
      deleteConnection_of_mem (Lib.mem_of_lookup hinfo)] at h
    obtain rfl := Except.ok.inj h
    exact ⟨hs.created, fun j hj => hs.coroutine j (AList.mem_erase.mp hj).2, hs.defined⟩
  · obtain ⟨s'', hok, hs'', -⟩ := hs.checkTimeouts server now
    obtain rfl := Except.ok.inj (hok.symm.trans h)
    exact hs''

/-- In a run, suspended clients are kept exactly as long as there are none: each event of a client
must bring all that its coroutine needs to end. -/
theorem suspended_kept_iff (server : Server) (io : Io) (es : List Event) :
    Lib.Throughout (step server) (KeepsSuspended server) (.init io) es ↔
      Lib.Throughout (step server) (AnsweredAtOnce server) (.init io) es :=
  Lib.throughout_congr (I := State.Fresh) (fun _ e hs => hs.keepsSuspended_iff server e)
    (fun _ _ _ hs he h => hs.step he h) (fresh_init io) es

theorem suspended_client_dropped :
    ¬ ∀ (server : Server) (io : Io) (es : List Event),
      Lib.Throughout (step server) (KeepsSuspended server) (.init io) es := by
  intro h
  obtain ⟨-, hrest⟩ := h ⟨fun _ _ => .error (.user .other), .stored, 10, 10⟩
    ⟨[.received (ascii "GET / HTTP/1.1")], [], [], []⟩
    [.masterSocket [.connected 5 0], .client 5 false 1]
  obtain ⟨hkeep, -⟩ := hrest _ rfl
  obtain ⟨s', info, info', hok, -, hlook, -⟩ := hkeep (by decide) (by decide)
  obtain rfl := Except.ok.inj hok
  exact absurd (Lib.mem_of_lookup hlook) (by decide)

/-! ## Orphans -/

def State.SameIds (s : State) : Prop :=
  ∀ id, id ∈ s.w.routines ↔ id ∈ s.o.routines

/-- No connection goes before its coroutine: a client is not hung up on, its events bring all that
the coroutine needs to end, and descriptor 0, which `kill` refuses, never times out. -/
def LeavesNoOrphan (server : Server) (s : State) : Event → Prop
  | .masterSocket _ => True
  | .client id errOrHup _ =>
    ∀ info, s.w.routines.lookup id = some info →
      errOrHup = false ∧ id ≠ 0 ∧ Client.AtOnce server ⟨info, s.w.io⟩
  | .timeout now => ∀ info, s.w.routines.lookup 0 = some info → now ≤ info.timeout

theorem LeavesNoOrphan.answeredAtOnce {server : Server} {s : State} {e : Event}
    (h : LeavesNoOrphan server s e) : AnsweredAtOnce server s e := by
  rcases e with outcomes | ⟨id, _ | _, now⟩ | now
  · trivial
  · exact fun info hinfo => (h info hinfo).2
  · trivial
  · trivial

theorem State.Fresh.sameIds_client_iff {s : State} (hs : s.Fresh) (hsame : s.SameIds)
    (server : Server) (id now : Nat) :
    (∀ s', Http.handleClient server id false now s = .ok s' → s'.SameIds) ↔
      LeavesNoOrphan server s (.client id false now) := by
  constructor
  · intro h info hinfo
    have hmem := Lib.mem_of_lookup hinfo
    have hid : id ≠ 0 := by
      rintro rfl
      obtain ⟨s', hok, ho, hgone⟩ := handleClient_zero server now hs hmem
      -- the entry of 0 would go without its routine
      have hin := (hsame 0).mp hmem
      rw [← ho, ← h s' hok 0] at hin
      exact hgone hin
    refine ⟨rfl, hid, ?_⟩
    obtain ⟨hat, -⟩ | ⟨s', hok, ho, hw, -⟩ := hs.handleClient server now hid hinfo
    · exact hat
    · by_contra hnot
      have hin := (hs.resume server hid hinfo).suspended.mpr hnot
      rw [← ho, ← h s' hok id, hw] at hin
      exact hin.1 rfl
  · intro h s' hok
    rcases hinfo : s.w.routines.lookup id with _ | info
    · simp only [Http.handleClient, hinfo] at hok
      cases hok
    obtain ⟨-, hid, hat⟩ := h info hinfo
    have hresumed := hs.resume server hid hinfo
    obtain ⟨-, e, hthrow⟩ | ⟨s'', hok', ho, hw, -⟩ := hs.handleClient server now hid hinfo
    · cases hthrow.symm.trans hok
    obtain rfl := Except.ok.inj (hok'.symm.trans hok)
    intro j
    rcases eq_or_ne j id with rfl | hne
    · rw [hw, ho]
      exact ⟨fun hj => absurd rfl hj.1, fun hj => absurd hat (hresumed.suspended.mp hj)⟩
    · rw [hw, ho, hsame, ← AList.lookup_isSome, ← AList.lookup_isSome, hresumed.other j hne]
      exact ⟨fun hj => hj.2, fun hj => ⟨hne, hj⟩⟩

theorem State.Fresh.sameIds_step_iff {s : State} (hs : s.Fresh) (hsame : s.SameIds)
    (server : Server) (e : Event) :
    (∀ s', Http.step server s e = .ok s' → s'.SameIds) ↔ LeavesNoOrphan server s e := by
  rcases e with outcomes | ⟨id, _ | _, now⟩ | now
  · exact ⟨fun _ => trivial, fun _ s' h => (hs.acceptClients outcomes h).2 hsame⟩
  · exact hs.sameIds_client_iff hsame server id now
  · -- hanging up leaves the coroutine behind
    rcases hinfo : s.w.routines.lookup id with _ | info
    · simp only [Http.step, Http.handleClient, LeavesNoOrphan, hinfo]
      simp
    have hmem := Lib.mem_of_lookup hinfo
    simp only [Http.step, Http.handleClient, hinfo, if_true, deleteConnection_of_mem hmem]
    refine ⟨fun h => ?_, fun h => absurd (h info hinfo).1 (by simp)⟩
    exact absurd ((h _ rfl id).mpr ((hsame id).mp hmem)) fun hin => (AList.mem_erase.mp hin).1 rfl
  · obtain ⟨s', hok, -, hw, ho⟩ := hs.checkTimeouts server now
    simp only [Http.step, hok, Except.ok.injEq, forall_eq', LeavesNoOrphan]
    have hzero : (∀ info, s.w.routines.lookup 0 = some info → now ≤ info.timeout) ↔
        0 ∉ expired now s.w := by
      rw [mem_expired, not_exists]
      refine forall_congr' fun info => ?_
      rw [not_and, Nat.not_lt]
    rw [hzero]
    constructor
    · intro h hexpired
      have hmem : 0 ∈ s.w.routines := by
        obtain ⟨info, hinfo, -⟩ := mem_expired.mp hexpired
        exact Lib.mem_of_lookup hinfo
      exact ((hw 0).mp ((h 0).mpr ((ho 0).mpr ⟨fun _ => rfl, (hsame 0).mp hmem⟩))).1 hexpired
    · intro hnot j
      rw [hw, ho, hsame]
      refine and_congr_left fun _ => ⟨fun h hj => absurd hj h, fun h hj => ?_⟩
      exact hnot (h hj ▸ hj)

/-- The two tables have the same ids throughout a run exactly as long as no connection goes before
its coroutine. -/
theorem no_orphans_iff (server : Server) (io : Io) (es : List Event) :
    Lib.Throughout (step server) (fun s e => ∀ s', step server s e = .ok s' → s'.SameIds)
        (.init io) es ↔
      Lib.Throughout (step server) (LeavesNoOrphan server) (.init io) es := by
  refine Lib.throughout_congr (I := fun s => s.Fresh ∧ s.SameIds)
    (fun s e hs => hs.1.sameIds_step_iff hs.2 server e) (fun s e s' hs he h => ?_)
    ⟨fresh_init io, fun id => ?_⟩ es
  · exact ⟨hs.1.step he.answeredAtOnce h, (hs.1.sameIds_step_iff hs.2 server e).mpr he s' h⟩
  · exact ⟨fun h => absurd h (AList.notMem_empty id), fun h => absurd h (AList.notMem_empty id)⟩

theorem hung_up_coroutine_left :
    ¬ ∀ (server : Server) (io : Io) (es : List Event),
      Lib.Throughout (step server) (fun s e => ∀ s', step server s e = .ok s' → s'.SameIds)
        (.init io) es := by
  intro h
  obtain ⟨-, hrest⟩ := h ⟨fun _ _ => .error (.user .other), .stored, 10, 10⟩ ⟨[], [], [], []⟩
    [.masterSocket [.connected 5 0], .client 5 true 1]
  obtain ⟨hsame, -⟩ := hrest _ rfl
  exact absurd ((hsame _ rfl 5).mpr (by decide)) (by decide)

end AdvCppTP.Http
