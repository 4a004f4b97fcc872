import AdvCppTP.Http.ClientTables

/-! What an event of one client does to the others, and when its coroutine can be resumed at all:
one that was left over from an earlier connection refers to an entry that has gone. -/

namespace AdvCppTP.Http

/-- A coroutine of `clientRoutine` that waits to be resumed, and refers to the entry of the client
under whose id it is kept. -/
structure BelongsTo (id : Nat) (r : Coroutine.Routine ClientPc Thrown) : Prop where
  idle : r.Idle
  func : r.func = some .clientRoutine
  ctx : ∀ k, r.ctx = .inYield k → k.Own id

theorem belongsTo_of_created {id : Nat} {r : Coroutine.Routine ClientPc Thrown}
    (h : r.Created (some .clientRoutine)) : BelongsTo id r where
  idle := ⟨h.finished, h.exception⟩
  func := h.func
  ctx k hk := by
    rw [h.ctx] at hk
    cases hk

structure State.Own (s : State) : Prop where
  belongs : ∀ id r, s.o.routines.lookup id = some r → BelongsTo id r
  defined : s.w.undefined = false

theorem own_init (io : Io) : (State.init io).Own where
  belongs id r h := by simp [State.init, Coroutine.Ordinator.init] at h
  defined := rfl

/-- An operation on `id` that leaves the other coroutines as they are. -/
theorem State.Own.of_others {s s' : State} (hs : s.Own) (id : Nat)
    (hother : ∀ j, j ≠ id → s'.o.routines.lookup j = s.o.routines.lookup j)
    (hid : ∀ r, s'.o.routines.lookup id = some r → BelongsTo id r)
    (hdefined : s'.w.undefined = false) : s'.Own := by
  refine ⟨fun j r hj => ?_, hdefined⟩
  rcases eq_or_ne j id with rfl | hne
  · exact hid r hj
  · exact hs.belongs j r ((hother j hne).symm.trans hj)

/-! ## Resuming -/

/-- The coroutine of `id` is not left over from an earlier connection. -/
def State.Current (s : State) (id : Nat) : Prop :=
  ∀ r k, s.o.routines.lookup id = some r → r.ctx = .inYield k → k.Live s.w

theorem State.Own.place {s : State} (hs : s.Own) {id : Nat}
    {r : Coroutine.Routine ClientPc Thrown} (hr : s.o.routines.lookup id = some r) :
    ∃ k sig, r.place = some (k, sig) ∧ k.Own id ∧ (∀ e, sig ≠ .raised e) ∧
      (k.Live s.w ↔ s.Current id) := by
  have hbelongs := hs.belongs id r hr
  have hcurrent : s.Current id ↔ ∀ k, r.ctx = .inYield k → k.Live s.w := by
    rw [State.Current, hr]
    exact ⟨fun h k => h r k rfl, fun h r' k hr' => Option.some.inj hr' ▸ h k⟩
  unfold Coroutine.Routine.place
  rcases hctx : r.ctx with _ | k
  · refine ⟨.clientRoutine, .start, by rw [hbelongs.func]; rfl, trivial, by simp, ?_⟩
    rw [hcurrent, hctx]
    simp [ClientPc.Live]
  · refine ⟨k, .resumed, rfl, hbelongs.ctx k hctx, by simp, ?_⟩
    rw [hcurrent, hctx]
    simp

/-- What one `resume` does to the tables. -/
structure ResumedOwn (server : Server) (s : State) (id : Nat) : Prop where
  routines : ∀ j, j ≠ id →
    (Coroutine.resume (clientCode server) s.o s.w id).1.1.routines.lookup j = s.o.routines.lookup j
  entries : ∀ j, j ≠ id →
    (Coroutine.resume (clientCode server) s.o s.w id).1.2.routines.lookup j = s.w.routines.lookup j
  left : ∀ r, (Coroutine.resume (clientCode server) s.o s.w id).1.1.routines.lookup id = some r →
    BelongsTo id r
  defined : (Coroutine.resume (clientCode server) s.o s.w id).1.2.undefined = false ↔
    id = 0 ∨ s.Current id

theorem State.Own.resume_unchanged {s : State} (hs : s.Own) (server : Server) {id : Nat}
    (h : (Coroutine.resume (clientCode server) s.o s.w id).1 = (s.o, s.w))
    (hcurrent : id = 0 ∨ s.Current id) : ResumedOwn server s id where
  routines j _ := by rw [h]
  entries j _ := by rw [h]
  left r hr := by
    rw [h] at hr
    exact hs.belongs id r hr
  defined := by
    rw [h]
    exact iff_of_true hs.defined hcurrent

theorem State.Own.resume {s : State} (hs : s.Own) (server : Server) (id : Nat) :
    ResumedOwn server s id := by
  by_cases hid : id = 0
  · exact hs.resume_unchanged server (by rw [Coroutine.resume, if_pos hid]) (.inl hid)
  rcases hr : s.o.routines.lookup id with _ | r
  · refine hs.resume_unchanged server ?_ (.inr fun r k hr' => ?_)
    · rw [Coroutine.resume, if_neg hid, hr]
    · cases hr.symm.trans hr'
  have hbelongs := hs.belongs id r hr
  obtain ⟨k, sig, hplace, hown, hsig, hlive⟩ := hs.place hr
  obtain ⟨hworld, hother, hseg⟩ := Coroutine.resume_idle (clientCode server) hid hr hbelongs.idle
    hplace s.w
  have hrun : (clientCode server).run id k sig s.w = clientRun server id k sig s.w := rfl
  obtain ⟨hentries, hyield, hdefined⟩ := clientRun_own server hown hsig s.w
  rw [hrun] at hworld hseg
  refine ⟨hother, fun j hj => ?_, fun r' hr' => ?_, ?_⟩
  · rw [hworld, hentries j hj]
  · rcases hend : (clientRun server id k sig s.w).1 with k' | _ | e
    · rw [hend] at hseg
      obtain rfl := Option.some.inj (hseg.1.symm.trans hr')
      refine ⟨hbelongs.idle, hbelongs.func, fun k'' hk'' => ?_⟩
      cases hk''
      exact hyield k' hend
    · rw [hend] at hseg
      exact absurd (hseg.1.symm.trans hr') (by simp)
    · rw [hend] at hseg
      exact absurd (hseg.1.symm.trans hr') (by simp)
  · rw [hworld, hdefined, and_iff_right hs.defined, hlive, or_iff_right hid]

/-! ## Runs -/

theorem State.Own.addNewConnection {s s' : State} (hs : s.Own) {server : Server} {fd now : Nat}
    (h : addNewConnection server fd now s = .ok s') : s'.Own := by
  obtain ⟨ho, -, hdefined⟩ := addNewConnection_spec server fd now h
  obtain ⟨hother, hold, hnew⟩ := Coroutine.create_spec s.o fd (some ClientPc.clientRoutine)
  rw [← ho] at hother hold hnew
  refine hs.of_others _ hother (fun r hr => ?_) (hdefined.trans hs.defined)
  rcases hlook : s.o.routines.lookup fd with _ | r'
  · obtain ⟨r', hr', hcreated⟩ := hnew hlook
    exact Option.some.inj (hr'.symm.trans hr) ▸ belongsTo_of_created hcreated
  · exact Option.some.inj ((hold r' hlook).symm.trans hr) ▸ hs.belongs fd r' hlook

theorem State.Own.handleClient {s s' : State} (hs : s.Own) {server : Server} {id now : Nat}
    {errOrHup : Bool} (h : handleClient server id errOrHup now s = .ok s') : s'.Own := by
  rw [← handleClientWith_clientCode] at h
  obtain ⟨hid, -⟩ := handleClientWith_ok (keepingClientCode server) server h
  cases errOrHup with
  | true =>
    rw [handleClientWith_hup _ _ _ hid] at h
    obtain rfl := Except.ok.inj h
    exact ⟨hs.belongs, hs.defined⟩
  | false =>
    have hresumed := hs.resume server id
    have hmem := ((keepingClientCode server).resume_fixed s id id).mem_iff.mpr hid
    obtain ⟨-, herror⟩ | ⟨-, ⟨msg, -, herror⟩ | ⟨s₁, hok, ho, -, hdefined⟩⟩ :=
      handleClientWith_cases (clientCode server) server now hid hmem
    · cases herror.symm.trans h
    · cases herror.symm.trans h
    · obtain rfl := Except.ok.inj (hok.symm.trans h)
      refine hs.of_others id (fun j hj => ?_) (fun r hr => ?_) hdefined
      · rw [ho, hresumed.routines j hj]
      · rw [ho] at hr
        exact hresumed.left r hr

/-- A killed coroutine of a client is gone, unless `kill` refuses it. -/
theorem State.Own.kill {s : State} (hs : s.Own) (server : Server) (id : Nat) (e : Exn) :
    (∀ j, j ≠ id → (Coroutine.kill (clientCode server) s.o s.w id (some e)).1.1.routines.lookup j =
        s.o.routines.lookup j) ∧
      ∀ r, (Coroutine.kill (clientCode server) s.o s.w id (some e)).1.1.routines.lookup id =
        some r → BelongsTo id r := by
  by_cases hid : id = 0
  · rw [Coroutine.kill, if_pos hid]
    exact ⟨fun _ _ => rfl, hs.belongs id⟩
  rcases hr : s.o.routines.lookup id with _ | r
  · rw [Coroutine.kill, if_neg hid, hr]
    exact ⟨fun _ _ => rfl, hs.belongs id⟩
  have hbelongs := hs.belongs id r hr
  have hgone : (∀ j, j ≠ id → (Coroutine.kill (clientCode server) s.o s.w id
      (some e)).1.1.routines.lookup j = s.o.routines.lookup j) ∧
      (Coroutine.kill (clientCode server) s.o s.w id (some e)).1.1.routines.lookup id = none := by
    rcases hctx : r.ctx with _ | k
    · have hnew : r.Created (some .clientRoutine) :=
        ⟨hctx, hbelongs.func, hbelongs.idle.2, hbelongs.idle.1⟩
      exact (Coroutine.kill_created (clientCode_propagates server) hid hr hnew s.w e).2
    · exact (Coroutine.kill_suspended (clientCode_propagates server) hid hr hbelongs.idle.1 hctx s.w
        e).2
  refine ⟨hgone.1, fun r' hr' => ?_⟩
  cases hgone.2.symm.trans hr'

theorem State.Own.expire {s s' : State} (hs : s.Own) {server : Server} {id : Nat}
    (h : expire server s id = .ok s') : s'.Own := by
  obtain ⟨hother, hleft⟩ := hs.kill server id (.user (.httpError "Timeout reached"))
  simp only [Http.expire] at h
  generalize Coroutine.kill (clientCode server) s.o s.w id
    (some (.user (.httpError "Timeout reached"))) = r at h hother hleft
  split at h
  · cases h
  · rename_i hdefined
    rw [deleteConnection] at h
    split at h
    · cases h
    · rename_i w hdelete
      obtain rfl := Except.ok.inj h
      split at hdelete
      · cases hdelete
      · obtain rfl := Option.some.inj hdelete
        exact hs.of_others _ hother hleft (eq_false_of_ne_true hdefined)

theorem State.Own.step {s s' : State} (hs : s.Own) {server : Server} {e : Event}
    (h : step server s e = .ok s') : s'.Own := by
  cases e with
  | masterSocket outcomes =>
    exact acceptClients_invariant server (fun _ _ _ _ _ hs hadd => hs.addNewConnection hadd) hs h
  | client id errOrHup now => exact hs.handleClient h
  | timeout now => exact Lib.foldlM_invariant (fun _ _ _ hs hexpire => hs.expire hexpire) hs h

/-- In every state that a run reaches, coroutines belong to the clients under whose ids they are
kept. -/
theorem own_of_run {server : Server} {io : Io} {es : List Event} {s : State}
    (h : es.foldlM (step server) (.init io) = .ok s) : s.Own :=
  Lib.foldlM_invariant (fun _ _ _ hs hstep => hs.step hstep) (own_init io) h

/-! ## Containment -/

/-- `handleClient` returns normally, and what belongs to the other clients is as before. -/
def Contained (server : Server) (s : State) (id : Nat) (errOrHup : Bool) (now : Nat) : Prop :=
  ∃ s', handleClient server id errOrHup now s = .ok s' ∧ ∀ j, j ≠ id →
    s'.w.routines.lookup j = s.w.routines.lookup j ∧ s'.o.routines.lookup j = s.o.routines.lookup j

/-- An event of a client is contained exactly when it is a hang-up, or its coroutine, which
descriptor 0 does not resume, is not left over from an earlier connection. -/
theorem contained_iff {server : Server} {s : State} (hs : s.Own) {id : Nat} (errOrHup : Bool)
    (now : Nat) (hid : id ∈ s.w.routines)
    (hepoll : ∀ msg, (Coroutine.resume (clientCode server) s.o s.w id).2.value ≠
      .error (.user (.epollError msg))) :
    Contained server s id errOrHup now ↔ errOrHup = true ∨ id = 0 ∨ s.Current id := by
  rw [Contained, ← handleClientWith_clientCode]
  cases errOrHup with
  | true =>
    rw [handleClientWith_hup _ _ _ hid]
    refine iff_of_true ⟨_, rfl, fun j hj => ⟨?_, rfl⟩⟩ (.inl rfl)
    exact (dropped_erase id s.w).other j hj
  | false =>
    have hresumed := hs.resume server id
    have hentry := ((keepingClientCode server).resume_fixed s id id).mem_iff.mpr hid
    rw [or_iff_right Bool.false_ne_true, ← hresumed.defined]
    obtain ⟨hundefined, herror⟩ | ⟨hdefined, ⟨msg, hvalue, -⟩ | ⟨s₁, hok, ho, hdrop, -⟩⟩ :=
      handleClientWith_cases (clientCode server) server now hid hentry
    · rw [hundefined, herror]
      simp
    · exact absurd hvalue (hepoll msg)
    · refine iff_of_true ⟨s₁, hok, fun j hj => ⟨?_, ?_⟩⟩ hdefined
      · rw [hdrop.other j hj, hresumed.entries j hj]
      · rw [ho, hresumed.routines j hj]

theorem contained_first_event :
    let server : Server := ⟨fun _ _ => .error (.user .other), .stored, 10, 10⟩
    let io : Io := ⟨[.received (ascii "GET / HTTP/1.1")], [], [], []⟩
    ∃ s, [Event.masterSocket [.connected 5 0, .connected 6 0]].foldlM (step server) (.init io) =
        .ok s ∧ Contained server s 5 false 1 := by
  intro server io
  have hown := @own_of_run server io [.masterSocket [.connected 5 0, .connected 6 0]] _ rfl
  refine ⟨_, rfl, (contained_iff hown false 1 (by decide) ?_).mpr (.inr (.inr ?_))⟩
  · intro msg h
    cases h
  · intro r k hr hctx
    cases hr
    cases hctx

theorem left_over_coroutine_not_contained :
    ¬ ∀ (server : Server) (io : Io) (es : List Event) (s : State) (id : Nat) (errOrHup : Bool)
      (now : Nat), es.foldlM (step server) (.init io) = .ok s → id ∈ s.w.routines →
      id ∈ s.o.routines →
      (∀ msg, (Coroutine.resume (clientCode server) s.o s.w id).2.value ≠
        .error (.user (.epollError msg))) →
      Contained server s id errOrHup now := by
  intro h
  obtain ⟨s', hok, -⟩ := h ⟨fun _ _ => .error (.user .other), .stored, 10, 10⟩
    ⟨[.received (ascii "GET / HTTP/1.1")], [], [], []⟩
    [.masterSocket [.connected 5 0], .client 5 false 1, .masterSocket [.connected 5 2]] _ 5 false 3
    rfl (by decide) (by decide) fun msg hmsg => by cases hmsg
  cases hok

end AdvCppTP.Http
