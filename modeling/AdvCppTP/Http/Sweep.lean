import AdvCppTP.Http.ClientTables

/-! When an entry of `routines_` outlives its timeout: `checkTimeouts` runs only behind a wait
without events. -/

namespace AdvCppTP.Http

/-- No event of the batch is one of client `id`. -/
def NoEvent (masterSocket id : Nat) (events : List PollEvent) : Prop :=
  ∀ e ∈ events, e.id = id → e.id = masterSocket

/-- The timeout is in the past at each of the readings. -/
def Late (readings : List Nat) (info : RoutineInfo) : Prop := ∀ t ∈ readings, info.timeout < t

/-- An entry that is late behind a part of an iteration is the one from before. -/
def Due (masterSocket : Nat) (readings : List Nat) (events : List PollEvent) (w w' : World) :
    Prop :=
  ∀ id info, w'.routines.lookup id = some info → Late readings info →
    SameFixed w w' id ∧ NoEvent masterSocket id events

theorem sameFixed_timeout {w w' : World} {id : Nat} (h : SameFixed w w' id) {info' : RoutineInfo}
    (hinfo : w'.routines.lookup id = some info') :
    ∃ info, w.routines.lookup id = some info ∧ info.timeout = info'.timeout := by
  obtain ⟨info, hlook, hfixed⟩ := h.lookup hinfo
  exact ⟨info, hlook, congrArg (fun f => f.2.2) hfixed⟩

theorem due_append {masterSocket : Nat} {readings : List Nat} {events events' : List PollEvent}
    {w w₁ w' : World} (h : Due masterSocket readings events w w₁)
    (h' : Due masterSocket readings events' w₁ w') :
    Due masterSocket readings (events ++ events') w w' := by
  intro id info hinfo hlate
  obtain ⟨hsame', hnone'⟩ := h' id info hinfo hlate
  obtain ⟨info₁, hinfo₁, htimeout⟩ := sameFixed_timeout hsame' hinfo
  have hlate₁ : Late readings info₁ := fun t ht => htimeout ▸ hlate t ht
  obtain ⟨hsame, hnone⟩ := h id info₁ hinfo₁ hlate₁
  refine ⟨hsame'.trans hsame, fun e he => ?_⟩
  exact (List.mem_append.mp he).elim (hnone e) (hnone' e)

/-! ## Events -/

theorem due_addNewConnection {server : Server} {fd now masterSocket : Nat} {readings : List Nat}
    (hnow : now ∈ readings) {s s' : State} (h : addNewConnection server fd now s = .ok s') :
    Due masterSocket readings [] s.w s'.w := by
  obtain ⟨info, hentries, -, htimeout⟩ := addNewConnection_entries h
  intro id info' hinfo' hlate
  refine ⟨?_, fun e he => absurd he List.not_mem_nil⟩
  rw [SameFixed, hentries]
  rcases eq_or_ne id fd with rfl | hne
  · rcases hlook : s.w.routines.lookup id with _ | info₀
    · rw [hentries, Lib.lookup_emplace_self, hlook, Option.getD_none] at hinfo'
      obtain rfl := Option.some.inj hinfo'
      have hpast := hlate now hnow
      omega
    · rw [Lib.lookup_emplace_self, hlook, Option.getD_some]
  · rw [Lib.lookup_emplace_ne _ _ hne]

theorem due_dispatch (code : KeepingCode) {server : Server} {masterSocket : Nat}
    {readings : List Nat} {s s' : State} {e : PollEvent}
    (hread : ∀ t ∈ e.outcomes.filterMap AcceptOutcome.reading, t ∈ readings)
    (h : dispatch code.toCode server masterSocket s e = .ok s') :
    Due masterSocket readings [e] s.w s'.w := by
  rw [dispatch] at h
  split at h
  · rename_i hmaster
    have hdue : Due masterSocket readings [] s.w s'.w := by
      refine acceptClients_invariant server (I := fun s₁ => Due masterSocket readings [] s.w s₁.w)
        (fun fd now s₁ s₂ hin hs₁ hadd => ?_) (fun _ _ _ _ => ⟨rfl, by simp [NoEvent]⟩) h
      have hnow := hread now (List.mem_filterMap.mpr ⟨_, hin, rfl⟩)
      exact due_append hs₁ (due_addNewConnection hnow hadd)
    intro id info hinfo hlate
    obtain ⟨hsame, -⟩ := hdue id info hinfo hlate
    refine ⟨hsame, fun e' he' _ => ?_⟩
    rw [List.mem_singleton.mp he', hmaster]
  · obtain ⟨-, hgone, hsame, -⟩ := handleClientWith_ok code server h
    intro id info hinfo _
    have hne : id ≠ e.id := by
      rintro rfl
      exact hgone (Lib.mem_of_lookup hinfo)
    refine ⟨hsame id hne, fun e' he' heq => ?_⟩
    rw [List.mem_singleton.mp he'] at heq
    exact absurd heq.symm hne

theorem due_events (code : KeepingCode) {server : Server} {masterSocket : Nat}
    {readings : List Nat} {events : List PollEvent} {s s' : State}
    (hread : ∀ t ∈ (WaitResult.ready events).readings, t ∈ readings)
    (h : events.foldlM (dispatch code.toCode server masterSocket) s = .ok s') :
    Due masterSocket readings events s.w s'.w := by
  induction events generalizing s with
  | nil =>
    obtain rfl := Except.ok.inj h
    exact fun _ _ _ _ => ⟨rfl, by simp [NoEvent]⟩
  | cons e events ih =>
    rw [WaitResult.readings, List.flatMap_cons, List.forall_mem_append] at hread
    obtain ⟨s₁, hstep, hrest⟩ := Lib.foldlM_cons_eq_ok.mp h
    have hfirst := due_dispatch code (fun t ht => hread.1 t (List.mem_cons_of_mem _ ht)) hstep
    exact due_append hfirst (ih hread.2 hrest)

/-! ## The sweep -/

theorem swept_ids (code : KeepingCode) {ids : List Nat} {s s' : State}
    (h : ids.foldlM (expireWith code.toCode) s = .ok s') {id : Nat} (hid : id ∈ s'.w.routines) :
    id ∉ ids ∧ SameFixed s.w s'.w id := by
  induction ids generalizing s with
  | nil =>
    obtain rfl := Except.ok.inj h
    exact ⟨List.not_mem_nil, rfl⟩
  | cons id' ids ih =>
    obtain ⟨s₁, hstep, hrest⟩ := Lib.foldlM_cons_eq_ok.mp h
    obtain ⟨hnot, hsame⟩ := ih hrest
    obtain ⟨hgone, hsame₁, -⟩ := expireWith_ok code hstep
    have hne : id ≠ id' := by
      rintro rfl
      exact hgone (hsame.mem_iff.mp hid)
    exact ⟨by simp [hne, hnot], hsame.trans (hsame₁ id hne)⟩

/-- An entry whose timeout had passed when `epoll_wait` returned, and at the iteration's later
readings of the clock, outlives the iteration only if that wait did not time out: then the entry
was there before, with the same timeout, and no event of the batch was one of its client. -/
def Swept (code : Coroutine.Code ClientPc Thrown World) (server : Server) (masterSocket : Nat)
    (s : State) (wakeup : Wakeup) : Prop :=
  ∀ s', iterate code server masterSocket s wakeup = .ok s' →
    ∀ id info, s'.w.routines.lookup id = some info → Late wakeup.readings info →
      (∀ now, wakeup.result ≠ .timedOut now) ∧
        (∃ info₀, s.w.routines.lookup id = some info₀ ∧ info₀.timeout = info.timeout) ∧
        ∀ events, wakeup.result = .ready events → NoEvent masterSocket id events

theorem swept (code : KeepingCode) (server : Server) (masterSocket : Nat) (s : State)
    (wakeup : Wakeup) : Swept code.toCode server masterSocket s wakeup := by
  intro s' h id info hinfo hlate
  have hread : ∀ t ∈ wakeup.result.readings, t ∈ wakeup.readings :=
    fun _ ht => List.mem_cons_of_mem _ ht
  rw [iterate] at h
  rcases hresult : wakeup.result with _ | _ | now | events
  · rw [hresult] at h
    cases h
  · rw [hresult] at h
    obtain rfl := Except.ok.inj h
    exact ⟨by simp, ⟨info, hinfo, rfl⟩, by simp⟩
  · rw [hresult] at h hread
    obtain ⟨hnot, hsame⟩ := swept_ids code h (Lib.mem_of_lookup hinfo)
    obtain ⟨info₀, hinfo₀, htimeout⟩ := sameFixed_timeout hsame hinfo
    have hpast : info.timeout < now := hlate now (hread now List.mem_cons_self)
    exact absurd (mem_expired.mpr ⟨info₀, hinfo₀, htimeout ▸ hpast⟩) hnot
  · rw [hresult] at h hread
    obtain ⟨hsame, hnone⟩ := due_events code hread h id info hinfo hlate
    refine ⟨by simp, sameFixed_timeout hsame hinfo, fun events' heq => ?_⟩
    cases heq
    exact hnone

/-- In every run the entries that outlive their timeout are those that no sweep came to. -/
theorem expired_await_sweep (code : KeepingCode) (server : Server) (masterSocket : Nat) (io : Io)
    (wakeups : List Wakeup) :
    Lib.Throughout (iterate code.toCode server masterSocket) (Swept code.toCode server masterSocket)
      (.init io) wakeups :=
  Lib.throughout_of_invariant (I := fun _ => True)
    (fun s wakeup _ => swept code server masterSocket s wakeup) (fun _ _ _ _ _ => trivial) trivial
    wakeups

def NoneExpired (code : Coroutine.Code ClientPc Thrown World) (server : Server)
    (masterSocket : Nat) (s : State) (wakeup : Wakeup) : Prop :=
  ∀ s', iterate code server masterSocket s wakeup = .ok s' →
    ∀ id info, s'.w.routines.lookup id = some info → wakeup.returned ≤ info.timeout

theorem busy_server_keeps_expired :
    ¬ ∀ (server : Server) (masterSocket : Nat) (io : Io) (wakeups : List Wakeup),
      Lib.Throughout (iterate (clientCode server) server masterSocket)
        (NoneExpired (clientCode server) server masterSocket) (.init io) wakeups := by
  intro h
  obtain ⟨-, hrest⟩ := h ⟨fun _ _ => .error (.user .other), .stored, 10, 10⟩ 3 ⟨[], [], [], []⟩
    [⟨0, .ready [⟨3, false, [.connected 5 0, .wouldBlock], 0⟩]⟩,
      ⟨20, .ready [⟨3, false, [.connected 6 20, .wouldBlock], 20⟩]⟩]
  obtain ⟨hlate, -⟩ := hrest _ rfl
  exact absurd (hlate _ rfl 5 _ rfl) (by decide)

end AdvCppTP.Http
