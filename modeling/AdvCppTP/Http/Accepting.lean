import AdvCppTP.Http.Dispatch

/-! `acceptClients` over a backlog without end: its loop with the counter that bounds it, and when
it returns with no more connections than `MAX_ACCEPTIONS`. -/

namespace AdvCppTP.Http

def maxAcceptions : Nat := 1

/-- The counter of the loop, and the descriptors that it has registered. -/
structure Accepting where
  i : Nat
  s : State
  registered : List Nat

inductive AcceptEnd
  | returned (a : Accepting)
  | threw (e : Ended)

/-- One turn of the loop of `acceptClients`, for the outcome of its `::accept4`. -/
def Accepting.turn (server : Server) (a : Accepting) (outcome : AcceptOutcome) :
    Except AcceptEnd Accepting :=
  if a.i < maxAcceptions then
    match outcome with
    | .connected fd now =>
      match addNewConnection server fd now a.s with
      -- the loop goes on with the same `i`
      | .ok s => .ok { a with s, registered := a.registered ++ [fd] }
      | .error e => .error (.threw e)
    | .unnamed errno =>
      .error (.threw (.threw (.user (.tcpError ("Fail to get socket data: " ++ errno)))))
    | .eintr => .ok a
    | .wouldBlock => .error (.returned a)
    | .error => .error (.threw (.threw (.user (.tcpError "Accept error"))))
  else .error (.returned a)

def Accepting.start (s : State) : Accepting := ⟨0, s, []⟩

/-- The loop is that of `acceptClients`. -/
theorem acceptClients_eq (server : Server) (outcomes : List AcceptOutcome) (s : State)
    (registered : List Nat) :
    acceptClients server outcomes s =
      match outcomes.foldlM (Accepting.turn server) ⟨0, s, registered⟩ with
      | .ok a => .ok a.s
      | .error (.returned a) => .ok a.s
      | .error (.threw e) => .error e := by
  induction outcomes generalizing s registered with
  | nil => rfl
  | cons outcome outcomes ih =>
    cases outcome with
    | connected fd now =>
      rw [List.foldlM_cons, acceptClients]
      have hturn : Accepting.turn server ⟨0, s, registered⟩ (.connected fd now) =
          match addNewConnection server fd now s with
          | .ok s => .ok ⟨0, s, registered ++ [fd]⟩
          | .error e => .error (.threw e) := rfl
      rw [hturn]
      rcases addNewConnection server fd now s with e | s₁
      · rfl
      · exact ih s₁ (registered ++ [fd])
    | unnamed errno => rfl
    | eintr => exact ih s registered
    | wouldBlock => rfl
    | error => rfl

/-- The first outcomes of `::accept4`. -/
def firstOutcomes (outcomes : Nat → AcceptOutcome) (n : Nat) : List AcceptOutcome :=
  (List.range n).map outcomes

/-- The call returns, and has registered each connection that it accepted once, and no more than
`MAX_ACCEPTIONS`. -/
def AcceptsBounded (server : Server) (outcomes : Nat → AcceptOutcome) (s : State) : Prop :=
  ∃ n a, (firstOutcomes outcomes n).foldlM (Accepting.turn server) (.start s) =
      .error (.returned a) ∧
    a.registered = accepted (firstOutcomes outcomes n) ∧ a.registered.length ≤ maxAcceptions

/-- An outcome behind which the loop goes on, if `epoll_ctl` takes the connection. -/
def AcceptOutcome.GoesOn : AcceptOutcome → Prop
  | .connected _ _ => True
  | .eintr => True
  | _ => False

/-- `epoll_ctl` takes the next `n` descriptors. -/
def Io.Takes (io : Io) (n : Nat) : Prop := ∀ errno, some errno ∉ io.ctls.take n

section

variable {server : Server} {s s' : State} {fd now : Nat}

theorem addNewConnection_ok (server : Server) (fd now : Nat) (h : s.w.io.Takes 1) :
    ∃ s', addNewConnection server fd now s = .ok s' ∧ s'.w.io.ctls = s.w.io.ctls.tail := by
  simp only [addNewConnection]
  rcases hctls : s.w.io.ctls with _ | ⟨ctl, ctls⟩
  · exact ⟨_, rfl, hctls⟩
  · cases ctl with
    | none => exact ⟨_, rfl, rfl⟩
    | some errno => exact absurd (by simp [hctls]) (h errno)

theorem takes_of_addNewConnection (h : addNewConnection server fd now s = .ok s') :
    s.w.io.Takes 1 ∧ s'.w.io.ctls = s.w.io.ctls.tail := by
  have htakes : s.w.io.Takes 1 := by
    intro errno hmem
    simp only [addNewConnection] at h
    rcases hctls : s.w.io.ctls with _ | ⟨ctl, ctls⟩
    · simp [hctls] at hmem
    · rw [hctls] at h hmem
      obtain rfl : some errno = ctl := by simpa using hmem
      cases h
  obtain ⟨s₁, hadd, hctls⟩ := addNewConnection_ok server fd now htakes
  obtain rfl := Except.ok.inj (hadd.symm.trans h)
  exact ⟨htakes, hctls⟩

theorem takes_succ {io io' : Io} (h : io'.ctls = io.ctls.tail) (n : Nat) :
    io.Takes (n + 1) ↔ io.Takes 1 ∧ io'.Takes n := by
  unfold Io.Takes
  rw [h]
  rcases io.ctls with _ | ⟨ctl, ctls⟩
  · simp
  · simp [forall_and]

/-- The loop is at its head again behind outcomes with which it goes on, and only then; its counter
is still 0. -/
theorem accepting_goes_on_iff (outcomes : List AcceptOutcome) (s : State) (registered : List Nat) :
    (∃ a, outcomes.foldlM (Accepting.turn server) ⟨0, s, registered⟩ = .ok a) ↔
      (∀ outcome ∈ outcomes, outcome.GoesOn) ∧ s.w.io.Takes (accepted outcomes).length := by
  -- by induction on the outcomes; each connection takes one answer of `epoll_ctl`
  induction outcomes generalizing s registered with
  | nil => exact iff_of_true ⟨_, rfl⟩ ⟨by simp, by simp [Io.Takes, accepted]⟩
  | cons outcome outcomes ih =>
    rw [List.forall_mem_cons]
    cases outcome with
    | connected fd now =>
      have hlength : (accepted (.connected fd now :: outcomes)).length =
          (accepted outcomes).length + 1 := rfl
      rw [hlength]
      constructor
      · rintro ⟨a, hrun⟩
        obtain ⟨a₁, hturn, hrest⟩ := Lib.foldlM_cons_eq_ok.mp hrun
        rcases hadd : addNewConnection server fd now s with e | s₁
        · simp only [Accepting.turn, hadd] at hturn
          cases hturn
        · simp only [Accepting.turn, hadd] at hturn
          obtain rfl := Except.ok.inj hturn
          obtain ⟨htakes, hctls⟩ := takes_of_addNewConnection hadd
          obtain ⟨hall, hothers⟩ := (ih s₁ _).mp ⟨a, hrest⟩
          exact ⟨⟨trivial, hall⟩, (takes_succ hctls _).mpr ⟨htakes, hothers⟩⟩
      · rintro ⟨⟨-, hall⟩, htakes⟩
        have hone : s.w.io.Takes 1 := fun errno hmem => htakes errno
          (List.take_subset_take_left _ (Nat.le_add_left 1 _) hmem)
        obtain ⟨s₁, hadd, hctls⟩ := addNewConnection_ok server fd now hone
        obtain ⟨a, hrest⟩ := (ih s₁ (registered ++ [fd])).mpr
          ⟨hall, ((takes_succ hctls _).mp htakes).2⟩
        refine ⟨a, Lib.foldlM_cons_eq_ok.mpr ⟨_, ?_, hrest⟩⟩
        simp only [Accepting.turn, hadd]
        rfl
    | eintr =>
      -- the call is made again
      exact (ih s registered).trans ⟨fun h => ⟨⟨trivial, h.1⟩, h.2⟩, fun h => ⟨h.1.2, h.2⟩⟩
    | unnamed errno => exact iff_of_false (by rintro ⟨a, h⟩; cases h) fun h => h.1.1
    | wouldBlock => exact iff_of_false (by rintro ⟨a, h⟩; cases h) fun h => h.1.1
    | error => exact iff_of_false (by rintro ⟨a, h⟩; cases h) fun h => h.1.1

theorem accepting_registered {outcomes : List AcceptOutcome} {s : State} {registered : List Nat}
    {a : Accepting} (h : outcomes.foldlM (Accepting.turn server) ⟨0, s, registered⟩ = .ok a) :
    a.i = 0 ∧ a.registered = registered ++ accepted outcomes := by
  induction outcomes generalizing s registered with
  | nil =>
    obtain rfl := Except.ok.inj h
    exact ⟨rfl, (List.append_nil _).symm⟩
  | cons outcome outcomes ih =>
    obtain ⟨a₁, hturn, hrest⟩ := Lib.foldlM_cons_eq_ok.mp h
    cases outcome with
    | connected fd now =>
      rcases hadd : addNewConnection server fd now s with e | s₁
      · simp only [Accepting.turn, hadd] at hturn
        cases hturn
      · simp only [Accepting.turn, hadd] at hturn
        obtain rfl := Except.ok.inj hturn
        obtain ⟨hi, hregistered⟩ := ih hrest
        refine ⟨hi, hregistered.trans ?_⟩
        rw [List.append_assoc]
        rfl
    | eintr =>
      obtain rfl := Except.ok.inj hturn
      exact ih hrest
    | unnamed errno => cases hturn
    | wouldBlock => cases hturn
    | error => cases hturn

/-- The call returns only for an answer that the backlog is empty. -/
theorem accepting_returned {outcomes : List AcceptOutcome} {s : State} {registered : List Nat}
    {a : Accepting}
    (h : outcomes.foldlM (Accepting.turn server) ⟨0, s, registered⟩ = .error (.returned a)) :
    ∃ before after, outcomes = before ++ .wouldBlock :: after ∧
      before.foldlM (Accepting.turn server) ⟨0, s, registered⟩ = .ok a := by
  induction outcomes generalizing s registered with
  | nil => cases h
  | cons outcome outcomes ih =>
    have hgoes : ∀ s₁ registered₁,
        Accepting.turn server ⟨0, s, registered⟩ outcome = .ok ⟨0, s₁, registered₁⟩ →
        outcomes.foldlM (Accepting.turn server) ⟨0, s₁, registered₁⟩ = .error (.returned a) →
        ∃ before after, outcome :: outcomes = before ++ .wouldBlock :: after ∧
          before.foldlM (Accepting.turn server) ⟨0, s, registered⟩ = .ok a := by
      intro s₁ registered₁ hturn hrest
      obtain ⟨before, after, rfl, hbefore⟩ := ih hrest
      exact ⟨outcome :: before, after, rfl, Lib.foldlM_cons_eq_ok.mpr ⟨_, hturn, hbefore⟩⟩
    rw [List.foldlM_cons] at h
    cases outcome with
    | connected fd now =>
      rcases hadd : addNewConnection server fd now s with e | s₁
      · simp only [Accepting.turn, hadd] at h
        cases h
      · have hturn : Accepting.turn server ⟨0, s, registered⟩ (.connected fd now) =
            .ok ⟨0, s₁, registered ++ [fd]⟩ := by
          simp only [Accepting.turn, hadd]
          rfl
        rw [hturn] at h
        exact hgoes s₁ _ hturn h
    | eintr => exact hgoes s registered rfl h
    | wouldBlock =>
      cases h
      exact ⟨[], outcomes, rfl, rfl⟩
    | unnamed errno => cases h
    | error => cases h

theorem accepted_append_wouldBlock (before after : List AcceptOutcome) :
    accepted (before ++ .wouldBlock :: after) = accepted before := by
  induction before with
  | nil => rfl
  | cons outcome before ih =>
    cases outcome with
    | connected fd now => exact congrArg (fd :: ·) ih
    | eintr => exact ih
    | unnamed errno => rfl
    | wouldBlock => rfl
    | error => rfl

end

theorem firstOutcomes_succ (outcomes : Nat → AcceptOutcome) (n : Nat) :
    firstOutcomes outcomes (n + 1) = firstOutcomes outcomes n ++ [outcomes n] := by
  rw [firstOutcomes, List.range_succ, List.map_append]
  rfl

theorem firstOutcomes_split {outcomes : Nat → AcceptOutcome} {n : Nat}
    {before after : List AcceptOutcome} {outcome : AcceptOutcome}
    (h : firstOutcomes outcomes n = before ++ outcome :: after) :
    before = firstOutcomes outcomes before.length ∧ outcomes before.length = outcome := by
  have hlength : before.length + 1 ≤ n := by
    have hall := congrArg List.length h
    rw [firstOutcomes, List.length_map, List.length_range, List.length_append,
      List.length_cons] at hall
    rw [hall]
    exact Nat.add_le_add_left (Nat.le_add_left 1 _) _
  have htake : firstOutcomes outcomes (before.length + 1) = before ++ [outcome] := by
    have hboth := congrArg (List.take (before.length + 1)) h
    rw [firstOutcomes, ← List.map_take, List.take_range, min_eq_left hlength] at hboth
    rw [firstOutcomes, hboth, List.take_length_add_append]
    rfl
  rw [firstOutcomes_succ] at htake
  obtain ⟨hbefore, hlast⟩ := List.append_inj' htake rfl
  exact ⟨hbefore.symm, (List.cons.inj hlast).1⟩

/-- A call of `acceptClients` does a bounded amount of work exactly when its backlog is empty, and
`::accept4` says so, no later than behind the first `MAX_ACCEPTIONS` connections, all of which
`epoll_ctl` takes: the counter of the loop does not count. -/
theorem acceptClients_bounded_iff (server : Server) (outcomes : Nat → AcceptOutcome) (s : State) :
    AcceptsBounded server outcomes s ↔
      ∃ n, outcomes n = .wouldBlock ∧ (∀ outcome ∈ firstOutcomes outcomes n, outcome.GoesOn) ∧
        (accepted (firstOutcomes outcomes n)).length ≤ maxAcceptions ∧
        s.w.io.Takes (accepted (firstOutcomes outcomes n)).length := by
  constructor
  · rintro ⟨n, a, hrun, hregistered, hle⟩
    obtain ⟨before, after, hsplit, hbefore⟩ := accepting_returned hrun
    obtain ⟨hfirst, hlast⟩ := firstOutcomes_split hsplit
    rw [hsplit, accepted_append_wouldBlock] at hregistered
    rw [hregistered] at hle
    -- the loop returned, so it went on with all outcomes before the last
    obtain ⟨hall, htakes⟩ := (accepting_goes_on_iff before s []).mp ⟨a, hbefore⟩
    refine ⟨before.length, hlast, ?_, ?_, ?_⟩
    · rw [← hfirst]
      exact hall
    · rw [← hfirst]
      exact hle
    · rw [← hfirst]
      exact htakes
  · rintro ⟨n, hlast, hall, hle, htakes⟩
    obtain ⟨a, hrun⟩ := (accepting_goes_on_iff (firstOutcomes outcomes n) s []).mpr ⟨hall, htakes⟩
    obtain ⟨hi, hregistered⟩ := accepting_registered hrun
    rw [List.nil_append] at hregistered
    refine ⟨n + 1, a, ?_, ?_, hregistered ▸ hle⟩
    · rw [firstOutcomes_succ, List.foldlM_append, Accepting.start, hrun, hlast]
      have hturn : Accepting.turn server a .wouldBlock = .error (.returned a) := by
        simp only [Accepting.turn, hi]
        rfl
      have hstop : [AcceptOutcome.wouldBlock].foldlM (Accepting.turn server) a =
          .error (.returned a) := by
        rw [List.foldlM_cons, hturn]
        rfl
      exact hstop
    · rw [firstOutcomes_succ, hlast, accepted_append_wouldBlock]
      exact hregistered

/-- A backlog that is refilled as fast as it is drained. -/
theorem flood_is_accepted_for_ever :
    ¬ ∀ (server : Server) (outcomes : Nat → AcceptOutcome) (s : State),
      (∃ n, ∀ k, n ≤ k → outcomes k ≠ .eintr) → AcceptsBounded server outcomes s := by
  intro h
  obtain ⟨n, a, hrun, -⟩ := h ⟨fun _ _ => .error (.user .other), .stored, 10, 10⟩
    (fun k => .connected (k + 5) 0) (.init ⟨[], [], [], []⟩) ⟨0, by simp⟩
  obtain ⟨before, after, hsplit, -⟩ := accepting_returned hrun
  obtain ⟨-, hlast⟩ := firstOutcomes_split hsplit
  cases hlast

end AdvCppTP.Http
