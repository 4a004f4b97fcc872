import AdvCppTP.Coroutine.Effects
import AdvCppTP.Http.OwnEntry

/-! `EpollManager::run` over bodies that may do anything to their own client: iterations of the
loop, and what each event and each timeout does to the entries of `routines_`. -/

namespace AdvCppTP.Http

/-! ## The loop -/

/-- `handleClient`, whose coroutines run `code`. -/
def handleClientWith (code : Coroutine.Code ClientPc Thrown World) (server : Server) (id : Nat)
    (errOrHup : Bool) (now : Nat) (s : State) : Except Ended State :=
  match s.w.routines.lookup id with
  | none => .error (.threw .outOfRange)
  | some _ =>
    if errOrHup then
      match deleteConnection id s.w with
      | none => .error (.threw .outOfRange)
      | some w => .ok ⟨s.o, w⟩
    else
      let r := Coroutine.resume code s.o s.w id
      if r.1.2.undefined then .error .undefined
      else
        match r.2.value with
        | .error (.user (.epollError msg)) => .error (.threw (.user (.epollError msg)))
        | .error _ => .ok ⟨r.1.1, (deleteConnection id r.1.2).getD r.1.2⟩
        | .ok _ =>
          let w := renewTimeout server id now r.1.2
          .ok ⟨r.1.1, (deleteConnection id w).getD w⟩

def expireWith (code : Coroutine.Code ClientPc Thrown World) (s : State) (id : Nat) :
    Except Ended State :=
  let r := Coroutine.kill code s.o s.w id (some (.user (.httpError "Timeout reached")))
  if r.1.2.undefined then .error .undefined
  else
    match deleteConnection id r.1.2 with
    | none => .error (.threw .outOfRange)
    | some w => .ok ⟨r.1.1, w⟩

theorem handleClientWith_clientCode (server : Server) :
    handleClientWith (clientCode server) server = handleClient server := rfl

theorem expireWith_clientCode (server : Server) :
    expireWith (clientCode server) = expire server := rfl

/-- An element of `Events`: `data.u32`, whether `EPOLLERR` or `EPOLLHUP` is set, and what `accept4`
and the clock give while it is handled. -/
structure PollEvent where
  id : Nat
  errOrHup : Bool
  outcomes : List AcceptOutcome
  now : Nat
  deriving DecidableEq, Repr

def dispatch (code : Coroutine.Code ClientPc Thrown World) (server : Server) (masterSocket : Nat)
    (s : State) (e : PollEvent) : Except Ended State :=
  if e.id = masterSocket then acceptClients server e.outcomes s
  else handleClientWith code server e.id e.errOrHup e.now s

inductive WaitResult
  | failed (errno : String)
  | interrupted
  | timedOut (now : Nat)
  | ready (events : List PollEvent)
  deriving DecidableEq, Repr

def AcceptOutcome.reading : AcceptOutcome → Option Nat
  | .connected _ now => some now
  | _ => none

def WaitResult.readings : WaitResult → List Nat
  | .timedOut now => [now]
  | .ready events => events.flatMap fun e => e.now :: e.outcomes.filterMap AcceptOutcome.reading
  | _ => []

/-- A return of `epoll_wait` at the time `returned`. -/
structure Wakeup where
  returned : Nat
  result : WaitResult
  deriving DecidableEq, Repr

/-- What the clock shows in an iteration. -/
def Wakeup.readings (wakeup : Wakeup) : List Nat := wakeup.returned :: wakeup.result.readings

/-- One iteration of the loop of `run`. -/
def iterate (code : Coroutine.Code ClientPc Thrown World) (server : Server) (masterSocket : Nat)
    (s : State) (wakeup : Wakeup) : Except Ended State :=
  match wakeup.result with
  | .failed errno => .error (.threw (.user (.epollError ("epoll_wait error: " ++ errno))))
  | .interrupted => .ok s
  | .timedOut now => (expired now s.w).foldlM (expireWith code) s
  | .ready events => events.foldlM (dispatch code server masterSocket) s

def PollEvent.event (masterSocket : Nat) (e : PollEvent) : Event :=
  if e.id = masterSocket then .masterSocket e.outcomes else .client e.id e.errOrHup e.now

def WaitResult.turns (masterSocket : Nat) : WaitResult → List Event
  | .timedOut now => [.timeout now]
  | .ready events => events.map (PollEvent.event masterSocket)
  | _ => []

theorem dispatch_clientCode (server : Server) (masterSocket : Nat) (s : State) (e : PollEvent) :
    dispatch (clientCode server) server masterSocket s e =
      step server s (e.event masterSocket) := by
  rw [dispatch, PollEvent.event]
  split <;> rfl

/-- With the code of `clientRoutine` an iteration takes the turns of `step` one after the other. -/
theorem iterate_clientCode (server : Server) (masterSocket : Nat) (s : State) {wakeup : Wakeup}
    (h : ∀ errno, wakeup.result ≠ .failed errno) :
    iterate (clientCode server) server masterSocket s wakeup =
      (wakeup.result.turns masterSocket).foldlM (step server) s := by
  rw [iterate]
  rcases hresult : wakeup.result with errno | _ | now | events
  · exact absurd hresult (h errno)
  · rfl
  · rw [WaitResult.turns, List.foldlM_cons]
    exact (bind_pure _).symm
  · rw [WaitResult.turns, List.foldlM_map]
    exact congrArg (fun f => events.foldlM f s)
      (funext fun s => funext fun e => dispatch_clientCode server masterSocket s e)

theorem acceptClients_connected_ok {server : Server} {fd now : Nat}
    {outcomes : List AcceptOutcome} {s s' : State}
    (h : acceptClients server (.connected fd now :: outcomes) s = .ok s') :
    ∃ s₁, addNewConnection server fd now s = .ok s₁ ∧
      acceptClients server outcomes s₁ = .ok s' := by
  rw [acceptClients] at h
  rcases hadd : addNewConnection server fd now s with e | s₁
  · rw [hadd] at h
    cases h
  · rw [hadd] at h
    exact ⟨s₁, rfl, h⟩

/-- What every new connection keeps, `acceptClients` keeps. -/
theorem acceptClients_invariant (server : Server) {I : State → Prop} {outcomes : List AcceptOutcome}
    (hadd : ∀ fd now s s', .connected fd now ∈ outcomes → I s →
      addNewConnection server fd now s = .ok s' → I s') {s s' : State} (hs : I s)
    (h : acceptClients server outcomes s = .ok s') : I s' := by
  induction outcomes generalizing s with
  | nil => exact Except.ok.inj h ▸ hs
  | cons outcome outcomes ih =>
    have hrest := fun fd now s s' hin => hadd fd now s s' (List.mem_cons_of_mem outcome hin)
    cases outcome with
    | connected fd now =>
      obtain ⟨s₁, hnew, hothers⟩ := acceptClients_connected_ok h
      exact ih hrest (hadd fd now s s₁ List.mem_cons_self hs hnew) hothers
    | unnamed errno => cases h
    | eintr => exact ih hrest hs h
    | wouldBlock => exact Except.ok.inj h ▸ hs
    | error => cases h

/-! ## Entries -/

theorem deleteConnection_of_mem {id : Nat} {w : World} (h : id ∈ w.routines) :
    deleteConnection id w = some { w with routines := w.routines.erase id } := by
  obtain ⟨info, hinfo⟩ := Lib.exists_lookup h
  rw [deleteConnection, hinfo]

theorem renewTimeout_spec (server : Server) (id now : Nat) (w : World) :
    (∀ j, j ∈ (renewTimeout server id now w).routines ↔ j ∈ w.routines) ∧
      (∀ j, j ≠ id → (renewTimeout server id now w).routines.lookup j = w.routines.lookup j) ∧
      (renewTimeout server id now w).undefined = w.undefined := by
  rw [renewTimeout]
  rcases hlook : w.routines.lookup id with _ | info
  · exact ⟨fun _ => Iff.rfl, fun _ _ => rfl, rfl⟩
  · refine ⟨fun j => ?_, fun j hj => AList.lookup_insert_ne hj, rfl⟩
    rw [AList.mem_insert]
    exact ⟨fun h => h.elim (fun e => e ▸ Lib.mem_of_lookup hlook) fun h => h, Or.inr⟩

/-- What is left of the entries when that of `id` goes. -/
structure Dropped (id : Nat) (w w' : World) : Prop where
  gone : id ∉ w'.routines
  other : ∀ j, j ≠ id → w'.routines.lookup j = w.routines.lookup j

theorem Dropped.mem_iff {id : Nat} {w w' : World} (h : Dropped id w w') (j : Nat) :
    j ∈ w'.routines ↔ j ≠ id ∧ j ∈ w.routines := by
  rcases eq_or_ne j id with rfl | hne
  · exact ⟨fun hj => absurd hj h.gone, fun hj => absurd rfl hj.1⟩
  · rw [← AList.lookup_isSome, h.other j hne, AList.lookup_isSome]
    exact ⟨fun hj => ⟨hne, hj⟩, fun hj => hj.2⟩

theorem dropped_erase (id : Nat) (w : World) :
    Dropped id w { w with routines := w.routines.erase id } :=
  ⟨fun h => (AList.mem_erase.mp h).1 rfl, fun _ hj => AList.lookup_erase_ne hj⟩

theorem handleClientWith_hup (code : Coroutine.Code ClientPc Thrown World) (server : Server)
    {id : Nat} (now : Nat) {s : State} (hid : id ∈ s.w.routines) :
    handleClientWith code server id true now s =
      .ok ⟨s.o, { s.w with routines := s.w.routines.erase id }⟩ := by
  obtain ⟨info, hinfo⟩ := Lib.exists_lookup hid
  simp only [handleClientWith, hinfo, if_true, deleteConnection_of_mem hid]

/-- `handleClient` behind `resume`: it throws on only for `epoll_error`, and else it returns without
the entry of its client. -/
theorem handleClientWith_cases (code : Coroutine.Code ClientPc Thrown World) (server : Server)
    {id : Nat} (now : Nat) {s : State} (hid : id ∈ s.w.routines)
    (hmem : id ∈ (Coroutine.resume code s.o s.w id).1.2.routines) :
    ((Coroutine.resume code s.o s.w id).1.2.undefined = true ∧
        handleClientWith code server id false now s = .error .undefined) ∨
      (Coroutine.resume code s.o s.w id).1.2.undefined = false ∧
        ((∃ msg, (Coroutine.resume code s.o s.w id).2.value = .error (.user (.epollError msg)) ∧
            handleClientWith code server id false now s =
              .error (.threw (.user (.epollError msg)))) ∨
          ∃ s', handleClientWith code server id false now s = .ok s' ∧
            s'.o = (Coroutine.resume code s.o s.w id).1.1 ∧
            Dropped id (Coroutine.resume code s.o s.w id).1.2 s'.w ∧ s'.w.undefined = false) := by
  obtain ⟨info, hinfo⟩ := Lib.exists_lookup hid
  simp only [handleClientWith, hinfo, Bool.false_eq_true, if_false]
  generalize Coroutine.resume code s.o s.w id = r at hmem
  rcases hdefined : r.1.2.undefined with _ | _
  case true => exact .inl ⟨rfl, by simp only [if_true]⟩
  refine .inr ⟨rfl, ?_⟩
  simp only [Bool.false_eq_true, if_false]
  split
  · exact .inl ⟨_, ‹_›, rfl⟩
  · rw [deleteConnection_of_mem hmem]
    exact .inr ⟨_, rfl, rfl, dropped_erase id r.1.2, hdefined⟩
  · obtain ⟨hrenewed, hother, hdefined'⟩ := renewTimeout_spec server id now r.1.2
    have hdrop := dropped_erase id (renewTimeout server id now r.1.2)
    rw [deleteConnection_of_mem ((hrenewed id).mpr hmem)]
    refine .inr ⟨_, rfl, rfl, ⟨hdrop.gone, fun j hj => ?_⟩, hdefined'.trans hdefined⟩
    exact (hdrop.other j hj).trans (hother j hj)

/-! ## The fixed part of the entries -/

def SameFixed (w w' : World) (j : Nat) : Prop :=
  (w'.routines.lookup j).map RoutineInfo.fixed = (w.routines.lookup j).map RoutineInfo.fixed

theorem SameFixed.mem_iff {w w' : World} {j : Nat} (h : SameFixed w w' j) :
    j ∈ w'.routines ↔ j ∈ w.routines := by
  rw [← AList.lookup_isSome, ← AList.lookup_isSome, ← Option.isSome_map, h, Option.isSome_map]

theorem SameFixed.lookup {w w' : World} {j : Nat} (h : SameFixed w w' j) {info' : RoutineInfo}
    (hinfo : w'.routines.lookup j = some info') :
    ∃ info, w.routines.lookup j = some info ∧ info.fixed = info'.fixed := by
  rw [SameFixed, hinfo, Option.map_some, eq_comm, Option.map_eq_some_iff] at h
  exact h

theorem KeepingCode.resume_fixed (code : KeepingCode) (s : State) (id j : Nat) :
    SameFixed s.w (Coroutine.resume code.toCode s.o s.w id).1.2 j :=
  Coroutine.resume_world code.toCode (P := fun w => SameFixed s.w w j)
    (fun current k sig w h => (code.keeps current k sig w j).trans h) s.o rfl id

theorem KeepingCode.kill_fixed (code : KeepingCode) (s : State) (id j : Nat)
    (ex : Option Exn) : SameFixed s.w (Coroutine.kill code.toCode s.o s.w id ex).1.2 j :=
  Coroutine.kill_world code.toCode (P := fun w => SameFixed s.w w j)
    (fun current k sig w h => (code.keeps current k sig w j).trans h) s.o rfl id ex

/-- An event of a client takes its entry away and leaves the others. -/
theorem handleClientWith_ok (code : KeepingCode) (server : Server) {id : Nat} {errOrHup : Bool}
    {now : Nat} {s s' : State}
    (h : handleClientWith code.toCode server id errOrHup now s = .ok s') :
    id ∈ s.w.routines ∧ id ∉ s'.w.routines ∧ (∀ j, j ≠ id → SameFixed s.w s'.w j) ∧
      ∀ j, j ≠ id → (j ∈ s'.o.routines ↔ j ∈ s.o.routines) := by
  have hid : id ∈ s.w.routines := by
    by_contra hnot
    rw [handleClientWith, AList.lookup_eq_none.mpr hnot] at h
    cases h
  refine ⟨hid, ?_⟩
  cases errOrHup with
  | true =>
    rw [handleClientWith_hup _ _ _ hid] at h
    obtain rfl := Except.ok.inj h
    have hdrop := dropped_erase id s.w
    exact ⟨hdrop.gone, fun j hj => congrArg _ (hdrop.other j hj), fun _ _ => Iff.rfl⟩
  | false =>
    have hmem := (code.resume_fixed s id id).mem_iff.mpr hid
    obtain ⟨-, herror⟩ | ⟨-, ⟨msg, -, herror⟩ | ⟨s₁, hok, ho, hdrop, -⟩⟩ :=
      handleClientWith_cases code.toCode server now hid hmem
    · cases herror.symm.trans h
    · cases herror.symm.trans h
    · obtain rfl := Except.ok.inj (hok.symm.trans h)
      refine ⟨hdrop.gone, fun j hj => ?_, fun j hj => ?_⟩
      · exact (congrArg _ (hdrop.other j hj)).trans (code.resume_fixed s id j)
      · rw [ho]
        exact Coroutine.mem_resume code.toCode s.o s.w hj

theorem expireWith_ok (code : KeepingCode) {id : Nat} {s s' : State}
    (h : expireWith code.toCode s id = .ok s') :
    id ∉ s'.w.routines ∧ (∀ j, j ≠ id → SameFixed s.w s'.w j) ∧
      ∀ j, j ≠ id → (j ∈ s'.o.routines ↔ j ∈ s.o.routines) := by
  have hfixed := fun j => code.kill_fixed s id j (some (.user (.httpError "Timeout reached")))
  have hroutines := fun j (hj : j ≠ id) =>
    Coroutine.mem_kill code.toCode s.o s.w hj (some (.user (.httpError "Timeout reached")))
  simp only [expireWith] at h
  generalize Coroutine.kill code.toCode s.o s.w id
    (some (.user (.httpError "Timeout reached"))) = r at h hfixed hroutines
  split at h
  · cases h
  · split at h
    · cases h
    · rename_i w hdelete
      obtain rfl := Except.ok.inj h
      by_cases hmem : id ∈ r.1.2.routines
      · rw [deleteConnection_of_mem hmem] at hdelete
        obtain rfl := Option.some.inj hdelete
        have hdrop := dropped_erase id r.1.2
        exact ⟨hdrop.gone, fun j hj => (congrArg _ (hdrop.other j hj)).trans (hfixed j), hroutines⟩
      · rw [deleteConnection, AList.lookup_eq_none.mpr hmem] at hdelete
        cases hdelete

end AdvCppTP.Http
