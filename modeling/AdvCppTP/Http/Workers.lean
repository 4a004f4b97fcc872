import AdvCppTP.Http.Dispatch
import AdvCppTP.Lib.Together

/-! The threads of `Server::run`: an `EpollManager` each, with its own tables and interest set, over
the one table of descriptors of the process. -/

namespace AdvCppTP.Http

/-- An `EpollManager` in `run`, with the events of `epoll_wait` that it has not handled yet, and the
`ids` that `checkTimeouts` has still to kill. -/
structure Worker where
  s : State
  interest : List Nat
  events : List (Nat × Bool)
  ids : List Nat

def Worker.init (masterSocket : Nat) (io : Io) : Worker := ⟨.init io, [masterSocket], [], []⟩

/-- What happens next to a thread: `epoll_wait` returns, an `accept4` of `acceptClients` does, it
handles a client or it kills one. -/
inductive WorkerEvent
  | woken (events : List (Nat × Bool))
  | timedOut (now : Nat)
  | accept (outcome : AcceptOutcome)
  | handle (now : Nat)
  | expire

def AcceptOutcome.IsNew (opened : List Nat) : AcceptOutcome → Prop
  | .connected fd _ => fd ∉ opened
  | _ => True

instance (opened : List Nat) : (outcome : AcceptOutcome) → Decidable (outcome.IsNew opened)
  | .connected fd _ => inferInstanceAs (Decidable (fd ∉ opened))
  | .unnamed _ => isTrue trivial
  | .eintr => isTrue trivial
  | .wouldBlock => isTrue trivial
  | .error => isTrue trivial

namespace Worker

def machine (w : Worker) (opened : List Nat) : Machine := ⟨w.s, opened, w.interest⟩

/-- A thread behind what it has done with the kernel. -/
def become (w : Worker) (events : List (Nat × Bool)) (ids : List Nat) (m : Machine) :
    Worker × List Nat :=
  ({ w with s := m.s, interest := m.interest, events, ids }, m.opened)

/-- `none` where the thread is elsewhere, or the kernel does not do this. -/
def act (code : Coroutine.Code ClientPc Thrown World) (server : Server) (masterSocket : Nat)
    (w : Worker) (opened : List Nat) : WorkerEvent → Option (Except Ended (Worker × List Nat))
  | .woken events =>
    if w.events = [] ∧ w.ids = [] ∧ (events.map Prod.fst).Nodup ∧
        ∀ e ∈ events, e.1 ∈ w.interest then
      some (.ok ({ w with events }, opened))
    else none
  | .timedOut now =>
    if w.events = [] ∧ w.ids = [] then some (.ok ({ w with ids := expired now w.s.w }, opened))
    else none
  | .accept outcome =>
    match w.events with
    | [] => none
    | (id, _) :: rest =>
      if id = masterSocket ∧ outcome.IsNew opened then
        let events := if outcome = .wouldBlock then rest else w.events
        some ((Machine.dispatch code server masterSocket (w.machine opened)
          ⟨id, false, [outcome], 0⟩).map (w.become events w.ids))
      else none
  | .handle now =>
    match w.events with
    | [] => none
    | (id, errOrHup) :: rest =>
      if id = masterSocket then none
      else
        some ((Machine.dispatch code server masterSocket (w.machine opened)
          ⟨id, errOrHup, [], now⟩).map (w.become rest w.ids))
  | .expire =>
    match w.ids with
    | [] => none
    | id :: rest =>
      some ((Machine.expire code (w.machine opened) id).map (w.become w.events rest))

/-- What leaves the loop of a thread ends the process. -/
def step (code : Coroutine.Code ClientPc Thrown World) (server : Server) (masterSocket : Nat)
    (w : Worker) (opened : List Nat) (e : WorkerEvent) : Option (Worker × List Nat) :=
  (w.act code server masterSocket opened e).bind Except.toOption

/-- What a thread has still to do is what its kernel set and its table know. -/
structure Sound (masterSocket : Nat) (w : Worker) (opened : List Nat) : Prop where
  linked : (w.machine opened).Linked masterSocket
  events : (w.events.map Prod.fst).Nodup ∧ ∀ e ∈ w.events, e.1 ∈ w.interest
  ids : w.ids.Nodup ∧ ∀ id ∈ w.ids, id ∈ w.s.w.routines
  busy : w.events = [] ∨ w.ids = []

/-- No client is one of both threads. -/
def Apart (w w' : Worker) : Prop := ∀ id ∈ w.s.w.routines, id ∉ w'.s.w.routines

end Worker

/-! ## One thread beside another -/

/-- What a thread does to the table of descriptors: it opens new ones and closes its own. -/
structure Machine.Owns (m m' : Machine) (accepted : List Nat) : Prop where
  opened : m'.opened = (accepted ++ m.opened).filter fun fd => fd ∉ closed m.s.w m'.s.w
  keys : ∀ j, j ∈ m'.s.w.routines → j ∈ accepted ∨ j ∈ m.s.w.routines

theorem Machine.owns_dispatch (code : KeepingCode) {server : Server} {masterSocket : Nat}
    {m m' : Machine} {e : PollEvent}
    (h : Machine.dispatch code.toCode server masterSocket m e = .ok m') :
    m.Owns m' (e.accepted masterSocket) := by
  obtain ⟨s', hrun, rfl⟩ := settle_of_map h
  refine ⟨rfl, fun j hj => ?_⟩
  rw [Http.dispatch] at hrun
  rw [PollEvent.accepted]
  by_cases hmaster : e.id = masterSocket
  · rw [if_pos hmaster] at hrun ⊢
    exact ((acceptClients_mem hrun).1 j).mp hj
  · rw [if_neg hmaster] at hrun ⊢
    obtain ⟨-, hgone, hsame, -⟩ := handleClientWith_ok code server hrun
    have hne : j ≠ e.id := fun heq => hgone (heq ▸ hj)
    exact .inr ((hsame j hne).mem_iff.mp hj)

theorem Machine.owns_expire (code : KeepingCode) {m m' : Machine} {id : Nat}
    (h : Machine.expire code.toCode m id = .ok m') : m.Owns m' [] := by
  obtain ⟨s', hrun, rfl⟩ := settle_of_map h
  obtain ⟨hgone, hsame, -⟩ := expireWith_ok code hrun
  refine ⟨rfl, fun j hj => .inr ?_⟩
  have hne : j ≠ id := fun heq => hgone (heq ▸ hj)
  exact (hsame j hne).mem_iff.mp hj

/-- The descriptors of another thread stay open, and its clients stay its own. -/
theorem Machine.Owns.other {masterSocket : Nat} {m m' n : Machine} {accepted : List Nat}
    (h : m.Owns m' accepted) (hm : m.Linked masterSocket) (hn : n.Linked masterSocket)
    (hshared : n.opened = m.opened) (hnew : ∀ fd ∈ accepted, fd ∉ m.opened)
    (hapart : ∀ id ∈ m.s.w.routines, id ∉ n.s.w.routines) :
    Machine.Linked masterSocket { n with opened := m'.opened } ∧
      ∀ id ∈ m'.s.w.routines, id ∉ n.s.w.routines := by
  have hkept : ∀ fd, fd ∈ m.opened → fd ∉ m.s.w.routines → fd ∈ m'.opened := by
    intro fd hopen hfd
    rw [h.opened]
    refine List.mem_filter.mpr ⟨List.mem_append.mpr (.inr hopen), ?_⟩
    rw [decide_eq_true_eq, hm.mem_closed]
    exact fun hclosed => hfd hclosed.1
  constructor
  · refine ⟨hn.registered, hn.coroutine, hn.fd, fun id hid => ?_, ?_⟩
    · refine hkept id (hshared ▸ hn.opened id hid) fun hin => hapart id hin hid
    · exact ⟨hkept masterSocket hm.master.1 hm.master.2, hn.master.2⟩
  · intro id hid hin
    obtain hid | hid := h.keys id hid
    · exact hnew id hid (hshared ▸ hn.opened id hin)
    · exact hapart id hid hin

/-! ## What a thread does -/

namespace Worker

variable {code : KeepingCode} {server : Server} {masterSocket : Nat} {w w' : Worker}
  {opened opened' : List Nat}

theorem sound_init (masterSocket : Nat) (others : List Nat) (io : Io) :
    (init masterSocket io).Sound masterSocket (masterSocket :: others) where
  linked := linked_init masterSocket others io
  events := ⟨List.nodup_nil, fun _ he => absurd he List.not_mem_nil⟩
  ids := ⟨List.nodup_nil, fun _ hid => absurd hid List.not_mem_nil⟩
  busy := .inl rfl

theorem toOption_map_become {r : Except Ended Machine} {events : List (Nat × Bool)}
    {ids : List Nat} (h : (some (r.map (w.become events ids))).bind Except.toOption =
      some (w', opened')) :
    ∃ m, r = .ok m ∧ w' = (w.become events ids m).1 ∧ opened' = m.opened := by
  cases r with
  | error e => cases h
  | ok m =>
    cases h
    exact ⟨m, rfl, rfl, rfl⟩

/-- What a thread can do, with the kernel's part of it. -/
inductive Steps (code : KeepingCode) (server : Server) (masterSocket : Nat) (w : Worker)
    (opened : List Nat) : Worker → List Nat → Prop
  | woken {events : List (Nat × Bool)} (hidle : w.events = [] ∧ w.ids = [])
      (hnodup : (events.map Prod.fst).Nodup) (hevents : ∀ e ∈ events, e.1 ∈ w.interest) :
      Steps _ _ _ _ _ { w with events } opened
  | timedOut (now : Nat) (hidle : w.events = [] ∧ w.ids = []) :
      Steps _ _ _ _ _ { w with ids := expired now w.s.w } opened
  | dispatched {id : Nat} {errOrHup : Bool} {rest : List (Nat × Bool)} {e : PollEvent} {m : Machine}
      (hevents : w.events = (id, errOrHup) :: rest) (hid : e.id = id)
      (hnew : (w.machine opened).AcceptsNew masterSocket e)
      (hm : Machine.dispatch code.toCode server masterSocket (w.machine opened) e = .ok m)
      {left : List (Nat × Bool)} (hleft : left = rest ∨ id = masterSocket ∧ left = w.events) :
      Steps _ _ _ _ _ (w.become left w.ids m).1 m.opened
  | expired {id : Nat} {rest : List Nat} {m : Machine} (hids : w.ids = id :: rest)
      (hm : Machine.expire code.toCode (w.machine opened) id = .ok m) :
      Steps _ _ _ _ _ (w.become w.events rest m).1 m.opened

theorem acceptsNew_outcome {m : Machine} {outcome : AcceptOutcome} (h : outcome.IsNew m.opened) :
    m.AcceptsNew masterSocket ⟨masterSocket, false, [outcome], 0⟩ := by
  unfold Machine.AcceptsNew PollEvent.accepted
  rw [if_pos rfl]
  cases outcome with
  | connected fd now =>
    refine ⟨List.nodup_singleton fd, fun fd' hfd' => ?_⟩
    obtain rfl := List.mem_singleton.mp hfd'
    exact h
  | unnamed | eintr | wouldBlock | error =>
    exact ⟨List.nodup_nil, fun fd hfd => absurd hfd List.not_mem_nil⟩

theorem acceptsNew_client {m : Machine} {e : PollEvent} (h : e.id ≠ masterSocket) :
    m.AcceptsNew masterSocket e := by
  unfold Machine.AcceptsNew PollEvent.accepted
  rw [if_neg h]
  exact ⟨List.nodup_nil, fun fd hfd => absurd hfd List.not_mem_nil⟩

theorem steps_of_step {e : WorkerEvent}
    (h : w.step code.toCode server masterSocket opened e = some (w', opened')) :
    w.Steps code server masterSocket opened w' opened' := by
  unfold step at h
  cases e with
  | woken events =>
    simp only [act] at h
    split at h
    case isTrue hok =>
      cases h
      exact .woken ⟨hok.1, hok.2.1⟩ hok.2.2.1 hok.2.2.2
    case isFalse => cases h
  | timedOut now =>
    simp only [act] at h
    split at h
    case isTrue hidle =>
      cases h
      exact .timedOut now hidle
    case isFalse => cases h
  | accept outcome =>
    simp only [act] at h
    split at h
    case h_1 => cases h
    case h_2 id errOrHup rest hevents =>
      split at h
      case isTrue hok =>
        obtain ⟨rfl, hnew⟩ := hok
        obtain ⟨m, hm, rfl, rfl⟩ := toOption_map_become h
        refine .dispatched hevents rfl (acceptsNew_outcome hnew) hm ?_
        split
        · exact .inl rfl
        · exact .inr ⟨rfl, rfl⟩
      case isFalse => cases h
  | handle now =>
    simp only [act] at h
    split at h
    case h_1 => cases h
    case h_2 id errOrHup rest hevents =>
      split at h
      case isTrue => cases h
      case isFalse hid =>
        obtain ⟨m, hm, rfl, rfl⟩ := toOption_map_become h
        exact .dispatched hevents rfl (acceptsNew_client hid) hm (.inl rfl)
  | expire =>
    simp only [act] at h
    split at h
    case h_1 => cases h
    case h_2 id rest hids =>
      obtain ⟨m, hm, rfl, rfl⟩ := toOption_map_become h
      exact .expired hids hm

theorem Sound.step (h : w.Sound masterSocket opened)
    (hstep : w.Steps code server masterSocket opened w' opened') :
    w'.Sound masterSocket opened' := by
  cases hstep with
  | woken hidle hnodup hevents => exact ⟨h.linked, ⟨hnodup, hevents⟩, h.ids, .inr hidle.2⟩
  | timedOut now hidle =>
    refine ⟨h.linked, h.events, ⟨nodup_expired now w.s.w, fun id hid => ?_⟩, .inl hidle.1⟩
    obtain ⟨info, hinfo, -⟩ := mem_expired.mp hid
    exact Lib.mem_of_lookup hinfo
  | @dispatched id errOrHup rest e m hevents hid hnew hm left hleft =>
    obtain ⟨hlinked, hinterest⟩ := h.linked.dispatch code hnew hm
    have hids : w.ids = [] := h.busy.resolve_left (by rw [hevents]; exact List.cons_ne_nil _ _)
    have hnodup := h.events.1
    have hin := h.events.2
    rw [hevents, List.map_cons, List.nodup_cons] at hnodup
    have hmaster : masterSocket ∈ w.interest → masterSocket ∈ m.interest := by
      intro hmem
      obtain ⟨s', -, rfl⟩ := settle_of_map hm
      exact h.linked.settle_interest hmem fun hkey => absurd hkey h.linked.master.2
    have hrest : ∀ e ∈ rest, e.1 ∈ m.interest := by
      intro e' he'
      refine hinterest e'.1 (hin e' (hevents ▸ List.mem_cons_of_mem _ he')) fun heq => hnodup.1 ?_
      exact List.mem_map.mpr ⟨e', he', heq.trans hid⟩
    have hsound : (left.map Prod.fst).Nodup ∧ ∀ e ∈ left, e.1 ∈ m.interest := by
      obtain rfl | ⟨rfl, rfl⟩ := hleft
      · exact ⟨hnodup.2, hrest⟩
      · refine ⟨h.events.1, fun e' he' => ?_⟩
        rw [hevents] at he' hin
        obtain rfl | he' := List.mem_cons.mp he'
        · exact hmaster (hin _ List.mem_cons_self)
        · exact hrest e' he'
    refine ⟨hlinked, hsound, ?_, .inr hids⟩
    simp only [become, hids]
    exact ⟨List.nodup_nil, fun id hid => absurd hid List.not_mem_nil⟩
  | @expired id rest m hids hm =>
    obtain ⟨hlinked, hkept⟩ := h.linked.expire code hm
    have hevents : w.events = [] := h.busy.resolve_right (by rw [hids]; exact List.cons_ne_nil _ _)
    have hnodup := h.ids.1
    rw [hids, List.nodup_cons] at hnodup
    refine ⟨hlinked, ?_, ⟨hnodup.2, fun j hj => ?_⟩, .inl hevents⟩
    · simp only [become, hevents]
      exact ⟨List.nodup_nil, fun e he => absurd he List.not_mem_nil⟩
    · refine hkept j (fun heq => hnodup.1 (heq ▸ hj)) (h.ids.2 j ?_)
      rw [hids]
      exact List.mem_cons_of_mem _ hj

theorem Sound.other {v : Worker} (h : w.Sound masterSocket opened)
    (hv : v.Sound masterSocket opened) (hapart : w.Apart v)
    (hstep : w.Steps code server masterSocket opened w' opened') :
    v.Sound masterSocket opened' ∧ w'.Apart v := by
  cases hstep with
  | woken | timedOut => exact ⟨hv, hapart⟩
  | dispatched hevents hid hnew hm hleft =>
    obtain ⟨hlinked, hapart'⟩ :=
      (Machine.owns_dispatch code hm).other h.linked hv.linked rfl hnew.2 hapart
    exact ⟨⟨hlinked, hv.events, hv.ids, hv.busy⟩, hapart'⟩
  | expired hids hm =>
    obtain ⟨hlinked, hapart'⟩ := (Machine.owns_expire code hm).other h.linked hv.linked rfl
      (fun fd hfd => absurd hfd List.not_mem_nil) hapart
    exact ⟨⟨hlinked, hv.events, hv.ids, hv.busy⟩, hapart'⟩

/-- The client that a thread is about to resume or to kill is found everywhere it is looked for. -/
def FindsNext (code : KeepingCode) (masterSocket : Nat) (w : Worker) : Prop :=
  (∀ id errOrHup rest, w.events = (id, errOrHup) :: rest →
    id = masterSocket ∨ Present code.toCode w.s id) ∧
  ∀ id rest, w.ids = id :: rest → Present code.toCode w.s id

theorem Sound.findsNext (code : KeepingCode) (h : w.Sound masterSocket opened) :
    w.FindsNext code masterSocket := by
  constructor
  · intro id errOrHup rest hevents
    have hid : id ∈ w.interest := h.events.2 (id, errOrHup) (hevents ▸ List.mem_cons_self)
    exact (h.linked.registered id hid).imp_right (h.linked.present code)
  · intro id rest hids
    exact h.linked.present code (h.ids.2 id (hids ▸ List.mem_cons_self))

theorem map_ne_outOfRange {r : Except Ended Machine} (h : r ≠ .error (.threw .outOfRange))
    (f : Machine → Worker × List Nat) :
    (some (r.map f) : Option (Except Ended _)) ≠ some (.error (.threw .outOfRange)) := by
  intro heq
  cases r with
  | error e => exact h (congrArg _ (Except.error.inj (Option.some.inj heq)))
  | ok m => cases heq

theorem Sound.act_ne_outOfRange (code : KeepingCode) (server : Server)
    (h : w.Sound masterSocket opened) (e : WorkerEvent) :
    w.act code.toCode server masterSocket opened e ≠ some (.error (.threw .outOfRange)) := by
  have hdispatch : ∀ (e : PollEvent) f, e.id ∈ w.interest →
      (some ((Machine.dispatch code.toCode server masterSocket (w.machine opened) e).map f) :
        Option (Except Ended (Worker × List Nat))) ≠ some (.error (.threw .outOfRange)) :=
    fun e f he => map_ne_outOfRange (h.linked.findsClient code server he).2 f
  cases e with
  | woken events =>
    simp only [act]
    split <;> simp
  | timedOut now =>
    simp only [act]
    split <;> simp
  | accept outcome =>
    simp only [act]
    split
    case h_1 => simp
    case h_2 id errOrHup rest hevents =>
      split
      case isTrue => exact hdispatch _ _ (h.events.2 (id, errOrHup) (hevents ▸ List.mem_cons_self))
      case isFalse => simp
  | handle now =>
    simp only [act]
    split
    case h_1 => simp
    case h_2 id errOrHup rest hevents =>
      split
      case isTrue => simp
      case isFalse =>
        exact hdispatch _ _ (h.events.2 (id, errOrHup) (hevents ▸ List.mem_cons_self))
  | expire =>
    simp only [act]
    split
    case h_1 => simp
    case h_2 id rest hids =>
      have hpresent := h.linked.present code (h.ids.2 id (hids ▸ List.mem_cons_self))
      exact map_ne_outOfRange (map_settle_ne_outOfRange hpresent.expireWith (w.machine opened) []) _

end Worker

/-! ## All threads -/

variable {T : Type*} [DecidableEq T]

abbrev Workers (T : Type*) := Lib.Together T Worker (List Nat)

def Workers.init (masterSocket : Nat) (others : List Nat) (io : T → Io) : Workers T where
  own t := .init masterSocket (io t)
  shared := masterSocket :: others

def Workers.step (code : Coroutine.Code ClientPc Thrown World) (server : Server)
    (masterSocket : Nat) : Workers T → T × WorkerEvent → Option (Workers T) :=
  Lib.Together.step fun _ w opened e => w.step code server masterSocket opened e

/-- However the steps of the threads are mixed, and whatever the coroutines do: each client belongs
to one thread, its descriptor stays open until that thread deletes it, and no thread ever resumes,
kills or deletes a client that its tables have lost. -/
theorem workers_never_miss (code : KeepingCode) {server : Server} {masterSocket : Nat}
    {others : List Nat} {io : T → Io} {es : List (T × WorkerEvent)} {s : Workers T}
    (hrun : Lib.steps (Workers.step code.toCode server masterSocket)
      (.init masterSocket others io) es = some s) :
    (∀ t u, t ≠ u → (s.own t).Apart (s.own u)) ∧
      ∀ t, (∀ id ∈ (s.own t).s.w.routines, id ∈ s.shared) ∧
        (s.own t).FindsNext code masterSocket ∧
        ∀ e, (s.own t).act code.toCode server masterSocket s.shared e ≠
          some (.error (.threw .outOfRange)) := by
  have hsound : s.Sound (fun _ w opened => w.Sound masterSocket opened) Worker.Apart := by
    refine Lib.steps_invariant (fun s e s' hs hstep => ?_) ?_ hrun
    · refine hs.step (fun w v h id hv hw => h id hw hv) ?_ ?_ hstep
      · intro t w opened e w' opened' hw h
        exact hw.step (Worker.steps_of_step h)
      · intro t u w v opened e w' opened' _ hw hv hapart h
        exact hw.other hv hapart (Worker.steps_of_step h)
    · refine ⟨fun t => Worker.sound_init masterSocket others (io t), fun t u _ id hid => ?_⟩
      exact absurd hid (AList.notMem_empty id)
  refine ⟨hsound.apart, fun t => ⟨?_, (hsound.each t).findsNext code, fun e => ?_⟩⟩
  · exact (hsound.each t).linked.opened
  · exact (hsound.each t).act_ne_outOfRange code server e

/-- Two threads: one closes a client, and the other one is given its descriptor for a new one. -/
theorem workers_never_miss_reused :
    let server : Server := ⟨fun _ _ => .error (.user .other), .stored, 10, 10⟩
    let code := keepingClientCode server
    let es : List (Bool × WorkerEvent) :=
      [(true, .woken [(3, false)]), (false, .woken [(3, false)]), (true, .accept (.connected 5 0)),
        (true, .accept .wouldBlock), (true, .woken [(5, true)]), (true, .handle 1),
        (false, .accept (.connected 5 2)), (false, .accept (.connected 6 2)),
        (false, .accept .wouldBlock), (false, .timedOut 20)]
    ∃ s, Lib.steps (Workers.step code.toCode server 3)
        (.init 3 [0, 1, 2, 4] fun _ => ⟨[], [], [], []⟩) es = some s ∧
      (s.own false).FindsNext code 3 := by
  intro server code es
  have hrun : Lib.steps (Workers.step code.toCode server 3)
      (.init 3 [0, 1, 2, 4] fun _ => ⟨[], [], [], []⟩) es = some _ := rfl
  obtain ⟨-, hall⟩ := workers_never_miss code hrun
  exact ⟨_, hrun, (hall false).2.1⟩

end AdvCppTP.Http
