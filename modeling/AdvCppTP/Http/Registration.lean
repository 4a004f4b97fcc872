import AdvCppTP.Http.Dispatch

/-! `addNewConnection` with what is left behind when it throws: the entry, the coroutine and the
kernel's registration are made one after the other, and none is taken back. -/

namespace AdvCppTP.Http

/-- Where the memory runs out: in `routines_.emplace`, in `create` before it takes a node, or in
the `reset` of a finished one. -/
inductive Shortage
  | emplace
  | create
  | reset
  deriving DecidableEq, Repr

def badAlloc : Exn := .user (.stdException "std::bad_alloc")

/-- A closed descriptor leaves the kernel's set. -/
def Machine.close (m : Machine) (fd : Nat) : Machine :=
  { m with
    opened := m.opened.filter fun j => j ≠ fd
    interest := m.interest.filter fun j => j ≠ fd }

/-- `routines_.emplace(id, std::move(info))`; a node whose key is taken is destroyed with the
connection in it. -/
def Machine.emplace (server : Server) (fd now : Nat) (m : Machine) : Machine :=
  let info : RoutineInfo :=
    { node := m.s.w.nodes, fd, buffer := [], currentEvent := .epollin,
      timeout := now + server.readTimeout }
  let w := { m.s.w with routines := Lib.emplace fd info m.s.w.routines, nodes := m.s.w.nodes + 1 }
  { (if fd ∈ m.s.w.routines then m.close fd else m) with s := ⟨m.s.o, w⟩ }

/-- `addEvent(id, Event)`, which is the last thing that `addNewConnection` does. -/
def Machine.addEvent (fd : Nat) (m : Machine) : Machine × Option Exn :=
  match m.s.w.io.ctls with
  | [] => ({ m with interest := fd :: m.interest }, none)
  | none :: ctls => ({ m with s.w.io.ctls := ctls, interest := fd :: m.interest }, none)
  | some errno :: ctls =>
    ({ m with s.w.io.ctls := ctls }, some (.user (.epollError ("Epoll add error: " ++ errno))))

/-- `addNewConnection` for the open descriptor `fd`, and the exception that it throws. -/
def Machine.addNewConnection (server : Server) (fd now : Nat) (shortage : Option Shortage)
    (m : Machine) : Machine × Option Exn :=
  if shortage = some .emplace then (m.close fd, some badAlloc)
  else
    let m := m.emplace server fd now
    match shortage with
    | some .reset => ({ m with s.o.finished := m.s.o.finished.tail }, some badAlloc)
    | some _ => (m, some badAlloc)
    | none =>
      Machine.addEvent fd
        { m with s.o := (Coroutine.create m.s.o fd (some .clientRoutine)).1 }

/-- With memory enough it does to the tables what `addNewConnection` without the kernel does. -/
theorem Machine.addNewConnection_eq (server : Server) (fd now : Nat) (m : Machine) :
    Http.addNewConnection server fd now m.s =
      match m.addNewConnection server fd now none with
      | (m', none) => .ok m'.s
      | (_, some e) => .error (.threw e) := by
  simp only [Http.addNewConnection, Machine.addNewConnection, reduceCtorEq, if_false,
    Machine.addEvent, Machine.emplace]
  rcases m.s.w.io.ctls with _ | ⟨_ | _, ctls⟩ <;> rfl

/-- An exception leaves the two tables as they were and the descriptor closed; a return leaves the
id in both and in the kernel's set. -/
def AllOrNothing (fd : Nat) (m : Machine) : Machine × Option Exn → Prop
  | (m', some _) =>
    (∀ j, m'.s.w.routines.lookup j = m.s.w.routines.lookup j) ∧
      (∀ j, m'.s.o.routines.lookup j = m.s.o.routines.lookup j) ∧ fd ∉ m'.opened
  | (m', none) => fd ∈ m'.s.w.routines ∧ fd ∈ m'.s.o.routines ∧ fd ∈ m'.interest

theorem lookup_emplace_iff {V : Type*} {a : Nat} (b : V) (m : AList fun _ : Nat => V) :
    (∀ j, (Lib.emplace a b m).lookup j = m.lookup j) ↔ a ∈ m := by
  constructor
  · intro h
    rw [← AList.lookup_isSome, ← h a, Lib.lookup_emplace_self]
    rfl
  · intro hmem j
    rw [Lib.emplace_of_mem hmem]

theorem lookup_create_iff (o : Coroutine.Ordinator ClientPc Thrown) (id : Nat)
    (f : Option ClientPc) :
    (∀ j, (Coroutine.create o id f).1.routines.lookup j = o.routines.lookup j) ↔
      id ∈ o.routines := by
  constructor
  · intro h
    rw [← AList.lookup_isSome, ← h id, AList.lookup_isSome, Coroutine.mem_create_iff]
    exact Or.inl rfl
  · intro hmem j
    obtain ⟨hother, hold, -⟩ := Coroutine.create_spec o id f
    rcases eq_or_ne j id with rfl | hj
    · obtain ⟨r, hr⟩ := Lib.exists_lookup hmem
      rw [hr, hold r hr]
    · exact hother j hj

theorem notMem_close (m : Machine) (fd : Nat) : fd ∉ (m.close fd).opened := by
  simp [Machine.close]

theorem Machine.emplace_opened {server : Server} {fd now : Nat} {m : Machine}
    (hmem : fd ∈ m.s.w.routines) : fd ∉ (m.emplace server fd now).opened := by
  simp only [Machine.emplace, if_pos hmem]
  exact notMem_close m fd

theorem Machine.addEvent_cases (fd : Nat) (m : Machine) :
    (ctlError m.s.w.io.ctls = none ∧ ∃ ctls,
        m.addEvent fd = ({ m with s.w.io.ctls := ctls, interest := fd :: m.interest }, none)) ∨
      ctlError m.s.w.io.ctls ≠ none ∧ ∃ ctls e,
        m.addEvent fd = ({ m with s.w.io.ctls := ctls }, some e) := by
  rcases m with ⟨⟨o, routines, nodes, ⟨recvs, sends, ctls, served⟩, undefined⟩, opened, interest⟩
  rcases ctls with _ | ⟨_ | errno, ctls⟩
  · exact Or.inl ⟨rfl, [], rfl⟩
  · exact Or.inl ⟨rfl, ctls, rfl⟩
  · exact Or.inr ⟨Option.some_ne_none errno, ctls, _, rfl⟩

/-- An exception behind the emplacement, in a machine with the coroutines of `m'`. -/
theorem allOrNothing_thrown_iff (server : Server) (fd now : Nat) {m m' : Machine}
    (hentries : m'.s.w.routines = (m.emplace server fd now).s.w.routines)
    (hopened : m'.opened = (m.emplace server fd now).opened) (e : Exn) :
    AllOrNothing fd m (m', some e) ↔ fd ∈ m.s.w.routines ∧
      ∀ j, m'.s.o.routines.lookup j = m.s.o.routines.lookup j := by
  simp only [AllOrNothing, hentries, hopened]
  have hsame := lookup_emplace_iff
    (⟨m.s.w.nodes, fd, [], .epollin, now + server.readTimeout⟩ : RoutineInfo) m.s.w.routines
    (a := fd)
  constructor
  · rintro ⟨hw, ho, -⟩
    exact ⟨hsame.mp hw, ho⟩
  · rintro ⟨hmem, ho⟩
    exact ⟨hsame.mpr hmem, ho, Machine.emplace_opened hmem⟩

/-- Registration is all or nothing exactly when nothing fails behind the emplacement of the entry,
or the id had an entry already, and a coroutine where it is `epoll_ctl` that fails. -/
theorem addNewConnection_all_or_nothing_iff (server : Server) (fd now : Nat)
    (shortage : Option Shortage) (m : Machine) :
    AllOrNothing fd m (m.addNewConnection server fd now shortage) ↔
      shortage = some .emplace ∨
        (shortage = none ∧ ctlError m.s.w.io.ctls = none) ∨
        (fd ∈ m.s.w.routines ∧ (shortage = none → fd ∈ m.s.o.routines)) := by
  -- one case for each place where memory may run out, the first for none
  rcases shortage with _ | _ | _ | _
  · have hcreate := lookup_create_iff m.s.o fd (some .clientRoutine)
    have hmem : fd ∈ (Coroutine.create m.s.o fd (some ClientPc.clientRoutine)).1.routines :=
      (Coroutine.mem_create_iff m.s.o fd _ fd).mpr (Or.inl rfl)
    obtain ⟨hok, ctls, hadd⟩ | ⟨hfail, ctls, e, hadd⟩ := Machine.addEvent_cases fd
      { m.emplace server fd now with
        s.o := (Coroutine.create m.s.o fd (some .clientRoutine)).1 }
    · have hctl : ctlError m.s.w.io.ctls = none := hok
      simp only [Machine.addNewConnection, reduceCtorEq, if_false]
      refine iff_of_true ?_ (Or.inr (Or.inl ⟨trivial, hctl⟩))
      rw [show (m.emplace server fd now).s.o = m.s.o from rfl, hadd]
      exact ⟨(Lib.mem_emplace _ _).mpr (Or.inl rfl), hmem, List.mem_cons_self⟩
    · have hctl : ctlError m.s.w.io.ctls ≠ none := hfail
      simp only [Machine.addNewConnection, reduceCtorEq, if_false]
      rw [show (m.emplace server fd now).s.o = m.s.o from rfl, hadd]
      refine Iff.trans (allOrNothing_thrown_iff server fd now ?_ ?_ e) ?_
      · rfl
      · rfl
      simp only [hcreate, hctl, and_false, false_or, true_imp_iff]
  · refine iff_of_true ⟨fun _ => rfl, fun _ => rfl, notMem_close m fd⟩ (Or.inl rfl)
  · simp only [Machine.addNewConnection, Option.some.injEq, reduceCtorEq, if_false, false_and,
      false_or, false_imp_iff, and_true]
    refine Iff.trans (allOrNothing_thrown_iff server fd now ?_ ?_ badAlloc) ?_
    · rfl
    · rfl
    exact and_iff_left fun _ => rfl
  · simp only [Machine.addNewConnection, Option.some.injEq, reduceCtorEq, if_false, false_and,
      false_or, false_imp_iff, and_true]
    refine Iff.trans (allOrNothing_thrown_iff server fd now ?_ ?_ badAlloc) ?_
    · rfl
    · rfl
    exact and_iff_left fun _ => rfl

/-- `epoll_ctl` refuses the first connection. -/
theorem refused_connection_stays :
    ¬ ∀ (server : Server) (fd now : Nat) (shortage : Option Shortage) (m : Machine),
      AllOrNothing fd m (m.addNewConnection server fd now shortage) := by
  intro h
  obtain ⟨hentries, -, -⟩ := h ⟨fun _ _ => .error (.user .other), .stored, 10, 10⟩ 5 0 none
    (Machine.init 3 [5] ⟨[], [], [some "No space left on device"], []⟩)
  have hentry := hentries 5
  cases hentry

end AdvCppTP.Http
