import AdvCppTP.Lib.Emplace
import AdvCppTP.Lib.Runs

/-! The coroutine library of `hw-6/Coroutine_lib`: `create`, `resume`, `yield`, `kill` and `entry`
over the thread's table of routines and its queue of finished map nodes. The code of the bodies
is a parameter; `swapcontext` is taken to succeed. -/

namespace AdvCppTP.Coroutine

inductive Exn (ε : Type*)
  | outOfRange
  | invalidArgument (msg : String)
  | logicError (msg : String)
  | user (e : ε)
  deriving DecidableEq, Repr

/-- How a body's code comes to run: as a function that is called, behind a `yield` that
returns, or behind a `yield` that throws. -/
inductive Signal (ε : Type*)
  | start
  | resumed
  | raised (e : Exn ε)
  deriving DecidableEq, Repr

/-- How a segment of a body ends; `k` is the place behind the `yield`. -/
inductive Seg (κ ε : Type*)
  | yield (k : κ)
  | ret
  | throw (e : Exn ε)
  deriving DecidableEq, Repr

/-- The compiled bodies: `run cur k sig s` runs the segment at place `k` of a body with
`current() = cur` on the memory `s`. A body into which exceptions are thrown runs only
finitely many segments. -/
structure Code (κ ε σ : Type*) where
  run : Nat → κ → Signal ε → σ → Seg κ ε × σ
  unwinds : WellFounded fun k' k => ∃ cur e s s', run cur k (.raised e) s = (.yield k', s')

inductive Context (κ : Type*)
  | entry
  | inYield (k : κ)
  deriving DecidableEq, Repr

/-- `Routine`; `func` is `none` for an empty `std::function`. -/
structure Routine (κ ε : Type*) where
  func : Option κ
  finished : Bool
  ctx : Context κ
  exception : Option (Exn ε)
  deriving DecidableEq, Repr

variable {κ ε σ : Type*}

def Routine.new (f : Option κ) : Routine κ ε := ⟨f, false, .entry, none⟩

def Routine.reset (r : Routine κ ε) (f : Option κ) : Routine κ ε :=
  { r with func := f, finished := false, exception := none, ctx := .entry }

structure Ordinator (κ ε : Type*) where
  routines : AList fun _ : Nat => Routine κ ε
  finished : List (Nat × Routine κ ε)
  current : Nat
  deriving DecidableEq

def Ordinator.init : Ordinator κ ε := ⟨∅, [], 0⟩

def create (o : Ordinator κ ε) (id : Nat) (function : Option κ) : Ordinator κ ε × Nat :=
  match o.finished with
  | [] => ({ o with routines := Lib.emplace id (Routine.new function) o.routines }, id)
  | (_, node) :: rest =>
    ({ o with finished := rest, routines := Lib.emplace id (node.reset function) o.routines }, id)

/-- `yield()` up to its `swapcontext`: the exception it throws instead, if any. -/
def yield (o : Ordinator κ ε) (k : κ) : Ordinator κ ε × Option (Exn ε) :=
  match o.routines.lookup o.current with
  | none => (o, some .outOfRange)
  | some routine =>
    match routine.exception with
    | some e => ({ o with current := 0 }, some e)
    | none =>
      ({ o with routines := o.routines.insert o.current { routine with ctx := .inYield k },
                current := 0 }, none)

/-- The end of `entry()` for routine `id`, whose function threw `thrown`. -/
def finish (o : Ordinator κ ε) (id : Nat) (thrown : Option (Exn ε)) : Ordinator κ ε :=
  match o.routines.lookup id with
  | none => o
  | some routine =>
    { o with
      routines := o.routines.insert id
        { routine with finished := true, exception := thrown <|> routine.exception }
      current := 0 }

inductive Ran (κ ε : Type*)
  | start (f : Option κ)
  | resumed (k : κ)
  | raised (k : κ) (e : Exn ε)
  deriving DecidableEq, Repr

structure Switched (κ ε σ : Type*) where
  o : Ordinator κ ε
  world : σ
  ran : List (Ran κ ε)

def Switched.cons (x : Ran κ ε) (r : Switched κ ε σ) : Switched κ ε σ :=
  { r with ran := x :: r.ran }

/-- Routine `id` runs on from place `k`, where its `yield` throws `e`. -/
def unwind (c : Code κ ε σ) (id : Nat) (o : Ordinator κ ε) (k : κ) (e : Exn ε) (s : σ) :
    Switched κ ε σ :=
  match _h : c.run o.current k (.raised e) s with
  | (.yield k', s') =>
    match yield o k' with
    | (o', none) => ⟨o', s', [.raised k e]⟩
    | (o', some e') => (unwind c id o' k' e' s').cons (.raised k e)
  | (.ret, s') => ⟨finish o id none, s', [.raised k e]⟩
  | (.throw e', s') => ⟨finish o id (some e'), s', [.raised k e]⟩
termination_by c.unwinds.wrap k
decreasing_by exact ⟨_, _, _, _, _h⟩

section

variable {c : Code κ ε σ} {id : Nat} {o : Ordinator κ ε} {k k' : κ} {e e' : Exn ε} {s s' : σ}

theorem unwind_yield (h : c.run o.current k (.raised e) s = (.yield k', s')) :
    unwind c id o k e s =
      match yield o k' with
      | (o', none) => ⟨o', s', [.raised k e]⟩
      | (o', some e') => (unwind c id o' k' e' s').cons (.raised k e) := by
  rw [unwind]
  split <;> simp_all

theorem unwind_ret (h : c.run o.current k (.raised e) s = (.ret, s')) :
    unwind c id o k e s = ⟨finish o id none, s', [.raised k e]⟩ := by
  rw [unwind]
  split <;> simp_all

theorem unwind_throw (h : c.run o.current k (.raised e) s = (.throw e', s')) :
    unwind c id o k e s = ⟨finish o id (some e'), s', [.raised k e]⟩ := by
  rw [unwind]
  split <;> simp_all

end

/-- Routine `id` runs from place `k`, which is not behind a throwing `yield`. -/
def exec (c : Code κ ε σ) (id : Nat) (o : Ordinator κ ε) (k : κ) (sig : Signal ε) (s : σ)
    (x : Ran κ ε) : Switched κ ε σ :=
  match c.run o.current k sig s with
  | (.yield k', s') =>
    match yield o k' with
    | (o', none) => ⟨o', s', [x]⟩
    | (o', some e') => (unwind c id o' k' e' s').cons x
  | (.ret, s') => ⟨finish o id none, s', [x]⟩
  | (.throw e', s') => ⟨finish o id (some e'), s', [x]⟩

/-- `swapcontext` into routine `id`: `entry()` starts, or `yield()` goes on behind its own
`swapcontext`. -/
def switchTo (c : Code κ ε σ) (id : Nat) (o : Ordinator κ ε) (routine : Routine κ ε) (s : σ) :
    Switched κ ε σ :=
  match routine.ctx with
  | .entry =>
    match routine.func with
    | none => ⟨finish o id none, s, [.start none]⟩
    | some f => exec c id o f .start s (.start (some f))
  | .inYield k =>
    match routine.exception with
    | some e => unwind c id o k e s
    | none => exec c id o k .resumed s (.resumed k)

structure Out (κ ε : Type*) where
  ran : List (Ran κ ε)
  value : Except (Exn ε) Bool

/-- The end of `resume` for a finished routine. -/
def rethrow : Option (Exn ε) → Except (Exn ε) Bool
  | some e => .error e
  | none => .ok true

/-- `resume(id)` behind its `swapcontext`. -/
def reap (id : Nat) (r : Switched κ ε σ) : (Ordinator κ ε × σ) × Out κ ε :=
  match r.o.routines.lookup id with
  | none => ((r.o, r.world), ⟨r.ran, .ok true⟩)
  | some routine =>
    if routine.finished then
      (({ r.o with routines := r.o.routines.erase id,
                   finished := r.o.finished ++ [(id, routine)] }, r.world),
        ⟨r.ran, rethrow routine.exception⟩)
    else ((r.o, r.world), ⟨r.ran, .ok true⟩)

def resume (c : Code κ ε σ) (o : Ordinator κ ε) (s : σ) (id : Nat) :
    (Ordinator κ ε × σ) × Out κ ε :=
  if id = 0 then ((o, s), ⟨[], .ok false⟩)
  else
    match o.routines.lookup id with
    | none => ((o, s), ⟨[], .error .outOfRange⟩)
    | some routine =>
      if routine.finished then ((o, s), ⟨[], .ok false⟩)
      else reap id (switchTo c id { o with current := id } routine s)

/-- `kill(id, ex)`; `none` is an empty `exception_ptr`. -/
def kill (c : Code κ ε σ) (o : Ordinator κ ε) (s : σ) (id : Nat) (ex : Option (Exn ε)) :
    (Ordinator κ ε × σ) × Out κ ε :=
  if id = 0 then ((o, s), ⟨[], .error (.invalidArgument "You can't kill main routine")⟩)
  else
    match ex with
    | none => ((o, s), ⟨[], .error (.invalidArgument "Empty exception_ptr")⟩)
    | some e =>
      match o.routines.lookup id with
      | none => ((o, s), ⟨[], .error .outOfRange⟩)
      | some routine =>
        let r := resume c
          { o with routines := o.routines.insert id { routine with exception := some e } } s id
        match r.2.value with
        | .error e' => (r.1, ⟨r.2.ran, .error e'⟩)
        | .ok _ =>
          (r.1, ⟨r.2.ran, .error (.logicError "Resume had to throw exception, but didn't")⟩)

inductive Call (κ ε : Type*)
  | create (id : Nat) (f : Option κ)
  | resume (id : Nat)
  | kill (id : Nat) (ex : Option (Exn ε))
  deriving DecidableEq, Repr

def Call.id : Call κ ε → Nat
  | .create id _ => id
  | .resume id => id
  | .kill id _ => id

def call (c : Code κ ε σ) (st : Ordinator κ ε × σ) : Call κ ε → (Ordinator κ ε × σ) × Out κ ε
  | .create id f => (((create st.1 id f).1, st.2), ⟨[], .ok true⟩)
  | .resume id => resume c st.1 st.2 id
  | .kill id ex => kill c st.1 st.2 id ex

end AdvCppTP.Coroutine
