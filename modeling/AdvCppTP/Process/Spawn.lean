import AdvCppTP.Lib.Scope
import Mathlib.Data.Nat.Find
import Mathlib.Logic.Function.Basic

/-! `Process::Process` over the descriptors of the parent and of the child that it forks: the two
pipes between them, and which ends of these each of them is left with. -/

namespace AdvCppTP.Process

open Lib Lib.Prog

/-- What a descriptor stands for. -/
inductive File
  | readEnd (pipe : Nat)
  | writeEnd (pipe : Nat)
  | other (name : Nat)
  deriving DecidableEq, Repr

/-- The open descriptors of a process. -/
@[ext] structure Table where
  entry : Nat → Option File
  finite : ∃ bound, ∀ fd, bound ≤ fd → entry fd = none

namespace Table

def empty : Table := ⟨fun _ => none, 0, fun _ _ => rfl⟩

def set (t : Table) (fd : Nat) (file : Option File) : Table where
  entry := Function.update t.entry fd file
  finite := by
    obtain ⟨bound, hbound⟩ := t.finite
    refine ⟨max bound (fd + 1), fun fd' hfd' => ?_⟩
    have hne : fd' ≠ fd := by omega
    rw [Function.update_of_ne hne]
    exact hbound fd' (by omega)

/-- `::close(fd)` -/
def close (t : Table) (fd : Nat) : Table := t.set fd none

/-- `::dup2(fd, onto)` -/
def dup2 (t : Table) (fd onto : Nat) : Table :=
  if t.entry fd = none then t else t.set onto (t.entry fd)

theorem exists_free (t : Table) : ∃ fd, t.entry fd = none := by
  obtain ⟨bound, hbound⟩ := t.finite
  exact ⟨bound, hbound bound (Nat.le_refl _)⟩

/-- The lowest descriptor that is not open, which is the next one that the kernel opens. -/
def lowest (t : Table) : Nat := Nat.find t.exists_free

def opening (t : Table) (file : File) : Table := t.set t.lowest (some file)

theorem entry_set (t : Table) (fd : Nat) (file : Option File) (fd' : Nat) :
    (t.set fd file).entry fd' = if fd' = fd then file else t.entry fd' :=
  Function.update_apply t.entry fd file fd'

@[simp] theorem entry_set_self (t : Table) (fd : Nat) (file : Option File) :
    (t.set fd file).entry fd = file := by
  rw [entry_set, if_pos rfl]

theorem entry_set_ne (t : Table) {fd fd' : Nat} (h : fd' ≠ fd) (file : Option File) :
    (t.set fd file).entry fd' = t.entry fd' := by
  rw [entry_set, if_neg h]

theorem entry_close (t : Table) (fd fd' : Nat) :
    (t.close fd).entry fd' = if fd' = fd then none else t.entry fd' :=
  t.entry_set fd none fd'

theorem entry_lowest (t : Table) : t.entry t.lowest = none := Nat.find_spec t.exists_free

theorem entry_of_lt_lowest (t : Table) {fd : Nat} (h : fd < t.lowest) : t.entry fd ≠ none :=
  Nat.find_min t.exists_free h

theorem entry_opening (t : Table) (file : File) (fd : Nat) :
    (t.opening file).entry fd = if fd = t.lowest then some file else t.entry fd :=
  t.entry_set t.lowest (some file) fd

theorem entry_of_opening {t : Table} {file : File} {fd : Nat}
    (h : (t.opening file).entry fd = none) : t.entry fd = none := by
  rw [entry_opening] at h
  split at h
  · cases h
  · exact h

/-- Descriptors are opened in rising order. -/
theorem lowest_lt (t : Table) (file : File) : t.lowest < (t.opening file).lowest := by
  have hfree := (t.opening file).entry_lowest
  rcases Nat.lt_trichotomy t.lowest (t.opening file).lowest with hlt | heq | hgt
  · exact hlt
  · rw [entry_opening, if_pos heq.symm] at hfree
    cases hfree
  · rw [entry_opening, if_neg (Nat.ne_of_lt hgt)] at hfree
    exact absurd hfree (t.entry_of_lt_lowest hgt)

theorem set_set (t : Table) (fd : Nat) (file file' : Option File) :
    (t.set fd file).set fd file' = t.set fd file' := by
  ext1
  funext fd'
  rw [entry_set, entry_set, entry_set]
  split <;> rfl

theorem set_eq_self {t : Table} {fd : Nat} {file : Option File} (h : t.entry fd = file) :
    t.set fd file = t := by
  ext1
  funext fd'
  rw [entry_set]
  split
  case isTrue heq => rw [heq, h]
  case isFalse => rfl

theorem dup2_of_entry {t : Table} {fd : Nat} {file : File} (h : t.entry fd = some file)
    (onto : Nat) : t.dup2 fd onto = t.set onto (some file) := by
  rw [dup2, h, if_neg (by simp)]

theorem close_opening (t : Table) (file : File) : (t.opening file).close t.lowest = t := by
  rw [close, Table.opening, set_set, set_eq_self t.entry_lowest]

end Table

/-! ## The constructor -/

inductive Failure
  | pipeError (msg : String)
  | runtimeError (msg : String)
  deriving DecidableEq, Repr

/-- A process object; a descriptor of -1 is `none`. -/
structure ProcessObject where
  childStdin : Option Nat
  childStdout : Option Nat
  deriving DecidableEq, Repr

/-- What a constructor works on: the descriptors of the parent, and those of the child once there is
one. -/
@[ext] structure Forking where
  parent : Table
  child : Option Table

/-- `Descriptor::close()` -/
def closeFd (fd : Option Nat) (t : Table) : Table :=
  match fd with
  | some fd => t.close fd
  | none => t

/-- The destructors of two `Descriptor`s, the one built last first. -/
def closePair (fds : Option Nat × Option Nat) (s : Forking) : Forking :=
  { s with parent := closeFd fds.1 (closeFd fds.2 s.parent) }

def getPipe (name : Nat) (succeeds : Bool) : Prog Failure Forking (Option Nat × Option Nat) :=
  if succeeds then
    Prog.read fun s =>
      let read := s.parent.lowest
      let write := (s.parent.opening (.readEnd name)).lowest
      (update fun s =>
        { s with parent := (s.parent.opening (.readEnd name)).opening (.writeEnd name) }).andThen
      fun _ => pure (some read, some write)
  else throw (.pipeError "Pipe creation error")

/-- The branch of the child, up to the call of `try_exec`. -/
def childSide (inRead inWrite outRead outWrite : Nat) (t : Table) : Table :=
  let t := (t.close inWrite).close outRead
  let t := (t.dup2 inRead 0).dup2 outWrite 1
  (t.close inRead).close outWrite

def fork (succeeds : Bool) (child : Table → Table) : Prog Failure Forking Unit :=
  if succeeds then update fun s => { s with child := some (child s.parent) }
  else throw (.runtimeError "Isn't able to fork")

/-- Which of the calls of the system succeed. -/
structure Calls where
  pipeIn : Bool
  pipeOut : Bool
  forks : Bool
  deriving DecidableEq, Repr

/-- `Process::Process(path)` in the parent; the pipes are `inPipe` and `outPipe`. -/
def construct (inPipe outPipe : Nat) (calls : Calls) : Prog Failure Forking ProcessObject :=
  inScope (getPipe inPipe calls.pipeIn) closePair fun pipeIn =>
    (inScope (getPipe outPipe calls.pipeOut) closePair fun pipeOut =>
      (fork calls.forks (childSide (pipeIn.1.getD 0) (pipeIn.2.getD 0) (pipeOut.1.getD 0)
        (pipeOut.2.getD 0))).andThen fun _ =>
          pure (⟨pipeIn.2, pipeOut.1⟩, none, pipeOut.2)).andThen fun p =>
      pure (p, pipeIn.1, none)

/-! ## What it leaves when it throws -/

theorem strong_getPipe (name : Nat) (succeeds : Bool) : (getPipe name succeeds).Strong := by
  unfold getPipe
  split
  case isTrue =>
    exact strong_read fun s => (nothrow_andThen (nothrow_update _) fun _ => nothrow_pure _).strong
  case isFalse => exact strong_throw _

theorem getPipe_undone (name : Nat) (succeeds : Bool) :
    (getPipe name succeeds).UndoneBy closePair := by
  intro s fds s' h
  unfold getPipe at h
  split at h
  case isTrue =>
    cases h
    ext1
    · simp only [closePair, closeFd, Table.close_opening]
    · rfl
  case isFalse => cases h

/-- A constructor that throws leaves the descriptors of the parent as they were, and no child. -/
theorem strong_construct (inPipe outPipe : Nat) (calls : Calls) :
    (construct inPipe outPipe calls).Strong := by
  have hfork : ∀ child, (fork calls.forks child).Strong := by
    intro child
    unfold fork
    split
    case isTrue => exact (nothrow_update _).strong
    case isFalse => exact strong_throw _
  apply Strong.inScope (strong_getPipe _ _) (getPipe_undone _ _)
  intro pipeIn
  apply Strong.andThen_nothrow
  · apply Strong.inScope (strong_getPipe _ _) (getPipe_undone _ _)
    intro pipeOut
    exact (hfork _).andThen_nothrow fun _ => nothrow_pure _
  · intro p
    exact nothrow_pure _

theorem construct_throws {inPipe outPipe : Nat} {calls : Calls} (h : calls ≠ ⟨true, true, true⟩)
    (t : Table) : ∃ x, construct inPipe outPipe calls ⟨t, none⟩ = .throws x ⟨t, none⟩ := by
  have hthrows : ∃ x s', construct inPipe outPipe calls ⟨t, none⟩ = .throws x s' := by
    rcases calls with ⟨_ | _, _ | _, _ | _⟩
    case true.true.true => exact absurd rfl h
    all_goals exact ⟨_, _, rfl⟩
  obtain ⟨x, s', hthrows⟩ := hthrows
  rw [strong_construct inPipe outPipe calls _ x s' hthrows] at hthrows
  exact ⟨x, hthrows⟩

/-! ## What it leaves when it returns -/

/-- Four descriptors that are not open, as the two calls of `pipe` find them. -/
structure Found (t : Table) where
  inRead : Nat
  inWrite : Nat
  outRead : Nat
  outWrite : Nat
  below : ∀ fd < inRead, t.entry fd ≠ none
  free : ∀ fd ∈ [inRead, inWrite, outRead, outWrite], t.entry fd = none
  rising : inRead < inWrite ∧ inWrite < outRead ∧ outRead < outWrite

/-- The descriptors with both ends of both pipes. -/
def Found.table {t : Table} (f : Found t) (inPipe outPipe : Nat) : Table :=
  (((t.set f.inRead (some (.readEnd inPipe))).set f.inWrite (some (.writeEnd inPipe))).set
    f.outRead (some (.readEnd outPipe))).set f.outWrite (some (.writeEnd outPipe))

def Found.of (t : Table) (inPipe outPipe : Nat) : Found t :=
  let t₁ := t.opening (.readEnd inPipe)
  let t₂ := t₁.opening (.writeEnd inPipe)
  let t₃ := t₂.opening (.readEnd outPipe)
  { inRead := t.lowest
    inWrite := t₁.lowest
    outRead := t₂.lowest
    outWrite := t₃.lowest
    below := fun fd => t.entry_of_lt_lowest
    free := by
      have hfree₁ := Table.entry_of_opening t₁.entry_lowest
      have hfree₂ := Table.entry_of_opening (Table.entry_of_opening t₂.entry_lowest)
      have hfree₃ := Table.entry_of_opening
        (Table.entry_of_opening (Table.entry_of_opening t₃.entry_lowest))
      simp only [List.forall_mem_cons, List.not_mem_nil, false_imp_iff, implies_true, and_true]
      exact ⟨t.entry_lowest, hfree₁, hfree₂, hfree₃⟩
    rising := ⟨t.lowest_lt _, t₁.lowest_lt _, t₂.lowest_lt _⟩ }

/-- What is left to the parent when the child's ends are closed. -/
theorem Found.parent_side {t : Table} (f : Found t) (inPipe outPipe : Nat) :
    ((f.table inPipe outPipe).close f.outWrite).close f.inRead =
      (t.set f.inWrite (some (.writeEnd inPipe))).set f.outRead (some (.readEnd outPipe)) := by
  obtain ⟨h₁, h₂, h₃⟩ := f.rising
  have hfree := f.free
  simp only [List.forall_mem_cons, List.not_mem_nil, false_imp_iff, implies_true, and_true] at hfree
  ext1
  funext fd
  simp only [Found.table, Table.close, Table.entry_set]
  grind

/-- A constructor that returns; `f` are the descriptors that it finds. -/
theorem construct_returns (t : Table) (inPipe outPipe : Nat) :
    ∃ f : Found t, construct inPipe outPipe ⟨true, true, true⟩ ⟨t, none⟩ =
      .returns ⟨some f.inWrite, some f.outRead⟩
        ⟨(t.set f.inWrite (some (.writeEnd inPipe))).set f.outRead (some (.readEnd outPipe)),
          some (childSide f.inRead f.inWrite f.outRead f.outWrite (f.table inPipe outPipe))⟩ := by
  refine ⟨.of t inPipe outPipe, ?_⟩
  rw [← Found.parent_side]
  rfl

/-- The child reads its messages from its standard input and writes its answers to its standard
output, and has no other descriptor of the two pipes. -/
structure Wired (inPipe outPipe : Nat) (child : Table) : Prop where
  stdin : child.entry 0 = some (.readEnd inPipe)
  stdout : child.entry 1 = some (.writeEnd outPipe)
  others : ∀ fd, 2 ≤ fd → ∀ file, child.entry fd = some file →
    file ≠ .readEnd inPipe ∧ file ≠ .writeEnd inPipe ∧
      file ≠ .readEnd outPipe ∧ file ≠ .writeEnd outPipe

/-- Before the two calls of `dup2`. -/
theorem Found.entry_closed {t : Table} (f : Found t) (inPipe outPipe fd : Nat) :
    (((f.table inPipe outPipe).close f.inWrite).close f.outRead).entry fd =
      if fd = f.outWrite then some (.writeEnd outPipe)
      else if fd = f.inRead then some (.readEnd inPipe)
      else t.entry fd := by
  obtain ⟨h₁, h₂, h₃⟩ := f.rising
  have hfree := f.free
  simp only [List.forall_mem_cons, List.not_mem_nil, false_imp_iff, implies_true, and_true] at hfree
  simp only [Found.table, Table.close, Table.entry_set]
  grind

theorem Found.child_of_le {t : Table} (f : Found t) (inPipe outPipe : Nat) (h : 2 ≤ f.inRead) :
    childSide f.inRead f.inWrite f.outRead f.outWrite (f.table inPipe outPipe) =
      (t.set 0 (some (.readEnd inPipe))).set 1 (some (.writeEnd outPipe)) := by
  obtain ⟨h₁, h₂, h₃⟩ := f.rising
  have hfree := f.free
  simp only [List.forall_mem_cons, List.not_mem_nil, false_imp_iff, implies_true, and_true] at hfree
  have hclosed := f.entry_closed inPipe outPipe
  have hin : (((f.table inPipe outPipe).close f.inWrite).close f.outRead).entry f.inRead =
      some (.readEnd inPipe) := by
    rw [hclosed, if_neg (by omega), if_pos rfl]
  have hout : ((((f.table inPipe outPipe).close f.inWrite).close f.outRead).set 0
      (some (.readEnd inPipe))).entry f.outWrite = some (.writeEnd outPipe) := by
    rw [Table.entry_set, if_neg (by omega), hclosed, if_pos rfl]
  simp only [childSide, Table.dup2_of_entry hin, Table.dup2_of_entry hout]
  ext1
  funext fd
  simp only [Table.close, Table.entry_set] at hclosed ⊢
  grind

/-- One of the first two descriptors is not open, and so the pipe to the child gets it: it is closed
again behind the calls of `dup2`. -/
theorem Found.child_inRead {t : Table} (f : Found t) (inPipe outPipe : Nat) :
    (childSide f.inRead f.inWrite f.outRead f.outWrite (f.table inPipe outPipe)).entry f.inRead =
      none := by
  obtain ⟨h₁, h₂, h₃⟩ := f.rising
  simp only [childSide, Table.close, Table.entry_set]
  grind

/-- The child is on the other side of the pipes of its object if and only if the standard input and
output of the parent were open. -/
theorem spawned_wired_iff (t : Table) (inPipe outPipe : Nat)
    (hnew : ∀ fd file, t.entry fd = some file → file ≠ .readEnd inPipe ∧ file ≠ .writeEnd inPipe ∧
      file ≠ .readEnd outPipe ∧ file ≠ .writeEnd outPipe) :
    ∃ p s child, construct inPipe outPipe ⟨true, true, true⟩ ⟨t, none⟩ = .returns p s ∧
      s.child = some child ∧
      (Wired inPipe outPipe child ↔ t.entry 0 ≠ none ∧ t.entry 1 ≠ none) := by
  obtain ⟨f, hreturns⟩ := construct_returns t inPipe outPipe
  refine ⟨_, _, _, hreturns, rfl, ?_⟩
  have hfree : t.entry f.inRead = none := f.free _ List.mem_cons_self
  constructor
  · intro hwired
    -- whatever is in place of `inRead` is closed behind the calls of `dup2`
    have hlost : ∀ fd, f.inRead = fd → (childSide f.inRead f.inWrite f.outRead f.outWrite
        (f.table inPipe outPipe)).entry fd = none := by
      rintro fd rfl
      exact f.child_inRead inPipe outPipe
    have hzero : f.inRead ≠ 0 := fun h => by
      have hstdin := hwired.stdin
      rw [hlost 0 h] at hstdin
      cases hstdin
    have hone : f.inRead ≠ 1 := fun h => by
      have hstdout := hwired.stdout
      rw [hlost 1 h] at hstdout
      cases hstdout
    exact ⟨f.below 0 (by omega), f.below 1 (by omega)⟩
  · rintro ⟨hzero, hone⟩
    have hge : 2 ≤ f.inRead := by
      by_contra hlt
      rcases Nat.lt_or_ge f.inRead 1 with h | h
      · rw [show f.inRead = 0 by omega] at hfree
        exact hzero hfree
      · rw [show f.inRead = 1 by omega] at hfree
        exact hone hfree
    rw [f.child_of_le inPipe outPipe hge]
    refine ⟨?_, ?_, fun fd hfd file hfile => ?_⟩
    · rw [Table.entry_set_ne _ (by decide), Table.entry_set_self]
    · rw [Table.entry_set_self]
    · rw [Table.entry_set_ne _ (by omega), Table.entry_set_ne _ (by omega)] at hfile
      exact hnew fd file hfile

/-- The descriptors of a program that runs in a terminal. -/
def terminal : Table where
  entry fd := if fd < 3 then some (.other fd) else none
  finite := ⟨3, fun _ h => if_neg (Nat.not_lt.mpr h)⟩

theorem terminal_other {fd : Nat} {file : File} (h : terminal.entry fd = some file) :
    file = .other fd := by
  simp only [terminal, Option.ite_none_right_eq_some, Option.some.injEq] at h
  exact h.2.symm

theorem spawned_wired_terminal :
    ∃ p s child, construct 0 1 ⟨true, true, true⟩ ⟨terminal, none⟩ = .returns p s ∧
      s.child = some child ∧
      (Wired 0 1 child ↔ terminal.entry 0 ≠ none ∧ terminal.entry 1 ≠ none) := by
  refine spawned_wired_iff terminal 0 1 fun fd file h => ?_
  rw [terminal_other h]
  exact ⟨by simp, by simp, by simp, by simp⟩

end AdvCppTP.Process
