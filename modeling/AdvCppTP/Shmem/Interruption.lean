import AdvCppTP.Lib.Runs

/-! Processes that construct and destroy `SemLock` objects on one semaphore, where a signal may
interrupt a `sem_wait`. -/

namespace AdvCppTP.Shmem

open Lib

inductive Wait
  | decremented
  | interrupted
  deriving DecidableEq, Repr

/-- `::sem_wait` and what it returns; `none` while it blocks. -/
def Wait.returns (sem : Nat) : Wait → Option (Nat × Int)
  | .decremented => if sem = 0 then none else some (sem - 1, 0)
  | .interrupted => some (sem, -1)

/-- The semaphore, the processes that are in the constructor of a `SemLock`, and the `SemLock`
objects that are constructed and not destroyed, each by its process. -/
structure Locks where
  sem : Nat
  waiting : List Nat
  held : List Nat
  deriving DecidableEq, Repr

inductive LockEvent
  | construct (p : Nat)
  | waited (p : Nat) (w : Wait)
  | destroy (p : Nat)
  deriving DecidableEq, Repr

inductive NoStep
  | blocked
  | notThere
  deriving DecidableEq, Repr

/-- `SemLock::SemLock` ends whatever `sem_wait` has returned; `SemLock::~SemLock` posts. -/
def Locks.step (s : Locks) : LockEvent → Except NoStep Locks
  | .construct p =>
    if p ∈ s.waiting then .error .blocked else .ok { s with waiting := p :: s.waiting }
  | .waited p w =>
    if p ∈ s.waiting then
      match w.returns s.sem with
      | none => .error .blocked
      | some (sem, _) => .ok ⟨sem, s.waiting.erase p, p :: s.held⟩
    else .error .notThere
  | .destroy p =>
    if p ∈ s.waiting then .error .blocked
    else if p ∈ s.held then .ok { s with sem := s.sem + 1, held := s.held.erase p }
    else .error .notThere

def Locks.init : Locks := ⟨1, [], []⟩

structure Locks.Exclusive (s : Locks) : Prop where
  alone : s.held.length ≤ 1
  counted : s.sem + s.held.length = 1

def LockEvent.interrupted : LockEvent → Bool
  | .waited _ .interrupted => true
  | _ => false

theorem Locks.step_count {s s' : Locks} {e : LockEvent} (h : s.step e = .ok s') :
    s'.sem + s'.held.length = s.sem + s.held.length + if e.interrupted then 1 else 0 := by
  cases e with
  | construct p =>
    simp only [Locks.step] at h
    split at h
    · cases h
    · cases h
      rfl
  | waited p w =>
    simp only [Locks.step] at h
    split at h
    case isFalse => cases h
    cases w with
    | decremented =>
      by_cases hsem : s.sem = 0
      · simp only [Wait.returns, if_pos hsem] at h
        cases h
      · simp only [Wait.returns, if_neg hsem] at h
        cases h
        simp only [List.length_cons, LockEvent.interrupted, Bool.false_eq_true, if_false]
        omega
    | interrupted =>
      -- the constructor ends without having taken from the value
      cases h
      rfl
  | destroy p =>
    simp only [Locks.step] at h
    split at h
    · cases h
    · split at h
      case isTrue hheld =>
        cases h
        have hlength := List.length_erase_of_mem hheld
        have hpos := List.length_pos_of_mem hheld
        simp only [LockEvent.interrupted, Bool.false_eq_true, if_false]
        omega
      · cases h

/-- The count and the holders have exceeded one by as much as waits have been interrupted. -/
theorem Locks.count_of_run {s s' : Locks} {es : List LockEvent}
    (h : es.foldlM Locks.step s = .ok s') :
    s'.sem + s'.held.length = s.sem + s.held.length + es.countP LockEvent.interrupted := by
  induction es generalizing s with
  | nil => rw [Except.ok.inj h, List.countP_nil]; rfl
  | cons e es ih =>
    obtain ⟨s₁, hstep, hrest⟩ := foldlM_cons_eq_ok.mp h
    rw [ih hrest, Locks.step_count hstep, List.countP_cons]
    omega

theorem Locks.exclusive_iff {s : Locks} {es : List LockEvent}
    (h : es.foldlM Locks.step .init = .ok s) :
    s.Exclusive ↔ ∀ e ∈ es, e.interrupted = false := by
  have hcount : s.sem + s.held.length = 1 + es.countP LockEvent.interrupted :=
    Locks.count_of_run h
  have hnone : es.countP LockEvent.interrupted = 0 ↔ ∀ e ∈ es, e.interrupted = false := by
    simp only [List.countP_eq_zero, Bool.not_eq_true]
  rw [← hnone]
  constructor
  · intro hs
    have := hs.counted
    omega
  · intro hzero
    exact ⟨by omega, by omega⟩

/-- A run keeps `SemLock` objects apart in every state exactly if no `sem_wait` of it is
interrupted. -/
theorem locks_exclusive_iff {s : Locks} {es : List LockEvent}
    (h : es.foldlM Locks.step .init = .ok s) :
    (∀ before after s', es = before ++ after → before.foldlM Locks.step .init = .ok s' →
      s'.Exclusive) ↔ ∀ e ∈ es, e.interrupted = false := by
  constructor
  · intro hall
    exact (Locks.exclusive_iff h).mp (hall es [] s (List.append_nil es).symm h)
  · rintro hnone before after s' rfl hs'
    exact (Locks.exclusive_iff hs').mpr fun e he => hnone e (List.mem_append_left _ he)

/-- Process 2 has its turn when process 1 is through. -/
theorem locks_exclusive_example : Locks.Exclusive ⟨0, [], [2]⟩ := by
  have hrun : [LockEvent.construct 1, .waited 1 .decremented, .construct 2, .destroy 1,
      .waited 2 .decremented].foldlM Locks.step .init = .ok ⟨0, [], [2]⟩ := rfl
  exact (locks_exclusive_iff hrun).mpr (by decide) _ [] _ (List.append_nil _).symm hrun

/-- A signal ends the wait of process 2 while process 1 holds the semaphore. -/
theorem interrupted_wait_admits_both :
    ¬ ∀ (es : List LockEvent) (s : Locks), es.foldlM Locks.step .init = .ok s → s.Exclusive := by
  intro h
  have hboth := h [.construct 1, .waited 1 .decremented, .construct 2, .waited 2 .interrupted]
    ⟨0, [], [2, 1]⟩ rfl
  exact absurd hboth.alone (by decide)

end AdvCppTP.Shmem
