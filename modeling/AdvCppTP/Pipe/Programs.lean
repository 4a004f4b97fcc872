import AdvCppTP.Lib.Progress
import AdvCppTP.Pipe.Calls
import Mathlib.Data.List.TakeWhile

/-! The two programs of `hw-1/example` and the pipes between them. The parent sends the lines of its
standard input to the child, one after the other, and prints what comes back; the child answers each
message in upper case. Either program may be delayed between any two calls of the kernel, and the
kernel may move less than it was asked for. -/

namespace AdvCppTP.Protocol

namespace Dialogue

/-! ## The kernel's pipes -/

structure Kernel where
  capacity : Nat
  /-- Up to this many bytes are written at once or not at all (`PIPE_BUF`). -/
  pipeBuf : Nat
  pos : 0 < pipeBuf
  le_capacity : pipeBuf ≤ capacity

/-- What `::read` may come back with; it waits while the pipe is empty and has a writer. -/
def mayRead (requested : Nat) (pipe : Bytes) (writer : Bool) : Outcome → Bool
  | .moved k => 1 ≤ k ∧ k ≤ requested ∧ k ≤ pipe.length
  | .eof => pipe = [] ∧ ¬ writer
  | .error => true

/-- What `::write` may come back with; it waits while there is no room. -/
def mayWrite (kernel : Kernel) (requested : Nat) (pipe : Bytes) : Outcome → Bool
  | .moved k =>
    1 ≤ k ∧ k ≤ requested ∧ pipe.length + k ≤ kernel.capacity ∧
      (requested ≤ kernel.pipeBuf → k = requested)
  | .eof => false
  | .error => true

/-! ## The programs -/

/-- What the parent prints: `Send 'line' to child.`, `Got from child: line`, `Error while writing to
child` and `Error while reading from child`. -/
inductive Line
  | send (line : Bytes)
  | got (line : Bytes)
  | writeError
  | readError
  deriving DecidableEq, Repr

/-- Where the parent is; once it has `left` its loop, its ends of the pipes are closed. -/
inductive ParentAt
  | top
  | writing (buffer : Bytes) (w : Writing)
  | reading (r : Reading)
  | left
  | killed
  deriving DecidableEq, Repr

inductive ChildAt
  | reading (r : Reading)
  | writing (w : Writing)
  | left
  deriving DecidableEq, Repr

structure State where
  input : Bytes
  parent : ParentAt
  toChild : Bytes
  toParent : Bytes
  child : ChildAt
  output : List Line
  deriving DecidableEq, Repr

def newline : UInt8 := 10

/-- `std::getline`: the line, what is behind it, and whether the input ended first. -/
def getline (input : Bytes) : Bytes × Bytes × Bool :=
  match input.span (· ≠ newline) with
  | (line, []) => (line, [], true)
  | (line, _ :: rest) => (line, rest, false)

def parentAfterWrite (rep : SizeRep) (buffer : Bytes) : Writing → ParentAt × List Line
  | .back ret =>
    if ret = -1 then (.left, [.writeError]) else (.reading (.start rep buffer), [])
  | w => (.writing buffer w, [])

def parentAfterRead : Reading → ParentAt × List Line
  | .back ret buffer => if ret = -1 then (.left, [.readError]) else (.top, [.got buffer])
  | r => (.reading r, [])

section

variable (kernel : Kernel) (rep : SizeRep) (toupper : UInt8 → UInt8)

def upper (str : Bytes) : Bytes := str.map toupper

/-- The child's loop goes on whatever `feof(stdin)` is: nothing is read through `stdin`. -/
def childAfterRead : Reading → ChildAt
  | .back ret buffer => if ret = -1 then .left else .writing (.start rep (upper toupper buffer))
  | r => .reading r

def childAfterWrite : Writing → ChildAt
  | .back ret => if ret = -1 then .left else .reading (.start rep [])
  | w => .writing w

/-- `line` is the parent's `std::getline`; `parent` and `child` are the next call of the kernel by
either, which comes back with `o`; `parentKilled` and `childKilled` are writes to a pipe that nobody
reads, and `sigterm` is what `~Process` sends. -/
inductive Event
  | line
  | parent (o : Outcome)
  | child (o : Outcome)
  | parentKilled
  | childKilled
  | sigterm
  deriving DecidableEq, Repr

def ParentAt.open : ParentAt → Bool
  | .left => false
  | .killed => false
  | _ => true

def ChildAt.open : ChildAt → Bool
  | .left => false
  | _ => true

/-- The second loop of `Protocol::read`, which takes a -1 for a count. -/
def inPayload : Reading → Bool
  | .filling _ _ => true
  | _ => false

def State.init (input : Bytes) : State := ⟨input, .top, [], [], .reading (.start rep []), []⟩

def stepLine (s : State) : Option State :=
  match s.parent with
  | .top =>
    let (buffer, input, eof) := getline s.input
    if eof then some { s with input, parent := .left }
    else
      some { s with
        input
        parent := .writing buffer (.start rep buffer)
        output := s.output ++ [.send buffer] }
  | _ => none

def stepParent (o : Outcome) (s : State) : Option State :=
  match s.parent with
  | .writing buffer w =>
    if s.child.open ∧ mayWrite kernel w.requested s.toChild o then
      let (w, toChild) := w.turn s.toChild o
      let (parent, lines) := parentAfterWrite rep buffer w
      some { s with parent, toChild, output := s.output ++ lines }
    else none
  | .reading r =>
    if mayRead r.requested s.toParent s.child.open o then
      let (r, toParent) := r.turn rep s.toParent o
      let (parent, lines) := parentAfterRead r
      some { s with parent, toParent, output := s.output ++ lines }
    else none
  | _ => none

def stepChild (o : Outcome) (s : State) : Option State :=
  match s.child with
  | .reading r =>
    if mayRead r.requested s.toChild s.parent.open o then
      let (r, toChild) := r.turn rep s.toChild o
      some { s with child := childAfterRead rep toupper r, toChild }
    else none
  | .writing w =>
    if s.parent.open ∧ mayWrite kernel w.requested s.toParent o then
      let (w, toParent) := w.turn s.toParent o
      some { s with child := childAfterWrite rep w, toParent }
    else none
  | .left => none

def step (s : State) : Event → Option State
  | .line => stepLine rep s
  | .parent o => stepParent kernel rep o s
  | .child o => stepChild kernel rep toupper o s
  | .parentKilled =>
    match s.parent with
    | .writing _ _ => if s.child.open then none else some { s with parent := .killed }
    | _ => none
  | .childKilled =>
    match s.child with
    | .writing _ => if s.parent.open then none else some { s with child := .left }
    | _ => none
  | .sigterm =>
    if s.parent = .left ∧ s.child.open then some { s with child := .left } else none

def failsInPayload (s : State) : Event → Bool
  | .parent .error => match s.parent with
    | .reading r => inPayload r
    | _ => false
  | .child .error => match s.child with
    | .reading r => inPayload r
    | _ => false
  | _ => false

def Event.fails : Event → Bool
  | .parent .error => true
  | .child .error => true
  | _ => false

end

theorem getline_split (input : Bytes) :
    (∃ line rest, getline input = (line, rest, false) ∧ newline ∉ line ∧
      input = line ++ newline :: rest) ∨
    (∃ line, getline input = (line, [], true) ∧ newline ∉ line ∧ input = line) := by
  have hcut : input.takeWhile (· ≠ newline) ++ input.dropWhile (· ≠ newline) = input :=
    List.takeWhile_append_dropWhile
  have hclean : newline ∉ input.takeWhile (· ≠ newline) := by
    intro hmem
    have hne := List.mem_takeWhile_imp hmem
    simp only [ne_eq, not_true_eq_false, decide_false, Bool.false_eq_true] at hne
  rcases hrest : input.dropWhile (· ≠ newline) with _ | ⟨byte, rest⟩
  · refine .inr ⟨input.takeWhile (· ≠ newline), ?_, hclean, ?_⟩
    · simp only [getline, List.span_eq_takeWhile_dropWhile, hrest]
    · rw [hrest, List.append_nil] at hcut
      exact hcut.symm
  · refine .inl ⟨input.takeWhile (· ≠ newline), rest, ?_, hclean, ?_⟩
    · simp only [getline, List.span_eq_takeWhile_dropWhile, hrest]
    · have hbyte : byte = newline := by
        have hhead := List.head_dropWhile_not (p := fun b : UInt8 => decide (b ≠ newline))
          (l := input) (by rw [hrest]; exact List.cons_ne_nil _ _)
        simp only [hrest, List.head_cons] at hhead
        exact not_not.mp (of_decide_eq_false hhead)
      rw [hrest, hbyte] at hcut
      exact hcut.symm

end Dialogue

end AdvCppTP.Protocol
