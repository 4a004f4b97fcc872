import AdvCppTP.Pipe.Programs
import AdvCppTP.Process.ParseParams

/-! What goes through the pipes of a `Process`: its methods `write`, `writeExact`, `read` and
`readExact`, call by call of the kernel, beside a child that does what it likes. -/

namespace AdvCppTP.Process

open Lib
open Protocol (Outcome overwrite sysRead sysWrite)
open Protocol.Dialogue (Kernel mayRead mayWrite)

/-! ## The methods -/

/-- Memory of the caller's; no object is longer than a `ptrdiff_t` can tell. -/
structure Buffer where
  bytes : Bytes
  size_lt : bytes.length < 2 ^ 63
  deriving DecidableEq

/-- The `ProcError`s that the transfers throw. -/
inductive Thrown
  | writeError (msg : String)
  | readError (msg : String)
  deriving DecidableEq, Repr

/-- A `size_t` in a `ssize_t`. -/
def ssize (n : Nat) : Int := if n < 2 ^ 63 then n else n - 2 ^ 64

/-- `Process::write`, and what has gone out. -/
def write (data : Bytes) (o : Outcome) : Except Thrown Nat × Bytes :=
  let (bytes, passed) := sysWrite data o
  (if bytes = -1 then .error (.writeError "Write error") else .ok bytes.toNat, passed)

/-- `Process::read`, what has come in, and what is left of the pipe. -/
def read (len : Nat) (pipe : Bytes) (o : Outcome) : Except Thrown Nat × Bytes × Bytes :=
  let (bytes, data, pipe) := sysRead len pipe o
  (if bytes = -1 then .error (.readError "Read error") else .ok bytes.toNat, data, pipe)

/-- A method in front of its next call of the kernel; `data` is the memory that it was given. -/
inductive Method
  | write (data : Bytes)
  | writeExact (data : Bytes) (written : Nat)
  | read (data : Bytes)
  | readExact (data : Bytes) (wasRead : Nat)
  deriving DecidableEq, Repr

/-- The end of a method: `write` and `read` return a count. -/
inductive Ending
  | count (bytes : Nat)
  | done
  | threw (e : Thrown)
  deriving DecidableEq, Repr

inductive Next
  | again (m : Method)
  | back (memory : Bytes) (ending : Ending)
  deriving DecidableEq, Repr

def counted : Except Thrown Nat → Ending
  | .ok n => .count n
  | .error e => .threw e

/-- `while (written < len)` -/
def Next.writeExact (data : Bytes) (written : Nat) : Next :=
  if written < data.length then .again (.writeExact data written) else .back data .done

/-- `while (was_read < len)` -/
def Next.readExact (data : Bytes) (wasRead : Nat) : Next :=
  if wasRead < data.length then .again (.readExact data wasRead) else .back data .done

/-- What the loops make of a result; `accessDenied` is `errno == EACCES`. -/
def Next.follow (error : String → Thrown) (nothing : String) (next : Nat → Next) (data : Bytes)
    (moved : Nat) (accessDenied : Bool) : Except Thrown Nat → Next
  | .error e => .back data (.threw e)
  | .ok n =>
    let bytes := ssize n
    if bytes = -1 then
      if accessDenied then .back data (.threw (error "Access to file is denied"))
      else .back data (.threw (error "Invalid file number"))
    else if bytes = 0 then .back data (.threw (error nothing))
    else next ((moved + bytes) % 2 ^ 64).toNat

/-- One call of the kernel and what follows it, what it moves, and the pipe behind it. -/
def Method.turn (pipe : Bytes) (o : Outcome) (accessDenied : Bool) : Method → Next × Bytes × Bytes
  | .write data =>
    let (r, passed) := Process.write data o
    (.back data (counted r), passed, pipe ++ passed)
  | .writeExact data written =>
    let (r, passed) := Process.write (data.drop written) o
    (.follow .writeError "Can't write to file" (.writeExact data) data written accessDenied r,
      passed, pipe ++ passed)
  | .read data =>
    let (r, got, pipe) := Process.read data.length pipe o
    (.back (overwrite data 0 got) (counted r), got, pipe)
  | .readExact data wasRead =>
    let (r, got, pipe) := Process.read (data.length - wasRead) pipe o
    let data := overwrite data wasRead got
    (.follow .readError "EOF founded" (.readExact data) data wasRead accessDenied r, got, pipe)

inductive Call
  | write (data : Buffer)
  | writeExact (data : Buffer)
  | read (data : Buffer)
  | readExact (data : Buffer)
  deriving DecidableEq

def Call.begin : Call → Next
  | .write data => .again (.write data.bytes)
  | .writeExact data => .writeExact data.bytes 0
  | .read data => .again (.read data.bytes)
  | .readExact data => .readExact data.bytes 0

/-! ## The parent and its child -/

def Method.writes : Method → Bool
  | .write _ => true
  | .writeExact _ _ => true
  | _ => false

def Call.writes : Call → Bool
  | .write _ => true
  | .writeExact _ => true
  | _ => false

def Method.requested : Method → Nat
  | .write data => data.length
  | .writeExact data written => data.length - written
  | .read data => data.length
  | .readExact data wasRead => data.length - wasRead

/-- What has gone through in the calls before the next one. -/
def Method.moved : Method → Bytes
  | .writeExact data written => data.take written
  | .readExact data wasRead => data.take wasRead
  | _ => []

/-- A call that is over: what it has moved, and the memory behind it. -/
structure Done where
  call : Call
  moved : Bytes
  memory : Bytes
  ending : Ending
  deriving DecidableEq

/-- `stdin` and `stdout` tell whether `child_stdin_` and `child_stdout_` are open, `childStdin` and
`childStdout` whether the other ends are; `childGot` and `childPut` are what the child has read and
written. -/
structure Exchange where
  stdin : Bool
  stdout : Bool
  doing : Option (Call × Method)
  done : List Done
  toChild : Bytes
  toParent : Bytes
  childStdin : Bool
  childStdout : Bool
  childGot : Bytes
  childPut : Bytes
  killed : Bool
  deriving DecidableEq

/-- `kernel` is the return of the call that the parent is in, and `sigpipe` its end in a write to a
pipe that nobody reads. -/
inductive Event
  | call (c : Call)
  | closeStdin
  | close
  | kernel (o : Outcome) (accessDenied : Bool)
  | sigpipe
  | childReads (bytes : Nat)
  | childWrites (bytes : Bytes)
  | childCloses (stdin : Bool)
  deriving DecidableEq

namespace Exchange

def init : Exchange := ⟨true, true, none, [], [], [], true, true, [], [], false⟩

def isIdle (s : Exchange) : Bool := s.doing.isNone && !s.killed

/-- What the call of the kernel may come back with; on a descriptor that is closed it fails. -/
def May (kernel : Kernel) (s : Exchange) (m : Method) (o : Outcome) : Prop :=
  o = .error ∨
    if m.writes then
      s.stdin = true ∧ (m.requested = 0 ∧ o = .moved 0 ∨
        s.childStdin = true ∧ mayWrite kernel m.requested s.toChild o = true)
    else
      s.stdout = true ∧ (m.requested = 0 ∧ o = .moved 0 ∨
        mayRead m.requested s.toParent s.childStdout o = true)

instance (kernel : Kernel) (s : Exchange) (m : Method) (o : Outcome) :
    Decidable (s.May kernel m o) :=
  inferInstanceAs (Decidable (_ ∨ _))

/-- Where a call stands that has moved so much. -/
def goes (s : Exchange) (c : Call) (moved : Bytes) : Next → Exchange
  | .again m => { s with doing := some (c, m) }
  | .back memory ending => { s with doing := none, done := s.done ++ [⟨c, moved, memory, ending⟩] }

def pipe (s : Exchange) (m : Method) : Bytes := if m.writes then s.toChild else s.toParent

def withPipe (s : Exchange) (m : Method) (pipe : Bytes) : Exchange :=
  if m.writes then { s with toChild := pipe } else { s with toParent := pipe }

/-- `none` where this does not happen. -/
def step (kernel : Kernel) (s : Exchange) : Event → Option Exchange
  | .call c => if s.isIdle then some (s.goes c [] c.begin) else none
  | .closeStdin => if s.isIdle then some { s with stdin := false } else none
  | .close => if s.isIdle then some { s with stdin := false, stdout := false } else none
  | .kernel o accessDenied =>
    match s.doing with
    | none => none
    | some (c, m) =>
      if s.killed = false ∧ s.May kernel m o then
        let (next, moved, pipe) := m.turn (s.pipe m) o accessDenied
        some ((s.withPipe m pipe).goes c (m.moved ++ moved) next)
      else none
  | .sigpipe =>
    match s.doing with
    | none => none
    | some (_, m) =>
      if s.killed = false ∧ m.writes ∧ s.stdin ∧ ¬ s.childStdin then some { s with killed := true }
      else none
  | .childReads bytes =>
    if s.childStdin ∧ bytes ≤ s.toChild.length then
      some { s with
        toChild := s.toChild.drop bytes
        childGot := s.childGot ++ s.toChild.take bytes }
    else none
  | .childWrites bytes =>
    if s.childStdout ∧ s.toParent.length + bytes.length ≤ kernel.capacity then
      some { s with toParent := s.toParent ++ bytes, childPut := s.childPut ++ bytes }
    else none
  | .childCloses stdin =>
    if stdin then some { s with childStdin := false } else some { s with childStdout := false }

end Exchange

/-! ## What a method promises -/

/-- What a call that is over has done, by how it has ended. -/
inductive Done.Kept : Done → Prop
  | wrote {data : Buffer} {n : Nat} (hn : n ≤ data.bytes.length)
      (hpos : data.bytes ≠ [] → 1 ≤ n) :
      Kept ⟨.write data, data.bytes.take n, data.bytes, .count n⟩
  | notWritten (data : Buffer) :
      Kept ⟨.write data, [], data.bytes, .threw (.writeError "Write error")⟩
  | wroteAll (data : Buffer) : Kept ⟨.writeExact data, data.bytes, data.bytes, .done⟩
  | wrotePart {data : Buffer} {passed : Bytes} (hpassed : passed <+: data.bytes)
      (hpart : passed.length < data.bytes.length) :
      Kept ⟨.writeExact data, passed, data.bytes, .threw (.writeError "Write error")⟩
  | got {data : Buffer} {got : Bytes} (hgot : got.length ≤ data.bytes.length) :
      Kept ⟨.read data, got, got ++ data.bytes.drop got.length, .count got.length⟩
  | notRead (data : Buffer) :
      Kept ⟨.read data, [], data.bytes, .threw (.readError "Read error")⟩
  | gotAll {data : Buffer} {got : Bytes} (hgot : got.length = data.bytes.length) :
      Kept ⟨.readExact data, got, got, .done⟩
  | gotPart {data : Buffer} {got : Bytes} {msg : String}
      (hmsg : msg = "Read error" ∨ msg = "EOF founded")
      (hpart : got.length < data.bytes.length) :
      Kept ⟨.readExact data, got, got ++ data.bytes.drop got.length, .threw (.readError msg)⟩

/-- It says that there is nothing more to read. -/
def Done.tellsEnd (d : Done) : Bool :=
  match d.call, d.ending with
  | .read data, .count bytes => data.bytes ≠ [] ∧ bytes = 0
  | .readExact _, .threw e => e = .readError "EOF founded"
  | _, _ => false

/-- Where a method is in front of a call of the kernel. -/
inductive Call.Pending : Call → Method → Prop
  | write (data : Buffer) : Pending (.write data) (.write data.bytes)
  | writeExact {data : Buffer} {written : Nat} (h : written < data.bytes.length) :
      Pending (.writeExact data) (.writeExact data.bytes written)
  | read (data : Buffer) : Pending (.read data) (.read data.bytes)
  | readExact {data : Buffer} {got : Bytes} (h : got.length < data.bytes.length) :
      Pending (.readExact data) (.readExact (got ++ data.bytes.drop got.length) got.length)

theorem Call.Pending.writes {c : Call} {m : Method} (h : c.Pending m) : c.writes = m.writes := by
  cases h <;> rfl

/-- Behind a call of the kernel, when the method has moved so much. -/
inductive Next.Leads (c : Call) (moved : Bytes) : Next → Prop
  | again {m : Method} (hpending : c.Pending m) (hmoved : m.moved = moved) : Leads _ _ (.again m)
  | back {memory : Bytes} {ending : Ending} (hkept : Done.Kept ⟨c, moved, memory, ending⟩) :
      Leads _ _ (.back memory ending)

def Next.tellsEnd (c : Call) (moved : Bytes) : Next → Bool
  | .again _ => false
  | .back memory ending => Done.tellsEnd ⟨c, moved, memory, ending⟩

/-! ## Single calls of the kernel -/

theorem ssize_of_lt {n : Nat} (h : n < 2 ^ 63) : ssize n = n := if_pos h

theorem write_moved (data : Bytes) (k : Nat) :
    Process.write data (.moved k) = (.ok (data.take k).length, data.take k) := by
  unfold Process.write sysWrite
  simp only [Int.toNat_natCast]
  rw [if_neg (by omega)]

theorem read_moved {len k : Nat} {pipe : Bytes} (hlen : k ≤ len) (hpipe : k ≤ pipe.length) :
    Process.read len pipe (.moved k) = (.ok k, pipe.take k, pipe.drop k) := by
  have hsys : sysRead len pipe (.moved k) = ((k : Int), pipe.take k, pipe.drop k) := by
    rw [Protocol.sysRead_delivered hpipe, Nat.min_eq_left hlen]
  unfold Process.read
  simp only [hsys, Int.toNat_natCast]
  rw [if_neg (by omega)]

theorem read_eof (len : Nat) (pipe : Bytes) : Process.read len pipe .eof = (.ok 0, [], pipe) := rfl

theorem read_error (len : Nat) (pipe : Bytes) :
    Process.read len pipe .error = (.error (.readError "Read error"), [], pipe) := rfl

section Follow

variable (error : String → Thrown) (nothing : String) (next : Nat → Next) (data : Bytes)
  (moved : Nat) (accessDenied : Bool)

/-- A count is never -1, for `write` and `read` throw then. -/
theorem follow_pos {n : Nat} (hpos : 1 ≤ n) (hfits : moved + n < 2 ^ 63) :
    Next.follow error nothing next data moved accessDenied (.ok n) = next (moved + n) := by
  have hcount : ssize n = n := ssize_of_lt (by omega)
  have hsum : ((moved + (n : Int)) % 2 ^ 64).toNat = moved + n := by omega
  unfold Next.follow
  simp only [hcount]
  rw [if_neg (by omega), if_neg (by omega), hsum]

end Follow

theorem overwrite_behind (got piece rest : Bytes) :
    overwrite (got ++ rest) got.length piece = got ++ piece ++ rest.drop piece.length := by
  rw [overwrite, List.take_left, List.drop_length_add_append]

/-- A `::write` fails, or it moves something if there is something to move. -/
theorem mayWrite_cases {kernel : Kernel} {requested : Nat} {pipe : Bytes} {o : Outcome}
    (h : requested = 0 ∧ o = .moved 0 ∨ mayWrite kernel requested pipe o = true) :
    o = .error ∨ ∃ k, o = .moved k ∧ k ≤ requested ∧ (requested ≠ 0 → 1 ≤ k) := by
  obtain ⟨hnone, rfl⟩ | hmay := h
  · exact .inr ⟨0, rfl, Nat.zero_le _, fun hsome => absurd hnone hsome⟩
  · cases o with
    | moved k =>
      obtain ⟨hpos, hle, -⟩ := of_decide_eq_true hmay
      exact .inr ⟨k, rfl, hle, fun _ => hpos⟩
    | eof => cases hmay
    | error => exact .inl rfl

/-- A `::read` finds the end only where nobody can write any more. -/
theorem mayRead_cases {requested : Nat} {pipe : Bytes} {writer : Bool} {o : Outcome}
    (h : requested = 0 ∧ o = .moved 0 ∨ mayRead requested pipe writer o = true) :
    o = .error ∨ o = .eof ∧ pipe = [] ∧ writer = false ∨
      ∃ k, o = .moved k ∧ k ≤ requested ∧ k ≤ pipe.length ∧ (requested ≠ 0 → 1 ≤ k) := by
  obtain ⟨hnone, rfl⟩ | hmay := h
  · exact .inr (.inr ⟨0, rfl, Nat.zero_le _, Nat.zero_le _, fun hsome => absurd hnone hsome⟩)
  · cases o with
    | moved k =>
      obtain ⟨hpos, hle, hthere⟩ := of_decide_eq_true hmay
      exact .inr (.inr ⟨k, rfl, hle, hthere, fun _ => hpos⟩)
    | eof =>
      obtain ⟨hempty, hwriter⟩ := of_decide_eq_true hmay
      exact .inr (.inl ⟨rfl, hempty, Bool.eq_false_iff.mpr hwriter⟩)
    | error => exact .inl rfl

theorem leads_writeExact (data : Buffer) (written : Nat) :
    (Next.writeExact data.bytes written).Leads (.writeExact data) (data.bytes.take written) := by
  unfold Next.writeExact
  split
  case isTrue hmore => exact .again (.writeExact hmore) rfl
  case isFalse hall =>
    apply Next.Leads.back
    rw [List.take_of_length_le (Nat.not_lt.mp hall)]
    exact .wroteAll data

theorem leads_readExact {data : Buffer} {got : Bytes} (h : got.length ≤ data.bytes.length) :
    (Next.readExact (got ++ data.bytes.drop got.length) got.length).Leads (.readExact data) got := by
  have hlen : (got ++ data.bytes.drop got.length).length = data.bytes.length := by
    rw [List.length_append, List.length_drop]
    omega
  unfold Next.readExact
  rw [hlen]
  split
  case isTrue hmore => exact .again (.readExact hmore) List.take_left
  case isFalse hall =>
    apply Next.Leads.back
    rw [List.drop_of_length_le (Nat.not_lt.mp hall), List.append_nil]
    exact .gotAll (Nat.le_antisymm h (Nat.not_lt.mp hall))

theorem Call.leads_begin (c : Call) : c.begin.Leads c [] := by
  cases c with
  | write data => exact .again (.write data) rfl
  | writeExact data => exact leads_writeExact data 0
  | read data => exact .again (.read data) rfl
  | readExact data => exact @leads_readExact data [] (Nat.zero_le _)

/-- A call of `::write` in a method. -/
theorem Call.Pending.turn_writes {c : Call} {m : Method} (h : c.Pending m)
    (hwrites : m.writes = true) {o : Outcome}
    (ho : o = .error ∨ ∃ k, o = .moved k ∧ k ≤ m.requested ∧ (m.requested ≠ 0 → 1 ≤ k))
    (pipe : Bytes) (accessDenied : Bool) :
    ∃ next passed, m.turn pipe o accessDenied = (next, passed, pipe ++ passed) ∧
      next.Leads c (m.moved ++ passed) := by
  cases h with
  | read | readExact => cases hwrites
  | write data =>
    obtain rfl | ⟨k, rfl, hk, hpos⟩ := ho
    · exact ⟨_, _, rfl, .back (.notWritten data)⟩
    · have hlen : (data.bytes.take k).length = k := List.length_take_of_le hk
      refine ⟨.back data.bytes (.count k), data.bytes.take k, ?_, .back (.wrote hk ?_)⟩
      · rw [Method.turn, write_moved, hlen]
        rfl
      · exact fun hne => hpos fun hzero => hne (List.length_eq_zero_iff.mp hzero)
  | @writeExact data written hmore =>
    obtain rfl | ⟨k, rfl, hk, hpos⟩ := ho
    · refine ⟨_, _, rfl, .back ?_⟩
      rw [List.append_nil]
      exact .wrotePart (List.take_prefix written _)
        ((List.length_take_le written _).trans_lt hmore)
    · have hk : k ≤ data.bytes.length - written := hk
      have hpos : 1 ≤ k := hpos (Nat.sub_ne_zero_of_lt hmore)
      have hlen : ((data.bytes.drop written).take k).length = k := by
        rw [List.length_take_of_le]
        rwa [List.length_drop]
      have hfits := data.size_lt
      have hleads := leads_writeExact data (written + k)
      rw [List.take_add] at hleads
      refine ⟨_, (data.bytes.drop written).take k, ?_, hleads⟩
      rw [Method.turn, write_moved, hlen]
      simp only
      rw [follow_pos _ _ _ _ _ _ hpos (by omega)]

section Reads

variable (data pipe : Bytes) (wasRead : Nat) (accessDenied : Bool)

theorem Method.turn_read_error : (Method.read data).turn pipe .error accessDenied =
    (.back data (.threw (.readError "Read error")), [], pipe) := by
  rw [Method.turn, read_error]
  simp only [Protocol.overwrite_nil]
  rfl

theorem Method.turn_read_eof : (Method.read data).turn pipe .eof accessDenied =
    (.back data (.count 0), [], pipe) := by
  rw [Method.turn, read_eof]
  simp only [Protocol.overwrite_nil]
  rfl

theorem Method.turn_read_moved {data pipe : Bytes} {k : Nat} (hk : k ≤ data.length)
    (hthere : k ≤ pipe.length) : (Method.read data).turn pipe (.moved k) accessDenied =
      (.back (pipe.take k ++ data.drop k) (.count k), pipe.take k, pipe.drop k) := by
  have hover := overwrite_behind [] (pipe.take k) data
  rw [List.length_take_of_le hthere] at hover
  rw [Method.turn, read_moved hk hthere]
  simp only [List.nil_append, List.length_nil] at hover ⊢
  rw [hover]
  rfl

theorem Method.turn_readExact_error :
    (Method.readExact data wasRead).turn pipe .error accessDenied =
      (.back data (.threw (.readError "Read error")), [], pipe) := by
  rw [Method.turn, read_error]
  simp only [Protocol.overwrite_nil]
  rfl

theorem Method.turn_readExact_eof :
    (Method.readExact data wasRead).turn pipe .eof accessDenied =
      (.back data (.threw (.readError "EOF founded")), [], pipe) := by
  rw [Method.turn, read_eof]
  simp only [Protocol.overwrite_nil]
  rfl

theorem Method.turn_readExact_moved {got rest pipe : Bytes} {k : Nat} (hpos : 1 ≤ k)
    (hk : k ≤ rest.length) (hthere : k ≤ pipe.length) (hfits : got.length + k < 2 ^ 63) :
    (Method.readExact (got ++ rest) got.length).turn pipe (.moved k) accessDenied =
      (.readExact (got ++ pipe.take k ++ rest.drop k) (got.length + k), pipe.take k,
        pipe.drop k) := by
  have hasked : k ≤ (got ++ rest).length - got.length := by
    rwa [List.length_append, Nat.add_sub_cancel_left]
  have hover := overwrite_behind got (pipe.take k) rest
  rw [List.length_take_of_le hthere] at hover
  rw [Method.turn, read_moved hasked hthere]
  simp only [hover]
  rw [follow_pos _ _ _ _ _ _ hpos hfits]

end Reads

/-- What a call of `::read` in a method moves, and when it finds the end. -/
structure Reads (c : Call) (m : Method) (pipe : Bytes) (writer : Bool)
    (turned : Next × Bytes × Bytes) : Prop where
  pipe : turned.2.1 ++ turned.2.2 = pipe
  leads : turned.1.Leads c (m.moved ++ turned.2.1)
  ends : turned.1.tellsEnd c (m.moved ++ turned.2.1) = true → turned.2.2 = [] ∧ writer = false

section

variable {pipe : Bytes} {writer : Bool} {o : Outcome} (accessDenied : Bool)

theorem reads_read (data : Buffer)
    (ho : o = .error ∨ o = .eof ∧ pipe = [] ∧ writer = false ∨
      ∃ k, o = .moved k ∧ k ≤ data.bytes.length ∧ k ≤ pipe.length ∧
        (data.bytes.length ≠ 0 → 1 ≤ k)) :
    Reads (.read data) (.read data.bytes) pipe writer
      ((Method.read data.bytes).turn pipe o accessDenied) := by
  obtain rfl | ⟨rfl, hempty, hwriter⟩ | ⟨k, rfl, hk, hthere, hpos⟩ := ho
  · rw [Method.turn_read_error]
    exact ⟨rfl, .back (.notRead data), fun hend => by cases hend⟩
  · rw [Method.turn_read_eof]
    exact ⟨rfl, .back (.got (Nat.zero_le _)), fun _ => ⟨hempty, hwriter⟩⟩
  · have hlen : (pipe.take k).length = k := List.length_take_of_le hthere
    have hkept := @Done.Kept.got data (pipe.take k) (hlen.trans_le hk)
    rw [hlen] at hkept
    rw [Method.turn_read_moved accessDenied hk hthere]
    refine ⟨List.take_append_drop k pipe, .back hkept, fun hend => ?_⟩
    -- it has asked for something, and got it
    obtain ⟨hsome, hnone⟩ := of_decide_eq_true hend
    have hone := hpos fun hzero => hsome (List.length_eq_zero_iff.mp hzero)
    omega

theorem reads_readExact {data : Buffer} {got : Bytes} (hmore : got.length < data.bytes.length)
    (ho : o = .error ∨ o = .eof ∧ pipe = [] ∧ writer = false ∨
      ∃ k, o = .moved k ∧ 1 ≤ k ∧ k ≤ data.bytes.length - got.length ∧ k ≤ pipe.length) :
    Reads (.readExact data) (.readExact (got ++ data.bytes.drop got.length) got.length) pipe writer
      ((Method.readExact (got ++ data.bytes.drop got.length) got.length).turn pipe o
        accessDenied) := by
  have hmoved : (Method.readExact (got ++ data.bytes.drop got.length) got.length).moved = got :=
    List.take_left
  obtain rfl | ⟨rfl, hempty, hwriter⟩ | ⟨k, rfl, hpos, hk, hthere⟩ := ho
  · rw [Method.turn_readExact_error]
    refine ⟨rfl, ?_, fun hend => by cases hend⟩
    rw [hmoved, List.append_nil]
    exact .back (.gotPart (.inl rfl) hmore)
  · rw [Method.turn_readExact_eof]
    refine ⟨rfl, ?_, fun _ => ⟨hempty, hwriter⟩⟩
    rw [hmoved, List.append_nil]
    exact .back (.gotPart (.inr rfl) hmore)
  · have hfits := data.size_lt
    have hlen : (got ++ pipe.take k).length = got.length + k := by
      rw [List.length_append, List.length_take_of_le hthere]
    have hleads := @leads_readExact data (got ++ pipe.take k) (by omega)
    rw [hlen, ← List.drop_drop] at hleads
    rw [Method.turn_readExact_moved accessDenied hpos (by rwa [List.length_drop]) hthere (by omega)]
    refine ⟨List.take_append_drop k pipe, ?_, fun hend => ?_⟩
    · rwa [hmoved]
    · unfold Next.readExact at hend
      split at hend
      · cases hend
      · cases hend

/-- A call of `::read` in a method. -/
theorem Call.Pending.turn_reads {c : Call} {m : Method} (h : c.Pending m)
    (hreads : m.writes = false)
    (ho : o = .error ∨ o = .eof ∧ pipe = [] ∧ writer = false ∨
      ∃ k, o = .moved k ∧ k ≤ m.requested ∧ k ≤ pipe.length ∧ (m.requested ≠ 0 → 1 ≤ k)) :
    Reads c m pipe writer (m.turn pipe o accessDenied) := by
  cases h with
  | write | writeExact => cases hreads
  | read data => exact reads_read accessDenied data ho
  | @readExact data got hmore =>
    have hrequested : (Method.readExact (got ++ data.bytes.drop got.length)
        got.length).requested = data.bytes.length - got.length := by
      rw [Method.requested, List.length_append, Nat.add_sub_cancel_left, List.length_drop]
    rw [hrequested] at ho
    refine reads_readExact accessDenied hmore (ho.imp_right (Or.imp_right ?_))
    rintro ⟨k, rfl, hk, hthere, hpos⟩
    exact ⟨k, rfl, hpos (Nat.sub_ne_zero_of_lt hmore), hk, hthere⟩

end

/-! ## Whole runs -/

namespace Exchange

/-- What the calls that are over have moved, of those that write or of those that read. -/
def finished (writes : Bool) (done : List Done) : Bytes :=
  (done.filter fun d => d.call.writes = writes).flatMap Done.moved

/-- What the methods have moved so far, one call behind the other. -/
def through (writes : Bool) (s : Exchange) : Bytes :=
  finished writes s.done ++
    match s.doing with
    | some (c, m) => if c.writes = writes then m.moved else []
    | none => []

theorem finished_concat (writes : Bool) (done : List Done) (d : Done) :
    finished writes (done ++ [d]) =
      finished writes done ++ if d.call.writes = writes then d.moved else [] := by
  unfold finished
  rw [List.filter_append, List.flatMap_append]
  split
  case isTrue h =>
    simp only [List.filter_cons, h, decide_true, if_true, List.filter_nil, List.flatMap_singleton]
  case isFalse h =>
    simp only [List.filter_cons, h, decide_false, Bool.false_eq_true, if_false, List.filter_nil,
      List.flatMap_nil]

theorem through_goes (writes : Bool) (s : Exchange) {c : Call} {moved : Bytes} {next : Next}
    (h : next.Leads c moved) :
    (s.goes c moved next).through writes =
      finished writes s.done ++ if c.writes = writes then moved else [] := by
  cases h with
  | again hpending hmoved =>
    rw [← hmoved]
    rfl
  | back hkept =>
    unfold through goes
    simp only [finished_concat, List.append_nil]

structure Sound (s : Exchange) : Prop where
  pending : ∀ c m, s.doing = some (c, m) → c.Pending m
  kept : ∀ d ∈ s.done, d.Kept
  sent : s.through true = s.childGot ++ s.toChild
  got : s.through false ++ s.toParent = s.childPut
  ended : (∃ d ∈ s.done, d.tellsEnd = true) → s.childStdout = false ∧ s.toParent = []

theorem sound_init : init.Sound where
  pending _ _ h := by cases h
  kept _ h := absurd h List.not_mem_nil
  sent := rfl
  got := rfl
  ended h := absurd h.choose_spec.1 List.not_mem_nil

theorem tellsEnd_of_writes {c : Call} (h : c.writes = true) {moved : Bytes} {next : Next} :
    next.tellsEnd c moved = false := by
  cases next with
  | again m => rfl
  | back memory ending =>
    cases c with
    | write data => rfl
    | writeExact data => rfl
    | read data => cases h
    | readExact data => cases h

/-- A method that has not called the kernel has not found the end. -/
theorem tellsEnd_begin (c : Call) : c.begin.tellsEnd c [] = false := by
  cases c with
  | write data => rfl
  | read data => rfl
  | writeExact data => exact tellsEnd_of_writes rfl
  | readExact data =>
    rw [Call.begin, Next.readExact]
    split
    · rfl
    · rfl

/-- A method that starts, or goes on behind a call of the kernel. -/
theorem Sound.behind {s s' : Exchange} (h : s.Sound) {c : Call} {moved : Bytes} {next : Next}
    (hleads : next.Leads c moved) (hdone : s'.done = s.done)
    (hstdout : s'.childStdout = s.childStdout)
    (hsent : finished true s.done ++ (if c.writes = true then moved else []) =
      s'.childGot ++ s'.toChild)
    (hgot : finished false s.done ++ (if c.writes = false then moved else []) ++ s'.toParent =
      s'.childPut)
    (hrest : s.toParent = [] → s.childStdout = false → s'.toParent = [])
    (hend : next.tellsEnd c moved = true → s'.toParent = [] ∧ s'.childStdout = false) :
    (s'.goes c moved next).Sound := by
  have hthrough := fun writes => s'.through_goes writes hleads
  rw [hdone] at hthrough
  refine ⟨?_, ?_, ?_, ?_, ?_⟩
  · intro c' m hdoing
    cases hleads with
    | again hpending hmoved =>
      obtain ⟨rfl, rfl⟩ := Prod.mk.inj (Option.some.inj hdoing)
      exact hpending
    | back hkept => cases hdoing
  · intro d hd
    cases hleads with
    | again hpending hmoved => exact h.kept d (hdone ▸ hd)
    | back hkept =>
      obtain hd | hd := List.mem_append.mp hd
      · exact h.kept d (hdone ▸ hd)
      · exact List.mem_singleton.mp hd ▸ hkept
  · rw [hthrough, hsent]
    cases next <;> rfl
  · rw [hthrough]
    cases next <;> exact hgot
  · rintro ⟨d, hd, htells⟩
    have hbefore : d ∈ s.done → s'.childStdout = false ∧ s'.toParent = [] := by
      intro hd
      obtain ⟨hgone, hempty⟩ := h.ended ⟨d, hd, htells⟩
      exact ⟨hstdout.trans hgone, hrest hempty hgone⟩
    cases hleads with
    | again hpending hmoved => exact hbefore (hdone ▸ hd)
    | back hkept =>
      obtain hd | hd := List.mem_append.mp hd
      · exact hbefore (hdone ▸ hd)
      · obtain rfl := List.mem_singleton.mp hd
        exact (hend htells).symm

section

variable {s : Exchange} (h : s.Sound) {c : Call} {m : Method} (hdoing : s.doing = some (c, m))

include h hdoing

theorem Sound.wrote (hwrites : m.writes = true) {next : Next} {passed : Bytes}
    (hleads : next.Leads c (m.moved ++ passed)) :
    (goes { s with toChild := s.toChild ++ passed } c (m.moved ++ passed) next).Sound := by
  have hcall : c.writes = true := (h.pending c m hdoing).writes.trans hwrites
  have hsent := h.sent
  have hgot := h.got
  simp only [through, hdoing, hcall, if_true] at hsent
  simp only [through, hdoing, hcall, Bool.true_eq_false, if_false] at hgot
  refine h.behind hleads rfl rfl ?_ ?_ (fun hempty _ => hempty) fun hend => ?_
  · rw [if_pos hcall, ← List.append_assoc, hsent, List.append_assoc]
  · rw [hcall]
    exact hgot
  · rw [tellsEnd_of_writes hcall] at hend
    cases hend

theorem Sound.read (hreads : m.writes = false) {turned : Next × Bytes × Bytes}
    (hturned : Reads c m s.toParent s.childStdout turned) :
    (goes { s with toParent := turned.2.2 } c (m.moved ++ turned.2.1) turned.1).Sound := by
  have hcall : c.writes = false := (h.pending c m hdoing).writes.trans hreads
  have hsent := h.sent
  have hgot := h.got
  simp only [through, hdoing, hcall, Bool.false_eq_true, if_false] at hsent
  simp only [through, hdoing, hcall, if_true] at hgot
  refine h.behind hturned.leads rfl rfl ?_ ?_ (fun hempty _ => ?_) hturned.ends
  · rw [hcall]
    exact hsent
  · rw [if_pos hcall, ← hgot, ← hturned.pipe]
    simp only [List.append_assoc]
  · exact (List.append_eq_nil_iff.mp (hturned.pipe.trans hempty)).2

/-- What is in the pipes, on the way to the child or from it, belongs to what has been moved. -/
theorem Sound.kernel {kernel : Kernel} {o : Outcome} (hmay : s.May kernel m o)
    (accessDenied : Bool) :
    ((s.withPipe m (m.turn (s.pipe m) o accessDenied).2.2).goes c
      (m.moved ++ (m.turn (s.pipe m) o accessDenied).2.1)
      (m.turn (s.pipe m) o accessDenied).1).Sound := by
  have hpending := h.pending c m hdoing
  cases hwrites : m.writes with
  | true =>
    have ho : o = .error ∨
        ∃ k, o = .moved k ∧ k ≤ m.requested ∧ (m.requested ≠ 0 → 1 ≤ k) := by
      rw [May, if_pos hwrites] at hmay
      obtain rfl | ⟨-, hmay⟩ := hmay
      · exact .inl rfl
      · exact mayWrite_cases (hmay.imp_right And.right)
    obtain ⟨next, passed, hturn, hleads⟩ :=
      hpending.turn_writes hwrites ho (s.pipe m) accessDenied
    rw [hturn, withPipe, if_pos hwrites, pipe, if_pos hwrites]
    exact h.wrote hdoing hwrites hleads
  | false =>
    have hreads : ¬ m.writes = true := by rw [hwrites]; exact Bool.false_ne_true
    have ho : o = .error ∨ o = .eof ∧ s.toParent = [] ∧ s.childStdout = false ∨
        ∃ k, o = .moved k ∧ k ≤ m.requested ∧ k ≤ s.toParent.length ∧
          (m.requested ≠ 0 → 1 ≤ k) := by
      rw [May, if_neg hreads] at hmay
      obtain rfl | ⟨-, hmay⟩ := hmay
      · exact .inl rfl
      · exact mayRead_cases hmay
    rw [pipe, if_neg hreads, withPipe, if_neg hreads]
    exact h.read hdoing hwrites (hpending.turn_reads accessDenied hwrites ho)

end

theorem Sound.step {kernel : Kernel} {s s' : Exchange} {e : Event} (h : s.Sound)
    (hstep : s.step kernel e = some s') : s'.Sound := by
  cases e with
  | call c =>
    simp only [Exchange.step] at hstep
    split at hstep
    case isTrue hidle =>
      obtain rfl := Option.some.inj hstep
      have hdoing : s.doing = none := Option.isNone_iff_eq_none.mp (Bool.and_eq_true_iff.mp hidle).1
      have hsent := h.sent
      have hgot := h.got
      simp only [through, hdoing] at hsent hgot
      refine h.behind c.leads_begin rfl rfl ?_ ?_ (fun hempty _ => hempty) fun hend => ?_
      · rw [ite_self, hsent]
      · rw [ite_self, hgot]
      · rw [tellsEnd_begin] at hend
        cases hend
    case isFalse => cases hstep
  | closeStdin =>
    simp only [Exchange.step] at hstep
    split at hstep
    · obtain rfl := Option.some.inj hstep
      exact ⟨h.pending, h.kept, h.sent, h.got, h.ended⟩
    · cases hstep
  | close =>
    simp only [Exchange.step] at hstep
    split at hstep
    · obtain rfl := Option.some.inj hstep
      exact ⟨h.pending, h.kept, h.sent, h.got, h.ended⟩
    · cases hstep
  | kernel o accessDenied =>
    simp only [Exchange.step] at hstep
    split at hstep
    case h_1 => cases hstep
    case h_2 c m hdoing =>
      split at hstep
      case isTrue hmay =>
        obtain rfl := Option.some.inj hstep
        exact h.kernel hdoing hmay.2 accessDenied
      case isFalse => cases hstep
  | sigpipe =>
    simp only [Exchange.step] at hstep
    split at hstep
    case h_1 => cases hstep
    case h_2 =>
      split at hstep
      · obtain rfl := Option.some.inj hstep
        exact ⟨h.pending, h.kept, h.sent, h.got, h.ended⟩
      · cases hstep
  | childReads bytes =>
    simp only [Exchange.step] at hstep
    split at hstep
    case isTrue hthere =>
      obtain rfl := Option.some.inj hstep
      refine ⟨h.pending, h.kept, ?_, h.got, h.ended⟩
      rw [List.append_assoc, List.take_append_drop]
      exact h.sent
    case isFalse => cases hstep
  | childWrites bytes =>
    simp only [Exchange.step] at hstep
    split at hstep
    case isTrue hroom =>
      obtain rfl := Option.some.inj hstep
      refine ⟨h.pending, h.kept, h.sent, ?_, fun hend => ?_⟩
      · rw [← List.append_assoc]
        exact congrArg (· ++ bytes) h.got
      · -- the end has not been found, for the child has its end
        have hgone := (h.ended hend).1
        rw [hroom.1] at hgone
        cases hgone
    case isFalse => cases hstep
  | childCloses stdin =>
    simp only [Exchange.step] at hstep
    split at hstep
    · obtain rfl := Option.some.inj hstep
      exact ⟨h.pending, h.kept, h.sent, h.got, h.ended⟩
    · obtain rfl := Option.some.inj hstep
      exact ⟨h.pending, h.kept, h.sent, h.got, fun hend => ⟨rfl, (h.ended hend).2⟩⟩

/-- However the calls of the kernel are cut and mixed with what the child does: the child has read,
or has before it, what the calls that write have moved, one behind the other, and the calls that
read what the child has written; each call has done what it says, an exact one that returns all of
it, and whoever is told of the end has had everything. -/
theorem transfers_exact {kernel : Kernel} {es : List Event} {s : Exchange}
    (hrun : steps (Exchange.step kernel) init es = some s) :
    s.through true = s.childGot ++ s.toChild ∧
      s.through false ++ s.toParent = s.childPut ∧
      (∀ d ∈ s.done, d.Kept) ∧
      ((∃ d ∈ s.done, d.tellsEnd = true) →
        s.childStdout = false ∧ s.through false = s.childPut) := by
  have hsound : s.Sound :=
    steps_invariant (fun s e s' hs hstep => hs.step hstep) sound_init hrun
  refine ⟨hsound.sent, hsound.got, hsound.kept, fun hend => ?_⟩
  obtain ⟨hgone, hempty⟩ := hsound.ended hend
  have hgot := hsound.got
  rw [hempty, List.append_nil] at hgot
  exact ⟨hgone, hgot⟩

/-- A pipe of four bytes: five are written in two calls, and of four that are to be read the child
writes three. -/
theorem transfers_exact_short :
    let five : Buffer := ⟨[104, 101, 108, 108, 111], by decide⟩
    let four : Buffer := ⟨[0, 0, 0, 0], by decide⟩
    (∀ d ∈ ([⟨.writeExact five, five.bytes, five.bytes, .done⟩,
        ⟨.readExact four, [72, 69, 76], [72, 69, 76, 0], .threw (.readError "EOF founded")⟩] :
          List Done), d.Kept) := by
  intro five four
  have hrun : steps (Exchange.step ⟨4, 1, by decide, by decide⟩) init
      [.call (.writeExact five), .kernel (.moved 4) false, .childReads 3, .kernel (.moved 1) false,
        .childReads 2, .call (.readExact four), .childWrites [72], .kernel (.moved 1) false,
        .childWrites [69, 76], .childCloses false, .kernel (.moved 2) false, .kernel .eof false] =
      some ⟨true, true, none, [⟨.writeExact five, five.bytes, five.bytes, .done⟩,
        ⟨.readExact four, [72, 69, 76], [72, 69, 76, 0], .threw (.readError "EOF founded")⟩],
        [], [], true, false, five.bytes, [72, 69, 76], false⟩ := by
    decide +kernel
  exact (transfers_exact hrun).2.2.1

end Exchange

end AdvCppTP.Process
