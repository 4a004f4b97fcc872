import Mathlib.Data.List.TakeDrop
import Mathlib.Data.UInt
import Mathlib.Tactic.Ring

/-! The message protocol of `hw-1/Protocol_lib`: a `size_t` length in the machine's own
representation, then the payload, moved by `::read` and `::write` calls that may each
transfer only a part of what they are asked for. -/

namespace AdvCppTP.Protocol

abbrev Bytes := List UInt8

structure StdString where
  bytes : Bytes
  size_lt : bytes.length < 2 ^ 64

/-- How the machine lays a `size_t` out in memory. -/
structure SizeRep where
  bytes : Nat → Bytes
  value : Bytes → Nat
  length_bytes : ∀ n, (bytes n).length = 8
  value_bytes : ∀ n, n < 2 ^ 64 → value (bytes n) = n

def leBytes : Nat → Nat → Bytes
  | 0, _ => []
  | k + 1, n => UInt8.ofNat n :: leBytes k (n / 256)

def leValue : Bytes → Nat
  | [] => 0
  | b :: bs => b.toNat + 256 * leValue bs

theorem length_leBytes (k n : Nat) : (leBytes k n).length = k := by
  induction k generalizing n with
  | zero => rfl
  | succ k ih => rw [leBytes, List.length_cons, ih]

theorem leValue_leBytes (k n : Nat) (h : n < 256 ^ k) : leValue (leBytes k n) = n := by
  induction k generalizing n with
  | zero =>
    rw [pow_zero, Nat.lt_one_iff] at h
    rw [h, leBytes, leValue]
  | succ k ih =>
    have hdiv : n / 256 < 256 ^ k := Nat.div_lt_of_lt_mul (by rwa [pow_succ'] at h)
    rw [leBytes, leValue, ih _ hdiv, UInt8.toNat_ofNat']
    exact Nat.mod_add_div n 256

def SizeRep.littleEndian : SizeRep where
  bytes := leBytes 8
  value := leValue
  length_bytes := length_leBytes 8
  value_bytes n h := leValue_leBytes 8 n h

/-- The result of one `::read` or `::write`; `moved k` transfers `k` bytes, or all that
were asked for when these are fewer. -/
inductive Outcome
  | moved (k : Nat)
  | eof
  | error
  deriving DecidableEq, Repr

/-- The type of the local that takes the result of `::read`. -/
inductive CountType
  | ssize
  | size
  deriving DecidableEq, Repr

def CountType.conv : CountType → Int → Int
  | .ssize, n => n
  | .size, n => n % 2 ^ 64

def sysRead (requested : Nat) (pipe : Bytes) : Outcome → Int × Bytes × Bytes
  | .moved k =>
    let data := pipe.take (min k requested)
    (data.length, data, pipe.drop data.length)
  | .eof => (0, [], pipe)
  | .error => (-1, [], pipe)

def sysWrite (data : Bytes) : Outcome → Int × Bytes
  | .moved k => ((data.take k).length, data.take k)
  | .eof => (0, [])
  | .error => (-1, [])

def overwrite (mem : Bytes) (off : Nat) (data : Bytes) : Bytes :=
  mem.take off ++ data ++ mem.drop (off + data.length)

inductive Filled
  | full (mem pipe : Bytes) (os : List Outcome)
  | failed (mem pipe : Bytes) (os : List Outcome)
  | blocked
  deriving DecidableEq, Repr

/-- The two loops of `Protocol::read`: `T bytes = ::read(fd, mem + was_read, size - was_read)`,
where `size` is the length of `mem`. The first takes the result as `ssize_t`, the second as
`size_t`, to which -1 is not `<= 0`. -/
def fillLoop (T : CountType) (mem : Bytes) (wasRead : Nat) (pipe : Bytes) (os : List Outcome) :
    Filled :=
  if wasRead < mem.length then
    match os with
    | [] => .blocked
    | o :: os =>
      let (ret, data, pipe) := sysRead (mem.length - wasRead) pipe o
      let bytes := T.conv ret
      if bytes ≤ 0 then .failed (overwrite mem wasRead data) pipe os
      else fillLoop T (overwrite mem wasRead data) ((wasRead + bytes.toNat) % 2 ^ 64) pipe os
  else .full mem pipe os

theorem fillLoop_of_full (T : CountType) {mem : Bytes} {wasRead : Nat} (pipe : Bytes)
    (os : List Outcome) (h : mem.length ≤ wasRead) :
    fillLoop T mem wasRead pipe os = .full mem pipe os := by
  cases os <;> rw [fillLoop.eq_def, if_neg (by omega)]

theorem fillLoop_cons (T : CountType) {mem : Bytes} {wasRead : Nat} (pipe : Bytes) (o : Outcome)
    (os : List Outcome) (h : wasRead < mem.length) :
    fillLoop T mem wasRead pipe (o :: os) =
      if T.conv (sysRead (mem.length - wasRead) pipe o).1 ≤ 0 then
        .failed (overwrite mem wasRead (sysRead (mem.length - wasRead) pipe o).2.1)
          (sysRead (mem.length - wasRead) pipe o).2.2 os
      else
        fillLoop T (overwrite mem wasRead (sysRead (mem.length - wasRead) pipe o).2.1)
          ((wasRead + (T.conv (sysRead (mem.length - wasRead) pipe o).1).toNat) % 2 ^ 64)
          (sysRead (mem.length - wasRead) pipe o).2.2 os := by
  rw [fillLoop.eq_def, if_pos h]

structure Done where
  ret : Int
  buffer : Bytes
  pipe : Bytes
  os : List Outcome
  deriving DecidableEq, Repr

def read (rep : SizeRep) (buffer pipe : Bytes) (os : List Outcome) : Option Done :=
  match fillLoop .ssize (List.replicate 8 0) 0 pipe os with
  | .blocked => none
  | .failed _ pipe os => some ⟨-1, buffer, pipe, os⟩
  | .full size pipe os =>
    match fillLoop .size (List.replicate (rep.value size) 0) 0 pipe os with
    | .blocked => none
    | .failed buffer pipe os => some ⟨-1, buffer, pipe, os⟩
    | .full buffer pipe os => some ⟨0, buffer, pipe, os⟩

def writeLoop (buffer : Bytes) (wasWritten : Nat) (pipe : Bytes) (os : List Outcome) :
    Option Done :=
  if wasWritten < buffer.length then
    match os with
    | [] => none
    | o :: os =>
      let (bytes, data) := sysWrite (buffer.drop wasWritten) o
      if bytes ≤ 0 then some ⟨-1, buffer, pipe ++ data, os⟩
      else writeLoop buffer (wasWritten + bytes.toNat) (pipe ++ data) os
  else some ⟨0, buffer, pipe, os⟩

theorem writeLoop_of_done {buffer : Bytes} {wasWritten : Nat} (pipe : Bytes) (os : List Outcome)
    (h : buffer.length ≤ wasWritten) :
    writeLoop buffer wasWritten pipe os = some ⟨0, buffer, pipe, os⟩ := by
  cases os <;> rw [writeLoop.eq_def, if_neg (by omega)]

theorem writeLoop_cons {buffer : Bytes} {wasWritten : Nat} (pipe : Bytes) (o : Outcome)
    (os : List Outcome) (h : wasWritten < buffer.length) :
    writeLoop buffer wasWritten pipe (o :: os) =
      if (sysWrite (buffer.drop wasWritten) o).1 ≤ 0 then
        some ⟨-1, buffer, pipe ++ (sysWrite (buffer.drop wasWritten) o).2, os⟩
      else
        writeLoop buffer (wasWritten + (sysWrite (buffer.drop wasWritten) o).1.toNat)
          (pipe ++ (sysWrite (buffer.drop wasWritten) o).2) os := by
  rw [writeLoop.eq_def, if_pos h]

def write (rep : SizeRep) (data : StdString) (pipe : Bytes) (os : List Outcome) : Option Done :=
  writeLoop (rep.bytes data.bytes.length ++ data.bytes) 0 pipe os

def writeAll (rep : SizeRep) : List StdString → Bytes → List Outcome → Option Bytes
  | [], pipe, _ => some pipe
  | m :: ms, pipe, os =>
    match write rep m pipe os with
    | none => none
    | some d => if d.ret = 0 then writeAll rep ms d.pipe d.os else none

def readAll (rep : SizeRep) :
    Nat → Bytes → Bytes → List Outcome → Option (List (Int × Bytes × Bytes))
  | 0, _, _, _ => some []
  | n + 1, buffer, pipe, os =>
    match read rep buffer pipe os with
    | none => none
    | some d => (readAll rep n d.buffer d.pipe d.os).map ((d.ret, d.buffer, d.pipe) :: ·)

end AdvCppTP.Protocol
