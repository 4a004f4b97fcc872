import AdvCppTP.KVReader.ForwardReader
import AdvCppTP.Lib.Scope

/-! `RandomWriter`: records that are put into a file at any offset. Its `put` asks for a mapping of
the record's place, and that is all it does with it. -/

namespace AdvCppTP.KVReader.MmapIO

open Lib

inductive AccessMode
  | readOnly
  | writeOnly
  | readWrite
  deriving DecidableEq, Repr

abbrev Files := String → Option Bytes

/-- `fd_` by the mode that it was opened with. -/
structure RandomWriter where
  fd : AccessMode
  filepath : String
  filesize : Nat
  deriving DecidableEq, Repr

structure Writing where
  files : Files
  writer : RandomWriter

/-- The constructor, when `::open` answers `opens` about a file that is there. -/
def RandomWriter.construct (opens : Bool) (files : Files) (filepath : String) :
    Except Failure RandomWriter :=
  if opens && (files filepath).isSome then .ok ⟨.writeOnly, filepath, 0⟩
  else .error (.runtimeError "Can't open index file")

/-- A file that ends after `length` bytes; those it did not have are zero. -/
def truncated (content : Bytes) (length : Nat) : Bytes :=
  content.take length ++ List.replicate (length - content.length) 0

/-- Whether the two calls of a `put` succeed. -/
structure PutCalls where
  ftruncate : Bool
  mmap : Bool
  deriving DecidableEq, Repr

def Writing.grow (size : Nat) (s : Writing) : Writing :=
  { s with writer := { s.writer with filesize := s.writer.filesize + size } }

def Writing.truncate (s : Writing) : Writing :=
  { s with
    files := Function.update s.files s.writer.filepath
      ((s.files s.writer.filepath).map fun content => truncated content s.writer.filesize) }

def ftruncate (succeeds : Bool) : Prog Failure Writing Unit :=
  if succeeds then .update Writing.truncate else .throw (.runtimeError "Truncate error: ")

def put (calls : PutCalls) (data : Bytes) (offset : Nat) : Prog Failure Writing Unit :=
  .read fun s =>
    (if offset ≥ s.writer.filesize then
      (Prog.update (Writing.grow data.length)).andThen fun _ => ftruncate calls.ftruncate
    else .pure ()).andThen fun _ =>
    if calls.mmap then .pure () else .throw (.runtimeError "mmap fail in RandomWriter::put()")

/-- `::ftruncate` needs a descriptor that is open for writing. `::mmap` needs one that is open for
reading whatever the mapping is for, and for writing when that is shared and written; and a length
and an offset as for every mapping. -/
def specified (fd : AccessMode) (length offset : Nat) : PutCalls where
  ftruncate := fd ≠ .readOnly
  mmap := fd = .readWrite ∧ 0 < length ∧ pageSize ∣ offset

/-! ## What a `put` does -/

/-- The file and `filesize_` behind the test of the offset, when the file can be truncated. -/
def Writing.room (size offset : Nat) (s : Writing) : Writing :=
  if offset ≥ s.writer.filesize then (s.grow size).truncate else s

theorem put_eq {calls : PutCalls} (h : calls.ftruncate = true) (data : Bytes) (offset : Nat)
    (s : Writing) :
    put calls data offset s =
      if calls.mmap then .returns () (s.room data.length offset)
      else .throws (.runtimeError "mmap fail in RandomWriter::put()")
        (s.room data.length offset) := by
  unfold put Writing.room ftruncate
  rw [Prog.read, h]
  by_cases hroom : offset ≥ s.writer.filesize
  · rw [if_pos hroom, if_pos hroom]
    cases calls.mmap with
    | true => rfl
    | false => rfl
  · rw [if_neg hroom, if_neg hroom]
    cases calls.mmap with
    | true => rfl
    | false => rfl

/-- Nothing of a record gets into the file, only room for as much: records of one size are put
alike, whatever the calls answer. -/
theorem put_ignores_data (calls : PutCalls) {data data' : Bytes} (h : data.length = data'.length)
    (offset : Nat) : put calls data offset = put calls data' offset := by
  unfold put
  rw [h]

/-- Of two different records of one size, put at one place, at most one is in the file then. -/
theorem not_both_stored {calls : PutCalls} {data data' : Bytes} (hlen : data.length = data'.length)
    (hne : data ≠ data') {offset : Nat} {s s' s'' : Writing}
    (hput : put calls data offset s = .returns () s')
    (hput' : put calls data' offset s = .returns () s'') {path : String} {content content' : Bytes}
    (hfile : s'.files path = some content) (hfile' : s''.files path = some content') :
    ¬ ((content.drop offset).take data.length = data ∧
      (content'.drop offset).take data'.length = data') := by
  rintro ⟨hdata, hdata'⟩
  rw [put_ignores_data calls hlen, hput'] at hput
  cases hput
  obtain rfl := Option.some.inj (hfile.symm.trans hfile')
  rw [hlen, hdata'] at hdata
  exact hne hdata.symm

/-! ## A random-access array of records -/

/-- A record and where it is put, a multiple of its size. -/
structure Record where
  data : Bytes
  offset : Nat
  pos : 0 < data.length
  aligned : data.length ∣ offset
  deriving DecidableEq

def Record.Apart (p q : Record) : Prop :=
  p.offset + p.data.length ≤ q.offset ∨ q.offset + q.data.length ≤ p.offset

def Record.slot (p : Record) (content : Bytes) : Bytes :=
  (content.drop p.offset).take p.data.length

/-- `put` with calls that do as they are specified to. -/
def Record.put (p : Record) : Prog Failure Writing Unit :=
  .read fun s => MmapIO.put (specified s.writer.fd p.data.length p.offset) p.data p.offset

def putAll : List Record → Prog Failure Writing Unit
  | [] => .pure ()
  | p :: ps => p.put.andThen fun _ => putAll ps

/-- What a `put` of `p` behind those of `before` does to a file. -/
structure Stored (before : List Record) (p : Record) (content content' : Bytes) (filesize : Nat) :
    Prop where
  long : p.offset + p.data.length ≤ content'.length
  written : p.slot content' = p.data
  others : ∀ q ∈ before, q.Apart p → q.slot content' = q.slot content
  filesize : filesize = content'.length

/-- Each `put` of a new writer returns, and stores its record. -/
def RandomAccess (files : Files) (filepath : String) (records : List Record) : Prop :=
  ∀ before p after, records = before ++ p :: after →
    ∃ w s s' content content', RandomWriter.construct true files filepath = .ok w ∧
      putAll before ⟨files, w⟩ = .returns () s ∧ s.files filepath = some content ∧
      p.put s = .returns () s' ∧ s'.files filepath = some content' ∧
      Stored before p content content' s'.writer.filesize

theorem construct_mode {opens : Bool} {files : Files} {filepath : String} {w : RandomWriter}
    (h : RandomWriter.construct opens files filepath = .ok w) : w.fd = .writeOnly := by
  unfold RandomWriter.construct at h
  split at h
  · cases h
    rfl
  · cases h

/-- A descriptor that is open for writing only cannot be mapped. -/
theorem specified_writeOnly (length offset : Nat) :
    (specified .writeOnly length offset).mmap = false := by
  simp [specified]

theorem put_throws (p : Record) {s : Writing} (h : s.writer.fd = .writeOnly) :
    p.put s = .throws (.runtimeError "mmap fail in RandomWriter::put()")
      (s.room p.data.length p.offset) := by
  have htruncates : (specified s.writer.fd p.data.length p.offset).ftruncate = true := by
    rw [h]
    rfl
  have hrefused : (specified s.writer.fd p.data.length p.offset).mmap = false := by
    rw [h]
    exact specified_writeOnly _ _
  rw [Record.put, Prog.read, put_eq htruncates, hrefused, if_neg Bool.false_ne_true]

/-- The writer opens its file for writing only, so that no `put` returns. -/
theorem random_access_iff (files : Files) (filepath : String) (records : List Record) :
    RandomAccess files filepath records ↔ records = [] := by
  constructor
  · intro h
    cases records with
    | nil => rfl
    | cons p after =>
      -- the first `put` does not return
      obtain ⟨w, s, s', -, -, hnew, hbefore, -, hput, -⟩ := h [] p after rfl
      have hmode := construct_mode hnew
      rw [show s = ⟨files, w⟩ by cases hbefore; rfl] at hput
      rw [put_throws p hmode] at hput
      cases hput
  · rintro rfl before p after hsplit
    exact absurd hsplit (by simp)

theorem record_not_stored :
    ¬ ∀ (files : Files) (filepath : String) (records : List Record),
      (files filepath).isSome → RandomAccess files filepath records := by
  intro h
  obtain ⟨w, s, s', content, content', hnew, hbefore, -, hput, -⟩ :=
    h (fun _ => some []) "index" [⟨[7], 0, by decide, by decide⟩] rfl [] _ [] rfl
  cases hnew
  cases hbefore
  cases hput

end AdvCppTP.KVReader.MmapIO
