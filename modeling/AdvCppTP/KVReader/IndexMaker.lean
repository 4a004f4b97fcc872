import AdvCppTP.KVReader.FileGenerator
import AdvCppTP.KVReader.RandomWriter
import AdvCppTP.KVReader.WindowRequests
import AdvCppTP.Logger.FileLogger
import AdvCppTP.Pipe.Protocol

/-! `IndexMaker::make`: an index file written from a data file, when any of the calls that it makes
to the system may fail. -/

namespace AdvCppTP.KVReader

open Lib MmapIO

namespace MmapIO

/-! ## A reader whose calls may fail -/

/-- `errno` is why `::mmap` fails, if it does so for a reason of its own. -/
def getNewWindowUnless (errno : Option String) (r : ForwardReader) : Except Failure ForwardReader :=
  match errno with
  | some msg => .error (.runtimeError ("get_new_window (Map failed): " ++ msg))
  | none => getNewWindow r

def ensureWindowUnless (errno : Option String) (r : ForwardReader) : Except Failure ForwardReader :=
  if r.windowInfo.offset ≥ r.windowInfo.windowSize then getNewWindowUnless errno r else .ok r

def getUnless (errno : Option String) (size : Nat) (r : ForwardReader) :
    Except Failure (Bytes × ForwardReader) :=
  if size > r.interval then .error (.invalidArgument "sizeof data bigger than interval")
  else do
    let r ← ensureWindowUnless errno r
    let data ← memcpy r size
    .ok (data, advance r)

structure ReaderCalls where
  fileSize : Bool
  opens : Bool
  mmap : Option String
  deriving DecidableEq, Repr

def constructUnless (calls : ReaderCalls) (movedFrom : String → String) (files : Files)
    (filepath : String) (interval : Nat) : Except Failure ForwardReader :=
  let fd := if calls.opens then files filepath else none
  match if calls.fileSize then files (movedFrom filepath) else none with
  | none => .error .noSuchFile
  | some other =>
    match fd with
    | none => .error .notOpened
    | some content =>
      getNewWindowUnless calls.mmap (unmapped content filepath other.length interval)

/-- The pages of a window are those that the file has at the time. -/
def ForwardReader.refreshed (r : ForwardReader) (files : Files) : ForwardReader :=
  { r with content := (files r.filepath).getD r.content }

theorem getUnless_none (size : Nat) (r : ForwardReader) : getUnless none size r = get size r := rfl

theorem constructUnless_none (movedFrom : String → String) (files : Files) (filepath : String)
    (interval : Nat) :
    constructUnless ⟨true, true, none⟩ movedFrom files filepath interval =
      construct movedFrom files filepath interval := rfl

end MmapIO

/-! ## The loop -/

/-- What the calls of one turn answer. -/
structure TurnCalls where
  window : Option String
  put : PutCalls
  deriving DecidableEq, Repr

structure MakeCalls where
  opensIndex : Bool
  reader : ReaderCalls
  turns : List TurnCalls
  deriving DecidableEq, Repr

structure IndexMaker where
  indexfilePath : String
  datafilePath : String
  logPeriod : UInt64
  deriving DecidableEq, Repr

structure World where
  files : Files
  log : List (Logger.Level × String)

/-- The local variables of `make`. -/
structure Locals where
  writer : RandomWriter
  reader : ForwardReader
  done : UInt64
  nextLog : UInt64
  deriving DecidableEq, Repr

/-- The text of what `catch (const std::runtime_error &)` catches. A `filesystem_error` is one too,
but only the constructor of a reader throws it. -/
def MmapIO.Failure.what : Failure → Option String
  | .runtimeError msg => some msg
  | _ => none

namespace IndexMaker

def writeLog (level : Logger.Level) (msg : String) : Prog Failure World Unit :=
  .update fun w => { w with log := w.log ++ [(level, msg)] }

/-- `std::remove` of the index file, successful. -/
def removeIndex (m : IndexMaker) : Prog Failure World Unit :=
  .update fun w => { w with files := Function.update w.files m.indexfilePath none }

def putInto (calls : PutCalls) (data : Bytes) (offset : Nat) (writer : RandomWriter) :
    Prog Failure World RandomWriter :=
  ((put calls data offset).within (fun w => ⟨w.files, writer⟩)
    fun s w => { w with files := s.files }).andThen fun r => .pure r.2.writer

def report (m : IndexMaker) (l : Locals) : Prog Failure World Locals :=
  if l.done ≥ l.nextLog then
    (writeLog .info ("Written " ++ toString l.done.toNat ++ " elements")).andThen fun _ =>
      .pure { l with nextLog := l.nextLog + m.logPeriod }
  else .pure l

/-- What is inside of `try`. -/
def body (rep : Protocol.SizeRep) (m : IndexMaker) (calls : TurnCalls) (l : Locals) :
    Prog Failure World Locals :=
  .read fun w =>
    let offset := getOffset l.reader
    (Prog.ofExcept (getUnless calls.window 8 (l.reader.refreshed w.files))).andThen fun r =>
    let key := UInt64.ofNat (rep.value r.1)
    let data := rep.bytes key.toNat ++ rep.bytes offset
    (putInto calls.put data (FileGenerator.calculateIndexOffset key).toNat l.writer).andThen
      fun writer => report m { l with writer, reader := r.2, done := l.done + 1 }

def turn (rep : Protocol.SizeRep) (m : IndexMaker) (calls : TurnCalls) (l : Locals) :
    Prog Failure World Locals :=
  (body rep m calls l).catching fun failure => failure.what.map fun what =>
    (writeLog .error what).andThen fun _ => (removeIndex m).andThen fun _ => .throw failure

/-- `while (!reader.eof())`; it waits where nothing says how the calls of the turn end. -/
def loop (rep : Protocol.SizeRep) (m : IndexMaker) :
    List TurnCalls → Locals → Prog Failure World Unit
  | [], l => if eof l.reader then .pure () else .wait
  | calls :: turns, l =>
    if eof l.reader then .pure () else (turn rep m calls l).andThen (loop rep m turns)

def make (rep : Protocol.SizeRep) (movedFrom : String → String) (m : IndexMaker)
    (calls : MakeCalls) : Prog Failure World Unit :=
  .read fun w =>
    (Prog.ofExcept (RandomWriter.construct calls.opensIndex w.files m.indexfilePath)).andThen
      fun writer =>
    (Prog.ofExcept (constructUnless calls.reader movedFrom w.files m.datafilePath
      sizeofRecord.toNat)).andThen fun reader =>
    (writeLog .info "Start making index file").andThen fun _ =>
    loop rep m calls.turns ⟨writer, reader, 0, m.logPeriod⟩

/-! ## What may be thrown inside of `try` -/

/-- It is a `runtime_error`, or no exception at all. -/
def Caught (failure : Failure) : Prop := failure.what.isSome ∨ failure = .undefined

theorem getNewWindowUnless_throws {errno : Option String} {r : ForwardReader} {failure : Failure}
    (h : getNewWindowUnless errno r = .error failure) : Caught failure := by
  unfold getNewWindowUnless at h
  split at h
  · cases h
    exact .inl rfl
  · unfold getNewWindow at h
    split at h
    · cases h
    · cases h
      exact .inl rfl

theorem memcpy_throws {r : ForwardReader} {size : Nat} {failure : Failure}
    (h : memcpy r size = .error failure) : failure = .undefined := by
  unfold memcpy at h
  split at h
  · cases h
    rfl
  · split at h
    · rename_i addr _ _
      rcases hmapped : mapped r.content (addr + r.windowInfo.offset) size with _ | data
      · rw [hmapped] at h
        cases h
        rfl
      · rw [hmapped] at h
        cases h
    · cases h
      rfl

theorem getUnless_throws {errno : Option String} {size : Nat} {r : ForwardReader}
    {failure : Failure} (hsize : size ≤ r.interval) (h : getUnless errno size r = .error failure) :
    Caught failure := by
  rw [getUnless, if_neg (Nat.not_lt.mpr hsize)] at h
  rcases Lib.bind_eq_error.mp h with hensure | ⟨r₁, -, hrest⟩
  · unfold ensureWindowUnless at hensure
    split at hensure
    · exact getNewWindowUnless_throws hensure
    · cases hensure
  · rcases Lib.bind_eq_error.mp hrest with hcopy | ⟨data, -, hdata⟩
    · exact .inr (memcpy_throws hcopy)
    · cases hdata

theorem getNewWindowUnless_interval {errno : Option String} {r r' : ForwardReader}
    (h : getNewWindowUnless errno r = .ok r') : r'.interval = r.interval := by
  unfold getNewWindowUnless getNewWindow at h
  split at h
  · cases h
  · split at h
    · cases h
      rfl
    · cases h

theorem ensureWindowUnless_interval {errno : Option String} {r r' : ForwardReader}
    (h : ensureWindowUnless errno r = .ok r') : r'.interval = r.interval := by
  unfold ensureWindowUnless at h
  split at h
  · exact getNewWindowUnless_interval h
  · cases h
    rfl

theorem getUnless_interval {errno : Option String} {size : Nat} {r : ForwardReader}
    {result : Bytes × ForwardReader} (h : getUnless errno size r = .ok result) :
    result.2.interval = r.interval := by
  rw [getUnless] at h
  split at h
  · cases h
  · obtain ⟨r₁, hensure, hrest⟩ := Lib.bind_eq_ok.mp h
    obtain ⟨data, -, hdata⟩ := Lib.bind_eq_ok.mp hrest
    have hsame := ensureWindowUnless_interval hensure
    cases hdata
    exact hsame

theorem put_meets (calls : PutCalls) (data : Bytes) (offset : Nat) (s : Writing) :
    (put calls data offset s).Meets (fun _ _ => True) fun failure _ => Caught failure := by
  unfold put ftruncate
  rw [Prog.read]
  apply Prog.meets_andThen (P := fun _ _ => True)
  · split
    · apply Prog.meets_andThen (P := fun _ _ => True)
      · trivial
      · intro _ s₁ _
        split
        · trivial
        · exact .inl rfl
    · trivial
  · intro _ s₁ _
    split
    · trivial
    · exact .inl rfl

/-- A key fits in the interval of the reader, so that the one `logic_error` is not thrown. -/
theorem body_meets (rep : Protocol.SizeRep) (m : IndexMaker) (calls : TurnCalls) {l : Locals}
    (hkey : 8 ≤ l.reader.interval) (w : World) :
    (body rep m calls l w).Meets (fun l' _ => l'.reader.interval = l.reader.interval)
      fun failure _ => Caught failure := by
  unfold body putInto report
  rw [Prog.read]
  apply Prog.meets_andThen (P := fun r _ => r.2.interval = l.reader.interval)
  · apply Prog.meets_ofExcept
    · exact fun _ hget => getUnless_interval (r := l.reader.refreshed w.files) hget
    · exact fun _ hget => getUnless_throws (r := l.reader.refreshed w.files) hkey hget
  · -- behind `get`, which may map a window, `put` may throw and the log does not
    intro r w₁ hr
    apply Prog.meets_andThen (P := fun _ _ => True)
    · apply Prog.meets_andThen (P := fun _ _ => True)
      · exact Prog.meets_within (put_meets calls.put _ _ _)
      · exact fun _ _ _ => trivial
    · intro writer w₂ _
      split
      · exact hr
      · exact hr

/-! ## What is left of the index -/

theorem turn_meets (rep : Protocol.SizeRep) (m : IndexMaker) (calls : TurnCalls) {l : Locals}
    (hkey : 8 ≤ l.reader.interval) (w : World) :
    (turn rep m calls l w).Meets (fun l' _ => l'.reader.interval = l.reader.interval)
      fun failure w' => failure = .undefined ∨ w'.files m.indexfilePath = none := by
  unfold turn
  apply Prog.meets_catching (body_meets rep m calls hkey w)
  · -- what the handler does not take is no exception
    intro failure w₁ hcaught hpass
    rw [Option.map_eq_none_iff] at hpass
    refine .inl (hcaught.resolve_left ?_)
    rw [hpass]
    exact Bool.false_ne_true
  · intro failure w₁ handler _ hhandler
    obtain ⟨what, -, rfl⟩ := Option.map_eq_some_iff.mp hhandler
    exact .inr (Function.update_self _ _ _)

theorem loop_meets (rep : Protocol.SizeRep) (m : IndexMaker) (turns : List TurnCalls) {l : Locals}
    (hkey : 8 ≤ l.reader.interval) (w : World) :
    (loop rep m turns l w).Meets (fun _ _ => True)
      fun failure w' => failure = .undefined ∨ w'.files m.indexfilePath = none := by
  induction turns generalizing l w with
  | nil =>
    unfold loop
    split
    · trivial
    · trivial
  | cons calls turns ih =>
    unfold loop
    split
    · trivial
    · apply Prog.meets_andThen (turn_meets rep m calls hkey w)
      intro l' w₁ hinterval
      exact ih (hkey.trans_eq hinterval.symm) w₁

theorem constructUnless_interval {calls : ReaderCalls} {movedFrom : String → String} {files : Files}
    {filepath : String} {interval : Nat} {r : ForwardReader}
    (h : constructUnless calls movedFrom files filepath interval = .ok r) :
    r.interval = interval := by
  unfold constructUnless at h
  simp only at h
  split at h
  · cases h
  · split at h
    · cases h
    · exact getNewWindowUnless_interval h

/-- An index that `make` has begun to write is gone when it throws; before that it is as it was. -/
theorem make_throws_index (rep : Protocol.SizeRep) (movedFrom : String → String) (m : IndexMaker)
    (calls : MakeCalls) {w w' : World} {failure : Failure} (hexception : failure ≠ .undefined)
    (h : make rep movedFrom m calls w = .throws failure w') :
    w'.files m.indexfilePath = none ∨ w'.files m.indexfilePath = w.files m.indexfilePath := by
  have hmake : (make rep movedFrom m calls w).Meets (fun _ _ => True) fun failure w' =>
      failure = .undefined ∨ w'.files m.indexfilePath = none ∨
        w'.files m.indexfilePath = w.files m.indexfilePath := by
    unfold make
    rw [Prog.read]
    -- the constructors leave the files as they are; behind them all is under the handler
    apply Prog.meets_andThen (P := fun _ w₁ => w₁ = w)
    · apply Prog.meets_ofExcept
      · exact fun _ _ => rfl
      · exact fun _ _ => .inr (.inr rfl)
    rintro writer w₁ rfl
    apply Prog.meets_andThen (P := fun reader _ => reader.interval = sizeofRecord.toNat)
    · apply Prog.meets_ofExcept
      · exact fun _ hnew => constructUnless_interval hnew
      · exact fun _ _ => .inr (.inr rfl)
    intro reader w₂ hinterval
    apply Prog.meets_andThen (P := fun _ _ => True)
    · trivial
    intro _ w₃ _
    have hkey : 8 ≤ reader.interval := by
      rw [hinterval]
      decide
    exact (loop_meets rep m calls.turns (l := ⟨writer, reader, 0, m.logPeriod⟩) hkey w₃).mono
      (fun _ _ h => h) fun _ _ h => h.imp_right .inl
  rw [h] at hmake
  exact hmake.resolve_left hexception

/-- The mapping of the first record of the index fails. -/
theorem make_throws_index_unmapped :
    let files : Files := fun path =>
      if path = "data" then some (1 :: List.replicate 31 0) else some [9]
    ∃ w', make .littleEndian (fun path => path) ⟨"index", "data", 100000⟩
        ⟨true, ⟨true, true, none⟩, [⟨none, ⟨true, false⟩⟩]⟩ ⟨files, []⟩ =
          .throws (.runtimeError "mmap fail in RandomWriter::put()") w' ∧
      (w'.files "index" = none ∨ w'.files "index" = some [9]) := by
  intro files
  have hthrows := Outcome.eq_throws (o := make .littleEndian (fun path => path)
    ⟨"index", "data", 100000⟩ ⟨true, ⟨true, true, none⟩, [⟨none, ⟨true, false⟩⟩]⟩ ⟨files, []⟩)
    (x := .runtimeError "mmap fail in RandomWriter::put()") (by decide +kernel)
  exact ⟨_, hthrows, make_throws_index _ _ _ _ (by decide) hthrows⟩

/-! ## With a descriptor that cannot be mapped -/

theorem put_refused {calls : PutCalls} (h : calls.mmap = false) (data : Bytes) (offset : Nat)
    (s : Writing) : (put calls data offset s).Meets (fun _ _ => False) fun _ _ => True := by
  unfold put
  rw [Prog.read]
  apply Prog.meets_andThen (Outcome.meets_true _)
  intro _ s₁ _
  rw [h, if_neg Bool.false_ne_true]
  trivial

theorem turn_refused (rep : Protocol.SizeRep) (m : IndexMaker) {calls : TurnCalls}
    (h : calls.put.mmap = false) (l : Locals) (w : World) :
    (turn rep m calls l w).Meets (fun _ _ => False) fun _ _ => True := by
  have hbody : (body rep m calls l w).Meets (fun _ _ => False) fun _ _ => True := by
    unfold body putInto
    rw [Prog.read]
    apply Prog.meets_andThen (Outcome.meets_true _)
    intro r w₁ _
    apply Prog.meets_andThen (P := fun _ _ => False)
    · apply Prog.meets_andThen (P := fun _ _ => False)
      · exact Prog.meets_within (put_refused h _ _ _)
      · exact fun _ _ hnever => hnever.elim
    · exact fun _ _ hnever => hnever.elim
  unfold turn
  apply Prog.meets_catching hbody
  · exact fun _ _ _ _ => trivial
  · intro failure w₁ handler _ hhandler
    obtain ⟨what, -, rfl⟩ := Option.map_eq_some_iff.mp hhandler
    trivial

/-- A reader that has been constructed has a record in front of it. -/
theorem constructUnless_not_eof {calls : ReaderCalls} {movedFrom : String → String} {files : Files}
    {filepath : String} {interval : Nat} {r : ForwardReader}
    (h : constructUnless calls movedFrom files filepath interval = .ok r) : eof r = false := by
  unfold constructUnless getNewWindowUnless at h
  simp only at h
  split at h
  · cases h
  split at h
  · cases h
  split at h
  · cases h
  obtain ⟨hvalid, hleft, hsame⟩ := getNewWindow_ok (Nat.zero_le _) h
  have hinside := hvalid.inFile
  have hoffset := hvalid.offset
  apply decide_eq_false
  omega

/-- As long as `::mmap` refuses the descriptor of the writer, as it is specified to, `make` does not
return, whatever the data file is. -/
theorem make_refused (rep : Protocol.SizeRep) (movedFrom : String → String) (m : IndexMaker)
    {calls : MakeCalls} (h : ∀ turn ∈ calls.turns, turn.put.mmap = false) (w w' : World) :
    make rep movedFrom m calls w ≠ .returns () w' := by
  have hmake : (make rep movedFrom m calls w).Meets (fun _ _ => False) fun _ _ => True := by
    unfold make
    rw [Prog.read]
    apply Prog.meets_andThen (Outcome.meets_true _)
    intro writer w₁ _
    apply Prog.meets_andThen (P := fun reader _ => eof reader = false)
    · exact Prog.meets_ofExcept (fun _ hnew => constructUnless_not_eof hnew) fun _ _ => trivial
    intro reader w₂ hmore
    apply Prog.meets_andThen (Outcome.meets_true _)
    intro _ w₃ _
    have hnot : ¬ eof reader = true := by
      rw [hmore]
      exact Bool.false_ne_true
    cases hturns : calls.turns with
    | nil =>
      rw [loop, if_neg hnot]
      trivial
    | cons t turns =>
      rw [loop, if_neg hnot]
      apply Prog.meets_andThen (turn_refused rep m (h t (hturns ▸ List.mem_cons_self)) _ w₃)
      exact fun _ _ hnever => hnever.elim
  intro hreturns
  rw [hreturns] at hmake
  exact hmake

end IndexMaker

end AdvCppTP.KVReader
