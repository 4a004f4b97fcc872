import AdvCppTP.Lib.Runs
import Mathlib.Logic.Function.Basic

/-! `FileLogger` of `hw-6/Logger_lib`: objects with a file stream and a pointer to a stream each,
their construction, moves and destruction in any order, and which files get their messages. -/

namespace AdvCppTP.Logger

open Lib

/-- `t_level` -/
inductive Level
  | error
  | warning
  | info
  | debug
  deriving DecidableEq, Repr

def Level.toNat : Level → Nat
  | .error => 0
  | .warning => 1
  | .info => 2
  | .debug => 3

/-- `g_level_invert` -/
def Level.invert : Level → String
  | .debug => "DEBUG"
  | .info => "INFO"
  | .warning => "WARN"
  | .error => "ERROR"

/-- A message with what `std::ctime` and `std::this_thread::get_id` give for it; there is no time
where `std::time` fails. -/
structure Message where
  msg : String
  time : Option String
  threadId : String
  deriving DecidableEq, Repr

def Message.note (message : Message) (level : Level) : String :=
  let time := match message.time with
    | some time => "(" ++ String.ofList time.toList.dropLast ++ ")"
    | none => ""
  level.invert ++ time ++ ": << " ++ message.msg ++ " >> [thread id: " ++ message.threadId ++ "]"

/-- `stream` is the object whose `outfile_` the pointer refers to, `outfile` the file that is open
there, if one is. -/
structure FileLogger where
  level : Level
  stream : Option Nat
  outfile : Option Nat
  deriving DecidableEq, Repr

/-- The live objects, by where they are, and what has been written to each file opened so far. -/
structure Process where
  objects : Nat → Option FileLogger
  files : List (List String)

def Process.init : Process := ⟨fun _ => none, []⟩

/-- What the language does not define: to use an object that is not there, or to build one where
another is, and to write through a pointer that refers to no stream. -/
inductive Undefined
  | object
  | stream
  deriving DecidableEq, Repr

def Process.put (p : Process) (obj : Nat) (o : Option FileLogger) : Process :=
  { p with objects := Function.update p.objects obj o }

/-- `FileLogger(path, level)`, where the file may be one that cannot be opened. -/
def Process.construct (p : Process) (obj : Nat) (level : Level) (opened : Bool) :
    Except Undefined Process :=
  match p.objects obj with
  | some _ => .error .object
  | none =>
    if opened then
      .ok { p.put obj (some ⟨level, some obj, some p.files.length⟩) with files := p.files ++ [[]] }
    else .ok (p.put obj (some ⟨level, some obj, none⟩))

/-- What `o` is after it has been moved from. -/
def FileLogger.moved (o : FileLogger) : FileLogger := ⟨o.level, none, none⟩

/-- `FileLogger(std::move(other))` -/
def Process.moveConstruct (p : Process) (obj other : Nat) : Except Undefined Process :=
  match p.objects obj, p.objects other with
  | none, some o => .ok ((p.put obj (some o)).put other (some o.moved))
  | _, _ => .error .object

/-- `operator=(std::move(other))`, which leaves nothing where `other` is `*this`. -/
def Process.moveAssign (p : Process) (obj other : Nat) : Except Undefined Process :=
  match p.objects obj, p.objects other with
  | some _, some o => .ok ((p.put obj (some o)).put other (some o.moved))
  | _, _ => .error .object

def Process.destroy (p : Process) (obj : Nat) : Except Undefined Process :=
  match p.objects obj with
  | some _ => .ok (p.put obj none)
  | none => .error .object

def Process.setLevel (p : Process) (obj : Nat) (level : Level) : Except Undefined Process :=
  match p.objects obj with
  | some o => .ok (p.put obj (some { o with level }))
  | none => .error .object

def Process.append (p : Process) (file : Nat) (note : String) : Process :=
  { p with files := p.files.modify file (· ++ [note]) }

/-- `*stream_ << note`, which a stream without a file ignores. -/
def Process.write (p : Process) (stream : Option Nat) (note : String) : Except Undefined Process :=
  match stream.bind p.objects with
  | none => .error .stream
  | some owner =>
    match owner.outfile with
    | none => .ok p
    | some file => .ok (p.append file note)

def FileLogger.passes (o : FileLogger) (level : Level) : Bool := level.toNat ≤ o.level.toNat

def Process.log (level : Level) (p : Process) (obj : Nat) (message : Message) :
    Except Undefined Process :=
  match p.objects obj with
  | none => .error .object
  | some o => if o.passes level then p.write o.stream (message.note level) else .ok p

def Process.debug : Process → Nat → Message → Except Undefined Process := log .debug

def Process.info : Process → Nat → Message → Except Undefined Process := log .info

def Process.warn : Process → Nat → Message → Except Undefined Process := log .warning

def Process.error : Process → Nat → Message → Except Undefined Process := log .error

inductive Op
  | construct (obj : Nat) (level : Level) (opened : Bool)
  | moveConstruct (obj other : Nat)
  | moveAssign (obj other : Nat)
  | destroy (obj : Nat)
  | setLevel (obj : Nat) (level : Level)
  | log (level : Level) (obj : Nat) (message : Message)
  deriving DecidableEq, Repr

def Process.exec (p : Process) : Op → Except Undefined Process
  | .construct obj level opened => p.construct obj level opened
  | .moveConstruct obj other => p.moveConstruct obj other
  | .moveAssign obj other => p.moveAssign obj other
  | .destroy obj => p.destroy obj
  | .setLevel obj level => p.setLevel obj level
  | .log .debug obj message => p.debug obj message
  | .log .info obj message => p.info obj message
  | .log .warning obj message => p.warn obj message
  | .log .error obj message => p.error obj message

/-! ## Where a file comes from -/

/-- Whether an object has been moved from since it last got something, and at which object the file
that it has now was opened. -/
structure Past where
  movedFrom : Bool
  openedAt : Option Nat
  deriving DecidableEq, Repr

def Op.past (past : Nat → Past) : Op → Nat → Past
  | .construct obj _ opened => Function.update past obj ⟨false, if opened then some obj else none⟩
  | .moveConstruct obj other | .moveAssign obj other =>
    Function.update (Function.update past obj ⟨false, (past other).openedAt⟩) other ⟨true, none⟩
  | .destroy obj => Function.update past obj ⟨false, none⟩
  | .setLevel _ _ | .log _ _ _ => past

structure History where
  process : Process
  past : Nat → Past

def History.init : History := ⟨.init, fun _ => ⟨false, none⟩⟩

def History.step (h : History) (op : Op) : Except Undefined History :=
  (h.process.exec op).map fun process => ⟨process, op.past h.past⟩

/-- An object, and what it has to write. -/
structure Speaker where
  obj : Nat
  logger : FileLogger
  note : String
  deriving DecidableEq, Repr

/-- Of a message that passes the filter of an object which has not been moved from. -/
def History.speaker (h : History) : Op → Option Speaker
  | .log level obj message =>
    match h.process.objects obj with
    | some o =>
      if (h.past obj).movedFrom = false ∧ o.passes level then some ⟨obj, o, message.note level⟩
      else none
    | none => none
  | _ => none

def History.AppendsToOwn (h : History) (op : Op) : Prop :=
  ∀ s ∈ h.speaker op, ∃ file, s.logger.outfile = some file ∧
    h.process.exec op = .ok (h.process.append file s.note)

def History.LogsWhereOpened (h : History) (op : Op) : Prop :=
  ∀ s ∈ h.speaker op, (h.past s.obj).openedAt = some s.obj

def Speaker.entry (s : Speaker) : Option (Nat × String) :=
  s.logger.outfile.map fun file => (file, s.note)

/-- The messages of a run in the order of the calls, each with the file of its object. -/
def History.entries : History → List Op → List (Nat × String)
  | _, [] => []
  | h, op :: ops =>
    match h.step op with
    | .error _ => []
    | .ok h' => ((h.speaker op).bind Speaker.entry).toList ++ h'.entries ops

def Process.contents (p : Process) (file : Nat) : List String := p.files.getD file []

/-! ## What an operation does -/

theorem Process.construct_eq_ok {p p' : Process} {obj : Nat} {level : Level} {opened : Bool}
    (h : p.construct obj level opened = .ok p') :
    p' = if opened then
        { p.put obj (some ⟨level, some obj, some p.files.length⟩) with files := p.files ++ [[]] }
      else p.put obj (some ⟨level, some obj, none⟩) := by
  rw [construct] at h
  split at h
  · cases h
  · split at h
    · rw [if_pos ‹_›]
      exact (Except.ok.inj h).symm
    · rw [if_neg ‹_›]
      exact (Except.ok.inj h).symm

theorem Process.moveConstruct_eq_ok {p p' : Process} {obj other : Nat}
    (h : p.moveConstruct obj other = .ok p') :
    ∃ o, p.objects other = some o ∧ p' = (p.put obj (some o)).put other (some o.moved) := by
  rw [moveConstruct] at h
  split at h
  · exact ⟨_, ‹_›, (Except.ok.inj h).symm⟩
  · cases h

theorem Process.moveAssign_eq_ok {p p' : Process} {obj other : Nat}
    (h : p.moveAssign obj other = .ok p') :
    ∃ o, p.objects other = some o ∧ p' = (p.put obj (some o)).put other (some o.moved) := by
  rw [moveAssign] at h
  split at h
  · exact ⟨_, ‹_›, (Except.ok.inj h).symm⟩
  · cases h

theorem Process.destroy_eq_ok {p p' : Process} {obj : Nat} (h : p.destroy obj = .ok p') :
    p' = p.put obj none := by
  rw [destroy] at h
  split at h
  · exact (Except.ok.inj h).symm
  · cases h

theorem Process.setLevel_eq_ok {p p' : Process} {obj : Nat} {level : Level}
    (h : p.setLevel obj level = .ok p') :
    ∃ o, p.objects obj = some o ∧ p' = p.put obj (some { o with level }) := by
  rw [setLevel] at h
  split at h
  · exact ⟨_, ‹_›, (Except.ok.inj h).symm⟩
  · cases h

theorem Process.exec_log (p : Process) (level : Level) (obj : Nat) (message : Message) :
    p.exec (.log level obj message) = p.log level obj message := by
  cases level <;> rfl

/-- What a stream gets is all that a message changes. -/
theorem Process.write_eq_ok {p p' : Process} {stream : Option Nat} {note : String}
    (h : p.write stream note = .ok p') : p' = p ∨ ∃ file, p' = p.append file note := by
  rw [write] at h
  split at h
  · cases h
  · split at h
    · exact .inl (Except.ok.inj h).symm
    · exact .inr ⟨_, (Except.ok.inj h).symm⟩

theorem History.step_eq_ok {h h' : History} {op : Op} (hstep : h.step op = .ok h') :
    ∃ p, h.process.exec op = .ok p ∧ h' = ⟨p, op.past h.past⟩ := by
  rw [History.step] at hstep
  rcases hexec : h.process.exec op with x | p
  · rw [hexec] at hstep
    cases hstep
  · rw [hexec] at hstep
    exact ⟨p, rfl, (Except.ok.inj hstep).symm⟩

/-! ## What an object has -/

def Process.outfile (p : Process) (obj : Nat) : Option Nat :=
  (p.objects obj).bind FileLogger.outfile

/-- An object that has a file has the pointer that came with it. -/
structure Matches (o : Option FileLogger) (past : Past) : Prop where
  opened : ∀ file, o.bind FileLogger.outfile = some file →
    ∃ place, o.bind FileLogger.stream = some place ∧ past.openedAt = some place
  closed : o.bind FileLogger.outfile = none → past.openedAt = none
  moved : past.movedFrom = true → o.bind FileLogger.stream = none

structure History.Linked (h : History) : Prop where
  objects : ∀ obj, Matches (h.process.objects obj) (h.past obj)
  known : ∀ obj file, h.process.outfile obj = some file → file < h.process.files.length
  unique : ∀ a b file, h.process.outfile a = some file → h.process.outfile b = some file → a = b

theorem matches_none : Matches none ⟨false, none⟩ where
  opened _ h := by cases h
  closed _ := rfl
  moved h := by cases h

theorem matches_moved (o : FileLogger) : Matches (some o.moved) ⟨true, none⟩ where
  opened _ h := by cases h
  closed _ := rfl
  moved _ := rfl

theorem matches_construct (obj : Nat) (level : Level) (file : Nat) :
    Matches (some ⟨level, some obj, some file⟩) ⟨false, some obj⟩ where
  opened _ _ := ⟨obj, rfl, rfl⟩
  closed h := by cases h
  moved h := by cases h

theorem matches_closed (obj : Nat) (level : Level) :
    Matches (some ⟨level, some obj, none⟩) ⟨false, none⟩ where
  opened _ h := by cases h
  closed _ := rfl
  moved h := by cases h

theorem Matches.taken {o : Option FileLogger} {past : Past} (h : Matches o past) :
    Matches o ⟨false, past.openedAt⟩ where
  opened := h.opened
  closed := h.closed
  moved hmoved := by cases hmoved

theorem Matches.setLevel {o : FileLogger} {past : Past} (h : Matches (some o) past)
    (level : Level) : Matches (some { o with level }) past :=
  ⟨h.opened, h.closed, h.moved⟩

theorem linked_init : History.init.Linked where
  objects _ := matches_none
  known _ _ h := by cases h
  unique _ _ _ h := by cases h

theorem matches_update {objects : Nat → Option FileLogger} {past : Nat → Past}
    (h : ∀ a, Matches (objects a) (past a)) {obj : Nat} {o : Option FileLogger} {w : Past}
    (ho : Matches o w) (a : Nat) :
    Matches (Function.update objects obj o a) (Function.update past obj w a) := by
  rw [Function.update_apply, Function.update_apply]
  split
  · exact ho
  · exact h a

theorem Process.outfile_put (p : Process) (obj : Nat) (o : Option FileLogger) (a : Nat) :
    (p.put obj o).outfile a = if a = obj then o.bind FileLogger.outfile else p.outfile a := by
  show (Function.update p.objects obj o a).bind FileLogger.outfile = _
  rw [Function.update_apply]
  split <;> rfl

/-- Whoever has a file after a move had it before, or has got it from `other`. -/
theorem Process.outfile_move {p : Process} {obj other : Nat} {o : FileLogger}
    (ho : p.objects other = some o) {a file : Nat}
    (h : ((p.put obj (some o)).put other (some o.moved)).outfile a = some file) :
    a ≠ other ∧ p.outfile (if a = obj then other else a) = some file := by
  rw [outfile_put, outfile_put] at h
  split at h
  · cases h
  · refine ⟨‹_›, ?_⟩
    split at h
    · rw [if_pos ‹_›, outfile, ho]
      exact h
    · rw [if_neg ‹_›]
      exact h

theorem History.Linked.move {h : History} (hlinked : h.Linked) {obj other : Nat} {o : FileLogger}
    (ho : h.process.objects other = some o) :
    History.Linked ⟨(h.process.put obj (some o)).put other (some o.moved),
      Function.update (Function.update h.past obj ⟨false, (h.past other).openedAt⟩) other
        ⟨true, none⟩⟩ where
  objects := matches_update
    (matches_update hlinked.objects (ho ▸ (hlinked.objects other).taken)) (matches_moved o)
  known a file hfile := hlinked.known _ file (Process.outfile_move ho hfile).2
  unique a b file ha hb := by
    obtain ⟨hane, ha⟩ := Process.outfile_move ho ha
    obtain ⟨hbne, hb⟩ := Process.outfile_move ho hb
    have hsame := hlinked.unique _ _ file ha hb
    split at hsame <;> split at hsame
    · rw [‹a = obj›, ‹b = obj›]
    · exact absurd hsame.symm hbne
    · exact absurd hsame hane
    · exact hsame

/-- An object that has no file is put where there may have been one. -/
theorem History.Linked.put {h : History} (hlinked : h.Linked) {obj : Nat} {o : Option FileLogger}
    {w : Past} (ho : Matches o w) (hfile : ∀ file, o.bind FileLogger.outfile = some file →
      h.process.outfile obj = some file) :
    History.Linked ⟨h.process.put obj o, Function.update h.past obj w⟩ := by
  have hold : ∀ a file, (h.process.put obj o).outfile a = some file →
      h.process.outfile a = some file := by
    intro a file ha
    rw [Process.outfile_put] at ha
    split at ha
    case isTrue heq => exact heq ▸ hfile file ha
    case isFalse => exact ha
  exact ⟨matches_update hlinked.objects ho, fun a file ha => hlinked.known a file (hold a file ha),
    fun a b file ha hb => hlinked.unique a b file (hold a file ha) (hold b file hb)⟩

theorem History.Linked.construct {h : History} (hlinked : h.Linked) (obj : Nat) (level : Level) :
    History.Linked ⟨{ h.process.put obj (some ⟨level, some obj, some h.process.files.length⟩) with
      files := h.process.files ++ [[]] }, Function.update h.past obj ⟨false, some obj⟩⟩ := by
  have hput := Process.outfile_put h.process obj
    (some ⟨level, some obj, some h.process.files.length⟩)
  have hlength : (h.process.files ++ [[]]).length = h.process.files.length + 1 :=
    List.length_append
  refine ⟨matches_update hlinked.objects (matches_construct obj level _), ?_, ?_⟩
  · intro a file ha
    have hfile := (hput a).symm.trans ha
    show file < (h.process.files ++ [[]]).length
    split at hfile
    · cases hfile
      omega
    · have hknown := hlinked.known a file hfile
      omega
  · intro a b file ha hb
    have hfilea := (hput a).symm.trans ha
    have hfileb := (hput b).symm.trans hb
    split at hfilea <;> split at hfileb
    · rw [‹a = obj›, ‹b = obj›]
    · cases hfilea
      exact absurd (hlinked.known b _ hfileb) (Nat.lt_irrefl _)
    · cases hfileb
      exact absurd (hlinked.known a _ hfilea) (Nat.lt_irrefl _)
    · exact hlinked.unique a b file hfilea hfileb

theorem History.Linked.append {h : History} (hlinked : h.Linked) (file : Nat) (note : String) :
    History.Linked ⟨h.process.append file note, h.past⟩ where
  objects := hlinked.objects
  known a file' ha := by
    show file' < (h.process.files.modify file (· ++ [note])).length
    rw [List.length_modify]
    exact hlinked.known a file' ha
  unique := hlinked.unique

theorem History.Linked.step {h h' : History} (hlinked : h.Linked) {op : Op}
    (hstep : h.step op = .ok h') : h'.Linked := by
  obtain ⟨p, hexec, rfl⟩ := History.step_eq_ok hstep
  cases op with
  | construct obj level opened =>
    obtain rfl := Process.construct_eq_ok hexec
    cases opened with
    | true => exact hlinked.construct obj level
    | false => exact hlinked.put (matches_closed obj level) fun file hfile => by cases hfile
  | moveConstruct obj other =>
    obtain ⟨o, ho, rfl⟩ := Process.moveConstruct_eq_ok hexec
    exact hlinked.move ho
  | moveAssign obj other =>
    obtain ⟨o, ho, rfl⟩ := Process.moveAssign_eq_ok hexec
    exact hlinked.move ho
  | destroy obj =>
    obtain rfl := Process.destroy_eq_ok hexec
    exact hlinked.put matches_none fun file hfile => by cases hfile
  | setLevel obj level =>
    obtain ⟨o, ho, rfl⟩ := Process.setLevel_eq_ok hexec
    have hmatches : Matches (some o) (h.past obj) := ho ▸ hlinked.objects obj
    have hput := hlinked.put (hmatches.setLevel level) fun file hfile => by
      rw [Process.outfile, ho]
      exact hfile
    rw [Function.update_eq_self] at hput
    exact hput
  | log level obj message =>
    rw [Process.exec_log, Process.log] at hexec
    split at hexec
    · cases hexec
    · split at hexec
      · obtain rfl | ⟨file, rfl⟩ := Process.write_eq_ok hexec
        · exact hlinked
        · exact hlinked.append file _
      · obtain rfl := Except.ok.inj hexec
        exact hlinked

/-! ## What is written where -/

theorem Process.contents_append (p : Process) {file : Nat} (hfile : file < p.files.length)
    (note : String) (file' : Nat) :
    (p.append file note).contents file' =
      p.contents file' ++ if file = file' then [note] else [] := by
  show (p.files.modify file (· ++ [note])).getD file' [] = p.files.getD file' [] ++ _
  rw [List.getD_eq_getElem?_getD, List.getD_eq_getElem?_getD, List.getElem?_modify]
  split
  case isTrue heq =>
    rw [← heq, List.getElem?_eq_getElem hfile]
    rfl
  case isFalse => rw [List.append_nil, id_map']

theorem Process.append_inj {p : Process} {file file' : Nat} {note : String}
    (hfile : file < p.files.length) (hfile' : file' < p.files.length)
    (h : p.append file' note = p.append file note) : file' = file := by
  by_contra hne
  have hcontents := p.contents_append hfile note file
  rw [← h, p.contents_append hfile', if_neg hne, if_pos rfl] at hcontents
  exact absurd (List.append_cancel_left hcontents) (List.cons_ne_nil _ _).symm

theorem Process.append_ne {p : Process} {file : Nat} {note : String}
    (hfile : file < p.files.length) : p.append file note ≠ p := by
  intro h
  have hcontents := p.contents_append hfile note file
  rw [h, if_pos rfl] at hcontents
  exact absurd (List.self_eq_append_right.mp hcontents) (List.cons_ne_nil _ _)

theorem History.speaker_eq_some {h : History} {op : Op} {s : Speaker} (hs : h.speaker op = some s) :
    ∃ level message, op = .log level s.obj message ∧ h.process.objects s.obj = some s.logger ∧
      (h.past s.obj).movedFrom = false ∧
      h.process.exec op = h.process.write s.logger.stream s.note := by
  cases op with
  | log level obj message =>
    rw [speaker] at hs
    split at hs
    · rename_i o ho
      obtain ⟨⟨hmoved, hpasses⟩, hsome⟩ := Option.ite_none_right_eq_some.mp hs
      obtain rfl := Option.some.inj hsome
      refine ⟨level, message, rfl, ho, hmoved, ?_⟩
      rw [Process.exec_log, Process.log, ho]
      exact if_pos hpasses
    · cases hs
  | _ => cases hs

theorem Process.write_of_stream {p : Process} {place file : Nat}
    (h : p.outfile place = some file) (note : String) :
    p.write (some place) note = .ok (p.append file note) := by
  obtain ⟨owner, howner, hfile⟩ := Option.bind_eq_some_iff.mp h
  rw [write, Option.bind_some, howner]
  simp only [hfile]

theorem Process.file_of_write {p : Process} {place file : Nat} {note : String}
    (hfile : file < p.files.length)
    (hknown : ∀ obj file, p.outfile obj = some file → file < p.files.length)
    (h : p.write (some place) note = .ok (p.append file note)) : p.outfile place = some file := by
  rw [write, Option.bind_some] at h
  split at h
  · cases h
  · rename_i owner howner
    split at h
    · exact absurd (Except.ok.inj h).symm (append_ne hfile)
    · rename_i file' hfile'
      have hplace : p.outfile place = some file' := by rw [outfile, howner]; exact hfile'
      rw [hplace, append_inj hfile (hknown place file' hplace) (Except.ok.inj h)]

theorem History.Linked.appendsToOwn_iff {h : History} (hlinked : h.Linked) (op : Op) :
    h.AppendsToOwn op ↔ h.LogsWhereOpened op := by
  refine forall_congr' fun s => imp_congr_right fun hs => ?_
  obtain ⟨level, message, rfl, hlogger, -, hexec⟩ := History.speaker_eq_some hs
  have hmatches : Matches (some s.logger) (h.past s.obj) := hlogger ▸ hlinked.objects s.obj
  have hown : h.process.outfile s.obj = s.logger.outfile := by rw [Process.outfile, hlogger]; rfl
  rw [hexec]
  constructor
  · rintro ⟨file, hfile, hwrite⟩
    obtain ⟨place, hstream, hopened⟩ := hmatches.opened file hfile
    rw [show s.logger.stream = some place from hstream] at hwrite
    have hplace := Process.file_of_write (hlinked.known s.obj file (hown.trans hfile))
      hlinked.known hwrite
    rw [hopened, hlinked.unique place s.obj file hplace (hown.trans hfile)]
  · intro hopened
    cases hfile : s.logger.outfile with
    | none => exact absurd (hopened.symm.trans (hmatches.closed hfile)) (Option.some_ne_none _)
    | some file =>
      obtain ⟨place, hstream, hplace⟩ := hmatches.opened file hfile
      obtain rfl : s.obj = place := Option.some.inj (hopened.symm.trans hplace)
      refine ⟨file, rfl, ?_⟩
      rw [show s.logger.stream = some s.obj from hstream]
      exact Process.write_of_stream (hown.trans hfile) s.note

theorem Process.contents_construct (p : Process) (file : Nat) :
    (p.files ++ [[]]).getD file [] = p.contents file := by
  rw [contents, List.getD_eq_getElem?_getD, List.getD_eq_getElem?_getD, List.getElem?_append]
  split
  case isTrue => rfl
  case isFalse hle =>
    rw [List.getElem?_eq_none (Nat.le_of_not_lt hle)]
    cases file - p.files.length <;> rfl

/-- A message that no object has to write is below its filter, or its object has been moved from
and writes nowhere. -/
theorem History.Linked.process_of_unheard {h : History} (hlinked : h.Linked) {level : Level}
    {obj : Nat} {message : Message} {p : Process}
    (hsilent : h.speaker (.log level obj message) = none)
    (hexec : h.process.log level obj message = .ok p) : p = h.process := by
  rw [Process.log] at hexec
  rw [speaker] at hsilent
  cases ho : h.process.objects obj with
  | none =>
    rw [ho] at hexec
    cases hexec
  | some o =>
    simp only [ho] at hexec hsilent
    split at hexec
    case isFalse => exact (Except.ok.inj hexec).symm
    case isTrue hpasses =>
      have hmoved : (h.past obj).movedFrom = true := by
        by_contra hnot
        rw [if_pos ⟨Bool.eq_false_iff.mpr hnot, hpasses⟩] at hsilent
        cases hsilent
      have hstream : o.stream = none := (ho ▸ hlinked.objects obj).moved hmoved
      rw [hstream] at hexec
      cases hexec

/-- Without a message of an object that has not been moved from, nothing is written. -/
theorem History.Linked.contents_of_silent {h h' : History} (hlinked : h.Linked) {op : Op}
    (hsilent : h.speaker op = none) (hstep : h.step op = .ok h') (file : Nat) :
    h'.process.contents file = h.process.contents file := by
  obtain ⟨p, hexec, rfl⟩ := History.step_eq_ok hstep
  cases op with
  | construct obj level opened =>
    obtain rfl := Process.construct_eq_ok hexec
    cases opened with
    | true => exact h.process.contents_construct file
    | false => rfl
  | moveConstruct obj other =>
    obtain ⟨o, -, rfl⟩ := Process.moveConstruct_eq_ok hexec
    rfl
  | moveAssign obj other =>
    obtain ⟨o, -, rfl⟩ := Process.moveAssign_eq_ok hexec
    rfl
  | destroy obj =>
    obtain rfl := Process.destroy_eq_ok hexec
    rfl
  | setLevel obj level =>
    obtain ⟨o, -, rfl⟩ := Process.setLevel_eq_ok hexec
    rfl
  | log level obj message =>
    rw [Process.exec_log] at hexec
    rw [hlinked.process_of_unheard hsilent hexec]

/-- Where each message is appended to its object's file, the files have them in the order of the
calls. -/
theorem History.Linked.contents_of_run {h h' : History} (hlinked : h.Linked) {ops : List Op}
    (hown : Throughout History.step History.AppendsToOwn h ops)
    (hrun : ops.foldlM History.step h = .ok h') (file : Nat) :
    h'.process.contents file = h.process.contents file ++
      ((h.entries ops).filter fun e => e.1 = file).map Prod.snd := by
  induction ops generalizing h with
  | nil =>
    obtain rfl := Except.ok.inj hrun
    exact (List.append_nil _).symm
  | cons op ops ih =>
    obtain ⟨h₁, hstep, hrest⟩ := foldlM_cons_eq_ok.mp hrun
    rw [ih (hlinked.step hstep) (hown.2 h₁ hstep) hrest, entries, hstep]
    cases hspeaker : h.speaker op with
    | none =>
      rw [hlinked.contents_of_silent hspeaker hstep]
      rfl
    | some s =>
      obtain ⟨own, hfile, hexec⟩ := hown.1 s hspeaker
      obtain ⟨p, hexec', rfl⟩ := History.step_eq_ok hstep
      obtain rfl := Except.ok.inj (hexec.symm.trans hexec')
      have hentry : s.entry = some (own, s.note) := by rw [Speaker.entry, hfile, Option.map_some]
      obtain ⟨-, -, -, hlogger, -, -⟩ := History.speaker_eq_some hspeaker
      have hknown : own < h.process.files.length :=
        hlinked.known s.obj own (by rw [Process.outfile, hlogger]; exact hfile)
      rw [h.process.contents_append hknown, Option.bind_some, hentry, List.append_assoc]
      simp only [Option.toList_some, List.singleton_append, List.filter_cons, decide_eq_true_eq]
      split <;> rfl

/-- Each message of an object that has not been moved from is appended to the object's file, and the
files have their messages in the order of the calls. -/
def LogsToOwn (ops : List Op) : Prop :=
  Throughout History.step History.AppendsToOwn .init ops ∧
    ∀ h, ops.foldlM History.step .init = .ok h → ∀ file,
      h.process.contents file = ((History.init.entries ops).filter fun e => e.1 = file).map Prod.snd

theorem logsToOwn_iff (ops : List Op) :
    LogsToOwn ops ↔ Throughout History.step History.LogsWhereOpened .init ops := by
  rw [← throughout_congr (I := History.Linked) (fun h op hlinked => hlinked.appendsToOwn_iff op)
    (fun h op h' hlinked _ hstep => hlinked.step hstep) linked_init ops]
  refine and_iff_left_of_imp fun hown h hrun file => ?_
  rw [linked_init.contents_of_run hown hrun file]
  rfl

/-- The second logger writes to the file stream that the first one has been left. -/
theorem moved_logger_loses_message : ¬ ∀ ops : List Op, LogsToOwn ops := by
  intro h
  obtain ⟨-, hmove⟩ := (h [.construct 1 .info true, .moveConstruct 2 1,
    .log .info 2 ⟨"started", none, "1"⟩]).1
  obtain ⟨-, hlog⟩ := hmove _ rfl
  obtain ⟨hown, -⟩ := hlog _ rfl
  obtain ⟨file, hfile, hexec⟩ := hown _ rfl
  cases hfile
  have hfiles : ([[]] : List (List String)) = [["INFO: << started >> [thread id: 1]"]] :=
    congrArg Process.files (Except.ok.inj hexec)
  exact absurd hfiles (by decide)

end AdvCppTP.Logger
