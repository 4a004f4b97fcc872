import AdvCppTP.Lib.Locking
import AdvCppTP.Lib.Messages
import AdvCppTP.Logger.FileLogger

/-! Threads that log through one `BaseLogger` of `hw-6/Logger_lib`: what is in its stream, when each
insertion may be taken in parts or refused. -/

namespace AdvCppTP.Logger

open Lib

/-- A `std::ostream`; `bad` is its `badbit`, `throwing` whether that is among its `exceptions()`. -/
structure Stream where
  written : List Char
  bad : Bool
  throwing : Bool
  deriving DecidableEq, Repr

/-- What the buffer of the stream does: it takes some characters, or refuses to. -/
inductive Sink
  | takes (n : Nat)
  | refuses
  deriving DecidableEq, Repr

inductive LogResult
  | returned
  | logRuntimeError (msg : String)
  deriving DecidableEq, Repr

/-- What a stream that is bad does to an insertion. -/
def Stream.refused (s : Stream) : LogResult :=
  if s.throwing then .logRuntimeError "Fail to write to log stream" else .returned

/-- `*stream_ << note.str() << std::endl` with `line` left of the note and the newline. -/
def Stream.insert (line : List Char) (e : Sink) (s : Stream) :
    Option (Stream × (List Char ⊕ LogResult)) :=
  if s.bad then some (s, .inr s.refused)
  else match e with
    | .takes n =>
      if line = [] then some (s, .inr .returned)
      else if 1 ≤ n ∧ n ≤ line.length then
        some ({ s with written := s.written ++ line.take n }, .inl (line.drop n))
      else none
    | .refuses => some ({ s with bad := true }, .inr s.refused)

/-- `BaseLogger::log` behind the note, with `log_mutex_` around the stream. -/
def logRoutine : Routine Stream (List Char) LogResult Sink (List Char) where
  enter line := line
  work := Stream.insert

/-- What a message puts in the stream. -/
def Message.line (message : Message) (level : Level) : List Char :=
  (message.note level).toList ++ ['\n']

/-- A logger with its threads. -/
structure Threads (T : Type*) where
  locked : Locked T Stream (List Char) LogResult (List Char)
  level : Level

inductive ThreadEvent (T : Type*)
  | say (t : T) (level : Level) (message : Message)
  | setLevel (level : Level)
  | goes (e : LockedEvent T Empty Sink)

variable {T : Type*} [DecidableEq T]

def noCall : LockedEvent T Empty Sink → LockedEvent T (List Char) Sink
  | .lock t => .lock t
  | .work t e => .work t e
  | .unlock t => .unlock t
  | .ret t => .ret t

/-- A message that does not pass the level is no call of `log`. -/
def Threads.step (s : Threads T) : ThreadEvent T → Option (Threads T)
  | .say t level message =>
    if level.toNat ≤ s.level.toNat then
      (s.locked.step logRoutine (.call t (message.line level))).map fun locked => { s with locked }
    else match s.locked.place t with
      | .idle => some s
      | _ => none
  | .setLevel level => some { s with level }
  | .goes e => (s.locked.step logRoutine (noCall e)).map fun locked => { s with locked }

def Threads.init (stream : Stream) (level : Level) : Threads T := ⟨.init stream, level⟩

/-! ## Lines -/

section Lines

variable {s s' : Stream} {line : List Char}

theorem insert_eq_inl {e : Sink} {rest : List Char}
    (h : s.insert line e = some (s', .inl rest)) :
    s.bad = false ∧ ∃ n, rest = line.drop n ∧
      s' = { s with written := s.written ++ line.take n } := by
  unfold Stream.insert at h
  split at h
  · cases h
  case isFalse hbad =>
    refine ⟨Bool.eq_false_iff.mpr hbad, ?_⟩
    split at h
    case h_1 n =>
      split at h
      · cases h
      · obtain ⟨-, h⟩ := Option.ite_none_right_eq_some.mp h
        cases h
        exact ⟨n, rfl, rfl⟩
    case h_2 => cases h

theorem insert_eq_inr {e : Sink} {r : LogResult} (h : s.insert line e = some (s', .inr r)) :
    s'.written = s.written ∧ (s.bad = true → s' = s) ∧ (s'.bad = false → line = []) := by
  unfold Stream.insert at h
  split at h
  case isTrue hbad =>
    cases h
    refine ⟨rfl, fun _ => rfl, fun hgood => ?_⟩
    rw [hbad] at hgood
    cases hgood
  case isFalse hbad =>
    split at h
    case h_1 n =>
      split at h
      case isTrue hline =>
        cases h
        exact ⟨rfl, fun _ => rfl, fun _ => hline⟩
      · obtain ⟨-, h⟩ := Option.ite_none_right_eq_some.mp h
        cases h
    case h_2 =>
      cases h
      exact ⟨rfl, fun hbad' => absurd hbad' hbad, fun hgood => by cases hgood⟩

/-- Behind some steps of a call a part of its line is in the stream. -/
theorem reaches_part {l : List Char} (h : logRoutine.Reaches line s l s') :
    (s.bad = true → s' = s) ∧ (s.bad = false → s'.bad = false) ∧
      ∃ k, l = line.drop k ∧ s'.written = s.written ++ line.take k := by
  induction h with
  | start => exact ⟨fun _ => rfl, id, 0, rfl, by rw [List.take_zero, List.append_nil]⟩
  | step h hwork ih =>
    obtain ⟨hbad, hgood, k, rfl, hwritten⟩ := ih
    obtain ⟨hgood', n, rfl, rfl⟩ := insert_eq_inl hwork
    refine ⟨fun hs => ?_, fun _ => hgood', k + n, by rw [List.drop_drop], ?_⟩
    · rw [hbad hs, hs] at hgood'
      cases hgood'
    · rw [hwritten, List.append_assoc, ← List.take_add]

/-- A call puts its whole line into the stream, or leaves it bad. -/
theorem runs_line {r : LogResult} (h : logRoutine.Runs s line r s') :
    (s.bad = true → s' = s) ∧ (∃ k, s'.written = s.written ++ line.take k) ∧
      (s'.bad = false → s.bad = false ∧ s'.written = s.written ++ line) := by
  obtain ⟨l, s₁, e, hreaches, hwork⟩ := h
  obtain ⟨hbad, hgood, k, rfl, hwritten⟩ := reaches_part hreaches
  obtain ⟨hsame, hbad', hwhole⟩ := insert_eq_inr hwork
  have hstays : s.bad = true → s' = s := by
    intro hs
    have hs₁ := hbad hs
    rw [← hs₁] at hs
    rw [hbad' hs, hs₁]
  refine ⟨hstays, ⟨k, hsame.trans hwritten⟩, fun hs' => ⟨?_, ?_⟩⟩
  · cases hs : s.bad with
    | false => rfl
    | true =>
      rw [hstays hs, hs] at hs'
      cases hs'
  · rw [hsame, hwritten, List.take_of_length_le (List.drop_eq_nil_iff.mp (hwhole hs'))]

omit [DecidableEq T] in
/-- Calls one behind the other write lines one behind the other, as long as the stream is good. -/
theorem sequential_lines {is : List (Instant T (List Char) LogResult)} (hs : s.written = [])
    (h : Sequential logRoutine.Runs s is s') :
    ∃ whole, whole <+: is ∧ CutAtEnd s'.written (whole.map Instant.input) ∧
      (s'.bad = false → whole = is ∧ s'.written = (is.map Instant.input).flatten) := by
  induction h with
  | start => exact ⟨[], List.prefix_rfl, hs ▸ cutAtEnd_flatten [], fun _ => ⟨rfl, hs⟩⟩
  | @step s₁ s₂ is h i hruns ih =>
    obtain ⟨whole, hfirst, hcut, hall⟩ := ih
    obtain ⟨hbad, ⟨k, hpart⟩, hgood⟩ := runs_line hruns
    cases hs₁ : s₁.bad with
    | true =>
      rw [hbad hs₁]
      refine ⟨whole, hfirst.trans (List.prefix_append is [i]), hcut, fun hs₂ => ?_⟩
      rw [hs₁] at hs₂
      cases hs₂
    | false =>
      obtain ⟨rfl, hwritten⟩ := hall hs₁
      refine ⟨whole ++ [i], List.prefix_rfl, ?_, fun hs₂ => ⟨rfl, ?_⟩⟩
      · rw [hpart, hwritten, List.map_append]
        exact cutAtEnd_concat _ (List.take_prefix k i.input)
      · rw [(hgood hs₂).2, hwritten, List.map_append, List.flatten_append]
        exact congrArg _ (List.flatten_singleton).symm

end Lines

/-! ## Threads -/

/-- What the threads say that passes the level of the moment. -/
def passed : Level → List (ThreadEvent T) → List (T × List Char)
  | _, [] => []
  | level, .say t l message :: es =>
    if l.toNat ≤ level.toNat then (t, message.line l) :: passed level es else passed level es
  | _, .setLevel level :: es => passed level es
  | level, .goes _ :: es => passed level es

def linesOf (t : T) (lines : List (T × List Char)) : List (List Char) :=
  lines.filterMap fun p => if p.1 = t then some p.2 else none

def byThread (i : Instant T (List Char) LogResult) : T × List Char := (i.thread, i.input)

theorem linesOf_byThread (t : T) (is : List (Instant T (List Char) LogResult)) :
    linesOf t (is.map byThread) = is.filterMap (Instant.inputOf? t) := by
  unfold linesOf
  rw [List.filterMap_map]
  rfl

theorem linesOf_mono (t : T) {lines lines' : List (T × List Char)} (h : lines <+: lines') :
    linesOf t lines <+: linesOf t lines' :=
  h.filterMap _

theorem linesOf_concat (t t' : T) (lines : List (T × List Char)) (line : List Char) :
    linesOf t' (lines ++ [(t, line)]) = linesOf t' lines ++ if t = t' then [line] else [] := by
  unfold linesOf
  rw [List.filterMap_append]
  split
  case isTrue h => simp only [List.filterMap_cons, if_pos h, List.filterMap_nil]
  case isFalse h => simp only [List.filterMap_cons, if_neg h, List.filterMap_nil]

/-- What a step does to the lock, and to what its thread has said so far. -/
theorem locked_of_step {s s' : Threads T} {e : ThreadEvent T} (h : s.step e = some s') :
    s'.locked = s.locked ∨ ∃ t, s.locked.Steps logRoutine t s'.locked := by
  cases e with
  | say t level message =>
    simp only [Threads.step] at h
    split at h
    case isTrue hpasses =>
      obtain ⟨locked, hstep, rfl⟩ := Option.map_eq_some_iff.mp h
      exact .inr (Locked.steps_of_step hstep)
    case isFalse hpasses =>
      split at h
      · cases h
        exact .inl rfl
      · cases h
  | setLevel level =>
    cases h
    exact .inl rfl
  | goes e =>
    obtain ⟨locked, hstep, rfl⟩ := Option.map_eq_some_iff.mp h
    exact .inr (Locked.steps_of_step hstep)

theorem exists_mirrors {stream : Stream} {level : Level} {es : List (ThreadEvent T)}
    {s : Threads T} (hrun : steps Threads.step (.init stream level) es = some s) :
    ∃ is far base, s.locked.Mirrors logRoutine stream is far base := by
  have hkeep : ∀ (s : Threads T) e s',
      (∃ is far base, s.locked.Mirrors logRoutine stream is far base) →
        s.step e = some s' → ∃ is far base, s'.locked.Mirrors logRoutine stream is far base := by
    rintro s e s' ⟨is, far, base, hmirrors⟩ hstep
    obtain hsame | ⟨t, hsteps⟩ := locked_of_step hstep
    · rw [hsame]
      exact ⟨is, far, base, hmirrors⟩
    · exact hmirrors.step hsteps
  exact steps_invariant hkeep ⟨_, _, _, Locked.mirrors_init logRoutine stream⟩ hrun

theorem seen_of_call {s s' : Locked T Stream (List Char) LogResult (List Char)} {t : T}
    {line : List Char} (h : s.step logRoutine (.call t line) = some s') :
    s'.seen = s.seen ++ [.called t line] := by
  simp only [Locked.step] at h
  split at h
  · cases h
    rfl
  · cases h

theorem inputs_of_noCall {s s' : Locked T Stream (List Char) LogResult (List Char)}
    {e : LockedEvent T Empty Sink} (h : s.step logRoutine (noCall e) = some s') (t : T) :
    s'.seen.filterMap (CallEvent.input? t) = s.seen.filterMap (CallEvent.input? t) := by
  cases e with
  | call t i => exact nomatch i
  | lock t | unlock t =>
    simp only [noCall, Locked.step] at h
    grind [Locked.move]
  | work t e =>
    simp only [noCall, Locked.step] at h
    grind [Locked.move]
  | ret t' =>
    simp only [noCall, Locked.step] at h
    split at h
    · cases h
      rw [List.filterMap_append]
      exact List.append_nil _
    · cases h

/-- A thread calls `log` with what it says that passes the level, in its order. -/
theorem inputs_eq_passed {s s' : Threads T} {es : List (ThreadEvent T)}
    (hrun : steps Threads.step s es = some s') (t : T) :
    s'.locked.seen.filterMap (CallEvent.input? t) =
      s.locked.seen.filterMap (CallEvent.input? t) ++ linesOf t (passed s.level es) := by
  induction es generalizing s with
  | nil =>
    obtain rfl := Option.some.inj hrun
    exact (List.append_nil _).symm
  | cons e es ih =>
    obtain ⟨s₁, hstep, hrest⟩ := steps_cons.mp hrun
    rw [ih hrest]
    cases e with
    | say t' level message =>
      simp only [Threads.step] at hstep
      split at hstep
      case isTrue hpasses =>
        obtain ⟨locked, hcall, rfl⟩ := Option.map_eq_some_iff.mp hstep
        have hseen := seen_of_call hcall
        simp only [passed, if_pos hpasses, hseen, List.filterMap_append, List.append_assoc,
          linesOf, CallEvent.input?, List.filterMap_cons, List.filterMap_nil]
        by_cases ht : t' = t
        · simp only [ht, if_pos]
          rfl
        · simp only [if_neg ht]
          rfl
      case isFalse hpasses =>
        split at hstep
        · cases hstep
          simp only [passed, if_neg hpasses]
        · cases hstep
    | setLevel level =>
      cases hstep
      rfl
    | goes e =>
      obtain ⟨locked, hgoes, rfl⟩ := Option.map_eq_some_iff.mp hstep
      simp only [passed, inputs_of_noCall hgoes t]

variable {throwing : Bool} {level : Level} {es : List (ThreadEvent T)} {s : Threads T}

/-- What a thread has said is what the lock has gone through, and what the thread is at. -/
theorem passed_eq {is : List (Instant T (List Char) LogResult)}
    {far : T → Progressed (List Char) LogResult} {base : Stream}
    (hrun : steps Threads.step (.init ⟨[], false, throwing⟩ level) es = some s)
    (hmirrors : s.locked.Mirrors logRoutine ⟨[], false, throwing⟩ is far base) (t : T) :
    linesOf t (passed level es) = linesOf t (is.map byThread) ++ (far t).input?.toList := by
  have hinputs := inputs_eq_passed hrun t
  rw [hmirrors.linearizable.inputs t] at hinputs
  rw [linesOf_byThread, hinputs]
  rfl

theorem passed_of_idle {is : List (Instant T (List Char) LogResult)}
    {far : T → Progressed (List Char) LogResult} {base : Stream}
    (hrun : steps Threads.step (.init ⟨[], false, throwing⟩ level) es = some s)
    (hmirrors : s.locked.Mirrors logRoutine ⟨[], false, throwing⟩ is far base) {t : T}
    (ht : s.locked.place t = .idle) :
    linesOf t (passed level es) = linesOf t (is.map byThread) := by
  have hfits := hmirrors.fits t
  rw [ht] at hfits
  generalize hfar : far t = f at hfits
  cases hfits
  rw [passed_eq hrun hmirrors, hfar]
  exact List.append_nil _

/-- However the threads are mixed and whatever the stream takes, it has lines one behind the other,
those of each thread in its order, and at most the last one cut; where the stream is good, none
is missing of a thread that is not in `log`, and none is cut when nobody writes. -/
theorem lines_are_whole
    (hrun : steps Threads.step (.init ⟨[], false, throwing⟩ level) es = some s) :
    ∃ lines : List (T × List Char),
      CutAtEnd s.locked.shared.written (lines.map Prod.snd) ∧
      (∀ t, linesOf t lines <+: linesOf t (passed level es)) ∧
      (s.locked.shared.bad = false →
        (∀ t, s.locked.place t = .idle → linesOf t lines = linesOf t (passed level es)) ∧
        ((∀ t, (s.locked.place t).works = false) →
          s.locked.shared.written = (lines.map Prod.snd).flatten)) := by
  obtain ⟨is, far, base, hmirrors⟩ := exists_mirrors hrun
  obtain ⟨ms, -, -, -, hsequential⟩ := id hmirrors.linearizable
  obtain ⟨whole, hfirst, hcut, hall⟩ := sequential_lines rfl hsequential
  by_cases hbase : base = s.locked.shared
  · subst hbase
    refine ⟨whole.map byThread, by rwa [List.map_map], fun t => ?_, fun hgood => ?_⟩
    · rw [passed_eq hrun hmirrors]
      exact (linesOf_mono t (hfirst.map byThread)).trans (List.prefix_append _ _)
    · obtain ⟨rfl, hwritten⟩ := hall hgood
      exact ⟨fun t ht => (passed_of_idle hrun hmirrors ht).symm, fun _ => by rwa [List.map_map]⟩
  · -- a thread is at its line: the part of it that is in the stream comes behind all others
    have hworks : ∃ t, (s.locked.place t).works = true := by
      by_contra hnone
      refine hbase (hmirrors.settled fun t => Bool.eq_false_iff.mpr fun ht => hnone ⟨t, ht⟩)
    obtain ⟨t, ht⟩ := hworks
    have hfits := hmirrors.fits t
    generalize hfar : far t = f at hfits
    generalize hplace : s.locked.place t = place at hfits ht
    cases hfits with
    | @inside line l hreaches =>
      obtain ⟨hbad, -, k, -, hpart⟩ := reaches_part hreaches
      have hgood : base.bad = false := Bool.eq_false_iff.mpr fun h => hbase (hbad h).symm
      obtain ⟨rfl, hwritten⟩ := hall hgood
      have hall' : ∀ t', linesOf t' (whole.map byThread ++ [(t, line)]) <+:
          linesOf t' (passed level es) := by
        intro t'
        rw [passed_eq hrun hmirrors, linesOf_concat]
        by_cases ht' : t = t'
        · subst ht'
          rw [hfar, if_pos rfl]
          exact List.prefix_rfl
        · rw [if_neg ht', List.append_nil]
          exact List.prefix_append _ _
      refine ⟨whole.map byThread ++ [(t, line)], ?_, hall', fun _ => ⟨fun t' ht' => ?_, ?_⟩⟩
      · rw [hpart, hwritten, List.map_append, List.map_map]
        exact cutAtEnd_concat _ (List.take_prefix k line)
      · have hne : t ≠ t' := by
          intro heq
          subst heq
          rw [hplace] at ht'
          cases ht'
        rw [passed_of_idle hrun hmirrors ht', linesOf_concat, if_neg hne, List.append_nil]
      · intro hnone
        have hself := hnone t
        rw [hplace] at hself
        cases hself
    | _ => cases ht

/-- Two threads whose lines the stream takes in parts; the level is raised meanwhile. -/
def twoThreads : List (ThreadEvent Bool) :=
  let hello : Message := ⟨"a", none, "1"⟩
  let again : Message := ⟨"b", none, "2"⟩
  [.say true .error hello, .say false .debug again, .goes (.lock true), .setLevel .debug,
    .goes (.work true (.takes 9)), .say false .debug again, .goes (.work true (.takes 21)),
    .goes (.work true (.takes 0)), .goes (.unlock true), .goes (.lock false),
    .goes (.work false (.takes 5))]

theorem lines_are_whole_two :
    ∃ lines : List (Bool × List Char),
      CutAtEnd "ERROR: << a >> [thread id: 1]\nDEBUG".toList (lines.map Prod.snd) := by
  have hrun : (steps Threads.step (.init ⟨[], false, true⟩ .info) twoThreads).map
      (fun s => s.locked.shared.written) = some "ERROR: << a >> [thread id: 1]\nDEBUG".toList := by
    decide
  obtain ⟨s, hrun, hwritten⟩ := Option.map_eq_some_iff.mp hrun
  obtain ⟨lines, hlines, -⟩ := lines_are_whole hrun
  exact ⟨lines, hwritten ▸ hlines⟩

end AdvCppTP.Logger
