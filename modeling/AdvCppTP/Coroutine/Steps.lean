import AdvCppTP.Coroutine.Effects
import AdvCppTP.Coroutine.Recycling

/-! The scheduler step by step: what the main context and the code of the routines do, one act at
a time. The bodies are free here; they do not call `resume` or `kill`. -/

namespace AdvCppTP.Coroutine

variable {κ ε σ : Type*}

/-- Who called `resume(id)`: the main context itself, or `kill(id, ex)` for it. -/
inductive Caller
  | resume
  | kill
  deriving DecidableEq, Repr

/-- Whose code executes: that of the main context, or that of routine `id`. -/
inductive Control
  | main
  | body (id : Nat) (caller : Caller)
  deriving DecidableEq, Repr

inductive Act (κ ε : Type*)
  | create (id : Nat) (f : Option κ)
  | resume (id : Nat)
  | kill (id : Nat) (ex : Option (Exn ε))
  | yield (k : κ)
  | ret
  | throw (e : Exn ε)
  deriving DecidableEq, Repr

/-- What the code that executes next gets to see: the id from `create`, an exception that `kill`
throws before its `resume`, how a `resume` ended, or that a body's code goes on. -/
inductive Seen (κ ε : Type*)
  | created (id : Nat)
  | refused (e : Exn ε)
  | back (id : Nat) (caller : Caller) (value : Except (Exn ε) Bool)
  | ran (x : Ran κ ε)
  | nothing

def Seen.segment : Seen κ ε → Option (Ran κ ε)
  | .ran x => some x
  | _ => none

structure Thread (κ ε : Type*) where
  o : Ordinator κ ε
  control : Control

def Thread.init : Thread κ ε := ⟨Ordinator.init, .main⟩

/-- `resume(id)` behind its `swapcontext`. -/
def Thread.back (id : Nat) (caller : Caller) (o : Ordinator κ ε) : Thread κ ε × Seen κ ε :=
  let r := reap id (⟨o, (), []⟩ : Switched κ ε Unit)
  (⟨r.1.1, .main⟩, .back id caller r.2.value)

/-- `swapcontext` into routine `id`: `entry()` starts, or `yield()` goes on. -/
def Thread.switch (id : Nat) (caller : Caller) (o : Ordinator κ ε) (routine : Routine κ ε) :
    Thread κ ε × Seen κ ε :=
  match routine.ctx with
  | .entry =>
    match routine.func with
    | none => Thread.back id caller (finish o id none)
    | some f => (⟨o, .body id caller⟩, .ran (.start (some f)))
  | .inYield k =>
    match routine.exception with
    | some e => (⟨o, .body id caller⟩, .ran (.raised k e))
    | none => (⟨o, .body id caller⟩, .ran (.resumed k))

def Thread.resume (o : Ordinator κ ε) (id : Nat) (caller : Caller) : Thread κ ε × Seen κ ε :=
  if id = 0 then (⟨o, .main⟩, .back id caller (.ok false))
  else
    match o.routines.lookup id with
    | none => (⟨o, .main⟩, .back id caller (.error .outOfRange))
    | some routine =>
      if routine.finished then (⟨o, .main⟩, .back id caller (.ok false))
      else Thread.switch id caller { o with current := id } routine

def Thread.kill (o : Ordinator κ ε) (id : Nat) (ex : Option (Exn ε)) : Thread κ ε × Seen κ ε :=
  if id = 0 then (⟨o, .main⟩, .refused (.invalidArgument "You can't kill main routine"))
  else
    match ex with
    | none => (⟨o, .main⟩, .refused (.invalidArgument "Empty exception_ptr"))
    | some e =>
      match o.routines.lookup id with
      | none => (⟨o, .main⟩, .refused .outOfRange)
      | some routine =>
        Thread.resume { o with routines := o.routines.insert id { routine with exception := some e } }
          id .kill

def Thread.yield (o : Ordinator κ ε) (id : Nat) (caller : Caller) (k : κ) :
    Thread κ ε × Seen κ ε :=
  match Coroutine.yield o k with
  | (o, none) => Thread.back id caller o
  | (o, some e) => (⟨o, .body id caller⟩, .ran (.raised k e))

def Thread.step (t : Thread κ ε) (a : Act κ ε) : Thread κ ε × Seen κ ε :=
  match t.control, a with
  | _, .create id f => (⟨(create t.o id f).1, t.control⟩, .created (create t.o id f).2)
  | .main, .resume id => Thread.resume t.o id .resume
  | .main, .kill id ex => Thread.kill t.o id ex
  | .body id caller, .yield k => Thread.yield t.o id caller k
  | .body id caller, .ret => Thread.back id caller (finish t.o id none)
  | .body id caller, .throw e => Thread.back id caller (finish t.o id (some e))
  | _, _ => (t, .nothing)

/-- The main context calls, and a body yields or ends. -/
def Act.Allowed (t : Thread κ ε) : Act κ ε → Prop
  | .create _ _ => True
  | .resume _ => t.control = .main
  | .kill _ _ => t.control = .main
  | .yield _ => t.control ≠ .main
  | .ret => t.control ≠ .main
  | .throw _ => t.control ≠ .main

instance (t : Thread κ ε) : (a : Act κ ε) → Decidable (a.Allowed t)
  | .create _ _ => .isTrue trivial
  | .resume _ => inferInstanceAs (Decidable (t.control = .main))
  | .kill _ _ => inferInstanceAs (Decidable (t.control = .main))
  | .yield _ => inferInstanceAs (Decidable (t.control ≠ .main))
  | .ret => inferInstanceAs (Decidable (t.control ≠ .main))
  | .throw _ => inferInstanceAs (Decidable (t.control ≠ .main))

/-! ## What holds between two acts -/

/-- The main context executes and every routine waits to be resumed. -/
structure Ordinator.Waits (o : Ordinator κ ε) : Prop where
  zero : 0 ∉ o.routines
  current : o.current = 0
  idle : ∀ j r, o.routines.lookup j = some r → r.Idle

/-- Routine `id` executes, with an exception in it if it is killed; the others wait. -/
structure Ordinator.Executes (o : Ordinator κ ε) (id : Nat) (caller : Caller)
    (r : Routine κ ε) : Prop where
  zero : 0 ∉ o.routines
  current : o.current = id ∨ caller = .kill ∧ o.current = 0
  lookup : o.routines.lookup id = some r
  finished : r.finished = false
  exception : caller = .resume ↔ r.exception = none
  idle : ∀ j r', j ≠ id → o.routines.lookup j = some r' → r'.Idle

def Thread.Sound (t : Thread κ ε) : Prop :=
  match t.control with
  | .main => t.o.Waits
  | .body id caller => ∃ r, t.o.Executes id caller r

section

variable {o : Ordinator κ ε} {id : Nat} {caller : Caller} {r : Routine κ ε}

theorem Ordinator.Executes.ne_zero (h : o.Executes id caller r) : id ≠ 0 := by
  rintro rfl
  exact h.zero (Lib.mem_of_lookup h.lookup)

theorem create_idle {j : Nat} {f : Option κ}
    (hidle : ∀ r', o.routines.lookup j = some r' → r'.Idle) {r' : Routine κ ε}
    (hr' : (create o id f).1.routines.lookup j = some r') : r'.Idle := by
  obtain ⟨hother, hold, hnew⟩ := create_spec o id f
  rcases eq_or_ne j id with rfl | hj
  · rcases hlook : o.routines.lookup j with _ | r₁
    · obtain ⟨r₂, hr₂, hcreated⟩ := hnew hlook
      obtain rfl := Option.some.inj (hr₂.symm.trans hr')
      exact ⟨hcreated.finished, hcreated.exception⟩
    · obtain rfl := Option.some.inj ((hold r₁ hlook).symm.trans hr')
      exact hidle _ hlook
  · exact hidle r' (hother j hj ▸ hr')

theorem create_current (o : Ordinator κ ε) (id : Nat) (f : Option κ) :
    (create o id f).1.current = o.current := by
  unfold create
  split <;> rfl

theorem Ordinator.Waits.create (h : o.Waits) (hid : id ≠ 0) (f : Option κ) :
    (Coroutine.create o id f).1.Waits := by
  refine ⟨fun hmem => ?_, (create_current o id f).trans h.current, fun j r hr => ?_⟩
  · rw [mem_create_iff] at hmem
    exact hmem.elim (fun hzero => hid hzero.symm) h.zero
  · exact create_idle (h.idle j) hr

theorem Ordinator.Executes.create (h : o.Executes id caller r) {id' : Nat} (hid : id' ≠ 0)
    (f : Option κ) : (Coroutine.create o id' f).1.Executes id caller r := by
  obtain ⟨hother, hold, -⟩ := create_spec o id' f
  refine ⟨fun hmem => ?_, ?_, ?_, h.finished, h.exception, fun j r' hj hr' => ?_⟩
  · rw [mem_create_iff] at hmem
    exact hmem.elim (fun hzero => hid hzero.symm) h.zero
  · rw [create_current]
    exact h.current
  · rcases eq_or_ne id id' with rfl | hne
    · exact hold r h.lookup
    · exact (hother id hne).trans h.lookup
  · exact create_idle (h.idle j · hj) hr'

theorem Ordinator.Waits.resumed (h : o.Waits) (hr : o.routines.lookup id = some r) :
    ({ o with current := id } : Ordinator κ ε).Executes id .resume r := by
  obtain ⟨hfin, hexc⟩ := h.idle id r hr
  exact ⟨h.zero, Or.inl rfl, hr, hfin, iff_of_true rfl hexc, fun j r' _ hr' => h.idle j r' hr'⟩

theorem Ordinator.Waits.killed (h : o.Waits) (hr : o.routines.lookup id = some r) (e : Exn ε) :
    (marked o id r e).Executes id .kill { r with exception := some e } := by
  obtain ⟨hfin, -⟩ := h.idle id r hr
  refine ⟨fun hmem => ?_, Or.inl rfl, AList.lookup_insert _, hfin, by simp,
    fun j r' hj hr' => ?_⟩
  · rw [marked, mem_insert_of_lookup hr] at hmem
    exact h.zero hmem
  · rw [marked, AList.lookup_insert_ne hj] at hr'
    exact h.idle j r' hr'

/-- A routine that ends is taken out of the table, and its node is kept. -/
theorem Thread.back_finish (hr : o.routines.lookup id = some r) (caller : Caller)
    (thrown : Option (Exn ε)) :
    Thread.back id caller (finish o id thrown) =
      (⟨⟨(o.routines.insert id (r.ended thrown)).erase id,
          o.finished ++ [(id, r.ended thrown)], 0⟩, .main⟩,
        .back id caller (rethrow (thrown <|> r.exception))) := by
  rw [Thread.back, reap_finish_eq hr]

/-- A routine without an exception waits where it yields. -/
theorem Thread.yield_idle (hcur : o.current = id) (hr : o.routines.lookup id = some r)
    (hidle : r.Idle) (caller : Caller) (k : κ) :
    Thread.yield o id caller k =
      (⟨⟨o.routines.insert id { r with ctx := .inYield k }, o.finished, 0⟩, .main⟩,
        .back id caller (.ok true)) := by
  subst hcur
  simp only [Thread.yield, Coroutine.yield_idle hr hidle.2, Thread.back]
  rw [reap_suspended o.current (r := { r with ctx := .inYield k }) hidle.1]

theorem Ordinator.Executes.back (h : o.Executes id caller r) (thrown : Option (Exn ε)) :
    Thread.back id caller (finish o id thrown) =
        (⟨⟨(o.routines.insert id (r.ended thrown)).erase id,
            o.finished ++ [(id, r.ended thrown)], 0⟩, .main⟩,
          .back id caller (rethrow (thrown <|> r.exception))) ∧
      (⟨(o.routines.insert id (r.ended thrown)).erase id,
        o.finished ++ [(id, r.ended thrown)], 0⟩ : Ordinator κ ε).Waits := by
  refine ⟨Thread.back_finish h.lookup caller thrown, fun hmem => ?_, rfl, fun j r' hr' => ?_⟩
  · rw [AList.mem_erase, mem_insert_of_lookup h.lookup] at hmem
    exact h.zero hmem.2
  · rcases eq_or_ne j id with rfl | hj
    · exact absurd hr' (by simp)
    · rw [AList.lookup_erase_ne hj, AList.lookup_insert_ne hj] at hr'
      exact h.idle j r' hj hr'

theorem Ordinator.Executes.yield_resumed (h : o.Executes id .resume r) (k : κ) :
    Thread.yield o id .resume k =
        (⟨⟨o.routines.insert id { r with ctx := .inYield k }, o.finished, 0⟩, .main⟩,
          .back id .resume (.ok true)) ∧
      (⟨o.routines.insert id { r with ctx := .inYield k }, o.finished, 0⟩ : Ordinator κ ε).Waits := by
  have hcur : o.current = id := h.current.resolve_right fun hkill => by cases hkill.1
  have hexc := h.exception.mp rfl
  subst hcur
  refine ⟨Thread.yield_idle rfl h.lookup ⟨h.finished, hexc⟩ .resume k, fun hmem => ?_, rfl,
    fun j r' hr' => ?_⟩
  · rw [mem_insert_of_lookup h.lookup] at hmem
    exact h.zero hmem
  · rcases eq_or_ne j o.current with rfl | hj
    · rw [AList.lookup_insert] at hr'
      obtain rfl := Option.some.inj hr'
      exact ⟨h.finished, hexc⟩
    · rw [AList.lookup_insert_ne hj] at hr'
      exact h.idle j r' hj hr'

/-- The `yield` of a killed routine throws, the first time what it was killed with; `current` no
longer names it. -/
theorem Ordinator.Executes.yield_killed (h : o.Executes id .kill r) (k : κ) :
    ∃ e, Thread.yield o id .kill k =
        (⟨{ o with current := 0 }, .body id .kill⟩, .ran (.raised k e)) ∧
      ({ o with current := 0 } : Ordinator κ ε).Executes id .kill r := by
  have hstays : ({ o with current := 0 } : Ordinator κ ε).Executes id .kill r :=
    ⟨h.zero, Or.inr ⟨rfl, rfl⟩, h.lookup, h.finished, h.exception, h.idle⟩
  rcases h.current with hcur | ⟨-, hcur⟩
  · obtain ⟨e, he⟩ : ∃ e, r.exception = some e := by
      refine Option.ne_none_iff_exists'.mp fun hnone => ?_
      cases h.exception.mpr hnone
    refine ⟨e, ?_, hstays⟩
    have hthrow := Coroutine.yield_killed (o := o) (hcur ▸ h.lookup) he k
    simp only [Thread.yield, hthrow]
  · have hzero : o.routines.lookup o.current = none := by
      rw [hcur]
      exact AList.lookup_eq_none.mpr h.zero
    refine ⟨.outOfRange, ?_, hstays⟩
    have hsame : o = { o with current := 0 } := by rw [← hcur]
    simp only [Thread.yield, yield_nowhere hzero]
    rw [← hsame]

theorem Thread.switch_cases (o : Ordinator κ ε) (id : Nat) (caller : Caller) (r : Routine κ ε) :
    (∃ x, Thread.switch id caller o r = (⟨o, .body id caller⟩, .ran x)) ∨
      Thread.switch id caller o r = Thread.back id caller (finish o id none) := by
  unfold Thread.switch
  rcases r.ctx with _ | k
  · rcases r.func with _ | f
    · exact Or.inr rfl
    · exact Or.inl ⟨_, rfl⟩
  · rcases r.exception with _ | e
    · exact Or.inl ⟨_, rfl⟩
    · exact Or.inl ⟨_, rfl⟩

theorem Ordinator.Waits.resume_eq (h : o.Waits) (hr : o.routines.lookup id = some r) :
    Thread.resume o id .resume = Thread.switch id .resume { o with current := id } r := by
  obtain ⟨hfin, -⟩ := h.idle id r hr
  have hid : id ≠ 0 := (h.resumed hr).ne_zero
  simp only [Thread.resume, if_neg hid, hr, hfin, Bool.false_eq_true, if_false]

theorem Thread.kill_eq (hid : id ≠ 0) (hr : o.routines.lookup id = some r)
    (hfin : r.finished = false) (e : Exn ε) :
    Thread.kill o id (some e) =
      Thread.switch id .kill (marked o id r e) { r with exception := some e } := by
  simp only [Thread.kill, if_neg hid, hr, Thread.resume, AList.lookup_insert, hfin,
    Bool.false_eq_true, if_false, marked]

theorem Ordinator.Waits.kill_eq (h : o.Waits) (hr : o.routines.lookup id = some r) (e : Exn ε) :
    Thread.kill o id (some e) =
      Thread.switch id .kill (marked o id r e) { r with exception := some e } :=
  Thread.kill_eq (h.resumed hr).ne_zero hr (h.idle id r hr).1 e

theorem Thread.resume_none (o : Ordinator κ ε) {id : Nat}
    (hnone : o.routines.lookup id = none) (caller : Caller) :
    ∃ value, Thread.resume o id caller = (⟨o, .main⟩, .back id caller value) := by
  unfold Thread.resume
  split
  · exact ⟨_, rfl⟩
  · simp only [hnone]
    exact ⟨_, rfl⟩

theorem Thread.kill_refuses (o : Ordinator κ ε) {id : Nat} {ex : Option (Exn ε)}
    (h : ex = none ∨ o.routines.lookup id = none) :
    ∃ e, Thread.kill o id ex = (⟨o, .main⟩, .refused e) := by
  unfold Thread.kill
  split
  · exact ⟨_, rfl⟩
  rcases ex with _ | e
  · exact ⟨_, rfl⟩
  · have hnone : o.routines.lookup id = none := h.resolve_left (by simp)
    simp only [hnone]
    exact ⟨_, rfl⟩

end

/-! ## The running context -/

def Control.id : Control → Nat
  | .main => 0
  | .body id _ => id

def Thread.Named (t : Thread κ ε) : Prop := t.o.current = t.control.id

def Act.Nonzero : Act κ ε → Prop
  | .create id _ => id ≠ 0
  | _ => True

instance : (a : Act κ ε) → Decidable a.Nonzero
  | .create id _ => inferInstanceAs (Decidable (id ≠ 0))
  | .resume _ => .isTrue trivial
  | .kill _ _ => .isTrue trivial
  | .yield _ => .isTrue trivial
  | .ret => .isTrue trivial
  | .throw _ => .isTrue trivial

def Control.killed : Control → Bool
  | .body _ .kill => true
  | _ => false

def Act.YieldsKilled (t : Thread κ ε) : Act κ ε → Prop
  | .yield _ => t.control.killed = true
  | _ => False

instance (t : Thread κ ε) : (a : Act κ ε) → Decidable (a.YieldsKilled t)
  | .create _ _ => .isFalse id
  | .resume _ => .isFalse id
  | .kill _ _ => .isFalse id
  | .yield _ => inferInstanceAs (Decidable (t.control.killed = true))
  | .ret => .isFalse id
  | .throw _ => .isFalse id

instance (t : Thread κ ε) : Decidable t.Named :=
  inferInstanceAs (Decidable (t.o.current = t.control.id))

section

variable {o : Ordinator κ ε} {id : Nat} {caller : Caller} {r : Routine κ ε} {t : Thread κ ε}
  {a : Act κ ε}

theorem Ordinator.Executes.switch_named (h : o.Executes id caller r) (hcur : o.current = id) :
    (Thread.switch id caller o r).1.Sound ∧ (Thread.switch id caller o r).1.Named := by
  rcases Thread.switch_cases o id caller r with ⟨x, hswitch⟩ | hswitch
  · rw [hswitch]
    exact ⟨⟨r, h⟩, hcur⟩
  · obtain ⟨hback, hwaits⟩ := h.back none
    rw [hswitch, hback]
    exact ⟨hwaits, rfl⟩

theorem Ordinator.Waits.resume_named (h : o.Waits) (id : Nat) :
    (Thread.resume o id .resume).1.Sound ∧ (Thread.resume o id .resume).1.Named := by
  rcases hr : o.routines.lookup id with _ | r
  · obtain ⟨value, hresume⟩ := Thread.resume_none o hr .resume
    rw [hresume]
    exact ⟨h, h.current⟩
  · rw [h.resume_eq hr]
    exact (h.resumed hr).switch_named rfl

theorem Ordinator.Waits.kill_named (h : o.Waits) (id : Nat) (ex : Option (Exn ε)) :
    (Thread.kill o id ex).1.Sound ∧ (Thread.kill o id ex).1.Named := by
  have hrefused : (ex = none ∨ o.routines.lookup id = none) →
      (Thread.kill o id ex).1.Sound ∧ (Thread.kill o id ex).1.Named := by
    intro hno
    obtain ⟨e, hkill⟩ := Thread.kill_refuses o hno
    rw [hkill]
    exact ⟨h, h.current⟩
  rcases ex with _ | e
  · exact hrefused (Or.inl rfl)
  rcases hr : o.routines.lookup id with _ | r
  · exact hrefused (Or.inr hr)
  · rw [h.kill_eq hr e]
    exact (h.killed hr e).switch_named rfl

theorem Ordinator.Executes.end_named (h : o.Executes id caller r) (thrown : Option (Exn ε)) :
    (Thread.back id caller (finish o id thrown)).1.Sound ∧
      (Thread.back id caller (finish o id thrown)).1.Named := by
  obtain ⟨hback, hwaits⟩ := h.back thrown
  rw [hback]
  exact ⟨hwaits, rfl⟩

/-- What an act does to the invariant, and to `current`: only the `yield` of a killed routine
takes its name away from code that goes on. -/
theorem Thread.Sound.step (h : t.Sound) (ha : a.Allowed t) (hzero : a.Nonzero) :
    (t.step a).1.Sound ∧ (t.Named → ((t.step a).1.Named ↔ ¬ a.YieldsKilled t)) := by
  obtain ⟨o, control⟩ := t
  have hnot : ∀ s : Thread κ ε, ¬ a.YieldsKilled ⟨o, control⟩ → s.Sound ∧ s.Named →
      s.Sound ∧ (Thread.Named ⟨o, control⟩ → (s.Named ↔ ¬ a.YieldsKilled ⟨o, control⟩)) :=
    fun s hno hs => ⟨hs.1, fun _ => iff_of_true hs.2 hno⟩
  rcases control with _ | ⟨id, caller⟩
  · have hwaits : o.Waits := h
    cases a with
    | create id f =>
      have hcreated := hwaits.create hzero f
      exact hnot _ (fun hy => hy) ⟨hcreated, hcreated.current⟩
    | resume id => exact hnot _ (fun hy => hy) (hwaits.resume_named id)
    | kill id ex => exact hnot _ (fun hy => hy) (hwaits.kill_named id ex)
    | yield k => exact absurd rfl ha
    | ret => exact absurd rfl ha
    | throw e => exact absurd rfl ha
  · obtain ⟨r, hr⟩ := h
    cases a with
    | create id' f =>
      refine ⟨⟨r, hr.create hzero f⟩, fun hnamed => iff_of_true ?_ fun hy => hy⟩
      exact (create_current o id' f).trans hnamed
    | resume id' => cases ha
    | kill id' ex => cases ha
    | yield k =>
      cases caller with
      | resume =>
        obtain ⟨hyield, hwaits⟩ := hr.yield_resumed k
        simp only [Thread.step, hyield]
        exact ⟨hwaits, fun _ => iff_of_true rfl (by simp [Act.YieldsKilled, Control.killed])⟩
      | kill =>
        obtain ⟨e, hyield, hstays⟩ := hr.yield_killed k
        simp only [Thread.step, hyield]
        refine ⟨⟨r, hstays⟩, fun _ => iff_of_false (fun hnamed => ?_) fun hy => hy rfl⟩
        exact hr.ne_zero hnamed.symm
    | ret => exact hnot _ (fun hy => hy) (hr.end_named none)
    | throw e => exact hnot _ (fun hy => hy) (hr.end_named (some e))

end

end AdvCppTP.Coroutine
