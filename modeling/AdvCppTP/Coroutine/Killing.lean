import AdvCppTP.Coroutine.Steps

/-! What `current()` names while routines run and are killed, and how a `kill` ends. -/

namespace AdvCppTP.Coroutine

variable {κ ε : Type*}

theorem Thread.init_sound : (Thread.init : Thread κ ε).Sound := by
  refine ⟨fun hmem => ?_, rfl, fun j r hr => ?_⟩
  · exact AList.notMem_empty 0 hmem
  · rw [Thread.init, Ordinator.init, AList.lookup_empty] at hr
    cases hr

/-- `current()` names the running context throughout a run exactly when no routine yields while
it is being killed: its `yield` clears `current` before it throws. -/
theorem current_names_iff (acts : List (Act κ ε))
    (hacts : Lib.Along Thread.step (fun t a => a.Allowed t ∧ a.Nonzero) Thread.init acts) :
    Lib.Along Thread.step (fun t a => (t.step a).1.Named) Thread.init acts ↔
      Lib.Along Thread.step (fun t a => ¬ a.YieldsKilled t) Thread.init acts := by
  refine Lib.along_congr_of (I := fun t => t.Sound ∧ t.Named) (fun t a hI ha => ?_)
    (fun t a hI ha hq => ?_) ⟨Thread.init_sound, rfl⟩ hacts
  · exact (hI.1.step ha.1 ha.2).2 hI.2
  · obtain ⟨hsound, hnamed⟩ := hI.1.step ha.1 ha.2
    exact ⟨hsound, (hnamed hI.2).mpr hq⟩

def killedWhileIdle : List (Act Unit Unit) :=
  [.create 1 (some ()), .resume 1, .yield (), .create 2 none, .kill 1 (some (.user ())), .ret,
    .resume 2]

theorem current_names_without_yield :
    Lib.Along Thread.step (fun t a => (t.step a).1.Named) Thread.init killedWhileIdle :=
  (current_names_iff killedWhileIdle (by decide)).mpr (by decide)

/-- A routine that is killed before it starts, and yields. -/
def yieldsWhenKilled : List (Act Unit Unit) :=
  [.create 1 (some ()), .kill 1 (some (.user ())), .yield ()]

theorem current_forgets_killed_routine :
    ¬ ∀ acts : List (Act Unit Unit),
      Lib.Along Thread.step (fun t a => a.Allowed t ∧ a.Nonzero) Thread.init acts →
      Lib.Along Thread.step (fun t a => (t.step a).1.Named) Thread.init acts := by
  intro h
  exact absurd (h yieldsWhenKilled (by decide)) (by decide)

/-! ## The end of a `kill` -/

/-- What the caller of `resume` or `kill` gets, from how the `resume` ended. -/
def Caller.ends : Caller → Except (Exn ε) Bool → Except (Exn ε) Bool
  | .resume, value => value
  | .kill, .error e => .error e
  | .kill, .ok _ => .error (.logicError "Resume had to throw exception, but didn't")

/-- The `resume` in `kill(id, ..)` threw `e`, and the routine is gone but for its node. -/
structure Ended (id : Nat) (e : Exn ε) (t : Thread κ ε) (seen : Seen κ ε) : Prop where
  main : t.control = .main
  threw : seen = .back id .kill (.error e)
  gone : id ∉ t.o.routines
  node : ∃ r, (id, r) ∈ t.o.finished ∧ r.finished = true

/-- The act of the code of the routine that is switched to. Like the main context it creates no
routine 0: all ids are nonzero. -/
def Act.OfBody (t : Thread κ ε) (a : Act κ ε) : Prop :=
  t.control ≠ .main ∧ a.Allowed t ∧ a.Nonzero

instance (t : Thread κ ε) (a : Act κ ε) : Decidable (a.OfBody t) :=
  inferInstanceAs (Decidable (t.control ≠ .main ∧ a.Allowed t ∧ a.Nonzero))

section

variable {o : Ordinator κ ε} {id : Nat} {r : Routine κ ε} {ex : Exn ε}

theorem Ordinator.Executes.ended (h : o.Executes id .kill r) {thrown : Option (Exn ε)} {e : Exn ε}
    (he : (thrown <|> r.exception) = some e) :
    Ended id e (Thread.back id .kill (finish o id thrown)).1
      (Thread.back id .kill (finish o id thrown)).2 := by
  obtain ⟨hback, -⟩ := h.back thrown
  rw [hback, he]
  refine ⟨rfl, rfl, ?_, r.ended thrown, List.mem_append_right _ List.mem_cons_self, rfl⟩
  rw [AList.mem_erase]
  exact fun hmem => hmem.1 rfl

/-- An act of a killed routine: it goes on, or its end is that of the `kill`. -/
theorem Ordinator.Executes.killed_step (h : o.Executes id .kill r) (hex : r.exception = some ex)
    {a : Act κ ε} (ha : a.OfBody ⟨o, .body id .kill⟩) :
    (∃ o', (Thread.step ⟨o, .body id .kill⟩ a).1 = ⟨o', .body id .kill⟩ ∧
        o'.Executes id .kill r) ∨
      ∃ e, Ended id e (Thread.step ⟨o, .body id .kill⟩ a).1
        (Thread.step ⟨o, .body id .kill⟩ a).2 := by
  obtain ⟨-, hallowed, hzero⟩ := ha
  cases a with
  | create id' f => exact Or.inl ⟨_, rfl, h.create hzero f⟩
  | resume id' => cases hallowed
  | kill id' ex' => cases hallowed
  | yield k =>
    obtain ⟨e, hyield, hstays⟩ := h.yield_killed k
    simp only [Thread.step, hyield]
    exact Or.inl ⟨_, rfl, hstays⟩
  | ret => exact Or.inr ⟨ex, h.ended hex⟩
  | throw e => exact Or.inr ⟨e, h.ended rfl⟩

theorem along_body_ended {P : Thread κ ε → Act κ ε → Prop} {t : Thread κ ε}
    (h : t.control = .main) {during : List (Act κ ε)} (hduring : Lib.Along Thread.step P t during)
    (hP : ∀ t a, P t a → t.control ≠ .main) : during = [] := by
  cases during with
  | nil => rfl
  | cons a during => exact absurd h (hP t a hduring.1)

/-- An act that hands control back to the main context is the body's last one. -/
theorem along_body_last {P : Thread κ ε → Act κ ε → Prop} {t t' : Thread κ ε} {a : Act κ ε}
    {seen : Seen κ ε} (hstep : t.step a = (t', seen)) (hmain : t'.control = .main)
    {during : List (Act κ ε)} (hduring : Lib.Along Thread.step P (t.step a).1 during)
    (hP : ∀ t a, P t a → t.control ≠ .main) :
    during = [] ∧ Lib.runs Thread.step t (a :: during) = (t', [(a, seen)]) := by
  rw [hstep] at hduring
  obtain rfl := along_body_ended hmain hduring hP
  rw [Lib.runs, hstep]
  exact ⟨rfl, rfl⟩

theorem Ordinator.Executes.killed_run (h : o.Executes id .kill r) (hex : r.exception = some ex)
    {during : List (Act κ ε)}
    (hduring : Lib.Along Thread.step (fun t a => a.OfBody t) ⟨o, .body id .kill⟩ during) :
    (∃ o', (Lib.runs Thread.step ⟨o, .body id .kill⟩ during).1 = ⟨o', .body id .kill⟩ ∧
        o'.Executes id .kill r) ∨
      ∃ a seen e, (Lib.runs Thread.step ⟨o, .body id .kill⟩ during).2.getLast? = some (a, seen) ∧
        Ended id e (Lib.runs Thread.step ⟨o, .body id .kill⟩ during).1 seen := by
  induction during generalizing o with
  | nil => exact Or.inl ⟨o, rfl, h⟩
  | cons a during ih =>
    rw [Lib.runs]
    rcases h.killed_step hex hduring.1 with ⟨o', hstep, hgoes⟩ | ⟨e, hended⟩
    · have hrest := hduring.2
      rw [hstep] at hrest ⊢
      rcases ih hgoes hrest with hgoes' | ⟨a', seen, e, hlast, hended⟩
      · exact Or.inl hgoes'
      · refine Or.inr ⟨a', seen, e, ?_, hended⟩
        rw [List.getLast?_cons, hlast, Option.getD_some]
    · have hnil := along_body_ended hended.main hduring.2 fun _ _ ha => ha.1
      subst hnil
      exact Or.inr ⟨a, _, e, rfl, hended⟩

end

/-! ## Reachable schedulers -/

theorem Thread.back_zero {id : Nat} (hid : id ≠ 0) (caller : Caller) (o : Ordinator κ ε) :
    0 ∈ (Thread.back id caller o).1.o.routines ↔ 0 ∈ o.routines :=
  mem_reap (Ne.symm hid) _

theorem Thread.switch_zero {id : Nat} (hid : id ≠ 0) (caller : Caller) (o : Ordinator κ ε)
    (r : Routine κ ε) :
    0 ∈ (Thread.switch id caller o r).1.o.routines ↔ 0 ∈ o.routines := by
  rcases Thread.switch_cases o id caller r with ⟨x, hswitch⟩ | hswitch
  · rw [hswitch]
  · rw [hswitch, Thread.back_zero hid, mem_finish]

/-- The ids that are switched to are not 0. -/
def Thread.Proper (t : Thread κ ε) : Prop := ∀ id caller, t.control = .body id caller → id ≠ 0

theorem Thread.switch_proper {id : Nat} (hid : id ≠ 0) (caller : Caller) (o : Ordinator κ ε)
    (r : Routine κ ε) : (Thread.switch id caller o r).1.Proper := by
  intro id' caller' hcontrol
  rcases Thread.switch_cases o id caller r with ⟨x, hswitch⟩ | hswitch
  · rw [hswitch] at hcontrol
    cases hcontrol
    exact hid
  · rw [hswitch] at hcontrol
    cases hcontrol

theorem Thread.main_proper (o : Ordinator κ ε) : (⟨o, .main⟩ : Thread κ ε).Proper := by
  intro id caller hcontrol
  cases hcontrol

theorem Thread.resume_zero (o : Ordinator κ ε) (id : Nat) (caller : Caller) :
    (Thread.resume o id caller).1.Proper ∧
      (0 ∈ (Thread.resume o id caller).1.o.routines ↔ 0 ∈ o.routines) := by
  unfold Thread.resume
  split
  · exact ⟨Thread.main_proper o, Iff.rfl⟩
  rename_i hid
  split
  · exact ⟨Thread.main_proper o, Iff.rfl⟩
  split
  · exact ⟨Thread.main_proper o, Iff.rfl⟩
  · exact ⟨Thread.switch_proper hid caller _ _, Thread.switch_zero hid caller _ _⟩

theorem Thread.kill_zero (o : Ordinator κ ε) (id : Nat) (ex : Option (Exn ε)) :
    (Thread.kill o id ex).1.Proper ∧
      (0 ∈ (Thread.kill o id ex).1.o.routines ↔ 0 ∈ o.routines) := by
  unfold Thread.kill
  split
  · exact ⟨Thread.main_proper o, Iff.rfl⟩
  rcases ex with _ | e
  · exact ⟨Thread.main_proper o, Iff.rfl⟩
  rcases hr : o.routines.lookup id with _ | r
  · exact ⟨Thread.main_proper o, Iff.rfl⟩
  · obtain ⟨hproper, hzero⟩ := Thread.resume_zero
      { o with routines := o.routines.insert id { r with exception := some e } } id .kill
    exact ⟨hproper, hzero.trans (mem_insert_of_lookup hr _ 0)⟩

theorem Thread.Proper.step {t : Thread κ ε} (h : t.Proper) (a : Act κ ε) :
    (t.step a).1.Proper ∧ (0 ∈ t.o.routines → 0 ∈ (t.step a).1.o.routines) := by
  obtain ⟨o, control⟩ := t
  cases a with
  | create id f =>
    have hcontrol : (Thread.step ⟨o, control⟩ (.create id f)).1 = ⟨(create o id f).1, control⟩ := by
      cases control <;> rfl
    rw [hcontrol]
    exact ⟨h, fun hmem => (mem_create_iff o id f 0).mpr (Or.inr hmem)⟩
  | resume id =>
    cases control with
    | main => exact ⟨(Thread.resume_zero o id .resume).1, (Thread.resume_zero o id .resume).2.mpr⟩
    | body id' caller => exact ⟨h, fun hmem => hmem⟩
  | kill id ex =>
    cases control with
    | main => exact ⟨(Thread.kill_zero o id ex).1, (Thread.kill_zero o id ex).2.mpr⟩
    | body id' caller => exact ⟨h, fun hmem => hmem⟩
  | yield k =>
    cases control with
    | main => exact ⟨h, fun hmem => hmem⟩
    | body id caller =>
      have hid := h id caller rfl
      have hmem := mem_yield o k 0
      -- `yield` gives control back, or throws into the body that called it
      simp only [Thread.step, Thread.yield]
      rcases hy : Coroutine.yield o k with ⟨o', _ | e⟩
      · rw [hy] at hmem
        exact ⟨Thread.main_proper _, fun hin => (Thread.back_zero hid caller o').mpr (hmem.mpr hin)⟩
      · rw [hy] at hmem
        exact ⟨h, hmem.mpr⟩
  | ret =>
    cases control with
    | main => exact ⟨h, fun hmem => hmem⟩
    | body id caller =>
      refine ⟨Thread.main_proper _, fun hin => ?_⟩
      exact (Thread.back_zero (h id caller rfl) caller _).mpr ((mem_finish o id none 0).mpr hin)
  | throw e =>
    cases control with
    | main => exact ⟨h, fun hmem => hmem⟩
    | body id caller =>
      refine ⟨Thread.main_proper _, fun hin => ?_⟩
      exact (Thread.back_zero (h id caller rfl) caller _).mpr ((mem_finish o id (some e) 0).mpr hin)

/-- A state without a routine 0 is sound: such a routine would still be there. -/
theorem reachable_sound {acts : List (Act κ ε)}
    (hacts : Lib.Along Thread.step (fun t a => a.Allowed t) Thread.init acts)
    (hzero : 0 ∉ (Lib.runs Thread.step Thread.init acts).1.o.routines) :
    (Lib.runs Thread.step Thread.init acts).1.Sound := by
  refine (Lib.runs_invariant_along
    (I := fun t : Thread κ ε => t.Proper ∧ (0 ∉ t.o.routines → t.Sound))
    (fun t a hI ha => ?_) ⟨Thread.main_proper _, fun _ => Thread.init_sound⟩ hacts).2 hzero
  obtain ⟨hproper, hkeep⟩ := hI.1.step a
  refine ⟨hproper, fun hno => ?_⟩
  have hsound := hI.2 fun hmem => hno (hkeep hmem)
  refine (hsound.step ha ?_).1
  cases a with
  | create id f =>
    rintro rfl
    refine hno ?_
    simp only [Thread.step]
    exact (mem_create_iff t.o 0 f 0).mpr (Or.inl rfl)
  | resume id => trivial
  | kill id ex => trivial
  | yield k => trivial
  | ret => trivial
  | throw e => trivial

/-- A `kill` of a live routine, in any state without a routine 0. Whatever its body does, at every
moment from the call on either the body runs, and its return or its exception ends the `kill` with
an exception, or the `kill` has ended so: the `resume` in it threw, and the routine is finished. -/
theorem kill_ends (acts : List (Act κ ε))
    (hacts : Lib.Along Thread.step (fun t a => a.Allowed t) Thread.init acts)
    (hmain : (Lib.runs Thread.step Thread.init acts).1.control = .main)
    (hzero : 0 ∉ (Lib.runs Thread.step Thread.init acts).1.o.routines) (id : Nat)
    (hlive : id ∈ (Lib.runs Thread.step Thread.init acts).1.o.routines) (ex : Exn ε)
    (during : List (Act κ ε))
    (hduring : Lib.Along Thread.step (fun t a => a.OfBody t)
      ((Lib.runs Thread.step Thread.init acts).1.step (.kill id (some ex))).1 during) :
    let run := Lib.runs Thread.step (Lib.runs Thread.step Thread.init acts).1
      (.kill id (some ex) :: during)
    (run.1.control = .body id .kill ∧
        Ended id ex (run.1.step .ret).1 (run.1.step .ret).2 ∧
        ∀ e, Ended id e (run.1.step (.throw e)).1 (run.1.step (.throw e)).2) ∨
      ∃ a seen e, run.2.getLast? = some (a, seen) ∧ Ended id e run.1 seen := by
  have hsound := reachable_sound hacts hzero
  generalize (Lib.runs Thread.step (Thread.init : Thread κ ε) acts).1 = t at *
  obtain ⟨o, control⟩ := t
  obtain rfl : control = .main := hmain
  have hwaits : o.Waits := hsound
  obtain ⟨r, hr⟩ := Lib.exists_lookup hlive
  have hexec := hwaits.killed hr ex
  have hkill : Thread.step ⟨o, .main⟩ (.kill id (some ex)) =
      Thread.switch id .kill (marked o id r ex) { r with exception := some ex } :=
    hwaits.kill_eq hr ex
  simp only [Lib.runs]
  rw [hkill] at hduring ⊢
  rcases Thread.switch_cases (marked o id r ex) id .kill { r with exception := some ex } with
    ⟨x, hswitch⟩ | hswitch
  · rw [hswitch] at hduring ⊢
    -- the body runs on with the exception pending, or it has ended in what it did
    rcases hexec.killed_run rfl hduring with ⟨o', hrun, hgoes⟩ | ⟨a, seen, e, hlast, hended⟩
    · rw [hrun]
      exact Or.inl ⟨rfl, hgoes.ended rfl, fun e => hgoes.ended rfl⟩
    · refine Or.inr ⟨a, seen, e, ?_, hended⟩
      rw [List.getLast?_cons, hlast, Option.getD_some]
  · -- an empty function ends at once
    rw [hswitch] at hduring ⊢
    have hended := hexec.ended (rfl : (none <|> some ex) = some ex)
    have hnil := along_body_ended hended.main hduring fun _ _ ha => ha.1
    subst hnil
    exact Or.inr ⟨_, _, ex, rfl, hended⟩

/-- A suspended body catches what it is killed with, yields again and throws. -/
theorem kill_ends_swallowed :
    let start := (Lib.runs Thread.step Thread.init
      ([.create 1 (some ()), .resume 1, .yield ()] : List (Act Unit Unit))).1
    let run := Lib.runs Thread.step start
      [.kill 1 (some (.user ())), .yield (), .yield (), .throw .outOfRange]
    (run.1.control = .body 1 .kill ∧
        Ended 1 (.user ()) (run.1.step .ret).1 (run.1.step .ret).2 ∧
        ∀ e, Ended 1 e (run.1.step (.throw e)).1 (run.1.step (.throw e)).2) ∨
      ∃ a seen e, run.2.getLast? = some (a, seen) ∧ Ended 1 e run.1 seen :=
  kill_ends [.create 1 (some ()), .resume 1, .yield ()] (by decide) rfl (by decide) 1 (by decide)
    (.user ()) [.yield (), .yield (), .throw .outOfRange] (by decide)

/-! ## What a `kill` leaves in the table -/

def Act.isYield : Act κ ε → Bool
  | .yield _ => true
  | _ => false

def Act.isCreate : Act κ ε → Bool
  | .create _ _ => true
  | _ => false

def yields (acts : List (Act κ ε)) : Nat := acts.countP Act.isYield

/-- There is no routine 0 that a `yield` could suspend; a pending exception it would throw. -/
def Ordinator.NoSpare (o : Ordinator κ ε) : Prop :=
  ∀ r, o.routines.lookup 0 = some r → r.exception ≠ none

theorem Ordinator.noSpare_of_lookup {o o' : Ordinator κ ε}
    (h : o'.routines.lookup 0 = o.routines.lookup 0) : o'.NoSpare ↔ o.NoSpare := by
  unfold Ordinator.NoSpare
  rw [h]

/-- The killed routine `id` executes, and the others are as in `o`. -/
structure Unwinds (o : Ordinator κ ε) (id : Nat) (r : Routine κ ε) (o' : Ordinator κ ε) :
    Prop where
  current : o'.current = id ∨ o'.current = 0
  lookup : o'.routines.lookup id = some r
  other : ∀ j, j ≠ id → o'.routines.lookup j = o.routines.lookup j

section

variable {o o' : Ordinator κ ε} {id : Nat} {r : Routine κ ε} {ex : Exn ε}

theorem Unwinds.back (h : Unwinds o id r o') (thrown : Option (Exn ε)) (j : Nat) :
    (Thread.back id .kill (finish o' id thrown)).1.o.routines.lookup j =
      if j = id then none else o.routines.lookup j := by
  rw [Thread.back, reap_finish_eq h.lookup]
  split
  · rename_i hj
    rw [hj]
    exact AList.lookup_erase id _
  · rename_i hj
    rw [AList.lookup_erase_ne hj, AList.lookup_insert_ne hj, h.other j hj]

/-- A `yield` of the routine throws, unless there is a routine 0 for it to suspend. -/
theorem Unwinds.yield (h : Unwinds o id r o') (hid : id ≠ 0) (hex : r.exception = some ex)
    (hzero : o'.current = id ∨ o.NoSpare) (k : κ) :
    ∃ e o₁, Thread.yield o' id .kill k = (⟨o₁, .body id .kill⟩, .ran (.raised k e)) ∧
      Unwinds o id r o₁ ∧ o₁.current = 0 := by
  by_cases hcur : o'.current = id
  · have hthrow := Coroutine.yield_killed (o := o') (hcur ▸ h.lookup) hex k
    exact ⟨ex, { o' with current := 0 }, by simp only [Thread.yield, hthrow],
      ⟨Or.inr rfl, h.lookup, h.other⟩, rfl⟩
  · have hcurrent := h.current.resolve_left hcur
    have hsame : o'.routines.lookup o'.current = o.routines.lookup 0 := by
      rw [hcurrent, h.other 0 hid.symm]
    rcases hspare : o.routines.lookup 0 with _ | r₀
    · have hnone := yield_nowhere (hsame.trans hspare) k
      exact ⟨.outOfRange, o', by simp only [Thread.yield, hnone], h, hcurrent⟩
    · obtain ⟨e, he⟩ := Option.ne_none_iff_exists'.mp (hzero.resolve_left hcur r₀ hspare)
      have hthrow := Coroutine.yield_killed (hsame.trans hspare) he k
      exact ⟨e, { o' with current := 0 }, by simp only [Thread.yield, hthrow],
        ⟨Or.inr rfl, h.lookup, h.other⟩, rfl⟩

theorem Unwinds.run (h : Unwinds o id r o') (hid : id ≠ 0) (hex : r.exception = some ex)
    {during : List (Act κ ε)}
    (hduring : Lib.Along Thread.step (fun t a => a.OfBody t) ⟨o', .body id .kill⟩ during)
    (hcreate : ∀ a ∈ during, a.isCreate = false)
    (hspare : o.NoSpare ∨ yields during ≤ if o'.current = id then 1 else 0)
    (hmain : (Lib.runs Thread.step ⟨o', .body id .kill⟩ during).1.control = .main) (j : Nat) :
    (Lib.runs Thread.step ⟨o', .body id .kill⟩ during).1.o.routines.lookup j =
      if j = id then none else o.routines.lookup j := by
  -- by induction on what the body does; with a routine 0 there it may yield once, else at will
  induction during generalizing o' with
  | nil => cases hmain
  | cons a during ih =>
    have hend : ∀ thrown, Thread.step ⟨o', .body id .kill⟩ a =
        Thread.back id .kill (finish o' id thrown) →
        (Lib.runs Thread.step ⟨o', .body id .kill⟩ (a :: during)).1.o.routines.lookup j =
          if j = id then none else o.routines.lookup j := by
      intro thrown hstep
      obtain ⟨-, hruns⟩ := along_body_last hstep rfl hduring.2 fun _ _ ha => ha.1
      rw [hruns]
      exact h.back thrown j
    obtain ⟨-, hallowed, -⟩ := hduring.1
    cases a with
    | create id' f => cases hcreate _ List.mem_cons_self
    | resume id' => cases hallowed
    | kill id' ex' => cases hallowed
    | yield k =>
      have hcount : yields (Act.yield (ε := ε) k :: during) = yields during + 1 :=
        List.countP_cons_of_pos rfl
      rw [hcount] at hspare
      have hzero : o'.current = id ∨ o.NoSpare := by
        rcases hspare with hnone | hle
        · exact Or.inr hnone
        · by_contra hno
          rw [if_neg fun hcur => hno (Or.inl hcur)] at hle
          exact absurd hle (Nat.not_succ_le_zero _)
      have hspare' : ∀ c : Nat, o.NoSpare ∨ yields during ≤ if c = id then 1 else 0 := by
        refine fun c => hspare.imp_right fun hle => ?_
        have hone : yields during + 1 ≤ 1 := le_trans hle (by split <;> decide)
        rw [Nat.le_zero.mp (Nat.le_of_succ_le_succ hone)]
        exact Nat.zero_le _
      obtain ⟨e, o₁, hyield, hstays, -⟩ := h.yield hid hex hzero k
      have hstep : Thread.step ⟨o', .body id .kill⟩ (.yield k) = Thread.yield o' id .kill k := rfl
      have hrest := hduring.2
      rw [Lib.runs] at hmain ⊢
      rw [hstep, hyield] at hmain hrest ⊢
      exact ih hstays hrest (fun a ha => hcreate a (List.mem_cons_of_mem _ ha)) (hspare' _) hmain
    | ret => exact hend none rfl
    | throw e => exact hend (some e) rfl

/-- A `kill` takes its routine out of the table and leaves the others, if the body creates none and
there is no routine 0, or the body does not yield a second time. -/
theorem kill_frees (hid : id ≠ 0) (hr : o.routines.lookup id = some r)
    (hfin : r.finished = false) (ex : Exn ε) {during : List (Act κ ε)}
    (hduring : Lib.Along Thread.step (fun t a => a.OfBody t) (Thread.kill o id (some ex)).1 during)
    (hcreate : ∀ a ∈ during, a.isCreate = false)
    (hspare : o.NoSpare ∨ yields during ≤ 1)
    (hmain : (Lib.runs Thread.step (Thread.kill o id (some ex)).1 during).1.control = .main)
    (j : Nat) :
    (Lib.runs Thread.step (Thread.kill o id (some ex)).1 during).1.o.routines.lookup j =
      if j = id then none else o.routines.lookup j := by
  have hstart : Unwinds o id { r with exception := some ex } (marked o id r ex) :=
    ⟨Or.inl rfl, AList.lookup_insert _, fun j hj => AList.lookup_insert_ne hj⟩
  rw [Thread.kill_eq hid hr hfin ex] at hduring hmain ⊢
  rcases Thread.switch_cases (marked o id r ex) id .kill { r with exception := some ex } with
    ⟨x, hswitch⟩ | hswitch
  · rw [hswitch] at hduring hmain ⊢
    refine hstart.run hid rfl hduring hcreate (hspare.imp_right fun hle => ?_) hmain j
    rw [marked, if_pos rfl]
    exact hle
  · rw [hswitch] at hduring ⊢
    obtain rfl := along_body_ended rfl hduring fun _ _ ha => ha.1
    exact hstart.back none j

/-- The `yield` behind the one that cleared `current` suspends routine 0 with the killed code. -/
theorem Unwinds.yield_spare (h : Unwinds o id r o') (hid : id ≠ 0) (hfin : r.finished = false)
    (hcur : o'.current = 0) {r₀ : Routine κ ε} (hr₀ : o.routines.lookup 0 = some r₀)
    (hnone : r₀.exception = none) (k : κ) :
    Thread.yield o' id .kill k =
      (⟨⟨o'.routines.insert 0 { r₀ with ctx := .inYield k }, o'.finished, 0⟩, .main⟩,
        .back id .kill (.ok true)) := by
  have hlook : o'.routines.lookup o'.current = some r₀ := by
    rw [hcur, h.other 0 hid.symm, hr₀]
  have hyield := Coroutine.yield_idle hlook hnone k
  have hkeep : (o'.routines.insert 0 { r₀ with ctx := .inYield k }).lookup id = some r := by
    rw [AList.lookup_insert_ne hid, h.lookup]
  simp only [Thread.yield, hyield, hcur, Thread.back, reap, hkeep, hfin, Bool.false_eq_true,
    if_false]

/-- The routine that was killed is still there, and routine 0 has its place. -/
structure Stays (o : Ordinator κ ε) (id : Nat) (o' : Ordinator κ ε) : Prop where
  stays : o'.routines.lookup id ≠ none
  others : ∀ j, j ≠ id → j ≠ 0 → o'.routines.lookup j = o.routines.lookup j
  spare : ¬ o'.NoSpare

theorem Unwinds.stays (h : Unwinds o id r o') (hid : id ≠ 0) (hex : r.exception = some ex)
    (hfin : r.finished = false) {r₀ : Routine κ ε} (hr₀ : o.routines.lookup 0 = some r₀)
    (hnone : r₀.exception = none) {during : List (Act κ ε)}
    (hduring : Lib.Along Thread.step (fun t a => a.OfBody t) ⟨o', .body id .kill⟩ during)
    (hcreate : ∀ a ∈ during, a.isCreate = false)
    (hmore : (if o'.current = id then 1 else 0) < yields during) :
    Stays o id (Lib.runs Thread.step ⟨o', .body id .kill⟩ during).1.o := by
  -- by induction on what the body does; its first `yield` clears `current`
  induction during generalizing o' with
  | nil => exact absurd hmore (Nat.not_lt_zero _)
  | cons a during ih =>
    have hlast : ∀ thrown, Thread.step ⟨o', .body id .kill⟩ a =
        Thread.back id .kill (finish o' id thrown) → during = [] := fun thrown hstep =>
      (along_body_last hstep rfl hduring.2 fun _ _ ha => ha.1).1
    obtain ⟨-, hallowed, -⟩ := hduring.1
    cases a with
    | create id' f => cases hcreate _ List.mem_cons_self
    | resume id' => cases hallowed
    | kill id' ex' => cases hallowed
    | yield k =>
      have hstep : Thread.step ⟨o', .body id .kill⟩ (.yield k) = Thread.yield o' id .kill k := rfl
      by_cases hcur : o'.current = id
      · obtain ⟨e, o₁, hyield, hunwinds, hcur₁⟩ := h.yield hid hex (Or.inl hcur) k
        have hcount : yields (Act.yield (ε := ε) k :: during) = yields during + 1 :=
          List.countP_cons_of_pos rfl
        rw [hcount, if_pos hcur] at hmore
        have hrest := hduring.2
        rw [hstep, hyield] at hrest
        rw [Lib.runs, hstep, hyield]
        refine ih hunwinds hrest (fun a ha => hcreate a (List.mem_cons_of_mem _ ha)) ?_
        rw [hcur₁, if_neg hid.symm]
        exact Nat.lt_of_succ_lt_succ hmore
      · have hyield := h.yield_spare hid hfin (h.current.resolve_left hcur) hr₀ hnone k
        obtain ⟨rfl, hruns⟩ := along_body_last (hstep.trans hyield) rfl hduring.2
          fun _ _ ha => ha.1
        rw [hruns]
        refine ⟨?_, fun j hj hj0 => ?_, fun hspare => hspare _ (AList.lookup_insert _) hnone⟩
        · simp [AList.lookup_insert_ne hid, h.lookup]
        · exact (AList.lookup_insert_ne hj0).trans (h.other j hj)
    | ret =>
      rw [hlast none rfl] at hmore
      exact absurd hmore (Nat.not_lt_zero _)
    | throw e =>
      rw [hlast (some e) rfl] at hmore
      exact absurd hmore (Nat.not_lt_zero _)

/-- With a routine 0 there, a body that yields a second time outlives its `kill`. -/
theorem kill_stays (hid : id ≠ 0) (hr : o.routines.lookup id = some r) (hfin : r.finished = false)
    (ex : Exn ε) {during : List (Act κ ε)}
    (hduring : Lib.Along Thread.step (fun t a => a.OfBody t) (Thread.kill o id (some ex)).1 during)
    (hcreate : ∀ a ∈ during, a.isCreate = false)
    (hspare : ¬ o.NoSpare) (hmore : 1 < yields during) :
    Stays o id (Lib.runs Thread.step (Thread.kill o id (some ex)).1 during).1.o := by
  have hstart : Unwinds o id { r with exception := some ex } (marked o id r ex) :=
    ⟨Or.inl rfl, AList.lookup_insert _, fun j hj => AList.lookup_insert_ne hj⟩
  obtain ⟨r₀, hr₀, hnone⟩ : ∃ r₀, o.routines.lookup 0 = some r₀ ∧ r₀.exception = none := by
    simpa only [Ordinator.NoSpare, not_forall, not_not, exists_prop] using hspare
  rw [Thread.kill_eq hid hr hfin ex] at hduring ⊢
  rcases Thread.switch_cases (marked o id r ex) id .kill { r with exception := some ex } with
    ⟨x, hswitch⟩ | hswitch
  · rw [hswitch] at hduring ⊢
    exact hstart.stays hid rfl hfin hr₀ hnone hduring hcreate (by rwa [marked, if_pos rfl])
  · rw [hswitch] at hduring
    rw [along_body_ended rfl hduring fun _ _ ha => ha.1] at hmore
    exact absurd hmore (Nat.not_lt_zero _)

end

end AdvCppTP.Coroutine
