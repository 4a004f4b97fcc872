import AdvCppTP.Lib.Progress
import AdvCppTP.Process.Spawn
import Mathlib.Algebra.Ring.Parity

/-! A program with any number of `Process` objects, whose children inherit what is open when they
are forked: which processes keep the pipes of an object open. -/

namespace AdvCppTP.Process

/-- The pipes of the object `i`. -/
def inPipe (i : Nat) : Nat := 2 * i

def outPipe (i : Nat) : Nat := 2 * i + 1

/-- The parent's descriptors and objects, and the descriptors of the children that still run. The
`i`-th object is that of the `i`-th child; `closedAt i` tells how many children there were when its
`child_stdin_` was closed. -/
structure Family where
  table : Table
  count : Nat
  objects : Nat → ProcessObject
  children : Nat → Option Table
  closedAt : Nat → Option Nat

def Family.init (t : Table) : Family :=
  ⟨t, 0, fun _ => ⟨none, none⟩, fun _ => none, fun _ => none⟩

/-- `Process::closeStdin()` of the object `i` -/
def Family.closeStdin (i : Nat) (s : Family) : Family :=
  match (s.objects i).childStdin with
  | none => s
  | some fd =>
    { s with
      table := s.table.close fd
      objects := Function.update s.objects i { s.objects i with childStdin := none }
      closedAt := Function.update s.closedAt i (some s.count) }

theorem Family.closeStdin_of_open {s : Family} {i fd : Nat}
    (hfd : (s.objects i).childStdin = some fd) :
    s.closeStdin i = { s with
      table := s.table.close fd
      objects := Function.update s.objects i { s.objects i with childStdin := none }
      closedAt := Function.update s.closedAt i (some s.count) } := by
  rw [closeStdin, hfd]

def Family.closeStdout (i : Nat) (s : Family) : Family :=
  match (s.objects i).childStdout with
  | none => s
  | some fd =>
    { s with
      table := s.table.close fd
      objects := Function.update s.objects i { s.objects i with childStdout := none } }

theorem Family.closeStdout_of_open {s : Family} {i fd : Nat}
    (hfd : (s.objects i).childStdout = some fd) :
    s.closeStdout i = { s with
      table := s.table.close fd
      objects := Function.update s.objects i { s.objects i with childStdout := none } } := by
  rw [closeStdout, hfd]

theorem Family.count_closeStdin (i : Nat) (s : Family) : (s.closeStdin i).count = s.count := by
  unfold closeStdin
  split <;> rfl

/-- `Process::close()` -/
def Family.close (i : Nat) (s : Family) : Family := (s.closeStdin i).closeStdout i

def Family.exits (i : Nat) (s : Family) : Family :=
  { s with children := Function.update s.children i none }

/-- What the program does next, or the child `i`, which may `exit` at any time; the program may open
and close other files too. -/
inductive Op
  | construct (calls : Calls)
  | closeStdin (i : Nat)
  | close (i : Nat)
  | destroy (i : Nat)
  | exit (i : Nat)
  | openOther (name : Nat)
  | closeOther (fd : Nat)
  deriving DecidableEq, Repr

/-- The program catches what a constructor throws. -/
def Family.construct (calls : Calls) (s : Family) : Family :=
  match Process.construct (inPipe s.count) (outPipe s.count) calls ⟨s.table, none⟩ with
  | .returns p ⟨table, child⟩ =>
    { s with
      table
      count := s.count + 1
      objects := Function.update s.objects s.count p
      children := Function.update s.children s.count child }
  | .throws _ ⟨table, _⟩ => { s with table }
  | .waits _ => s

theorem Family.construct_of_returns {s : Family} {calls : Calls} {p : ProcessObject}
    {table : Table} {child : Option Table}
    (h : Process.construct (inPipe s.count) (outPipe s.count) calls ⟨s.table, none⟩ =
      .returns p ⟨table, child⟩) :
    s.construct calls = { s with
      table
      count := s.count + 1
      objects := Function.update s.objects s.count p
      children := Function.update s.children s.count child } := by
  rw [construct, h]

/-- The standard input and output of the program stay open. -/
def Family.step (s : Family) : Op → Option Family
  | .construct calls => some (s.construct calls)
  | .closeStdin i => if i < s.count then some (s.closeStdin i) else none
  | .close i => if i < s.count then some (s.close i) else none
  -- `~Process` waits until the child is gone
  | .destroy i => if i < s.count then some ((s.close i).exits i) else none
  | .exit i => if i < s.count then some (s.exits i) else none
  | .openOther name => some { s with table := s.table.opening (.other name) }
  | .closeOther fd =>
    match s.table.entry fd with
    | some (.other _) => if 2 ≤ fd then some { s with table := s.table.close fd } else none
    | _ => none

/-! ## Who holds what -/

theorem inPipe_inj {i j : Nat} : inPipe i = inPipe j ↔ i = j := by
  unfold inPipe
  omega

theorem outPipe_inj {i j : Nat} : outPipe i = outPipe j ↔ i = j := by
  unfold outPipe
  omega

theorem inPipe_ne_outPipe (i j : Nat) : inPipe i ≠ outPipe j := by
  unfold inPipe outPipe
  omega

/-- The parent holds one end of each pipe, until its object closes it. -/
structure Ends (table : Table) (objects : Nat → ProcessObject) : Prop where
  standard : ∀ fd < 2, ∃ name, table.entry fd = some (.other name)
  stdin : ∀ i fd, table.entry fd = some (.writeEnd (inPipe i)) ↔ (objects i).childStdin = some fd
  stdout : ∀ i fd, table.entry fd = some (.readEnd (outPipe i)) ↔ (objects i).childStdout = some fd
  notIn : ∀ i fd, table.entry fd ≠ some (.readEnd (inPipe i))
  notOut : ∀ i fd, table.entry fd ≠ some (.writeEnd (outPipe i))

/-- A child holds the other ends of its own pipes, as its standard input and output, and the input
pipes of the objects that were open when it was forked. -/
structure Family.Held (s : Family) : Prop where
  ends : Ends s.table s.objects
  unborn : ∀ i, s.count ≤ i →
    s.objects i = ⟨none, none⟩ ∧ s.children i = none ∧ s.closedAt i = none
  closed : ∀ i < s.count, (s.objects i).childStdin = none ↔ s.closedAt i ≠ none
  early : ∀ i c, s.closedAt i = some c → c ≤ s.count
  childIn : ∀ j child, s.children j = some child →
    ∀ i fd, child.entry fd = some (.readEnd (inPipe i)) ↔ i = j ∧ fd = 0
  childOut : ∀ j child, s.children j = some child →
    ∀ i fd, child.entry fd = some (.writeEnd (outPipe i)) ↔ i = j ∧ fd = 1
  childKeeps : ∀ j child, s.children j = some child →
    ∀ i, (∃ fd, child.entry fd = some (.writeEnd (inPipe i))) ↔
      i < j ∧ ∀ c, s.closedAt i = some c → j < c

theorem Ends.two_le {table : Table} {objects : Nat → ProcessObject} (h : Ends table objects)
    {fd : Nat} {file : File} (hfile : table.entry fd = some file)
    (hother : ∀ name, file ≠ .other name) : 2 ≤ fd := by
  by_contra hlt
  obtain ⟨name, hname⟩ := h.standard fd (Nat.not_le.mp hlt)
  rw [hname] at hfile
  exact hother name (Option.some.inj hfile).symm

/-- Closing a descriptor takes it from the object that has it. -/
theorem Ends.close {table : Table} {objects objects' : Nat → ProcessObject}
    (h : Ends table objects) {fd : Nat} (hfd : 2 ≤ fd)
    (hin : ∀ i, (objects' i).childStdin =
      if (objects i).childStdin = some fd then none else (objects i).childStdin)
    (hout : ∀ i, (objects' i).childStdout =
      if (objects i).childStdout = some fd then none else (objects i).childStdout) :
    Ends (table.close fd) objects' where
  standard fd' hfd' := by
    rw [Table.entry_close, if_neg (by omega)]
    exact h.standard fd' hfd'
  stdin i fd' := by
    have hold := h.stdin i fd'
    rw [Table.entry_close, hin]
    grind
  stdout i fd' := by
    have hold := h.stdout i fd'
    rw [Table.entry_close, hout]
    grind
  notIn i fd' := by
    rw [Table.entry_close]
    split
    · exact fun heq => by cases heq
    · exact h.notIn i fd'
  notOut i fd' := by
    rw [Table.entry_close]
    split
    · exact fun heq => by cases heq
    · exact h.notOut i fd'

theorem Ends.openOther {table : Table} {objects : Nat → ProcessObject} (h : Ends table objects)
    (name : Nat) : Ends (table.opening (.other name)) objects := by
  have hfree := table.entry_lowest
  have hkeep : ∀ fd file, (∀ name, file ≠ .other name) →
      ((table.opening (.other name)).entry fd = some file ↔ table.entry fd = some file) := by
    intro fd file hother
    have := hother name
    rw [Table.entry_opening]
    grind
  refine ⟨fun fd hfd => ?_, fun i fd => ?_, fun i fd => ?_, fun i fd => ?_, fun i fd => ?_⟩
  · obtain ⟨name', hname'⟩ := h.standard fd hfd
    refine ⟨name', ?_⟩
    rw [Table.entry_opening, if_neg ?_, hname']
    rintro rfl
    rw [hfree] at hname'
    cases hname'
  · rw [hkeep fd _ (by simp)]
    exact h.stdin i fd
  · rw [hkeep fd _ (by simp)]
    exact h.stdout i fd
  · rw [ne_eq, hkeep fd _ (by simp)]
    exact h.notIn i fd
  · rw [ne_eq, hkeep fd _ (by simp)]
    exact h.notOut i fd

namespace Family.Held

variable {s : Family}

theorem running (h : s.Held) {j : Nat} {child : Table} (hj : s.children j = some child) :
    j < s.count := by
  by_contra hge
  rw [(h.unborn j (Nat.not_lt.mp hge)).2.1] at hj
  cases hj

/-- No two objects have one descriptor. -/
theorem stdin_unique (h : s.Held) {i k fd : Nat} (hi : (s.objects i).childStdin = some fd)
    (hk : (s.objects k).childStdin = some fd) : k = i := by
  have hboth := ((h.ends.stdin k fd).mpr hk).symm.trans ((h.ends.stdin i fd).mpr hi)
  exact inPipe_inj.mp (File.writeEnd.inj (Option.some.inj hboth))

theorem stdout_unique (h : s.Held) {i k fd : Nat} (hi : (s.objects i).childStdout = some fd)
    (hk : (s.objects k).childStdout = some fd) : k = i := by
  have hboth := ((h.ends.stdout k fd).mpr hk).symm.trans ((h.ends.stdout i fd).mpr hi)
  exact outPipe_inj.mp (File.readEnd.inj (Option.some.inj hboth))

theorem stdin_ne_stdout (h : s.Held) {i k fd : Nat} (hi : (s.objects i).childStdin = some fd)
    (hk : (s.objects k).childStdout = some fd) : False := by
  have hboth := ((h.ends.stdout k fd).mpr hk).symm.trans ((h.ends.stdin i fd).mpr hi)
  cases hboth

theorem closeStdin (h : s.Held) {i : Nat} (hi : i < s.count) : (s.closeStdin i).Held := by
  rcases hfd : (s.objects i).childStdin with _ | fd
  · rwa [Family.closeStdin, hfd]
  · have hopen := (h.ends.stdin i fd).mpr hfd
    have hnever : s.closedAt i = none := by
      by_contra hclosed
      rw [(h.closed i hi).mpr hclosed] at hfd
      cases hfd
    rw [Family.closeStdin_of_open hfd]
    exact {
      ends := by
        refine h.ends.close (h.ends.two_le hopen (by simp)) (fun k => ?_) fun k => ?_
        · have := fun hk => h.stdin_unique (k := k) hfd hk
          simp only [Function.update_apply]
          grind
        · have := fun hk => h.stdin_ne_stdout (k := k) hfd hk
          simp only [Function.update_apply]
          grind
      unborn := fun k hk => by
        have hne : k ≠ i := fun heq => absurd hi (Nat.not_lt.mpr (heq ▸ hk))
        simp only [Function.update_of_ne hne]
        exact h.unborn k hk
      closed := fun k hk => by
        have hold := h.closed k hk
        simp only [Function.update_apply]
        grind
      early := fun k c hc => by
        have hold := h.early k c
        simp only [Function.update_apply] at hc
        grind
      childIn := h.childIn
      childOut := h.childOut
      childKeeps := fun j child hj k => by
        have hold := h.childKeeps j child hj k
        have hrun := h.running hj
        simp only [Function.update_apply]
        grind }

theorem closeStdout (h : s.Held) {i : Nat} (hi : i < s.count) : (s.closeStdout i).Held := by
  rcases hfd : (s.objects i).childStdout with _ | fd
  · rwa [Family.closeStdout, hfd]
  · have hopen := (h.ends.stdout i fd).mpr hfd
    rw [Family.closeStdout_of_open hfd]
    exact {
      ends := by
        refine h.ends.close (h.ends.two_le hopen (by simp)) (fun k => ?_) fun k => ?_
        · have := fun hk => h.stdin_ne_stdout (i := k) hk hfd
          simp only [Function.update_apply]
          grind
        · have := fun hk => h.stdout_unique (k := k) hfd hk
          simp only [Function.update_apply]
          grind
      unborn := fun k hk => by
        have hne : k ≠ i := fun heq => absurd hi (Nat.not_lt.mpr (heq ▸ hk))
        simp only [Function.update_of_ne hne]
        exact h.unborn k hk
      closed := fun k hk => by
        have hold := h.closed k hk
        simp only [Function.update_apply]
        grind
      early := h.early
      childIn := h.childIn
      childOut := h.childOut
      childKeeps := h.childKeeps }

theorem exits (h : s.Held) (i : Nat) : (s.exits i).Held := by
  have hstill : ∀ j child, (s.exits i).children j = some child → s.children j = some child := by
    intro j child hj
    simp only [Family.exits, Function.update_apply] at hj
    split at hj
    · cases hj
    · exact hj
  exact {
    ends := h.ends
    unborn := fun k hk => by
      obtain ⟨hobject, hchild, hclosed⟩ := h.unborn k hk
      refine ⟨hobject, ?_, hclosed⟩
      simp only [Family.exits, Function.update_apply, hchild, ite_self]
    closed := h.closed
    early := h.early
    childIn := fun j child hj => h.childIn j child (hstill j child hj)
    childOut := fun j child hj => h.childOut j child (hstill j child hj)
    childKeeps := fun j child hj => h.childKeeps j child (hstill j child hj) }

theorem withTable (h : s.Held) {table : Table} (hends : Ends table s.objects) :
    Family.Held { s with table } :=
  ⟨hends, h.unborn, h.closed, h.early, h.childIn, h.childOut, h.childKeeps⟩

/-- The descriptors of the parent with the ends that a new object gets. -/
theorem ends_construct (h : s.Held) {w r : Nat} (hw : s.table.entry w = none)
    (hr : s.table.entry r = none) (hne : w ≠ r) :
    Ends ((s.table.set w (some (.writeEnd (inPipe s.count)))).set r
        (some (.readEnd (outPipe s.count))))
      (Function.update s.objects s.count ⟨some w, some r⟩) := by
  have hborn := (h.unborn s.count (Nat.le_refl _)).1
  have hin := @inPipe_inj
  have hout := @outPipe_inj
  refine ⟨fun fd hfd => ?_, fun i fd => ?_, fun i fd => ?_, fun i fd => ?_, fun i fd => ?_⟩
  · obtain ⟨name, hname⟩ := h.ends.standard fd hfd
    refine ⟨name, ?_⟩
    rw [Table.entry_set, Table.entry_set]
    grind
  · have hold := h.ends.stdin i fd
    have := @hin i s.count
    simp only [Table.entry_set, Function.update_apply]
    grind
  · have hold := h.ends.stdout i fd
    have := @hout i s.count
    simp only [Table.entry_set, Function.update_apply]
    grind
  · have hold := h.ends.notIn i fd
    have := inPipe_ne_outPipe i s.count
    simp only [Table.entry_set]
    grind
  · have hold := h.ends.notOut i fd
    have := inPipe_ne_outPipe s.count i
    simp only [Table.entry_set]
    grind

/-- What a child that is forked in this state has open. -/
def forked (s : Family) : Table :=
  (s.table.set 0 (some (.readEnd (inPipe s.count)))).set 1 (some (.writeEnd (outPipe s.count)))

theorem forked_in (h : s.Held) (i fd : Nat) :
    (forked s).entry fd = some (.readEnd (inPipe i)) ↔ i = s.count ∧ fd = 0 := by
  have hold := h.ends.notIn i fd
  have := @inPipe_inj s.count i
  simp only [forked, Table.entry_set]
  grind

theorem forked_out (h : s.Held) (i fd : Nat) :
    (forked s).entry fd = some (.writeEnd (outPipe i)) ↔ i = s.count ∧ fd = 1 := by
  have hold := h.ends.notOut i fd
  have := @outPipe_inj s.count i
  simp only [forked, Table.entry_set]
  grind

theorem forked_keeps (h : s.Held) (i : Nat) :
    (∃ fd, (forked s).entry fd = some (.writeEnd (inPipe i))) ↔
      i < s.count ∧ ∀ c, s.closedAt i = some c → s.count < c := by
  have hsame : (∃ fd, (forked s).entry fd = some (.writeEnd (inPipe i))) ↔
      (s.objects i).childStdin ≠ none := by
    constructor
    · rintro ⟨fd, hfd⟩
      have := inPipe_ne_outPipe i s.count
      have hold := h.ends.stdin i fd
      simp only [forked, Table.entry_set] at hfd
      grind
    · intro hopen
      obtain ⟨fd, hfd⟩ := Option.ne_none_iff_exists'.mp hopen
      have hentry := (h.ends.stdin i fd).mpr hfd
      have hlow := h.ends.two_le hentry (by simp)
      refine ⟨fd, ?_⟩
      rw [forked, Table.entry_set, if_neg (by omega), Table.entry_set, if_neg (by omega), hentry]
  rw [hsame]
  constructor
  · intro hopen
    have hi : i < s.count := by
      by_contra hge
      rw [(h.unborn i (Nat.not_lt.mp hge)).1] at hopen
      exact hopen rfl
    refine ⟨hi, fun c hc => absurd ((h.closed i hi).mpr ?_) hopen⟩
    rw [hc]
    exact Option.some_ne_none c
  · rintro ⟨hi, hnever⟩ hclosed
    obtain ⟨c, hc⟩ := Option.ne_none_iff_exists'.mp ((h.closed i hi).mp hclosed)
    exact absurd (hnever c hc) (Nat.not_lt.mpr (h.early i c hc))

theorem construct (h : s.Held) (calls : Calls) : (s.construct calls).Held := by
  by_cases hall : calls = ⟨true, true, true⟩
  · obtain ⟨f, hreturns⟩ := construct_returns s.table (inPipe s.count) (outPipe s.count)
    obtain ⟨-, h₂, -⟩ := f.rising
    have hlow : 2 ≤ f.inRead := by
      by_contra hlt
      obtain ⟨name, hname⟩ := h.ends.standard f.inRead (Nat.not_le.mp hlt)
      rw [f.free _ List.mem_cons_self] at hname
      cases hname
    have hends := h.ends_construct (f.free f.inWrite (by simp)) (f.free f.outRead (by simp))
      (Nat.ne_of_lt h₂)
    rw [f.child_of_le _ _ hlow, ← hall] at hreturns
    rw [Family.construct_of_returns hreturns]
    exact {
      ends := hends
      unborn := fun k hk => by
        have hne : k ≠ s.count := by
          rintro rfl
          exact Nat.lt_irrefl _ hk
        simp only [Function.update_of_ne hne]
        exact h.unborn k (Nat.le_of_succ_le hk)
      closed := fun k hk => by
        have hnew := (h.unborn s.count (Nat.le_refl _)).2.2
        have hold := h.closed k
        simp only [Function.update_apply]
        grind
      early := fun k c hc => Nat.le_succ_of_le (h.early k c hc)
      childIn := fun j child hj => by
        simp only [Function.update_apply] at hj
        split at hj
        case isTrue heq =>
          obtain rfl := heq
          obtain rfl := Option.some.inj hj
          exact h.forked_in
        case isFalse => exact h.childIn j child hj
      childOut := fun j child hj => by
        simp only [Function.update_apply] at hj
        split at hj
        case isTrue heq =>
          obtain rfl := heq
          obtain rfl := Option.some.inj hj
          exact h.forked_out
        case isFalse => exact h.childOut j child hj
      childKeeps := fun j child hj => by
        simp only [Function.update_apply] at hj
        split at hj
        case isTrue heq =>
          obtain rfl := heq
          obtain rfl := Option.some.inj hj
          exact h.forked_keeps
        case isFalse => exact h.childKeeps j child hj }
  · obtain ⟨x, hthrows⟩ := construct_throws hall s.table
    rw [Family.construct, hthrows]
    exact h

theorem step (h : s.Held) {op : Op} {s' : Family} (hstep : s.step op = some s') : s'.Held := by
  cases op with
  | construct calls =>
    obtain rfl := Option.some.inj hstep
    exact h.construct calls
  | closeStdin i =>
    simp only [Family.step, Option.ite_none_right_eq_some, Option.some.injEq] at hstep
    obtain ⟨hi, rfl⟩ := hstep
    exact h.closeStdin hi
  | close i =>
    simp only [Family.step, Option.ite_none_right_eq_some, Option.some.injEq] at hstep
    obtain ⟨hi, rfl⟩ := hstep
    exact (h.closeStdin hi).closeStdout (by rwa [Family.count_closeStdin])
  | destroy i =>
    simp only [Family.step, Option.ite_none_right_eq_some, Option.some.injEq] at hstep
    obtain ⟨hi, rfl⟩ := hstep
    exact ((h.closeStdin hi).closeStdout (by rwa [Family.count_closeStdin])).exits i
  | exit i =>
    simp only [Family.step, Option.ite_none_right_eq_some, Option.some.injEq] at hstep
    obtain ⟨hi, rfl⟩ := hstep
    exact h.exits i
  | openOther name =>
    obtain rfl := Option.some.inj hstep
    exact h.withTable (h.ends.openOther name)
  | closeOther fd =>
    rw [Family.step] at hstep
    split at hstep
    case h_1 name hname =>
      simp only [Option.ite_none_right_eq_some, Option.some.injEq] at hstep
      obtain ⟨hfd, rfl⟩ := hstep
      refine h.withTable (h.ends.close hfd (fun i => ?_) fun i => ?_)
      · have hold := h.ends.stdin i fd
        grind
      · have hold := h.ends.stdout i fd
        grind
    case h_2 => cases hstep

end Family.Held

/-- The files of a program that has no pipes yet, its standard input and output among them. -/
structure Plain (t : Table) : Prop where
  standard : ∀ fd < 2, ∃ name, t.entry fd = some (.other name)
  others : ∀ fd file, t.entry fd = some file → ∃ name, file = .other name

theorem Family.held_init {t : Table} (h : Plain t) : (Family.init t).Held where
  ends := by
    have hothers := h.others
    refine ⟨h.standard, fun i fd => ?_, fun i fd => ?_, fun i fd => ?_, fun i fd => ?_⟩
    · have := hothers fd (.writeEnd (inPipe i))
      simp only [init]
      grind
    · have := hothers fd (.readEnd (outPipe i))
      simp only [init]
      grind
    · intro hfd
      obtain ⟨name, hname⟩ := hothers fd _ hfd
      cases hname
    · intro hfd
      obtain ⟨name, hname⟩ := hothers fd _ hfd
      cases hname
  unborn i _ := ⟨rfl, rfl, rfl⟩
  closed i hi := absurd hi (Nat.not_lt_zero i)
  early i c hc := by cases hc
  childIn j child hj := by cases hj
  childOut j child hj := by cases hj
  childKeeps j child hj := by cases hj

theorem Family.held_of_run {t : Table} (ht : Plain t) {ops : List Op} {s : Family}
    (hrun : Lib.steps Family.step (.init t) ops = some s) : s.Held :=
  Lib.steps_invariant (fun _ _ _ hs => hs.step) (Family.held_init ht) hrun

/-- Whatever constructors fail: what the program has open is its own files, and the streams of its
objects. -/
theorem descriptors_accounted {t : Table} (ht : Plain t) {ops : List Op} {s : Family}
    (hrun : Lib.steps Family.step (.init t) ops = some s) {fd : Nat} {file : File}
    (hfile : s.table.entry fd = some file) :
    (∃ name, file = .other name) ∨
      ∃ i < s.count, (s.objects i).childStdin = some fd ∨ (s.objects i).childStdout = some fd := by
  have h := Family.held_of_run ht hrun
  have hborn : ∀ i, (s.objects i).childStdin = some fd ∨ (s.objects i).childStdout = some fd →
      i < s.count := by
    intro i hi
    by_contra hge
    rw [(h.unborn i (Nat.not_lt.mp hge)).1] at hi
    rcases hi with hi | hi <;> cases hi
  have hpipe : ∀ p, (∃ i, p = inPipe i) ∨ ∃ i, p = outPipe i := by
    intro p
    rcases Nat.even_or_odd' p with ⟨i, hp⟩
    exact hp.imp (fun h => ⟨i, h⟩) fun h => ⟨i, h⟩
  cases file with
  | other name => exact .inl ⟨name, rfl⟩
  | readEnd p =>
    rcases hpipe p with ⟨i, rfl⟩ | ⟨i, rfl⟩
    · exact absurd hfile (h.ends.notIn i fd)
    · have hi := (h.ends.stdout i fd).mp hfile
      exact .inr ⟨i, hborn i (.inr hi), .inr hi⟩
  | writeEnd p =>
    rcases hpipe p with ⟨i, rfl⟩ | ⟨i, rfl⟩
    · have hi := (h.ends.stdin i fd).mp hfile
      exact .inr ⟨i, hborn i (.inl hi), .inl hi⟩
    · exact absurd hfile (h.ends.notOut i fd)

theorem terminal_plain : Plain terminal where
  standard fd hfd := ⟨fd, if_pos (by omega)⟩
  others fd file hfile := ⟨fd, terminal_other hfile⟩

/-- Two objects, of which the first one's `child_stdin_` is closed. -/
def siblings : List Op :=
  [.construct ⟨true, true, true⟩, .construct ⟨true, true, true⟩, .closeStdin 0]

def afterSiblings : Family :=
  (((Family.init terminal).construct ⟨true, true, true⟩).construct ⟨true, true, true⟩).closeStdin 0

theorem descriptors_accounted_siblings :
    ∃ fd, afterSiblings.table.entry fd = some (.writeEnd (inPipe 1)) ∧
      ((∃ name, File.writeEnd (inPipe 1) = .other name) ∨
        ∃ i < afterSiblings.count, (afterSiblings.objects i).childStdin = some fd ∨
          (afterSiblings.objects i).childStdout = some fd) := by
  have hrun : Lib.steps Family.step (.init terminal) siblings = some afterSiblings := rfl
  have hobject : (afterSiblings.objects 1).childStdin = some _ := rfl
  have hopen := ((Family.held_of_run terminal_plain hrun).ends.stdin 1 _).mpr hobject
  exact ⟨_, hopen, descriptors_accounted terminal_plain hrun hopen⟩

end AdvCppTP.Process
