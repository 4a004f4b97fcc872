import AdvCppTP.Lib.Emplace
import AdvCppTP.Lib.Runs

/-! `Descriptor` of `hw-6/Descriptor_lib` over the kernel's table of open descriptors: its special
member functions in any order, and who owns what after them. -/

namespace AdvCppTP

/-- An object; `since` tells which opening of the descriptor its `fd_` came from. -/
structure Descriptor where
  fd : Int
  since : Nat
  deriving DecidableEq, Repr

namespace Descriptor

def empty : Descriptor := ⟨-1, 0⟩

/-- The live objects and the open descriptors, each with the number of its opening. -/
structure Process where
  objects : AList fun _ : Nat => Descriptor
  opens : AList fun _ : Int => Nat
  openings : Nat

def Process.init : Process := ⟨∅, ∅, 0⟩

/-- A call of `::close` by an object whose `fd_` came from opening `since`; `opened` is the opening
that it ends. -/
structure CloseCall where
  fd : Int
  since : Nat
  opened : Option Nat
  deriving DecidableEq, Repr

def CloseCall.Legit (c : CloseCall) : Prop := c.opened = some c.since

def Process.get (p : Process) (obj : Nat) : Descriptor := (p.objects.lookup obj).getD .empty

def Process.set (p : Process) (obj : Nat) (d : Descriptor) : Process :=
  { p with objects := p.objects.insert obj d }

/-- The kernel opens `fd`, and `obj` takes it. -/
def Process.register (p : Process) (obj : Nat) (fd : Int) : Process :=
  { objects := p.objects.insert obj ⟨fd, p.openings⟩
    opens := p.opens.insert fd p.openings
    openings := p.openings + 1 }

/-- `Descriptor::close()` -/
def Process.close (p : Process) (obj : Nat) : Process × List CloseCall :=
  let d := p.get obj
  if 0 ≤ d.fd then
    ({ p with opens := p.opens.erase d.fd }.set obj .empty,
      [⟨d.fd, d.since, p.opens.lookup d.fd⟩])
  else (p.set obj .empty, [])

/-- The special member functions; the `fd` of a construction is what was opened for it, that of a
copy assignment is what `dup` finds unused. -/
inductive Op
  | construct (obj : Nat) (fd : Int)
  | copyConstruct (obj other : Nat)
  | moveConstruct (obj other : Nat)
  | copyAssign (obj other : Nat) (fd : Int)
  | moveAssign (obj other : Nat)
  | close (obj : Nat)
  | destroy (obj : Nat)
  deriving DecidableEq, Repr

def Op.Admissible (p : Process) : Op → Prop
  | .construct obj fd => obj ∉ p.objects ∧ 0 ≤ fd ∧ fd ∉ p.opens
  | .copyConstruct obj other => obj ∉ p.objects ∧ other ∈ p.objects
  | .moveConstruct obj other => obj ∉ p.objects ∧ other ∈ p.objects
  | .copyAssign obj other fd =>
    obj ∈ p.objects ∧ other ∈ p.objects ∧ 0 ≤ fd ∧ fd ∉ (p.close obj).1.opens
  | .moveAssign obj other => obj ∈ p.objects ∧ other ∈ p.objects
  | .close obj => obj ∈ p.objects
  | .destroy obj => obj ∈ p.objects

instance Op.decidableAdmissible (p : Process) : DecidablePred (Op.Admissible p)
  | .construct obj fd => inferInstanceAs (Decidable (obj ∉ p.objects ∧ 0 ≤ fd ∧ fd ∉ p.opens))
  | .copyConstruct obj other => inferInstanceAs (Decidable (obj ∉ p.objects ∧ other ∈ p.objects))
  | .moveConstruct obj other => inferInstanceAs (Decidable (obj ∉ p.objects ∧ other ∈ p.objects))
  | .copyAssign obj other fd => inferInstanceAs (Decidable
      (obj ∈ p.objects ∧ other ∈ p.objects ∧ 0 ≤ fd ∧ fd ∉ (p.close obj).1.opens))
  | .moveAssign obj other => inferInstanceAs (Decidable (obj ∈ p.objects ∧ other ∈ p.objects))
  | .close obj => inferInstanceAs (Decidable (obj ∈ p.objects))
  | .destroy obj => inferInstanceAs (Decidable (obj ∈ p.objects))

def exec (p : Process) : Op → Process × List CloseCall
  | .construct obj fd => (p.register obj fd, [])
  | .copyConstruct obj other => (p.set obj (p.get other), [])
  | .moveConstruct obj other => ((p.set obj (p.get other)).set other .empty, [])
  | .copyAssign obj other fd =>
    let (p, calls) := p.close obj
    -- `dup` of a descriptor that is not open gives -1
    (if (p.get other).fd ∈ p.opens then p.register obj fd else p.set obj .empty, calls)
  | .moveAssign obj other =>
    let (p, calls) := p.close obj
    ((p.set obj (p.get other)).set other .empty, calls)
  | .close obj => p.close obj
  | .destroy obj =>
    let (p, calls) := p.close obj
    ({ p with objects := p.objects.erase obj }, calls)

def step (p : Process) (op : Op) : Process × List CloseCall :=
  if op.Admissible p then exec p op else (p, [])

/-! ## Owners -/

def Process.Idle (p : Process) (obj : Nat) : Prop := (p.get obj).fd < 0

/-- Every descriptor that an object holds is open as it was when the object got it, no two objects
hold one, and every open descriptor is held. -/
structure Process.Owned (p : Process) : Prop where
  held : ∀ a, 0 ≤ (p.get a).fd → p.opens.lookup (p.get a).fd = some (p.get a).since
  unique : ∀ a b, 0 ≤ (p.get a).fd → (p.get a).fd = (p.get b).fd → a = b
  covered : ∀ fd ∈ p.opens, 0 ≤ fd ∧ ∃ a, (p.get a).fd = fd

@[simp] theorem empty_fd : Descriptor.empty.fd = -1 := rfl

theorem Process.get_set (p : Process) (obj : Nat) (d : Descriptor) (a : Nat) :
    (p.set obj d).get a = if a = obj then d else p.get a := by
  rw [Process.get, Process.set]
  split
  case isTrue h => rw [h, AList.lookup_insert, Option.getD_some]
  case isFalse h => rw [AList.lookup_insert_ne h, Process.get]

theorem Process.get_register (p : Process) (obj : Nat) (fd : Int) (a : Nat) :
    (p.register obj fd).get a = if a = obj then ⟨fd, p.openings⟩ else p.get a :=
  p.get_set obj ⟨fd, p.openings⟩ a

theorem Process.get_of_notMem {p : Process} {a : Nat} (h : a ∉ p.objects) : p.get a = .empty := by
  rw [Process.get, AList.lookup_eq_none.mpr h, Option.getD_none]

theorem Process.idle_of_notMem (p : Process) {a : Nat} (h : a ∉ p.objects) : p.Idle a := by
  rw [Process.Idle, get_of_notMem h]
  decide

theorem owned_init : Process.init.Owned where
  held a h := absurd h (by simp [Process.get, Process.init])
  unique a b h := absurd h (by simp [Process.get, Process.init])
  covered fd h := absurd h (AList.notMem_empty fd)

theorem Process.Owned.open_of_held {p : Process} (h : p.Owned) {a : Nat} (ha : 0 ≤ (p.get a).fd) :
    (p.get a).fd ∈ p.opens :=
  Lib.mem_of_lookup (h.held a ha)

theorem Process.Owned.setIdle {p : Process} (h : p.Owned) {obj : Nat} (hidle : p.Idle obj)
    {d : Descriptor} (hd : d.fd < 0) : (p.set obj d).Owned where
  held a ha := by
    rw [get_set] at ha ⊢
    split at ha
    · exact absurd ha (Int.not_le.mpr hd)
    · rw [if_neg ‹_›]
      exact h.held a ha
  unique a b ha hab := by
    rw [get_set] at ha hab
    split at ha
    · exact absurd ha (Int.not_le.mpr hd)
    · rw [if_neg ‹_›, get_set] at hab
      split at hab
      · rw [hab] at ha
        exact absurd ha (Int.not_le.mpr hd)
      · exact h.unique a b ha hab
  covered fd hfd := by
    obtain ⟨hpos, a, ha⟩ := h.covered fd hfd
    have hne : a ≠ obj := by
      rintro rfl
      rw [Process.Idle, ha] at hidle
      omega
    exact ⟨hpos, a, by rw [get_set, if_neg hne, ha]⟩

theorem Process.Owned.erase {p : Process} (h : p.Owned) {obj : Nat} (hidle : p.Idle obj) :
    Process.Owned { p with objects := p.objects.erase obj } := by
  have hget : ∀ a, Process.get { p with objects := p.objects.erase obj } a =
      (p.set obj .empty).get a := fun a => by
    rw [get_set, Process.get]
    split
    case isTrue heq => rw [heq, AList.lookup_erase, Option.getD_none]
    case isFalse hne => rw [AList.lookup_erase_ne hne, Process.get]
  obtain ⟨hheld, hunique, hcovered⟩ := h.setIdle hidle (d := .empty) (by decide)
  refine ⟨fun a ha => ?_, fun a b ha hab => ?_, fun fd hfd => ?_⟩
  · rw [hget] at ha ⊢
    exact hheld a ha
  · rw [hget] at ha hab
    rw [hget] at hab
    exact hunique a b ha hab
  · obtain ⟨hpos, a, ha⟩ := hcovered fd hfd
    exact ⟨hpos, a, by rw [hget, ha]⟩

theorem Process.idle_close (p : Process) (obj : Nat) : (p.close obj).1.Idle obj := by
  rw [Process.Idle, Process.close]
  split <;> rw [get_set, if_pos rfl] <;> decide

theorem Process.Owned.close {p : Process} (h : p.Owned) (obj : Nat) :
    (p.close obj).1.Owned ∧ ∀ c ∈ (p.close obj).2, c.Legit := by
  rw [Process.close]
  split
  case isFalse hidle =>
    exact ⟨h.setIdle (Int.not_le.mp hidle) (by decide), fun c hc => absurd hc List.not_mem_nil⟩
  case isTrue hpos =>
    -- the others hold other descriptors
    have hother : ∀ a, a ≠ obj → 0 ≤ (p.get a).fd → (p.get a).fd ≠ (p.get obj).fd :=
      fun a hne ha hfd => hne (h.unique a obj ha hfd)
    refine ⟨⟨fun a ha => ?_, fun a b ha hab => ?_, fun fd hfd => ?_⟩, fun c hc => ?_⟩
    · rw [get_set] at ha ⊢
      split at ha
      · exact absurd ha (by decide)
      · rename_i hne
        rw [if_neg hne]
        exact (AList.lookup_erase_ne (hother a hne ha)).trans (h.held a ha)
    · rw [get_set] at ha hab
      split at ha
      · exact absurd ha (by decide)
      · rw [if_neg ‹_›, get_set] at hab
        split at hab
        · rw [hab] at ha
          exact absurd ha (by decide)
        · exact h.unique a b ha hab
    · obtain ⟨hne, hopen⟩ := AList.mem_erase.mp hfd
      obtain ⟨hfdpos, a, ha⟩ := h.covered fd hopen
      have hne' : a ≠ obj := by
        rintro rfl
        exact hne ha.symm
      exact ⟨hfdpos, a, by rw [get_set, if_neg hne']; exact ha⟩
    · obtain rfl := List.mem_singleton.mp hc
      exact h.held obj hpos

theorem Process.Owned.move {p : Process} (h : p.Owned) {obj : Nat} (hidle : p.Idle obj)
    (other : Nat) : ((p.set obj (p.get other)).set other .empty).Owned := by
  -- whoever holds a descriptor now is `obj`, which has that of `other`, or held it before
  have hsource : ∀ a, 0 ≤ (((p.set obj (p.get other)).set other .empty).get a).fd →
      a ≠ other ∧ ((p.set obj (p.get other)).set other .empty).get a =
        p.get (if a = obj then other else a) := fun a ha => by
    rw [get_set] at ha ⊢
    split at ha
    · exact absurd ha (by decide)
    · rename_i hne
      refine ⟨hne, ?_⟩
      rw [if_neg hne, get_set]
      split <;> rfl
  refine ⟨fun a ha => ?_, fun a b ha hab => ?_, fun fd hfd => ?_⟩
  · obtain ⟨-, hget⟩ := hsource a ha
    rw [hget] at ha ⊢
    exact h.held _ ha
  · obtain ⟨ha', hgeta⟩ := hsource a ha
    obtain ⟨hb', hgetb⟩ := hsource b (hab ▸ ha)
    rw [hgeta] at ha hab
    rw [hgetb] at hab
    have hsame := h.unique _ _ ha hab
    split at hsame <;> split at hsame
    · rw [‹a = obj›, ‹b = obj›]
    · exact absurd hsame.symm hb'
    · exact absurd hsame ha'
    · exact hsame
  · obtain ⟨hpos, a, ha⟩ := h.covered fd hfd
    have hobj : a ≠ obj := by
      rintro rfl
      rw [Process.Idle, ha] at hidle
      omega
    refine ⟨hpos, if a = other then obj else a, ?_⟩
    split
    · rename_i heq
      rw [get_set, if_neg (heq ▸ hobj.symm), get_set, if_pos rfl, ← heq, ha]
    · rename_i hne
      rw [get_set, if_neg hne, get_set, if_neg hobj, ha]

theorem Process.Owned.register {p : Process} (h : p.Owned) {obj : Nat} (hidle : p.Idle obj)
    {fd : Int} (hfd : 0 ≤ fd) (hfree : fd ∉ p.opens) : (p.register obj fd).Owned := by
  have hother : ∀ a, 0 ≤ (p.get a).fd → (p.get a).fd ≠ fd := fun a ha hfd' =>
    hfree (hfd' ▸ h.open_of_held ha)
  refine ⟨fun a ha => ?_, fun a b ha hab => ?_, fun fd' hfd' => ?_⟩
  · rw [get_register] at ha ⊢
    split at ha
    · rw [if_pos ‹_›]
      exact AList.lookup_insert _
    · rw [if_neg ‹_›]
      exact (AList.lookup_insert_ne (hother a ha)).trans (h.held a ha)
  · rw [get_register] at ha hab
    rw [get_register] at hab
    split at ha
    · rw [if_pos ‹_›] at hab
      split at hab
      · rw [‹a = obj›, ‹b = obj›]
      · exact absurd hab.symm (hother b (hab ▸ hfd))
    · rw [if_neg ‹_›] at hab
      split at hab
      · exact absurd hab (hother a ha)
      · exact h.unique a b ha hab
  · rcases (AList.mem_insert _).mp hfd' with rfl | hopen
    · exact ⟨hfd, obj, by rw [get_register, if_pos rfl]⟩
    · obtain ⟨hpos, a, ha⟩ := h.covered fd' hopen
      have hne : a ≠ obj := by
        rintro rfl
        rw [Process.Idle, ha] at hidle
        omega
      exact ⟨hpos, a, by rw [get_register, if_neg hne, ha]⟩

/-! ## Histories -/

/-- What an operation owes its process: no open descriptor has two holders, `::close` hits only
what the caller opened, and nothing stays open without an object. -/
structure Sound (r : Process × List CloseCall) : Prop where
  unique : ∀ fd ∈ r.1.opens, ∀ a b, (r.1.get a).fd = fd → (r.1.get b).fd = fd → a = b
  closes : ∀ c ∈ r.2, c.Legit
  noLeak : (∀ a, a ∉ r.1.objects) → ∀ fd, fd ∉ r.1.opens

def CopiesHolder (p : Process) : Op → Prop
  | .copyConstruct obj other => obj ∉ p.objects ∧ 0 ≤ (p.get other).fd
  | _ => False

theorem Process.Owned.sound {p : Process} (h : p.Owned) {calls : List CloseCall}
    (hcalls : ∀ c ∈ calls, c.Legit) : Sound (p, calls) where
  unique fd hfd a b ha hb := h.unique a b (ha ▸ (h.covered fd hfd).1) (ha.trans hb.symm)
  closes := hcalls
  noLeak hnone fd hfd := by
    obtain ⟨hpos, a, ha⟩ := h.covered fd hfd
    rw [get_of_notMem (hnone a)] at ha
    rw [← ha] at hpos
    exact absurd hpos (by decide)

theorem Process.Owned.step {p : Process} (h : p.Owned) {op : Op} (hop : ¬ CopiesHolder p op) :
    (Descriptor.step p op).1.Owned ∧ ∀ c ∈ (Descriptor.step p op).2, c.Legit := by
  have hnone : ∀ c ∈ ([] : List CloseCall), c.Legit := fun c hc => absurd hc List.not_mem_nil
  rw [Descriptor.step]
  split
  case isFalse => exact ⟨h, hnone⟩
  case isTrue hadm =>
    cases op with
    | construct obj fd =>
      obtain ⟨hnew, hfd, hfree⟩ := hadm
      exact ⟨h.register (p.idle_of_notMem hnew) hfd hfree, hnone⟩
    | copyConstruct obj other =>
      have hempty : (p.get other).fd < 0 := Int.not_le.mp fun hpos => hop ⟨hadm.1, hpos⟩
      exact ⟨h.setIdle (p.idle_of_notMem hadm.1) hempty, hnone⟩
    | moveConstruct obj other => exact ⟨h.move (p.idle_of_notMem hadm.1) other, hnone⟩
    | copyAssign obj other fd =>
      obtain ⟨hclosed, hcalls⟩ := h.close obj
      have hidle := p.idle_close obj
      obtain ⟨-, -, hfd, hfree⟩ := hadm
      refine ⟨?_, hcalls⟩
      simp only [exec]
      split
      · exact hclosed.register hidle hfd hfree
      · exact hclosed.setIdle hidle (by decide)
    | moveAssign obj other =>
      obtain ⟨hclosed, hcalls⟩ := h.close obj
      exact ⟨hclosed.move (p.idle_close obj) other, hcalls⟩
    | close obj => exact h.close obj
    | destroy obj =>
      obtain ⟨hclosed, hcalls⟩ := h.close obj
      exact ⟨hclosed.erase (p.idle_close obj), hcalls⟩

/-- A copy of a holder makes a second owner, which will close what is no longer its own. -/
theorem Process.Owned.not_sound {p : Process} (h : p.Owned) {op : Op} (hop : CopiesHolder p op) :
    ¬ Sound (Descriptor.step p op) := by
  cases op with
  | copyConstruct obj other =>
    intro hsound
    obtain ⟨hnew, hpos⟩ := hop
    have hother : other ∈ p.objects := by
      by_contra hnot
      rw [get_of_notMem hnot] at hpos
      exact absurd hpos (by decide)
    have hne : other ≠ obj := fun heq => hnew (heq ▸ hother)
    have hadm : (Op.copyConstruct obj other).Admissible p := ⟨hnew, hother⟩
    rw [Descriptor.step, if_pos hadm] at hsound
    refine hne (hsound.unique (p.get other).fd (h.open_of_held hpos) other obj ?_ ?_)
    · exact congrArg Descriptor.fd ((p.get_set obj _ other).trans (if_neg hne))
    · exact congrArg Descriptor.fd ((p.get_set obj _ obj).trans (if_pos rfl))
  | _ => exact absurd hop id

/-- Descriptors have unique owners throughout a history exactly as long as no object is
copy-constructed from one that holds a descriptor. -/
theorem unique_owners_iff (ops : List Op) :
    Lib.Along step (fun p op => Sound (step p op)) .init ops ↔
      Lib.Along step (fun p op => ¬ CopiesHolder p op) .init ops := by
  refine Lib.along_congr (I := Process.Owned) (fun p op hp => ⟨fun hsound hop => ?_, fun hop => ?_⟩)
    (fun p op hp hop => (hp.step hop).1) owned_init ops
  · exact hp.not_sound hop hsound
  · obtain ⟨howned, hcalls⟩ := hp.step hop
    exact howned.sound hcalls

theorem copy_shares_descriptor :
    ¬ ∀ ops : List Op, Lib.Along step (fun p op => Sound (step p op)) .init ops := by
  intro h
  obtain ⟨-, hsound, -⟩ := h [.construct 1 5, .copyConstruct 2 1]
  exact absurd (hsound.unique 5 (by decide) 1 2 (by decide) (by decide)) (by decide)

end Descriptor

end AdvCppTP
