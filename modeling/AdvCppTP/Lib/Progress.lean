import Mathlib.Data.List.Basic

/-! Systems whose steps may not be enabled: what every run keeps, how long runs are, and when they
can go on until the system is through. -/

namespace AdvCppTP.Lib

variable {S E : Type*}

/-- The events of a run one after the other; `none` where one of them is not enabled. -/
def steps (step : S → E → Option S) : S → List E → Option S
  | s, [] => some s
  | s, e :: es => (step s e).bind fun s' => steps step s' es

/-- A system without the events that are not `ok`. -/
def guarded (ok : S → E → Prop) [∀ s e, Decidable (ok s e)] (step : S → E → Option S) (s : S)
    (e : E) : Option S :=
  if ok s e then step s e else none

theorem guarded_eq_some {ok : S → E → Prop} [∀ s e, Decidable (ok s e)] {step : S → E → Option S}
    {s s' : S} {e : E} : guarded ok step s e = some s' ↔ ok s e ∧ step s e = some s' := by
  unfold guarded
  split
  case isTrue h => exact (and_iff_right h).symm
  case isFalse h =>
    constructor
    · intro hstep
      cases hstep
    · rintro ⟨hok, -⟩
      exact absurd hok h

variable {step : S → E → Option S}

theorem steps_cons {s s' : S} {e : E} {es : List E} :
    steps step s (e :: es) = some s' ↔ ∃ s₁, step s e = some s₁ ∧ steps step s₁ es = some s' :=
  Option.bind_eq_some_iff

theorem steps_append {s s' : S} {es es' : List E} :
    steps step s (es ++ es') = some s' ↔
      ∃ s₁, steps step s es = some s₁ ∧ steps step s₁ es' = some s' := by
  induction es generalizing s with
  | nil => exact ⟨fun h => ⟨s, rfl, h⟩, fun ⟨s₁, h, hrest⟩ => Option.some.inj h ▸ hrest⟩
  | cons e es ih =>
    rw [List.cons_append, steps_cons]
    constructor
    · rintro ⟨s₁, hstep, hrest⟩
      obtain ⟨s₂, hes, hes'⟩ := ih.mp hrest
      exact ⟨s₂, steps_cons.mpr ⟨s₁, hstep, hes⟩, hes'⟩
    · rintro ⟨s₂, hes, hes'⟩
      obtain ⟨s₁, hstep, hrest⟩ := steps_cons.mp hes
      exact ⟨s₁, hstep, ih.mpr ⟨s₂, hrest, hes'⟩⟩

/-- What every step of the run's events keeps holds at its end. -/
theorem steps_invariant_mem {I : S → Prop} {s s' : S} {es : List E}
    (hkeep : ∀ s e s', I s → e ∈ es → step s e = some s' → I s') (hs : I s)
    (hrun : steps step s es = some s') : I s' := by
  induction es generalizing s with
  | nil => exact Option.some.inj hrun ▸ hs
  | cons e es ih =>
    obtain ⟨s₁, hstep, hrest⟩ := steps_cons.mp hrun
    refine ih (fun s e s' hs he => hkeep s e s' hs (List.mem_cons_of_mem _ he)) ?_ hrest
    exact hkeep s e s₁ hs List.mem_cons_self hstep

/-- What every step keeps holds at the end of every run. -/
theorem steps_invariant {I : S → Prop} (hkeep : ∀ s e s', I s → step s e = some s' → I s')
    {s s' : S} {es : List E} (hs : I s) (hrun : steps step s es = some s') : I s' :=
  steps_invariant_mem (fun s e s' hs _ => hkeep s e s' hs) hs hrun

/-- What every step keeps of the events so far and the state holds at the end of every run. -/
theorem steps_history {I : List E → S → Prop}
    (hkeep : ∀ es s e s', I es s → step s e = some s' → I (es ++ [e]) s') {s s' : S} {es : List E}
    (hs : I [] s) (hrun : steps step s es = some s') : I es s' := by
  have key : ∀ before, I before s → I (before ++ es) s' := by
    clear hs
    induction es generalizing s with
    | nil =>
      intro before hs
      rw [List.append_nil]
      exact Option.some.inj hrun ▸ hs
    | cons e es ih =>
      intro before hs
      obtain ⟨s₁, hstep, hrest⟩ := steps_cons.mp hrun
      have hnext := ih hrest _ (hkeep before s e s₁ hs hstep)
      rwa [List.append_assoc, List.singleton_append] at hnext
  exact key [] hs

/-! ## Systems that come to an end

`I n s` is an invariant of states that have at most `n` steps before them. -/

section Ends

variable {I : ℕ → S → Prop}
  (hkeep : ∀ n s e s', I n s → step s e = some s' → ∃ n' < n, I n' s')

include hkeep

/-- A bound that every step lowers bounds the length of every run. -/
theorem length_steps_le {n : ℕ} {s s' : S} {es : List E} (hs : I n s)
    (hrun : steps step s es = some s') : ∃ n', es.length + n' ≤ n ∧ I n' s' := by
  induction es generalizing n s with
  | nil =>
    obtain rfl := Option.some.inj hrun
    exact ⟨n, Nat.le_of_eq (Nat.zero_add n), hs⟩
  | cons e es ih =>
    obtain ⟨s₁, hstep, hrest⟩ := steps_cons.mp hrun
    obtain ⟨n₁, hless, hs₁⟩ := hkeep n s e s₁ hs hstep
    obtain ⟨n', hshort, hs'⟩ := ih hs₁ hrest
    refine ⟨n', ?_, hs'⟩
    rw [List.length_cons]
    omega

/-- Where only final states have no step left, every state runs on to a final one. -/
theorem exists_steps_to_final {final : S → Prop}
    (hgo : ∀ n s, I n s → ¬ final s → ∃ e s', step s e = some s') {n : ℕ} {s : S} (hs : I n s) :
    ∃ es s', steps step s es = some s' ∧ final s' := by
  -- by induction on the bound, one step at a time
  induction n using Nat.strongRecOn generalizing s with
  | ind n ih =>
    by_cases hfinal : final s
    · exact ⟨[], s, rfl, hfinal⟩
    · obtain ⟨e, s₁, hstep⟩ := hgo n s hs hfinal
      obtain ⟨n₁, hless, hs₁⟩ := hkeep n s e s₁ hs hstep
      obtain ⟨es, s', hrun, hend⟩ := ih n₁ hless hs₁
      exact ⟨e :: es, s', steps_cons.mpr ⟨s₁, hstep, hrun⟩, hend⟩

end Ends

end AdvCppTP.Lib
