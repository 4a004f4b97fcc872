import Mathlib.Data.List.Basic

/-! Runs of a machine that answers every event with an output, and two rules about them:
a simulation between machines, and the independence of a part of the events from the rest. -/

namespace AdvCppTP.Lib

variable {S T E O : Type*}

def runs (step : S → E → S × O) : S → List E → S × List (E × O)
  | s, [] => (s, [])
  | s, e :: es => ((runs step (step s e).1 es).1, (e, (step s e).2) :: (runs step (step s e).1 es).2)

def Along (step : S → E → S × O) (ok : S → E → Prop) : S → List E → Prop
  | _, [] => True
  | s, e :: es => ok s e ∧ Along step ok (step s e).1 es

instance Along.decidable (step : S → E → S × O) (ok : S → E → Prop) [∀ s e, Decidable (ok s e)] :
    (s : S) → (es : List E) → Decidable (Along step ok s es)
  | _, [] => .isTrue trivial
  | s, e :: es =>
    have := decidable step ok (step s e).1 es
    inferInstanceAs (Decidable (ok s e ∧ Along step ok (step s e).1 es))

theorem along_append (step : S → E → S × O) (ok : S → E → Prop) (s : S) (es es' : List E) :
    Along step ok s (es ++ es') ↔
      Along step ok s es ∧ Along step ok (runs step s es).1 es' := by
  induction es generalizing s with
  | nil => simp [Along, runs]
  | cons e es ih => simp only [List.cons_append, Along, runs, ih, and_assoc]

theorem runs_append (step : S → E → S × O) (s : S) (es es' : List E) :
    (runs step s (es ++ es')).1 = (runs step (runs step s es).1 es').1 := by
  induction es generalizing s with
  | nil => rfl
  | cons e es ih => exact ih (step s e).1

theorem forall_split_nil {P : List E → E → List E → Prop} :
    ∀ before e after, [] = before ++ e :: after → P before e after :=
  fun _ _ _ h => absurd h (by simp)

/-- What holds of every part of a list and the event behind it, event by event. -/
theorem forall_split_cons {P : List E → E → List E → Prop} {e : E} {es : List E}
    (hhead : P [] e es)
    (htail : ∀ before e' after, es = before ++ e' :: after → P (e :: before) e' after) :
    ∀ before e' after, e :: es = before ++ e' :: after → P before e' after := by
  intro before e' after h
  cases before with
  | nil =>
    rw [List.nil_append, List.cons.injEq] at h
    obtain ⟨rfl, rfl⟩ := h
    exact hhead
  | cons x before =>
    rw [List.cons_append, List.cons.injEq] at h
    obtain ⟨rfl, h⟩ := h
    exact htail before e' after h

/-- Where more than `n` events have a property, there is the one behind `n` of them. -/
theorem exists_event_of_lt_countP {p : E → Bool} {n : Nat} {es : List E} (h : n < es.countP p) :
    ∃ before e after, es = before ++ e :: after ∧ p e = true ∧ before.countP p = n := by
  induction es generalizing n with
  | nil => exact absurd h (Nat.not_lt_zero n)
  | cons e es ih =>
    by_cases he : p e = true
    · rw [List.countP_cons_of_pos he] at h
      cases n with
      | zero => exact ⟨[], e, es, rfl, he, rfl⟩
      | succ n =>
        obtain ⟨before, e', after, rfl, he', hn⟩ := ih (Nat.lt_of_succ_lt_succ h)
        exact ⟨e :: before, e', after, rfl, he', by rw [List.countP_cons_of_pos he, hn]⟩
    · rw [List.countP_cons_of_neg he] at h
      obtain ⟨before, e', after, rfl, he', hn⟩ := ih h
      exact ⟨e :: before, e', after, rfl, he', by rw [List.countP_cons_of_neg he, hn]⟩

/-- Two properties of events that agree where an invariant and `h` hold agree on runs with `h` from
there, if what they allow keeps the invariant. -/
theorem along_congr_of {step : S → E → S × O} {h p q : S → E → Prop} {I : S → Prop}
    (hiff : ∀ s e, I s → h s e → (p s e ↔ q s e))
    (hkeep : ∀ s e, I s → h s e → q s e → I (step s e).1) {s : S} (hs : I s) {es : List E}
    (hrun : Along step h s es) : Along step p s es ↔ Along step q s es := by
  induction es generalizing s with
  | nil => exact Iff.rfl
  | cons e es ih =>
    rw [Along, Along, hiff s e hs hrun.1]
    exact and_congr_right fun hq => ih (hkeep s e hs hrun.1 hq) hrun.2

theorem along_of_forall {step : S → E → S × O} {p : S → E → Prop} (h : ∀ s e, p s e) (s : S)
    (es : List E) : Along step p s es := by
  induction es generalizing s with
  | nil => trivial
  | cons e es ih => exact ⟨h s e, ih _⟩

/-- Two properties of events that agree where an invariant holds agree on runs from there, if
what they allow keeps the invariant. -/
theorem along_congr {step : S → E → S × O} {p q : S → E → Prop} {I : S → Prop}
    (hiff : ∀ s e, I s → (p s e ↔ q s e)) (hkeep : ∀ s e, I s → q s e → I (step s e).1) {s : S}
    (hs : I s) (es : List E) : Along step p s es ↔ Along step q s es :=
  along_congr_of (h := fun _ _ => True) (fun s e hI _ => hiff s e hI)
    (fun s e hI _ => hkeep s e hI) hs (along_of_forall (fun _ _ => trivial) s es)

theorem along_and (step : S → E → S × O) (p q : S → E → Prop) (s : S) (es : List E) :
    Along step (fun s e => p s e ∧ q s e) s es ↔ Along step p s es ∧ Along step q s es := by
  induction es generalizing s with
  | nil => exact ⟨fun _ => ⟨trivial, trivial⟩, fun _ => trivial⟩
  | cons e es ih => rw [Along, Along, Along, ih, and_and_and_comm]

theorem along_events (step : S → E → S × O) (p : E → Prop) (s : S) (es : List E) :
    Along step (fun _ e => p e) s es ↔ ∀ e ∈ es, p e := by
  induction es generalizing s with
  | nil => exact ⟨fun _ e he => absurd he List.not_mem_nil, fun _ => trivial⟩
  | cons e es ih => rw [Along, ih, List.forall_mem_cons]

/-- What a machine does along a run is what one that keeps more state beside it does. -/
theorem along_map {f : T → E → T × O} {g : S → E → S × O} {p : S → E → Prop} {π : T → S}
    (hstep : ∀ t e, π (f t e).1 = (g (π t) e).1) (t : T) (es : List E) :
    Along g p (π t) es ↔ Along f (fun t e => p (π t) e) t es := by
  induction es generalizing t with
  | nil => exact Iff.rfl
  | cons e es ih => rw [Along, Along, ← hstep, ih]

/-- All answers of a run, event by event. -/
theorem forall_outputs_iff (step : S → E → S × O) (p : E → O → Prop) (s : S) (es : List E) :
    (∀ x ∈ (runs step s es).2, p x.1 x.2) ↔ Along step (fun s e => p e (step s e).2) s es := by
  induction es generalizing s with
  | nil => exact ⟨fun _ => trivial, fun _ x hx => absurd hx List.not_mem_nil⟩
  | cons e es ih => rw [runs, List.forall_mem_cons, Along, ih]

/-- Machines related by `R`, which answer each admissible event alike and stay related, have the
same runs. -/
theorem runs_simulation {f : S → E → S × O} {g : T → E → T × O} {R : S → T → Prop}
    {ok : T → E → Prop}
    (hstep : ∀ s t e, R s t → ok t e → (f s e).2 = (g t e).2 ∧ R (f s e).1 (g t e).1)
    {s : S} {t : T} (hR : R s t) {es : List E} (hok : Along g ok t es) :
    (runs f s es).2 = (runs g t es).2 ∧ R (runs f s es).1 (runs g t es).1 := by
  induction es generalizing s t with
  | nil => exact ⟨rfl, hR⟩
  | cons e es ih =>
    obtain ⟨hout, hR'⟩ := hstep s t e hR hok.1
    obtain ⟨houts, hend⟩ := ih hR' hok.2
    exact ⟨by simp only [runs, hout, houts], hend⟩

theorem runs_invariant {f : S → E → S × O} {I : S → Prop}
    (hstep : ∀ s e, I s → I (f s e).1) {s : S} (hs : I s) (es : List E) : I (runs f s es).1 := by
  induction es generalizing s with
  | nil => exact hs
  | cons e es ih => exact ih (hstep s e hs)

theorem runs_invariant_along {f : S → E → S × O} {ok : S → E → Prop} {I : S → Prop}
    (hstep : ∀ s e, I s → ok s e → I (f s e).1) {s : S} (hs : I s) {es : List E}
    (hok : Along f ok s es) : I (runs f s es).1 := by
  induction es generalizing s with
  | nil => exact hs
  | cons e es ih => exact ih (hstep s e hs hok.1) hok.2

/-- A part `P` of the events that is answered from what `R` relates, and that the other events
leave alone, is answered as if it ran alone. -/
theorem runs_filter {f : S → E → S × O} {R : S → S → Prop} {P : E → Prop} [DecidablePred P]
    (hsame : ∀ s t e, P e → R s t → (f s e).2 = (f t e).2 ∧ R (f s e).1 (f t e).1)
    (hother : ∀ s t e, ¬ P e → R s t → R (f s e).1 t)
    {s t : S} (hR : R s t) (es : List E) :
    (runs f s es).2.filter (fun p => P p.1) = (runs f t (es.filter (fun e => P e))).2 := by
  induction es generalizing s t with
  | nil => rfl
  | cons e es ih =>
    by_cases he : P e
    · obtain ⟨hout, hR'⟩ := hsame s t e he hR
      rw [List.filter_cons_of_pos (by simpa using he)]
      simp only [runs]
      rw [List.filter_cons_of_pos (by simpa using he), ih hR', hout]
    · rw [List.filter_cons_of_neg (by simpa using he)]
      simp only [runs]
      rw [List.filter_cons_of_neg (by simpa using he), ih (hother s t e he hR)]

/-! ## Machines that may stop -/

variable {X : Type*}

/-- `ok` holds of each event of a run, in the state then reached, up to where the machine stops. -/
def Throughout (step : S → E → Except X S) (ok : S → E → Prop) : S → List E → Prop
  | _, [] => True
  | s, e :: es => ok s e ∧ ∀ s', step s e = .ok s' → Throughout step ok s' es

theorem throughout_of_invariant {step : S → E → Except X S} {ok : S → E → Prop} {I : S → Prop}
    (hok : ∀ s e, I s → ok s e) (hkeep : ∀ s e s', I s → step s e = .ok s' → I s') {s : S}
    (hs : I s) (es : List E) : Throughout step ok s es := by
  induction es generalizing s with
  | nil => trivial
  | cons e es ih => exact ⟨hok s e hs, fun s' hstep => ih (hkeep s e s' hs hstep)⟩

theorem bind_eq_ok {A B : Type _} {m : Except X A} {f : A → Except X B} {b : B} :
    (m >>= f) = .ok b ↔ ∃ a, m = .ok a ∧ f a = .ok b := by
  rcases m with x | a
  · refine iff_of_false (fun h => ?_) fun ⟨a, h, _⟩ => ?_
    · cases h
    · cases h
  · refine ⟨fun h => ⟨a, rfl, h⟩, fun ⟨a', h, hrest⟩ => ?_⟩
    cases h
    exact hrest

theorem bind_eq_error {A B : Type _} {m : Except X A} {f : A → Except X B} {x : X} :
    (m >>= f) = .error x ↔ m = .error x ∨ ∃ a, m = .ok a ∧ f a = .error x := by
  rcases m with y | a
  · refine ⟨fun h => .inl ?_, ?_⟩
    · cases h
      rfl
    · rintro (h | ⟨a, h, -⟩)
      · cases h
        rfl
      · cases h
  · refine ⟨fun h => .inr ⟨a, rfl, h⟩, ?_⟩
    rintro (h | ⟨a', h, hrest⟩)
    · cases h
    · cases h
      exact hrest

theorem foldlM_cons_eq_ok {step : S → E → Except X S} {s s' : S} {e : E} {es : List E} :
    (e :: es).foldlM step s = .ok s' ↔ ∃ s₁, step s e = .ok s₁ ∧ es.foldlM step s₁ = .ok s' := by
  rw [List.foldlM_cons]
  exact bind_eq_ok

theorem foldlM_append_eq_ok {step : S → E → Except X S} {s s' : S} {es es' : List E} :
    (es ++ es').foldlM step s = .ok s' ↔
      ∃ s₁, es.foldlM step s = .ok s₁ ∧ es'.foldlM step s₁ = .ok s' := by
  induction es generalizing s with
  | nil => exact ⟨fun h => ⟨s, rfl, h⟩, fun ⟨s₁, h, hrest⟩ => (Except.ok.inj h : s = s₁) ▸ hrest⟩
  | cons e es ih =>
    rw [List.cons_append, foldlM_cons_eq_ok]
    constructor
    · rintro ⟨s₁, hstep, hrest⟩
      obtain ⟨s₂, hmid, hlast⟩ := ih.mp hrest
      exact ⟨s₂, foldlM_cons_eq_ok.mpr ⟨s₁, hstep, hmid⟩, hlast⟩
    · rintro ⟨s₂, hmid, hlast⟩
      obtain ⟨s₁, hstep, hrest⟩ := foldlM_cons_eq_ok.mp hmid
      exact ⟨s₁, hstep, ih.mpr ⟨s₂, hrest, hlast⟩⟩

/-- A machine whose steps are those of another one, and more state beside it, runs as that does. -/
theorem foldlM_map {step : S → E → Except X S} {step' : T → E → Except X T} {f : T → S}
    (h : ∀ t e, (step' t e).map f = step (f t) e) (t : T) (es : List E) :
    (es.foldlM step' t).map f = es.foldlM step (f t) := by
  induction es generalizing t with
  | nil => rfl
  | cons e es ih =>
    rw [List.foldlM_cons, List.foldlM_cons, ← h t e]
    rcases step' t e with x | t'
    · rfl
    · exact ih t'

theorem foldlM_invariant {step : S → E → Except X S} {I : S → Prop}
    (hkeep : ∀ s e s', I s → step s e = .ok s' → I s') {s s' : S} (hs : I s) {es : List E}
    (h : es.foldlM step s = .ok s') : I s' := by
  induction es generalizing s with
  | nil => exact Except.ok.inj h ▸ hs
  | cons e es ih =>
    obtain ⟨s₁, hstep, hrest⟩ := foldlM_cons_eq_ok.mp h
    exact ih (hkeep s e s₁ hs hstep) hrest

/-- What events with `p` keep holds at the end of a run of them. -/
theorem foldlM_invariant_throughout {step : S → E → Except X S} {p : S → E → Prop} {I : S → Prop}
    (hkeep : ∀ s e s', I s → p s e → step s e = .ok s' → I s') {s s' : S} (hs : I s) {es : List E}
    (hp : Throughout step p s es) (h : es.foldlM step s = .ok s') : I s' := by
  induction es generalizing s with
  | nil => exact Except.ok.inj h ▸ hs
  | cons e es ih =>
    obtain ⟨s₁, hstep, hrest⟩ := foldlM_cons_eq_ok.mp h
    exact ih (hkeep s e s₁ hs hp.1 hstep) (hp.2 s₁ hstep) hrest

/-- What follows from an invariant and from `p` holds of every run with `p`, if events with `p`
keep the invariant. -/
theorem throughout_of_throughout {step : S → E → Except X S} {p ok : S → E → Prop} {I : S → Prop}
    (hok : ∀ s e, I s → p s e → ok s e)
    (hkeep : ∀ s e s', I s → p s e → step s e = .ok s' → I s') {s : S} (hs : I s) {es : List E}
    (hp : Throughout step p s es) : Throughout step ok s es := by
  induction es generalizing s with
  | nil => trivial
  | cons e es ih =>
    exact ⟨hok s e hs hp.1, fun s' hstep => ih (hkeep s e s' hs hp.1 hstep) (hp.2 s' hstep)⟩

/-- Two properties of events that agree where an invariant and `h` hold agree on runs with `h` from
there, if what they allow keeps the invariant. -/
theorem throughout_congr_of {step : S → E → Except X S} {h p q : S → E → Prop} {I : S → Prop}
    (hiff : ∀ s e, I s → h s e → (p s e ↔ q s e))
    (hkeep : ∀ s e s', I s → h s e → q s e → step s e = .ok s' → I s') {s : S} (hs : I s)
    {es : List E} (hrun : Throughout step h s es) :
    Throughout step p s es ↔ Throughout step q s es := by
  induction es generalizing s with
  | nil => exact Iff.rfl
  | cons e es ih =>
    rw [Throughout, Throughout, hiff s e hs hrun.1]
    refine and_congr_right fun hq => forall_congr' fun s' => imp_congr_right fun hstep => ?_
    exact ih (hkeep s e s' hs hrun.1 hq hstep) (hrun.2 s' hstep)

/-- Two properties of events that agree where an invariant holds agree on runs from there, if
what they allow keeps the invariant. -/
theorem throughout_congr {step : S → E → Except X S} {p q : S → E → Prop} {I : S → Prop}
    (hiff : ∀ s e, I s → (p s e ↔ q s e))
    (hkeep : ∀ s e s', I s → q s e → step s e = .ok s' → I s') {s : S} (hs : I s) (es : List E) :
    Throughout step p s es ↔ Throughout step q s es :=
  throughout_congr_of (h := fun _ _ => True) (fun s e hI _ => hiff s e hI)
    (fun s e s' hI _ => hkeep s e s' hI) hs
    (throughout_of_invariant (I := fun _ => True) (fun _ _ _ => trivial) (fun _ _ _ _ _ => trivial)
      trivial es)

end AdvCppTP.Lib
