import AdvCppTP.Lib.Progress
import Mathlib.Logic.Function.Basic

/-! Calls that work on a shared state under one lock, step by step and mixed with the steps of all
others: to their callers each one happens at one moment between its call and its return. -/

namespace AdvCppTP.Lib

variable {T σ τ ι ρ ε L : Type*}

/-! ## Histories -/

/-- What a caller sees of a call. -/
inductive CallEvent (T ι ρ : Type*)
  | called (t : T) (i : ι)
  | returned (t : T) (r : ρ)
  deriving DecidableEq, Repr

/-- A call that happens at one moment. -/
structure Instant (T ι ρ : Type*) where
  thread : T
  input : ι
  result : ρ
  deriving DecidableEq, Repr

/-- How far a thread is with its call. -/
inductive Progressed (ι ρ : Type*)
  | idle
  | pending (i : ι)
  | done (r : ρ)
  deriving DecidableEq, Repr

/-- Each thread calls, has its moment, and returns with the result of that moment. -/
inductive Progressed.Step (t : T) :
    Progressed ι ρ → CallEvent T ι ρ ⊕ Instant T ι ρ → Progressed ι ρ → Prop
  | called (i : ι) : Step t .idle (.inl (.called t i)) (.pending i)
  | happened (i : ι) (r : ρ) : Step t (.pending i) (.inr ⟨t, i, r⟩) (.done r)
  | returned (r : ρ) : Step t (.done r) (.inl (.returned t r)) .idle

/-- What the threads do in order, all of them idle at first. -/
inductive Ordered [DecidableEq T] :
    List (CallEvent T ι ρ ⊕ Instant T ι ρ) → (T → Progressed ι ρ) → Prop
  | start : Ordered [] fun _ => .idle
  | step {ms : List (CallEvent T ι ρ ⊕ Instant T ι ρ)} {far : T → Progressed ι ρ}
      (h : Ordered ms far) (t : T) {m : CallEvent T ι ρ ⊕ Instant T ι ρ} {p : Progressed ι ρ}
      (hstep : (far t).Step t m p) : Ordered (ms ++ [m]) (Function.update far t p)

/-- The calls one behind the other, as the specification has them. -/
inductive Sequential (spec : σ → ι → ρ → σ → Prop) (s : σ) : List (Instant T ι ρ) → σ → Prop
  | start : Sequential spec s [] s
  | step {s₁ s₂ : σ} {is : List (Instant T ι ρ)} (h : Sequential spec s is s₁) {i : Instant T ι ρ}
      (hstep : spec s₁ i.input i.result s₂) : Sequential spec s (is ++ [i]) s₂

/-- What the callers have seen is as if each call had happened at one moment between its call and
its return; these moments lead from `s` to `s'`, and leave each thread as far as `far` says. -/
def Linearizable [DecidableEq T] (spec : σ → ι → ρ → σ → Prop) (s : σ)
    (seen : List (CallEvent T ι ρ)) (is : List (Instant T ι ρ)) (far : T → Progressed ι ρ)
    (s' : σ) : Prop :=
  ∃ ms, Ordered ms far ∧ ms.filterMap Sum.getLeft? = seen ∧ ms.filterMap Sum.getRight? = is ∧
    Sequential spec s is s'

theorem Sequential.map {spec : σ → ι → ρ → σ → Prop} {spec' : τ → ι → ρ → τ → Prop}
    {Rel : σ → τ → Prop}
    (hrefine : ∀ s a i r s', Rel s a → spec s i r s' → ∃ a', spec' a i r a' ∧ Rel s' a')
    {s s' : σ} {a : τ} (hrel : Rel s a) {is : List (Instant T ι ρ)}
    (h : Sequential spec s is s') : ∃ a', Sequential spec' a is a' ∧ Rel s' a' := by
  induction h with
  | start => exact ⟨a, .start, hrel⟩
  | step h hstep ih =>
    obtain ⟨a₁, hbefore, hrel₁⟩ := ih
    obtain ⟨a₂, hstep', hrel₂⟩ := hrefine _ _ _ _ _ hrel₁ hstep
    exact ⟨a₂, hbefore.step hstep', hrel₂⟩

variable [DecidableEq T]

theorem Linearizable.map {spec : σ → ι → ρ → σ → Prop} {spec' : τ → ι → ρ → τ → Prop}
    {Rel : σ → τ → Prop}
    (hrefine : ∀ s a i r s', Rel s a → spec s i r s' → ∃ a', spec' a i r a' ∧ Rel s' a')
    {s s' : σ} {a : τ} (hrel : Rel s a) {seen : List (CallEvent T ι ρ)}
    {is : List (Instant T ι ρ)} {far : T → Progressed ι ρ}
    (h : Linearizable spec s seen is far s') :
    ∃ a', Linearizable spec' a seen is far a' ∧ Rel s' a' := by
  obtain ⟨ms, hordered, hseen, his, hsequential⟩ := h
  obtain ⟨a', hsequential', hrel'⟩ := hsequential.map hrefine hrel
  exact ⟨a', ⟨ms, hordered, hseen, his, hsequential'⟩, hrel'⟩

section Moments

variable {spec : σ → ι → ρ → σ → Prop} {s s₁ s₂ : σ} {seen : List (CallEvent T ι ρ)}
  {is : List (Instant T ι ρ)} {far : T → Progressed ι ρ}

theorem Linearizable.called (h : Linearizable spec s seen is far s₁) {t : T} (ht : far t = .idle)
    (i : ι) :
    Linearizable spec s (seen ++ [.called t i]) is (Function.update far t (.pending i)) s₁ := by
  obtain ⟨ms, hordered, rfl, rfl, hsequential⟩ := h
  have hstep : (far t).Step t (.inl (.called t i)) (.pending i) := by
    rw [ht]
    exact .called i
  refine ⟨_, hordered.step t hstep, ?_, ?_, hsequential⟩
  · rw [List.filterMap_append]
    rfl
  · rw [List.filterMap_append]
    exact List.append_nil _

theorem Linearizable.returned (h : Linearizable spec s seen is far s₁) {t : T} {r : ρ}
    (ht : far t = .done r) :
    Linearizable spec s (seen ++ [.returned t r]) is (Function.update far t .idle) s₁ := by
  obtain ⟨ms, hordered, rfl, rfl, hsequential⟩ := h
  have hstep : (far t).Step t (.inl (.returned t r)) (.idle) := by
    rw [ht]
    exact .returned r
  refine ⟨_, hordered.step t hstep, ?_, ?_, hsequential⟩
  · rw [List.filterMap_append]
    rfl
  · rw [List.filterMap_append]
    exact List.append_nil _

theorem Linearizable.happened (h : Linearizable spec s seen is far s₁) {t : T} {i : ι} {r : ρ}
    (ht : far t = .pending i) (hspec : spec s₁ i r s₂) :
    Linearizable spec s seen (is ++ [⟨t, i, r⟩]) (Function.update far t (.done r)) s₂ := by
  obtain ⟨ms, hordered, rfl, rfl, hsequential⟩ := h
  have hstep : (far t).Step t (.inr ⟨t, i, r⟩) (.done r) := by
    rw [ht]
    exact .happened i r
  refine ⟨_, hordered.step t hstep, ?_, ?_, hsequential.step hspec⟩
  · rw [List.filterMap_append]
    exact List.append_nil _
  · rw [List.filterMap_append]
    rfl

end Moments

/-! ## What a thread has called -/

def CallEvent.input? (t : T) : CallEvent T ι ρ → Option ι
  | .called t' i => if t' = t then some i else none
  | .returned _ _ => none

def Instant.inputOf? (t : T) (i : Instant T ι ρ) : Option ι :=
  if i.thread = t then some i.input else none

def Progressed.input? : Progressed ι ρ → Option ι
  | .pending i => some i
  | _ => none

theorem Ordered.inputs {ms : List (CallEvent T ι ρ ⊕ Instant T ι ρ)} {far : T → Progressed ι ρ}
    (h : Ordered ms far) (t : T) :
    (ms.filterMap Sum.getLeft?).filterMap (CallEvent.input? t) =
      (ms.filterMap Sum.getRight?).filterMap (Instant.inputOf? t) ++ (far t).input?.toList := by
  induction h with
  | start => rfl
  | @step ms far h t' m p hstep ih =>
    rw [List.filterMap_append, List.filterMap_append, List.filterMap_append, List.filterMap_append,
      ih]
    by_cases ht : t' = t
    · subst ht
      rw [Function.update_self]
      generalize far t' = before at hstep
      cases hstep with
      | called i => simp [CallEvent.input?, Progressed.input?]
      | happened i r => simp [Instant.inputOf?, Progressed.input?]
      | returned r => simp [CallEvent.input?, Progressed.input?, List.filterMap_cons]
    · rw [Function.update_of_ne (Ne.symm ht)]
      generalize far t' = before at hstep
      cases hstep with
      | called i => simp [CallEvent.input?, ht]
      | happened i r => simp [Instant.inputOf?, ht]
      | returned r => simp [CallEvent.input?, List.filterMap_cons]

/-- What a thread has called has happened in the order of its calls, each one once, but for the
call that is pending. -/
theorem Linearizable.inputs {spec : σ → ι → ρ → σ → Prop} {s s' : σ}
    {seen : List (CallEvent T ι ρ)} {is : List (Instant T ι ρ)} {far : T → Progressed ι ρ}
    (h : Linearizable spec s seen is far s') (t : T) :
    seen.filterMap (CallEvent.input? t) =
      is.filterMap (Instant.inputOf? t) ++ (far t).input?.toList := by
  obtain ⟨ms, hordered, rfl, rfl, -⟩ := h
  exact hordered.inputs t

/-! ## One owner -/

section Owned

variable {P : Type*} {holds : P → Bool} {place : T → P} {count : Nat} {t : T} {owner : Option T}

/-- The lock counts the threads that hold it at their places, at most one. -/
def Owned (holds : P → Bool) (place : T → P) (count : Nat) (owner : Option T) : Prop :=
  (∀ t, holds (place t) = true ↔ owner = some t) ∧ count = if owner.isSome then 0 else 1

omit [DecidableEq T] in
theorem owned_init {p : P} (hp : holds p = false) : Owned holds (fun _ : T => p) 1 none :=
  ⟨fun _ => by simp [hp], rfl⟩

omit [DecidableEq T] in
theorem Owned.eq_of_holds (h : Owned holds place count owner) {t' : T}
    (ht : holds (place t) = true) (ht' : holds (place t') = true) : t' = t := by
  have howner := (h.1 t).mp ht
  have howner' := (h.1 t').mp ht'
  exact Option.some.inj (howner'.symm.trans howner)

omit [DecidableEq T] in
theorem Owned.none_of_count (h : Owned holds place count owner) (hcount : count ≠ 0) :
    owner = none := by
  cases owner with
  | none => rfl
  | some t => exact absurd h.2 hcount

theorem owned_update {p : P} (hp : holds p = true ↔ owner = some t)
    (hothers : ∀ t', t' ≠ t → (holds (place t') = true ↔ owner = some t')) (t' : T) :
    holds (Function.update place t p t') = true ↔ owner = some t' :=
  (Function.forall_update_iff place fun t' p => (holds p = true ↔ owner = some t')).mpr
    ⟨hp, hothers⟩ t'

theorem Owned.keep (h : Owned holds place count owner) {p : P}
    (hp : holds p = holds (place t)) : Owned holds (Function.update place t p) count owner := by
  refine ⟨owned_update ?_ fun t' _ => h.1 t', h.2⟩
  rw [hp]
  exact h.1 t

theorem Owned.take (h : Owned holds place count none) {p : P} (hp : holds p = true) :
    Owned holds (Function.update place t p) (count - 1) (some t) := by
  have hcount : count = 1 := h.2
  refine ⟨owned_update (iff_of_true hp rfl) fun t' ht => ?_, by rw [hcount]; rfl⟩
  rw [h.1 t']
  exact iff_of_false (by simp) fun heq => ht (Option.some.inj heq).symm

theorem Owned.give (h : Owned holds place count (some t)) {p : P} (hp : holds p = false) :
    Owned holds (Function.update place t p) (count + 1) none := by
  have hcount : count = 0 := h.2
  refine ⟨owned_update (iff_of_false (by simp [hp]) (by simp)) fun t' ht => ?_,
    by rw [hcount]; rfl⟩
  rw [h.1 t']
  exact iff_of_false (fun heq => ht (Option.some.inj heq).symm) (by simp)

end Owned

/-! ## Routines under a lock -/

/-- What a call does while it holds the lock: where it begins, and what each of its steps does to
the shared state; `e` is what is not up to the program. -/
structure Routine (σ ι ρ ε L : Type*) where
  enter : ι → L
  work : L → ε → σ → Option (σ × (L ⊕ ρ))

namespace Routine

variable (R : Routine σ ι ρ ε L)

/-- Steps of a call that nobody disturbs. -/
inductive Reaches (i : ι) (s : σ) : L → σ → Prop
  | start : Reaches i s (R.enter i) s
  | step {l l' : L} {s₁ s₂ : σ} {e : ε} (h : Reaches i s l s₁)
      (hwork : R.work l e s₁ = some (s₂, .inl l')) : Reaches i s l' s₂

/-- A call that nobody disturbs, from its beginning to its end. -/
def Runs (s : σ) (i : ι) (r : ρ) (s' : σ) : Prop :=
  ∃ l s₁ e, R.Reaches i s l s₁ ∧ R.work l e s₁ = some (s', .inr r)

end Routine

inductive Place (ι ρ L : Type*)
  | idle
  | waiting (i : ι)
  | inside (l : L)
  | unlocking (r : ρ)
  | leaving (r : ρ)
  deriving DecidableEq, Repr

def Place.holds : Place ι ρ L → Bool
  | .inside _ => true
  | .unlocking _ => true
  | _ => false

def Place.works : Place ι ρ L → Bool
  | .inside _ => true
  | _ => false

/-- The shared state, the count of the lock, where the threads are and what their callers have
seen so far. -/
structure Locked (T σ ι ρ L : Type*) where
  shared : σ
  count : Nat
  place : T → Place ι ρ L
  seen : List (CallEvent T ι ρ)

inductive LockedEvent (T ι ε : Type*)
  | call (t : T) (i : ι)
  | lock (t : T)
  | work (t : T) (e : ε)
  | unlock (t : T)
  | ret (t : T)
  deriving DecidableEq, Repr

namespace Locked

variable {R : Routine σ ι ρ ε L}

def init (s : σ) : Locked T σ ι ρ L := ⟨s, 1, fun _ => .idle, []⟩

def move (s : Locked T σ ι ρ L) (t : T) (p : Place ι ρ L) : Locked T σ ι ρ L :=
  { s with place := Function.update s.place t p }

/-- `none` where the thread is elsewhere, or the lock is held. -/
def step (R : Routine σ ι ρ ε L) (s : Locked T σ ι ρ L) :
    LockedEvent T ι ε → Option (Locked T σ ι ρ L)
  | .call t i =>
    match s.place t with
    | .idle => some { s.move t (.waiting i) with seen := s.seen ++ [.called t i] }
    | _ => none
  | .lock t =>
    match s.place t with
    | .waiting i =>
      if s.count = 0 then none
      else some { s.move t (.inside (R.enter i)) with count := s.count - 1 }
    | _ => none
  | .work t e =>
    match s.place t with
    | .inside l =>
      match R.work l e s.shared with
      | some (shared, .inl l) => some { s.move t (.inside l) with shared }
      | some (shared, .inr r) => some { s.move t (.unlocking r) with shared }
      | none => none
    | _ => none
  | .unlock t =>
    match s.place t with
    | .unlocking r => some { s.move t (.leaving r) with count := s.count + 1 }
    | _ => none
  | .ret t =>
    match s.place t with
    | .leaving r => some { s.move t .idle with seen := s.seen ++ [.returned t r] }
    | _ => none

/-- What a step can do, by the place of its thread. -/
inductive Steps (R : Routine σ ι ρ ε L) (s : Locked T σ ι ρ L) (t : T) : Locked T σ ι ρ L → Prop
  | call (i : ι) (h : s.place t = .idle) :
      Steps R s t { s.move t (.waiting i) with seen := s.seen ++ [.called t i] }
  | lock (i : ι) (h : s.place t = .waiting i) (hcount : s.count ≠ 0) :
      Steps R s t { s.move t (.inside (R.enter i)) with count := s.count - 1 }
  | work {l l' : L} {e : ε} {shared : σ} (h : s.place t = .inside l)
      (hwork : R.work l e s.shared = some (shared, .inl l')) :
      Steps R s t { s.move t (.inside l') with shared }
  | finish {l : L} {e : ε} {shared : σ} {r : ρ} (h : s.place t = .inside l)
      (hwork : R.work l e s.shared = some (shared, .inr r)) :
      Steps R s t { s.move t (.unlocking r) with shared }
  | unlock (r : ρ) (h : s.place t = .unlocking r) :
      Steps R s t { s.move t (.leaving r) with count := s.count + 1 }
  | ret (r : ρ) (h : s.place t = .leaving r) :
      Steps R s t { s.move t .idle with seen := s.seen ++ [.returned t r] }

theorem steps_of_step {s s' : Locked T σ ι ρ L} {e : LockedEvent T ι ε}
    (h : s.step R e = some s') : ∃ t, s.Steps R t s' := by
  cases e with
  | call t i =>
    simp only [step] at h
    split at h
    case h_1 hplace =>
      cases h
      exact ⟨t, .call i hplace⟩
    case h_2 => cases h
  | lock t =>
    simp only [step] at h
    split at h
    case h_1 i hplace =>
      obtain ⟨hcount, h⟩ := Option.ite_none_left_eq_some.mp h
      cases h
      exact ⟨t, .lock i hplace hcount⟩
    case h_2 => cases h
  | work t e =>
    simp only [step] at h
    split at h
    case h_1 l hplace =>
      split at h
      case h_1 hwork =>
        cases h
        exact ⟨t, .work hplace hwork⟩
      case h_2 hwork =>
        cases h
        exact ⟨t, .finish hplace hwork⟩
      case h_3 => cases h
    case h_2 => cases h
  | unlock t =>
    simp only [step] at h
    split at h
    case h_1 r hplace =>
      cases h
      exact ⟨t, .unlock r hplace⟩
    case h_2 => cases h
  | ret t =>
    simp only [step] at h
    split at h
    case h_1 r hplace =>
      cases h
      exact ⟨t, .ret r hplace⟩
    case h_2 => cases h

/-! ## The moment of a call is the step that ends it -/

/-- How far a thread is at its place, when the calls that are over have left the state `base`. -/
inductive Fits (R : Routine σ ι ρ ε L) (base shared : σ) : Place ι ρ L → Progressed ι ρ → Prop
  | idle : Fits R base shared .idle .idle
  | waiting (i : ι) : Fits R base shared (.waiting i) (.pending i)
  | inside {i : ι} {l : L} (h : R.Reaches i base l shared) :
      Fits R base shared (.inside l) (.pending i)
  | unlocking (r : ρ) : Fits R base shared (.unlocking r) (.done r)
  | leaving (r : ρ) : Fits R base shared (.leaving r) (.done r)

theorem Fits.of_not_works {base base' shared shared' : σ} {p : Place ι ρ L}
    {far : Progressed ι ρ} (h : Fits R base shared p far) (hp : p.works = false) :
    Fits R base' shared' p far := by
  cases h with
  | idle => exact .idle
  | waiting i => exact .waiting i
  | inside h => cases hp
  | unlocking r => exact .unlocking r
  | leaving r => exact .leaving r

structure Mirrors (R : Routine σ ι ρ ε L) (s₀ : σ) (s : Locked T σ ι ρ L)
    (is : List (Instant T ι ρ)) (far : T → Progressed ι ρ) (base : σ) : Prop where
  linearizable : Linearizable R.Runs s₀ s.seen is far base
  fits : ∀ t, Fits R base s.shared (s.place t) (far t)
  owned : ∃ owner, Owned Place.holds s.place s.count owner
  settled : (∀ t, (s.place t).works = false) → base = s.shared

theorem holds_of_works {p : Place ι ρ L} (h : p.works = true) : p.holds = true := by
  cases p with
  | inside l => rfl
  | _ => cases h

theorem mirrors_init (R : Routine σ ι ρ ε L) (s₀ : σ) :
    Mirrors (T := T) R s₀ (init s₀) [] (fun _ => .idle) s₀ where
  linearizable := ⟨[], .start, rfl, rfl, .start⟩
  fits _ := .idle
  owned := ⟨none, owned_init rfl⟩
  settled _ := rfl

theorem fits_move {base shared : σ} {place : T → Place ι ρ L} {far : T → Progressed ι ρ} {t : T}
    {p : Place ι ρ L} (hp : Fits R base shared p (far t))
    (hothers : ∀ t', t' ≠ t → Fits R base shared (place t') (far t')) (t' : T) :
    Fits R base shared (Function.update place t p t') (far t') :=
  (Function.forall_update_iff place fun t' p => Fits R base shared p (far t')).mpr
    ⟨hp, hothers⟩ t'

theorem fits_update {base shared : σ} {place : T → Place ι ρ L} {far : T → Progressed ι ρ} {t : T}
    {p : Place ι ρ L} {f : Progressed ι ρ} (hp : Fits R base shared p f)
    (hothers : ∀ t', t' ≠ t → Fits R base shared (place t') (far t')) :
    ∀ t', Fits R base shared (Function.update place t p t') (Function.update far t f t') := by
  refine fits_move ?_ fun t' ht => ?_
  · rwa [Function.update_self]
  · rw [Function.update_of_ne ht]
    exact hothers t' ht

theorem settled_move {base shared : σ} {s : Locked T σ ι ρ L} {t : T} {p : Place ι ρ L}
    (hsettled : (∀ t', (s.place t').works = false) → base = shared)
    (hp : (s.place t).works = false)
    (h : ∀ t', (Function.update s.place t p t').works = false) : base = shared := by
  refine hsettled fun t' => ?_
  by_cases ht : t' = t
  · exact ht ▸ hp
  · have hsame := h t'
    rwa [Function.update_of_ne ht] at hsame

theorem Mirrors.step {s₀ base : σ} {s s' : Locked T σ ι ρ L} {is : List (Instant T ι ρ)}
    {far : T → Progressed ι ρ} (h : Mirrors R s₀ s is far base) {t : T} (hstep : s.Steps R t s') :
    ∃ is' far' base', Mirrors R s₀ s' is' far' base' := by
  obtain ⟨owner, howned⟩ := h.owned
  have hfits := h.fits t
  -- while one thread works, what the others know does not depend on the shared state
  have hothers : (s.place t).holds = true → ∀ base' shared' t', t' ≠ t →
      Fits R base' shared' (s.place t') (far t') := by
    intro hholds base' shared' t' hne
    refine (h.fits t').of_not_works (Bool.eq_false_iff.mpr fun hworks => hne ?_)
    exact howned.eq_of_holds hholds (holds_of_works hworks)
  cases hstep with
  | call i hplace =>
    rw [hplace] at hfits
    generalize hfar : far t = f at hfits
    cases hfits
    exact ⟨_, _, _, h.linearizable.called hfar i, fits_update (.waiting i) fun t' _ => h.fits t',
      ⟨owner, howned.keep (by rw [hplace]; rfl)⟩,
      settled_move h.settled (by rw [hplace]; rfl)⟩
  | lock i hplace hcount =>
    rw [hplace] at hfits
    generalize hfar : far t = f at hfits
    cases hfits
    obtain rfl := howned.none_of_count hcount
    have hquiet : ∀ t', (s.place t').works = false := by
      intro t'
      refine Bool.eq_false_iff.mpr fun hworks => ?_
      cases (howned.1 t').mp (holds_of_works hworks)
    have hbase := h.settled hquiet
    have hstart : R.Reaches i base (R.enter i) s.shared := hbase ▸ .start
    refine ⟨_, _, _, h.linearizable, fits_move ?_ fun t' _ => h.fits t',
      ⟨_, howned.take rfl⟩, fun _ => hbase⟩
    rw [hfar]
    exact .inside hstart
  | work hplace hwork =>
    rw [hplace] at hfits hothers
    generalize hfar : far t = f at hfits
    cases hfits with
    | inside hreaches =>
      refine ⟨_, _, _, h.linearizable, fits_move ?_ (hothers rfl _ _),
        ⟨owner, howned.keep (by rw [hplace]; rfl)⟩, fun hnone => ?_⟩
      · rw [hfar]
        exact .inside (hreaches.step hwork)
      · have hself := hnone t
        simp only [move, Function.update_self] at hself
        cases hself
  | finish hplace hwork =>
    rw [hplace] at hfits hothers
    generalize hfar : far t = f at hfits
    cases hfits with
    | inside hreaches =>
      exact ⟨_, _, _, h.linearizable.happened hfar ⟨_, _, _, hreaches, hwork⟩,
        fits_update (.unlocking _) (hothers rfl _ _),
        ⟨owner, howned.keep (by rw [hplace]; rfl)⟩, fun _ => rfl⟩
  | unlock r hplace =>
    rw [hplace] at hfits
    generalize hfar : far t = f at hfits
    cases hfits
    have hself : (s.place t).holds = true := by
      rw [hplace]
      rfl
    obtain rfl := (howned.1 t).mp hself
    refine ⟨_, _, _, h.linearizable, fits_move ?_ fun t' _ => h.fits t',
      ⟨_, howned.give rfl⟩, settled_move h.settled (by rw [hplace]; rfl)⟩
    rw [hfar]
    exact .leaving r
  | ret r hplace =>
    rw [hplace] at hfits
    generalize hfar : far t = f at hfits
    cases hfits
    exact ⟨_, _, _, h.linearizable.returned hfar, fits_update .idle fun t' _ => h.fits t',
      ⟨owner, howned.keep (by rw [hplace]; rfl)⟩,
      settled_move h.settled (by rw [hplace]; rfl)⟩

/-- Whatever the order of the steps, the callers see calls that happen at one moment each; where
nobody works on it, the shared state is what these calls have left. -/
theorem exists_mirrors {s₀ : σ} {s : Locked T σ ι ρ L} {es : List (LockedEvent T ι ε)}
    (hrun : steps (Locked.step R) (.init s₀) es = some s) :
    ∃ is far base, Mirrors R s₀ s is far base := by
  have hkeep : ∀ (s : Locked T σ ι ρ L) e s', (∃ is far base, Mirrors R s₀ s is far base) →
      s.step R e = some s' → ∃ is far base, Mirrors R s₀ s' is far base := by
    rintro s e s' ⟨is, far, base, hmirrors⟩ hstep
    obtain ⟨t, hsteps⟩ := steps_of_step hstep
    exact hmirrors.step hsteps
  exact steps_invariant hkeep ⟨_, _, _, mirrors_init R s₀⟩ hrun

end Locked

end AdvCppTP.Lib
