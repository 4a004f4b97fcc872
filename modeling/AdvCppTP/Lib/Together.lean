import AdvCppTP.Lib.Progress
import Mathlib.Logic.Function.Basic

/-! Components that go on in any order over one state that all of them share. -/

namespace AdvCppTP.Lib

variable {T L σ E : Type*}

/-- What the components have of their own, and what they share. -/
structure Together (T L σ : Type*) where
  own : T → L
  shared : σ

namespace Together

variable [DecidableEq T]

/-- A step of one component. -/
def step (f : T → L → σ → E → Option (L × σ)) (s : Together T L σ) (e : T × E) :
    Option (Together T L σ) :=
  (f e.1 (s.own e.1) s.shared e.2).map fun r => ⟨Function.update s.own e.1 r.1, r.2⟩

/-- Each component is sound beside what it shares, and any two are apart. -/
structure Sound (I : T → L → σ → Prop) (Apart : L → L → Prop) (s : Together T L σ) : Prop where
  each : ∀ t, I t (s.own t) s.shared
  apart : ∀ t u, t ≠ u → Apart (s.own t) (s.own u)

variable {f : T → L → σ → E → Option (L × σ)} {I : T → L → σ → Prop} {Apart : L → L → Prop}

/-- A step that keeps its own component sound and does not harm another one keeps all of them. -/
theorem Sound.step (hsymm : ∀ l k, Apart l k → Apart k l)
    (hown : ∀ t l s e l' s', I t l s → f t l s e = some (l', s') → I t l' s')
    (hother : ∀ t u l k s e l' s', t ≠ u → I t l s → I u k s → Apart l k →
      f t l s e = some (l', s') → I u k s' ∧ Apart l' k)
    {s s' : Together T L σ} {e : T × E} (hs : s.Sound I Apart) (hstep : s.step f e = some s') :
    s'.Sound I Apart := by
  obtain ⟨⟨l', shared⟩, hf, rfl⟩ := Option.map_eq_some_iff.mp hstep
  have hothers : ∀ u, u ≠ e.1 → I u (s.own u) shared ∧ Apart l' (s.own u) := fun u hu =>
    hother e.1 u _ _ _ _ _ _ (Ne.symm hu) (hs.each e.1) (hs.each u) (hs.apart e.1 u (Ne.symm hu)) hf
  constructor
  · intro u
    by_cases hu : u = e.1
    · subst hu
      simp only [Function.update_self]
      exact hown _ _ _ _ _ _ (hs.each _) hf
    · simp only [Function.update_of_ne hu]
      exact (hothers u hu).1
  · intro u v huv
    by_cases hu : u = e.1
    · subst hu
      simp only [Function.update_self, Function.update_of_ne (Ne.symm huv)]
      exact (hothers v (Ne.symm huv)).2
    · simp only [Function.update_of_ne hu]
      by_cases hv : v = e.1
      · subst hv
        simp only [Function.update_self]
        exact hsymm _ _ (hothers u hu).2
      · simp only [Function.update_of_ne hv]
        exact hs.apart u v huv

end Together

end AdvCppTP.Lib
