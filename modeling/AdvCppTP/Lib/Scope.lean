import Mathlib.Logic.Basic

/-! Programs that return, throw or wait for somebody else, and the rules by which one that throws
leaves the state as it was: what it has taken is given back on the way out, the last first. -/

namespace AdvCppTP.Lib

inductive Outcome (X S α : Type*)
  | returns (a : α) (s : S)
  | throws (x : X) (s : S)
  | waits (s : S)

def Outcome.state {X S α : Type*} : Outcome X S α → S
  | .returns _ s => s
  | .throws _ s => s
  | .waits s => s

def Outcome.thrown {X S α : Type*} : Outcome X S α → Option X
  | .throws x _ => some x
  | _ => none

def Outcome.result {X S α : Type*} : Outcome X S α → Option (Except X α)
  | .returns a _ => some (.ok a)
  | .throws x _ => some (.error x)
  | .waits _ => none

theorem Outcome.eq_throws {X S α : Type*} {o : Outcome X S α} {x : X} (h : o.thrown = some x) :
    o = .throws x o.state := by
  cases o with
  | returns a s => cases h
  | throws y s =>
    cases h
    rfl
  | waits s => cases h

/-- It does not wait, and where it gets to, `post` holds of what is thrown and of the state. -/
def Outcome.Ends {X S α : Type*} (post : Option X → S → Prop) : Outcome X S α → Prop
  | .returns _ s => post none s
  | .throws x s => post (some x) s
  | .waits _ => False

theorem Outcome.Ends.holds {X S α : Type*} {post : Option X → S → Prop} {o : Outcome X S α}
    (h : o.Ends post) : post o.thrown o.state := by
  cases o with
  | returns a s => exact h
  | throws x s => exact h
  | waits s => exact False.elim h

theorem Outcome.Ends.mono {X S α : Type*} {post post' : Option X → S → Prop} {o : Outcome X S α}
    (h : o.Ends post) (himp : ∀ x s, post x s → post' x s) : o.Ends post' := by
  cases o with
  | returns a s => exact himp none s h
  | throws x s => exact himp (some x) s h
  | waits s => exact h

/-- `P` holds where it returns, and `E` where it throws. -/
def Outcome.Meets {X S α : Type*} (P : α → S → Prop) (E : X → S → Prop) : Outcome X S α → Prop
  | .returns a s => P a s
  | .throws x s => E x s
  | .waits _ => True

theorem Outcome.Meets.mono {X S α : Type*} {P P' : α → S → Prop} {E E' : X → S → Prop}
    {o : Outcome X S α} (h : o.Meets P E) (hP : ∀ a s, P a s → P' a s)
    (hE : ∀ x s, E x s → E' x s) : o.Meets P' E' := by
  cases o with
  | returns a s => exact hP a s h
  | throws x s => exact hE x s h
  | waits s => trivial

theorem Outcome.meets_true {X S α : Type*} (o : Outcome X S α) :
    o.Meets (fun _ _ => True) fun _ _ => True := by
  cases o with
  | returns a s => trivial
  | throws x s => trivial
  | waits s => trivial

/-- It does not wait; `P` holds where it returns, and `E` where it throws. -/
def Outcome.Gives {X S α : Type*} (P : α → S → Prop) (E : X → S → Prop) : Outcome X S α → Prop
  | .returns a s => P a s
  | .throws x s => E x s
  | .waits _ => False

theorem Outcome.Gives.mono {X S α : Type*} {P P' : α → S → Prop} {E E' : X → S → Prop}
    {o : Outcome X S α} (h : o.Gives P E) (hP : ∀ a s, P a s → P' a s)
    (hE : ∀ x s, E x s → E' x s) : o.Gives P' E' := by
  cases o with
  | returns a s => exact hP a s h
  | throws x s => exact hE x s h
  | waits s => exact h

def Prog (X S α : Type*) := S → Outcome X S α

namespace Prog

variable {X S α β γ : Type*}

def pure (a : α) : Prog X S α := fun s => .returns a s

def throw (x : X) : Prog X S α := fun s => .throws x s

def wait : Prog X S α := fun s => .waits s

def update (f : S → S) : Prog X S Unit := fun s => .returns () (f s)

def read (f : S → Prog X S α) : Prog X S α := fun s => f s s

def andThen (m : Prog X S α) (f : α → Prog X S β) : Prog X S β := fun s =>
  match m s with
  | .returns a s => f a s
  | .throws x s => .throws x s
  | .waits s => .waits s

/-- An exception passes `undo` on its way out. -/
def unwinding (undo : S → S) (m : Prog X S α) : Prog X S α := fun s =>
  match m s with
  | .returns a s => .returns a s
  | .throws x s => .throws x (undo s)
  | .waits s => .waits s

/-- A local object: `leave` destroys what `body` has left of it, or, when `body` throws, the object
as it was built. -/
def inScope (build : Prog X S α) (leave : α → S → S) (body : α → Prog X S (β × α)) :
    Prog X S β :=
  build.andThen fun a => ((body a).unwinding (leave a)).andThen fun r =>
    (update (leave r.2)).andThen fun _ => pure r.1

/-- The strong guarantee. -/
def Strong (m : Prog X S α) : Prop := ∀ s x s', m s = .throws x s' → s' = s

def Nothrow (m : Prog X S α) : Prop := ∀ s x s', m s ≠ .throws x s'

def UndoneBy (m : Prog X S α) (undo : α → S → S) : Prop :=
  ∀ s a s', m s = .returns a s' → undo a s' = s

theorem andThen_eq_throws {m : Prog X S α} {f : α → Prog X S β} {s s' : S} {x : X} :
    m.andThen f s = .throws x s' ↔
      m s = .throws x s' ∨ ∃ a s₁, m s = .returns a s₁ ∧ f a s₁ = .throws x s' := by
  rw [andThen]
  cases m s with
  | returns a s₁ =>
    refine ⟨fun h => .inr ⟨a, s₁, rfl, h⟩, ?_⟩
    rintro (h | ⟨a', s₂, h, hf⟩)
    · cases h
    · cases h
      exact hf
  | throws y s₁ =>
    constructor
    · intro h
      cases h
      exact .inl rfl
    · rintro (h | ⟨a', s₂, h, -⟩)
      · cases h
        rfl
      · cases h
  | waits s₁ =>
    constructor
    · intro h
      cases h
    · rintro (h | ⟨a', s₂, h, -⟩)
      · cases h
      · cases h

theorem andThen_eq_returns {m : Prog X S α} {f : α → Prog X S β} {s s' : S} {b : β} :
    m.andThen f s = .returns b s' ↔ ∃ a s₁, m s = .returns a s₁ ∧ f a s₁ = .returns b s' := by
  rw [andThen]
  cases m s with
  | returns a s₁ =>
    refine ⟨fun h => ⟨a, s₁, rfl, h⟩, ?_⟩
    rintro ⟨a', s₂, h, hf⟩
    cases h
    exact hf
  | throws y s₁ =>
    refine ⟨fun h => ?_, fun ⟨a', s₂, h, _⟩ => ?_⟩
    · cases h
    · cases h
  | waits s₁ =>
    refine ⟨fun h => ?_, fun ⟨a', s₂, h, _⟩ => ?_⟩
    · cases h
    · cases h

theorem unwinding_eq_throws {m : Prog X S α} {undo : S → S} {s s' : S} {x : X} :
    m.unwinding undo s = .throws x s' ↔ ∃ s₁, m s = .throws x s₁ ∧ undo s₁ = s' := by
  rw [unwinding]
  cases m s with
  | returns a s₁ =>
    refine ⟨fun h => ?_, fun ⟨s₂, h, _⟩ => ?_⟩
    · cases h
    · cases h
  | throws y s₁ =>
    refine ⟨fun h => ?_, fun ⟨s₂, h, hundo⟩ => ?_⟩
    · cases h
      exact ⟨s₁, rfl, rfl⟩
    · cases h
      rw [← hundo]
  | waits s₁ =>
    refine ⟨fun h => ?_, fun ⟨s₂, h, _⟩ => ?_⟩
    · cases h
    · cases h

theorem unwinding_eq_returns {m : Prog X S α} {undo : S → S} {s s' : S} {a : α} :
    m.unwinding undo s = .returns a s' ↔ m s = .returns a s' := by
  rw [unwinding]
  cases m s with
  | returns b s₁ => exact Iff.rfl
  | throws y s₁ =>
    refine ⟨fun h => ?_, fun h => ?_⟩
    · cases h
    · cases h
  | waits s₁ => exact Iff.rfl

theorem ends_andThen_pure {m : Prog X S α} {post : Option X → S → Prop} {s : S} (f : α → β)
    (h : (m s).Ends post) : (m.andThen (fun a => pure (f a)) s).Ends post := by
  rw [andThen]
  cases hm : m s with
  | returns a s' => exact (hm ▸ h : (Outcome.returns a s').Ends post)
  | throws x s' => exact (hm ▸ h : (Outcome.throws x s').Ends post)
  | waits s' => exact (hm ▸ h : (Outcome.waits s').Ends post)

theorem Nothrow.strong {m : Prog X S α} (h : m.Nothrow) : m.Strong :=
  fun s x s' hm => absurd hm (h s x s')

theorem nothrow_pure (a : α) : (pure a : Prog X S α).Nothrow := fun _ _ _ h => by cases h

theorem nothrow_update (f : S → S) : (update f : Prog X S Unit).Nothrow :=
  fun _ _ _ h => by cases h

theorem strong_throw (x : X) : (throw x : Prog X S α).Strong := fun _ _ _ h => by
  cases h
  rfl

theorem strong_read {f : S → Prog X S α} (h : ∀ s, (f s).Strong) : (read f).Strong :=
  fun s x s' hm => h s s x s' hm

theorem nothrow_read {f : S → Prog X S α} (h : ∀ s, (f s).Nothrow) : (read f).Nothrow :=
  fun s x s' hm => h s s x s' hm

theorem nothrow_andThen {m : Prog X S α} {f : α → Prog X S β} (hm : m.Nothrow)
    (hf : ∀ a, (f a).Nothrow) : (m.andThen f).Nothrow := by
  intro s x s' h
  rcases andThen_eq_throws.mp h with h | ⟨a, s₁, -, h⟩
  · exact hm s x s' h
  · exact hf a s₁ x s' h

/-- What follows the last step that may throw does not matter. -/
theorem Strong.andThen_nothrow {m : Prog X S α} {f : α → Prog X S β} (hm : m.Strong)
    (hf : ∀ a, (f a).Nothrow) : (m.andThen f).Strong := by
  intro s x s' h
  rcases andThen_eq_throws.mp h with h | ⟨a, s₁, -, h⟩
  · exact hm s x s' h
  · exact absurd h (hf a s₁ x s')

/-- A step that can be undone, and is undone when the rest throws. -/
theorem Strong.andThen_unwinding {m : Prog X S α} {f : α → Prog X S β} {g : α → β → Prog X S γ}
    {undo : α → S → S} (hm : m.Strong) (hundo : m.UndoneBy undo) (hf : ∀ a, (f a).Strong)
    (hg : ∀ a b, (g a b).Nothrow) :
    (m.andThen fun a => ((f a).unwinding (undo a)).andThen (g a)).Strong := by
  intro s x s' h
  rcases andThen_eq_throws.mp h with h | ⟨a, s₁, hreturns, h⟩
  · exact hm s x s' h
  · rcases andThen_eq_throws.mp h with h | ⟨b, s₂, -, h⟩
    · obtain ⟨s₂, hthrows, rfl⟩ := unwinding_eq_throws.mp h
      rw [hf a s₁ x s₂ hthrows]
      exact hundo s a s₁ hreturns
    · exact absurd h (hg a b s₂ x s')

theorem Strong.inScope {build : Prog X S α} {leave : α → S → S} {body : α → Prog X S (β × α)}
    (hbuild : build.Strong) (hleave : build.UndoneBy leave) (hbody : ∀ a, (body a).Strong) :
    (build.inScope leave body).Strong :=
  hbuild.andThen_unwinding hleave hbody fun _ r =>
    nothrow_andThen (nothrow_update (leave r.2)) fun _ => nothrow_pure r.1

theorem undoneBy_pure {a : α} {undo : α → S → S} (h : ∀ s, undo a s = s) :
    (pure a : Prog X S α).UndoneBy undo := by
  intro s b s' hpure
  cases hpure
  exact h s

/-- Two steps are undone one behind the other, the last one first. -/
theorem UndoneBy.andThen {m : Prog X S α} {f : α → Prog X S β} {undo : α → S → S}
    {undo' : α → β → S → S} {g : α → β → γ} {leave : γ → S → S} {h : α → S → S}
    (hm : m.UndoneBy undo) (hf : ∀ a, (f a).UndoneBy (undo' a))
    (hleave : ∀ a b s, leave (g a b) s = undo a (undo' a b s)) :
    (m.andThen fun a => ((f a).unwinding (h a)).andThen fun b => pure (g a b)).UndoneBy leave := by
  intro s c s' hreturns
  obtain ⟨a, s₁, hfirst, hrest⟩ := andThen_eq_returns.mp hreturns
  obtain ⟨b, s₂, hsecond, hlast⟩ := andThen_eq_returns.mp hrest
  cases hlast
  rw [hleave, hf a s₁ b s' (unwinding_eq_returns.mp hsecond)]
  exact hm s a s₁ hfirst

/-! ## What holds however a program ends -/

/-- It takes states with `I` to states with `I`, whether it returns, throws or waits. -/
def Keeps (I : S → Prop) (m : Prog X S α) : Prop := ∀ s, I s → I (m s).state

theorem keeps_pure (I : S → Prop) (a : α) : Keeps I (pure a : Prog X S α) := fun _ hs => hs

theorem keeps_throw (I : S → Prop) (x : X) : Keeps I (throw x : Prog X S α) := fun _ hs => hs

theorem keeps_wait (I : S → Prop) : Keeps I (wait : Prog X S α) := fun _ hs => hs

theorem keeps_update {I : S → Prop} {f : S → S} (h : ∀ s, I s → I (f s)) :
    Keeps I (update f : Prog X S Unit) := h

theorem Keeps.andThen {I : S → Prop} {m : Prog X S α} {f : α → Prog X S β} (hm : Keeps I m)
    (hf : ∀ a, Keeps I (f a)) : Keeps I (m.andThen f) := by
  intro s hs
  have hfirst := hm s hs
  rw [Prog.andThen]
  cases hreturns : m s with
  | returns a s₁ =>
    rw [hreturns] at hfirst
    exact hf a s₁ hfirst
  | throws x s₁ =>
    rw [hreturns] at hfirst
    exact hfirst
  | waits s₁ =>
    rw [hreturns] at hfirst
    exact hfirst

/-! ## What is thrown, and caught -/

def ofExcept (e : Except X α) : Prog X S α :=
  match e with
  | .ok a => pure a
  | .error x => throw x

/-- `try` around `m`; what `handlers` has nothing for is not caught. -/
def catching (handlers : X → Option (Prog X S α)) (m : Prog X S α) : Prog X S α := fun s =>
  match m s with
  | .returns a s => .returns a s
  | .throws x s =>
    match handlers x with
    | some handler => handler s
    | none => .throws x s
  | .waits s => .waits s

/-- `m` run on a state that is made from this one, and of which this one takes back a part. -/
def within {T : Type*} (enter : S → T) (leave : T → S → S) (m : Prog X T α) :
    Prog X S (α × T) := fun s =>
  match m (enter s) with
  | .returns a t => .returns (a, t) (leave t s)
  | .throws x t => .throws x (leave t s)
  | .waits t => .waits (leave t s)

section Meets

variable {P : α → S → Prop} {E : X → S → Prop} {s : S}

theorem meets_ofExcept {e : Except X α} (hok : ∀ a, e = .ok a → P a s)
    (herror : ∀ x, e = .error x → E x s) : (ofExcept e s).Meets P E := by
  cases e with
  | ok a => exact hok a rfl
  | error x => exact herror x rfl

theorem meets_andThen {m : Prog X S α} {f : α → Prog X S β} {Q : β → S → Prop}
    (hm : (m s).Meets P E) (hf : ∀ a s₁, P a s₁ → (f a s₁).Meets Q E) :
    (m.andThen f s).Meets Q E := by
  rw [andThen]
  cases hfirst : m s with
  | returns a s₁ =>
    rw [hfirst] at hm
    exact hf a s₁ hm
  | throws x s₁ =>
    rw [hfirst] at hm
    exact hm
  | waits s₁ => trivial

theorem meets_within {T : Type*} {enter : S → T} {leave : T → S → S} {m : Prog X T α}
    {Q : α × T → S → Prop}
    (hm : (m (enter s)).Meets (fun a t => Q (a, t) (leave t s)) fun x t => E x (leave t s)) :
    (m.within enter leave s).Meets Q E := by
  rw [within]
  cases hrun : m (enter s) with
  | returns a t =>
    rw [hrun] at hm
    exact hm
  | throws x t =>
    rw [hrun] at hm
    exact hm
  | waits t => trivial

/-- What is not caught has to be as the whole has, what is caught as its handler has. -/
theorem meets_catching {handlers : X → Option (Prog X S α)} {m : Prog X S α}
    {thrown : X → S → Prop} (hm : (m s).Meets P thrown)
    (hpass : ∀ x s₁, thrown x s₁ → handlers x = none → E x s₁)
    (hcaught : ∀ x s₁ handler, thrown x s₁ → handlers x = some handler →
      (handler s₁).Meets P E) : (m.catching handlers s).Meets P E := by
  rw [catching]
  cases hrun : m s with
  | returns a s₁ =>
    rw [hrun] at hm
    exact hm
  | throws x s₁ =>
    rw [hrun] at hm
    rcases hx : handlers x with _ | handler
    · simp only [hx]
      exact hpass x s₁ hm hx
    · simp only [hx]
      exact hcaught x s₁ handler hm hx
  | waits s₁ => trivial

end Meets

section Gives

variable {P : α → S → Prop} {E : X → S → Prop} {s : S}

end Gives

/-! ## Transfers in parts -/

section Transfer

variable {O : Type*}

/-- Moves `len` units by calls that may move fewer than they are asked for, and are answered by
`outcomes`, the call behind these by none; `onNone` is what follows a call that moves none. -/
def transfer (one : Nat → Nat → Option O → Prog X S Nat) (onNone : Prog X S Unit) (len : Nat) :
    Nat → List O → Prog X S Unit
  | moved, [] =>
    if moved < len then (one moved (len - moved) none).andThen fun _ => wait else pure ()
  | moved, o :: outcomes =>
    if moved < len then (one moved (len - moved) (some o)).andThen fun n =>
      if n = 0 then onNone else transfer one onNone len (moved + n) outcomes
    else pure ()

inductive Ending
  | complete
  | empty
  | failed
  | waiting
  deriving DecidableEq

/-- How a transfer of `todo` units ends where `amount todo o` is what a call that is asked for
`todo` moves, or `none` when it throws. -/
def ending (amount : Nat → O → Option Nat) : Nat → List O → Ending
  | todo, [] => if todo = 0 then .complete else .waiting
  | todo, o :: outcomes =>
    if todo = 0 then .complete
    else match amount todo o with
      | none => .failed
      | some 0 => .empty
      | some n => ending amount (todo - n) outcomes

/-- The calls of a transfer that move something, with what they are asked for. -/
def moving (amount : Nat → O → Option Nat) : Nat → List O → List (Nat × O)
  | _, [] => []
  | todo, o :: outcomes =>
    if todo = 0 then []
    else match amount todo o with
      | none => []
      | some 0 => []
      | some n => (todo, o) :: moving amount (todo - n) outcomes

theorem keeps_transfer {I : S → Prop} {one : Nat → Nat → Option O → Prog X S Nat}
    {onNone : Prog X S Unit} (hone : ∀ moved todo o, Keeps I (one moved todo o))
    (hnone : Keeps I onNone) (len moved : Nat) (outcomes : List O) :
    Keeps I (transfer one onNone len moved outcomes) := by
  induction outcomes generalizing moved with
  | nil =>
    rw [transfer]
    split
    · exact (hone moved (len - moved) none).andThen fun _ => keeps_wait I
    · exact keeps_pure I ()
  | cons o outcomes ih =>
    rw [transfer]
    split
    · refine (hone moved (len - moved) (some o)).andThen fun n => ?_
      split
      · exact hnone
      · exact ih (moved + n)
    · exact keeps_pure I ()

/-- The rule for transfers: `inv` holds between the calls, of those made and of how much they have
moved; of the calls that moved something, `failed` holds where one behind them has thrown, `unmoved`
where `onNone` has and `waiting` where one is left without an answer. -/
theorem transfer_ends {one : Nat → Nat → Option O → Prog X S Nat} {onNone : Prog X S Unit}
    {len : Nat} {amount : Nat → O → Option Nat} {inv : List (Nat × O) → Nat → S → Prop}
    {failed unmoved waiting : List (Nat × O) → S → Prop}
    (hone : ∀ made moved o s, moved < len → inv made moved s →
      match amount (len - moved) o with
      | none => ∃ x s', one moved (len - moved) (some o) s = .throws x s' ∧ failed made s'
      | some n => n ≤ len - moved ∧ ∃ s', one moved (len - moved) (some o) s = .returns n s' ∧
          inv (made ++ [(len - moved, o)]) (moved + n) s')
    (hwait : ∀ made moved s, moved < len → inv made moved s →
      ∃ s', one moved (len - moved) none s = .waits s' ∧ waiting made s')
    (hnone : ∀ made moved o s, amount (len - moved) o = some 0 →
      inv (made ++ [(len - moved, o)]) moved s → ∃ x s', onNone s = .throws x s' ∧ unmoved made s')
    {made : List (Nat × O)} {moved : Nat} (hmoved : moved ≤ len) {s : S} (hs : inv made moved s)
    (outcomes : List O) :
    match ending amount (len - moved) outcomes with
    | .complete => ∃ s', transfer one onNone len moved outcomes s = .returns () s' ∧
        inv (made ++ moving amount (len - moved) outcomes) len s'
    | .empty => ∃ x s', transfer one onNone len moved outcomes s = .throws x s' ∧
        unmoved (made ++ moving amount (len - moved) outcomes) s'
    | .failed => ∃ x s', transfer one onNone len moved outcomes s = .throws x s' ∧
        failed (made ++ moving amount (len - moved) outcomes) s'
    | .waiting => ∃ s', transfer one onNone len moved outcomes s = .waits s' ∧
        waiting (made ++ moving amount (len - moved) outcomes) s' := by
  -- by induction on the calls; `made` and `moved` are what the ones before have done
  induction outcomes generalizing made moved s with
  | nil =>
    rw [ending, transfer, moving, List.append_nil]
    by_cases hlt : moved < len
    · obtain ⟨s', hwaits, hwaiting⟩ := hwait made moved s hlt hs
      rw [if_neg (by omega), if_pos hlt, andThen, hwaits]
      exact ⟨s', rfl, hwaiting⟩
    · obtain rfl : moved = len := by omega
      rw [if_pos (by omega), if_neg hlt]
      exact ⟨s, rfl, hs⟩
  | cons o outcomes ih =>
    rw [ending, transfer, moving]
    by_cases hlt : moved < len
    · have hne : len - moved ≠ 0 := by omega
      rw [if_neg hne, if_pos hlt, if_neg hne]
      have hcall := hone made moved o s hlt hs
      rcases hamount : amount (len - moved) o with _ | _ | n
      · simp only [hamount, List.append_nil] at hcall ⊢
        obtain ⟨x, s', hthrows, hfailed⟩ := hcall
        exact ⟨x, s', by rw [andThen, hthrows], hfailed⟩
      · simp only [hamount, List.append_nil] at hcall ⊢
        obtain ⟨-, s₁, hreturns, hinv⟩ := hcall
        obtain ⟨x, s', hthrows, hunmoved⟩ := hnone made moved o s₁ hamount hinv
        exact ⟨x, s', by rw [andThen, hreturns]; exact hthrows, hunmoved⟩
      · simp only [hamount] at hcall ⊢
        obtain ⟨hle, s₁, hreturns, hinv⟩ := hcall
        -- something was moved: the rest of the transfer is one of what is left
        have hrest := ih (by omega) hinv
        rw [show len - (moved + (n + 1)) = len - moved - (n + 1) by omega, List.append_assoc]
          at hrest
        simpa only [andThen, hreturns, Nat.add_eq_zero_iff, Nat.succ_ne_zero, and_false, if_false,
          List.singleton_append] using hrest
    · obtain rfl : moved = len := by omega
      rw [if_pos (by omega), if_neg hlt, if_pos (by omega), List.append_nil]
      exact ⟨s, rfl, hs⟩

end Transfer

end Prog

end AdvCppTP.Lib
