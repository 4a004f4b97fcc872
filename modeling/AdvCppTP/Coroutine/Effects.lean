import AdvCppTP.Coroutine.Routine

/-! What a switch into a routine can do to the memory and to the set of ids, whatever its body
does: an invariant rule for the segments of one `resume` or `kill`, and what follows from it. -/

namespace AdvCppTP.Coroutine

variable {κ ε σ : Type*}

/-- A property of the table and the memory that running, yielding and finishing all keep. -/
structure SwitchInvariant (c : Code κ ε σ) (id : Nat) (Q : Ordinator κ ε → σ → Prop) : Prop where
  run : ∀ o k sig s, Q o s → Q o (c.run o.current k sig s).2
  yield : ∀ o k s, Q o s → Q (Coroutine.yield o k).1 s
  finish : ∀ o thrown s, Q o s → Q (Coroutine.finish o id thrown) s

section

variable {c : Code κ ε σ} {id : Nat} {Q : Ordinator κ ε → σ → Prop}

theorem SwitchInvariant.unwind (h : SwitchInvariant c id Q) (k : κ) (e : Exn ε)
    (o : Ordinator κ ε) (s : σ) (hQ : Q o s) :
    Q (Coroutine.unwind c id o k e s).o (Coroutine.unwind c id o k e s).world := by
  induction k using c.unwinds.induction generalizing e o s with
  | _ k ih =>
    have hran := h.run o k (.raised e) s hQ
    rcases hrun : c.run o.current k (.raised e) s with ⟨seg, s'⟩
    rw [hrun] at hran
    cases seg with
    | yield k' =>
      have hyielded := h.yield o k' s' hran
      rw [unwind_yield hrun]
      rcases hy : Coroutine.yield o k' with ⟨o', _ | e'⟩
      · rw [hy] at hyielded
        exact hyielded
      · rw [hy] at hyielded
        exact ih k' ⟨o.current, e, s, s', hrun⟩ e' o' s' hyielded
    | ret =>
      rw [unwind_ret hrun]
      exact h.finish o none s' hran
    | throw e' =>
      rw [unwind_throw hrun]
      exact h.finish o (some e') s' hran

theorem SwitchInvariant.exec (h : SwitchInvariant c id Q) (o : Ordinator κ ε) (k : κ)
    (sig : Signal ε) (s : σ) (x : Ran κ ε) (hQ : Q o s) :
    Q (Coroutine.exec c id o k sig s x).o (Coroutine.exec c id o k sig s x).world := by
  have hran := h.run o k sig s hQ
  rw [Coroutine.exec]
  rcases hrun : c.run o.current k sig s with ⟨seg, s'⟩
  rw [hrun] at hran
  cases seg with
  | yield k' =>
    have hyielded := h.yield o k' s' hran
    simp only []
    rcases hy : Coroutine.yield o k' with ⟨o', _ | e'⟩
    · rw [hy] at hyielded
      exact hyielded
    · rw [hy] at hyielded
      exact h.unwind k' e' o' s' hyielded
  | ret => exact h.finish o none s' hran
  | throw e' => exact h.finish o (some e') s' hran

theorem SwitchInvariant.switchTo (h : SwitchInvariant c id Q) (o : Ordinator κ ε)
    (r : Routine κ ε) (s : σ) (hQ : Q o s) :
    Q (Coroutine.switchTo c id o r s).o (Coroutine.switchTo c id o r s).world := by
  unfold Coroutine.switchTo
  split
  · split
    · exact h.finish o none s hQ
    · exact h.exec o _ _ s _ hQ
  · split
    · exact h.unwind _ _ o s hQ
    · exact h.exec o _ _ s _ hQ

end

/-! ## The memory -/

theorem world_reap (id : Nat) (r : Switched κ ε σ) : (reap id r).1.2 = r.world := by
  unfold reap
  split
  · rfl
  · split <;> rfl

section World

variable (c : Code κ ε σ) {P : σ → Prop}

theorem resume_world (hP : ∀ cur k sig s, P s → P (c.run cur k sig s).2) (o : Ordinator κ ε)
    {s : σ} (hs : P s) (id : Nat) : P (resume c o s id).1.2 := by
  have hinv : SwitchInvariant c id fun _ s => P s :=
    ⟨fun o k sig s => hP o.current k sig s, fun _ _ _ h => h, fun _ _ _ h => h⟩
  unfold resume
  split
  · exact hs
  split
  · exact hs
  split
  · exact hs
  · rw [world_reap]
    exact hinv.switchTo _ _ s hs

theorem kill_world (hP : ∀ cur k sig s, P s → P (c.run cur k sig s).2) (o : Ordinator κ ε)
    {s : σ} (hs : P s) (id : Nat) (ex : Option (Exn ε)) : P (kill c o s id ex).1.2 := by
  unfold kill
  split
  · exact hs
  rcases ex with _ | e
  · exact hs
  rcases o.routines.lookup id with _ | r
  · exact hs
  · have hresumed := resume_world c hP
      { o with routines := o.routines.insert id { r with exception := some e } } hs id
    simp only []
    split
    · exact hresumed
    · exact hresumed

end World

/-! ## The ids -/

theorem mem_insert_of_lookup {o : Ordinator κ ε} {id : Nat} {r : Routine κ ε}
    (h : o.routines.lookup id = some r) (r' : Routine κ ε) (j : Nat) :
    j ∈ o.routines.insert id r' ↔ j ∈ o.routines := by
  rw [AList.mem_insert]
  exact ⟨fun hj => hj.elim (fun e => e ▸ Lib.mem_of_lookup h) fun hj => hj, Or.inr⟩

theorem mem_create_iff (o : Ordinator κ ε) (id : Nat) (f : Option κ) (j : Nat) :
    j ∈ (create o id f).1.routines ↔ j = id ∨ j ∈ o.routines := by
  unfold create
  split
  · exact Lib.mem_emplace _ _
  · exact Lib.mem_emplace _ _

theorem mem_yield (o : Ordinator κ ε) (k : κ) (j : Nat) :
    j ∈ (yield o k).1.routines ↔ j ∈ o.routines := by
  unfold yield
  split
  · rfl
  · split
    · rfl
    · exact mem_insert_of_lookup ‹_› _ j

theorem mem_finish (o : Ordinator κ ε) (id : Nat) (thrown : Option (Exn ε)) (j : Nat) :
    j ∈ (finish o id thrown).routines ↔ j ∈ o.routines := by
  unfold finish
  split
  · rfl
  · exact mem_insert_of_lookup ‹_› _ j

theorem mem_switchTo (c : Code κ ε σ) (id : Nat) (o : Ordinator κ ε) (r : Routine κ ε) (s : σ)
    (j : Nat) : j ∈ (switchTo c id o r s).o.routines ↔ j ∈ o.routines := by
  have hinv : SwitchInvariant c id fun o' _ => j ∈ o'.routines ↔ j ∈ o.routines :=
    ⟨fun _ _ _ _ h => h, fun o' k _ h => (mem_yield o' k j).trans h,
      fun o' thrown _ h => (mem_finish o' id thrown j).trans h⟩
  exact hinv.switchTo o r s Iff.rfl

theorem mem_reap {id j : Nat} (hj : j ≠ id) (r : Switched κ ε σ) :
    j ∈ (reap id r).1.1.routines ↔ j ∈ r.o.routines := by
  unfold reap
  split
  · rfl
  · split
    · rw [AList.mem_erase]
      exact and_iff_right hj
    · rfl

theorem mem_resume (c : Code κ ε σ) (o : Ordinator κ ε) (s : σ) {id j : Nat} (hj : j ≠ id) :
    j ∈ (resume c o s id).1.1.routines ↔ j ∈ o.routines := by
  unfold resume
  split
  · rfl
  split
  · rfl
  split
  · rfl
  · rw [mem_reap hj, mem_switchTo]

theorem mem_kill (c : Code κ ε σ) (o : Ordinator κ ε) (s : σ) {id j : Nat} (hj : j ≠ id)
    (ex : Option (Exn ε)) : j ∈ (kill c o s id ex).1.1.routines ↔ j ∈ o.routines := by
  unfold kill
  split
  · rfl
  rcases ex with _ | e
  · rfl
  rcases hr : o.routines.lookup id with _ | r
  · rfl
  · have hresumed := mem_resume c
      { o with routines := o.routines.insert id { r with exception := some e } } s hj
    rw [mem_insert_of_lookup hr] at hresumed
    simp only []
    split
    · exact hresumed
    · exact hresumed

end AdvCppTP.Coroutine
