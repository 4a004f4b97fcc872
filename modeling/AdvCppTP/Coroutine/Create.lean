import AdvCppTP.Coroutine.Interleaving

/-! Whether `create` installs the body it is given, in every state that calls can reach. -/

namespace AdvCppTP.Coroutine

variable {κ ε σ : Type*}

def Routine.next (r : Routine κ ε) : Ran κ ε :=
  match r.ctx with
  | .entry => .start r.func
  | .inYield k =>
    match r.exception with
    | some e => .raised k e
    | none => .resumed k

theorem head_unwind (c : Code κ ε σ) (id : Nat) (o : Ordinator κ ε) (k : κ) (e : Exn ε) (s : σ) :
    (unwind c id o k e s).ran.head? = some (.raised k e) := by
  rcases hrun : c.run o.current k (.raised e) s with ⟨seg, s'⟩
  cases seg with
  | yield k' =>
    rw [unwind_yield hrun]
    rcases yield o k' with ⟨o', _ | e'⟩ <;> rfl
  | ret => rw [unwind_ret hrun, List.head?_cons]
  | throw e' => rw [unwind_throw hrun, List.head?_cons]

theorem head_exec (c : Code κ ε σ) (id : Nat) (o : Ordinator κ ε) (k : κ) (sig : Signal ε) (s : σ)
    (x : Ran κ ε) : (exec c id o k sig s x).ran.head? = some x := by
  rw [exec]
  rcases c.run o.current k sig s with ⟨seg, s'⟩
  cases seg with
  | yield k' =>
    simp only []
    rcases yield o k' with ⟨o', _ | e'⟩ <;> rfl
  | ret => rfl
  | throw e' => rfl

theorem head_switchTo (c : Code κ ε σ) (id : Nat) (o : Ordinator κ ε) (r : Routine κ ε) (s : σ) :
    (switchTo c id o r s).ran.head? = some r.next := by
  unfold switchTo Routine.next
  rcases r.ctx with _ | k
  · rcases r.func with _ | f
    · rfl
    · exact head_exec c id o f .start s (.start (some f))
  · rcases r.exception with _ | e
    · exact head_exec c id o k .resumed s (.resumed k)
    · exact head_unwind c id o k e s

theorem ran_reap (id : Nat) (r : Switched κ ε σ) : (reap id r).2.ran = r.ran := by
  unfold reap
  split
  · rfl
  · split <;> rfl

theorem head_resume (c : Code κ ε σ) {o : Ordinator κ ε} {id : Nat} {r : Routine κ ε}
    (hid : id ≠ 0) (hr : o.routines.lookup id = some r) (hfin : r.finished = false) (s : σ) :
    (resume c o s id).2.ran.head? = some r.next := by
  simp only [resume, if_neg hid, hr, hfin, Bool.false_eq_true, if_false]
  rw [ran_reap, head_switchTo]

/-! ## What a switch leaves alone -/

/-- What holds of the table while routine `id` is switched to: it names one of the two contexts
as the running one, no other routine becomes finished, and none but `id` and 0 changes. -/
structure Framed (id : Nat) (o o' : Ordinator κ ε) : Prop where
  current : o'.current = id ∨ o'.current = 0
  other : ∀ j, j ≠ id → j ≠ 0 → o'.routines.lookup j = o.routines.lookup j
  unfinished : ∀ j r, j ≠ id → o'.routines.lookup j = some r → r.finished = false

theorem Framed.yield {id : Nat} {o o' : Ordinator κ ε} (h : Framed id o o') (k : κ) :
    Framed id o (Coroutine.yield o' k).1 := by
  unfold Coroutine.yield
  split
  · exact h
  · rename_i r hr
    split
    · exact ⟨Or.inr rfl, h.other, h.unfinished⟩
    · refine ⟨Or.inr rfl, fun j hj h0 => ?_, fun j r' hj hr' => ?_⟩
      · have hne : j ≠ o'.current := fun e => h.current.elim (hj ∘ e.trans) (h0 ∘ e.trans)
        exact (AList.lookup_insert_ne hne).trans (h.other j hj h0)
      · rcases eq_or_ne j o'.current with rfl | hne
        · rw [AList.lookup_insert, Option.some.injEq] at hr'
          exact hr' ▸ h.unfinished _ r hj hr
        · rw [AList.lookup_insert_ne hne] at hr'
          exact h.unfinished j r' hj hr'

theorem Framed.finish {id : Nat} {o o' : Ordinator κ ε} (h : Framed id o o')
    (thrown : Option (Exn ε)) : Framed id o (Coroutine.finish o' id thrown) := by
  unfold Coroutine.finish
  split
  · exact h
  · refine ⟨Or.inr rfl, fun j hj h0 => ?_, fun j r' hj hr' => ?_⟩
    · exact (AList.lookup_insert_ne hj).trans (h.other j hj h0)
    · rw [AList.lookup_insert_ne hj] at hr'
      exact h.unfinished j r' hj hr'

theorem Framed.unwind (c : Code κ ε σ) {id : Nat} {o : Ordinator κ ε} (k : κ) (e : Exn ε)
    (o' : Ordinator κ ε) (s : σ) (h : Framed id o o') :
    Framed id o (Coroutine.unwind c id o' k e s).o := by
  induction k using c.unwinds.induction generalizing e o' s with
  | _ k ih =>
    rcases hrun : c.run o'.current k (.raised e) s with ⟨seg, s'⟩
    cases seg with
    | yield k' =>
      have hyield := h.yield k'
      rw [unwind_yield hrun]
      rcases hy : Coroutine.yield o' k' with ⟨o'', _ | e'⟩
      · rw [hy] at hyield
        exact hyield
      · rw [hy] at hyield
        exact ih k' ⟨o'.current, e, s, s', hrun⟩ e' o'' s' hyield
    | ret =>
      rw [unwind_ret hrun]
      exact h.finish none
    | throw e' =>
      rw [unwind_throw hrun]
      exact h.finish (some e')

theorem Framed.exec (c : Code κ ε σ) {id : Nat} {o o' : Ordinator κ ε} (h : Framed id o o') (k : κ)
    (sig : Signal ε) (s : σ) (x : Ran κ ε) : Framed id o (Coroutine.exec c id o' k sig s x).o := by
  rw [Coroutine.exec]
  rcases c.run o'.current k sig s with ⟨seg, s'⟩
  cases seg with
  | yield k' =>
    have hyield := h.yield k'
    simp only []
    rcases hy : Coroutine.yield o' k' with ⟨o'', _ | e'⟩
    · rw [hy] at hyield
      exact hyield
    · rw [hy] at hyield
      exact hyield.unwind c k' e' o'' s'
  | ret => exact h.finish none
  | throw e' => exact h.finish (some e')

theorem Framed.switchTo (c : Code κ ε σ) {id : Nat} {o o' : Ordinator κ ε} (h : Framed id o o')
    (r : Routine κ ε) (s : σ) : Framed id o (Coroutine.switchTo c id o' r s).o := by
  unfold Coroutine.switchTo
  split
  · split
    · exact h.finish none
    · exact h.exec c _ _ s _
  · split
    · exact h.unwind c _ _ o' s
    · exact h.exec c _ _ s _

/-! ## Reachable schedulers -/

def Ordinator.Unfinished (o : Ordinator κ ε) : Prop :=
  ∀ j r, o.routines.lookup j = some r → r.finished = false

theorem Ordinator.Unfinished.insert {o : Ordinator κ ε} (h : o.Unfinished) (id : Nat)
    {r : Routine κ ε} (hr : r.finished = false) (nodes : List (Nat × Routine κ ε)) (cur : Nat) :
    (⟨o.routines.insert id r, nodes, cur⟩ : Ordinator κ ε).Unfinished := by
  intro j r' hj
  rcases eq_or_ne j id with rfl | hne
  · rw [AList.lookup_insert, Option.some.injEq] at hj
    exact hj ▸ hr
  · rw [AList.lookup_insert_ne hne] at hj
    exact h j r' hj

theorem resume_frame (c : Code κ ε σ) {o : Ordinator κ ε} (h : o.Unfinished) (s : σ) (id : Nat) :
    (resume c o s id).1.1.Unfinished ∧
      ∀ j, j ≠ id → j ≠ 0 → (resume c o s id).1.1.routines.lookup j = o.routines.lookup j := by
  unfold resume
  split
  · exact ⟨h, fun _ _ _ => rfl⟩
  split
  · exact ⟨h, fun _ _ _ => rfl⟩
  · rename_i r hr
    rw [if_neg (by simp [h id r hr])]
    have hstart : Framed id o { o with current := id } :=
      ⟨Or.inl rfl, fun _ _ _ => rfl, fun j r' _ hj => h j r' hj⟩
    have hframe := hstart.switchTo c r s
    generalize switchTo c id { o with current := id } r s = sw at hframe
    unfold reap
    split
    · rename_i hnone
      refine ⟨fun j r' hj => ?_, hframe.other⟩
      rcases eq_or_ne j id with rfl | hne
      · exact absurd hj (by simp [hnone])
      · exact hframe.unfinished j r' hne hj
    · rename_i r₁ hr₁
      split
      · refine ⟨fun j r' hj => ?_, fun j hj h0 => ?_⟩
        · rcases eq_or_ne j id with rfl | hne
          · exact absurd hj (by simp)
          · rw [AList.lookup_erase_ne hne] at hj
            exact hframe.unfinished j r' hne hj
        · exact (AList.lookup_erase_ne hj).trans (hframe.other j hj h0)
      · rename_i hfin
        refine ⟨fun j r' hj => ?_, hframe.other⟩
        rcases eq_or_ne j id with rfl | hne
        · rw [hr₁, Option.some.injEq] at hj
          exact hj ▸ eq_false_of_ne_true hfin
        · exact hframe.unfinished j r' hne hj

theorem kill_frame (c : Code κ ε σ) {o : Ordinator κ ε} (h : o.Unfinished) (s : σ) (id : Nat)
    (ex : Option (Exn ε)) :
    (kill c o s id ex).1.1.Unfinished ∧
      ∀ j, j ≠ id → j ≠ 0 → (kill c o s id ex).1.1.routines.lookup j = o.routines.lookup j := by
  unfold kill
  split
  · exact ⟨h, fun _ _ _ => rfl⟩
  rcases ex with _ | e
  · exact ⟨h, fun _ _ _ => rfl⟩
  rcases hr : o.routines.lookup id with _ | r
  · exact ⟨h, fun _ _ _ => rfl⟩
  · simp only []
    have hmarked :=
      h.insert id (r := { r with exception := some e }) (h id r hr) o.finished o.current
    obtain ⟨hunf, hother⟩ := resume_frame c hmarked s id
    have hstate : ∀ j, j ≠ id → j ≠ 0 →
        (resume c ⟨o.routines.insert id { r with exception := some e }, o.finished, o.current⟩ s
          id).1.1.routines.lookup j = o.routines.lookup j := fun j hj h0 =>
      (hother j hj h0).trans (AList.lookup_insert_ne hj)
    split
    · exact ⟨hunf, hstate⟩
    · exact ⟨hunf, hstate⟩

theorem create_unfinished {o : Ordinator κ ε} (h : o.Unfinished) (id : Nat) (f : Option κ) :
    (create o id f).1.Unfinished := by
  obtain ⟨hother, hold, hnew⟩ := create_spec o id f
  intro j r hj
  rcases eq_or_ne j id with rfl | hne
  · rcases hlook : o.routines.lookup j with _ | r'
    · obtain ⟨r', hr', hcreated⟩ := hnew hlook
      rw [hr', Option.some.injEq] at hj
      exact hj ▸ hcreated.finished
    · rw [hold r' hlook, Option.some.injEq] at hj
      exact hj ▸ h _ r' hlook
  · exact h j r (hother j hne ▸ hj)

theorem call_frame (c : Code κ ε σ) (st : Ordinator κ ε × σ) (x : Call κ ε)
    (h : st.1.Unfinished) :
    (call c st x).1.1.Unfinished ∧
      ∀ j, j ≠ x.id → j ≠ 0 → (call c st x).1.1.routines.lookup j = st.1.routines.lookup j := by
  cases x with
  | create id f => exact ⟨create_unfinished h id f, fun j hj _ => (create_spec st.1 id f).1 j hj⟩
  | resume id => exact resume_frame c h st.2 id
  | kill id ex => exact kill_frame c h st.2 id ex

theorem runs_unfinished (c : Code κ ε σ) (s : σ) (calls : List (Call κ ε)) :
    (Lib.runs (call c) ((Ordinator.init : Ordinator κ ε), s) calls).1.1.Unfinished :=
  Lib.runs_invariant (I := fun st : Ordinator κ ε × σ => st.1.Unfinished)
    (fun st x h => (call_frame c st x h).1) (fun j r hj => by simp [Ordinator.init] at hj) calls

theorem runs_other (c : Code κ ε σ) {id : Nat} (hid : id ≠ 0) (st : Ordinator κ ε × σ)
    (h : st.1.Unfinished) (calls : List (Call κ ε)) (hcalls : ∀ x ∈ calls, x.id ≠ id) :
    (Lib.runs (call c) st calls).1.1.routines.lookup id = st.1.routines.lookup id := by
  induction calls generalizing st with
  | nil => rfl
  | cons x calls ih =>
    obtain ⟨hunf, hother⟩ := call_frame c st x h
    have hx : id ≠ x.id := Ne.symm (hcalls x List.mem_cons_self)
    rw [Lib.runs, ih _ hunf fun y hy => hcalls y (List.mem_cons_of_mem x hy)]
    exact hother id hx hid

/-! ## The body that the next resume starts -/

/-- Whatever calls for other ids come in between, the next `resume(id)` starts `f`. -/
def StartsNext (c : Code κ ε σ) (st : Ordinator κ ε × σ) (id : Nat) (f : Option κ) : Prop :=
  ∀ between : List (Call κ ε), (∀ x ∈ between, x.id ≠ id) →
    (resume c (Lib.runs (call c) st between).1.1
      (Lib.runs (call c) st between).1.2 id).2.ran.head? = some (.start f)

theorem Routine.next_eq_start {r : Routine κ ε} {f : Option κ} :
    r.next = .start f ↔ r.ctx = .entry ∧ r.func = f := by
  unfold Routine.next
  rcases r.ctx with _ | k
  · simp
  · rcases r.exception with _ | e <;> simp

/-- `create(id, f)` installs `f` exactly when `id` is nonzero and is not the id of a routine that
has started or has another function. -/
theorem create_installs_iff (c : Code κ ε σ) (s : σ) (before : List (Call κ ε)) (id : Nat)
    (f : Option κ) :
    StartsNext c (call c (Lib.runs (call c) (Ordinator.init, s) before).1 (.create id f)).1 id f ↔
      id ≠ 0 ∧ ∀ r, (Lib.runs (call c) (Ordinator.init, s) before).1.1.routines.lookup id = some r →
        r.ctx = .entry ∧ r.func = f := by
  have hunf := runs_unfinished c s before
  generalize (Lib.runs (call c) ((Ordinator.init : Ordinator κ ε), s) before).1 = st at hunf
  have hcreated := create_unfinished hunf id f
  obtain ⟨-, hold, hnew⟩ := create_spec st.1 id f
  have hhead : ∀ r, id ≠ 0 → (create st.1 id f).1.routines.lookup id = some r →
      (StartsNext c (call c st (.create id f)).1 id f ↔ r.ctx = .entry ∧ r.func = f) := by
    intro r hid hr
    rw [← Routine.next_eq_start]
    constructor
    · intro h
      have hstart := h [] (by simp)
      rw [Lib.runs, call, head_resume c hid hr (hcreated id r hr), Option.some.injEq] at hstart
      exact hstart
    · intro h between hbetween
      have hkeep := runs_other c hid (call c st (.create id f)).1 hcreated between hbetween
      rw [head_resume c hid (hkeep.trans hr) (hcreated id r hr), h]
  by_cases hid : id = 0
  · refine ⟨fun h => ?_, fun h => absurd hid h.1⟩
    have hstart := h [] (by simp)
    rw [resume, if_pos hid] at hstart
    exact absurd hstart (by simp)
  · rcases hlook : st.1.routines.lookup id with _ | r
    · obtain ⟨r, hr, hnew⟩ := hnew hlook
      rw [hhead r hid hr]
      exact ⟨fun _ => ⟨hid, fun _ h => absurd h (by simp)⟩, fun _ => ⟨hnew.ctx, hnew.func⟩⟩
    · rw [hhead r hid (hold r hlook)]
      constructor
      · rintro h
        exact ⟨hid, fun r' hr' => Option.some.inj hr' ▸ h⟩
      · rintro ⟨-, h⟩
        exact h r rfl

theorem create_keeps_suspended_body :
    (create (Lib.runs (call routine2) (Ordinator.init, ()) [.create 1 (some (1, 6)),
        .resume 1]).1.1 1 (some (7, 9))).2 = 1 ∧
      ¬ StartsNext routine2 (call routine2 (Lib.runs (call routine2) (Ordinator.init, ())
        [.create 1 (some (1, 6)), .resume 1]).1 (.create 1 (some (7, 9)))).1 1 (some (7, 9)) := by
  refine ⟨rfl, fun h => ?_⟩
  exact absurd (h [] (by simp)) (by decide)

end AdvCppTP.Coroutine
