import AdvCppTP.Coroutine.Recycling

/-! Routines that were created and not yet resumed: what `create`, `resume` and `kill` do to them
when bodies let through the exceptions that are thrown into them. -/

namespace AdvCppTP.Coroutine

variable {κ ε σ : Type*}

/-- No body catches an exception that `yield` throws. -/
def Code.Propagates (c : Code κ ε σ) : Prop :=
  ∀ cur k e s, c.run cur k (.raised e) s = (.throw e, s)

/-- Where a routine without an exception goes on, and how it gets there. -/
def Routine.place (r : Routine κ ε) : Option (κ × Signal ε) :=
  match r.ctx with
  | .entry => r.func.map fun f => (f, .start)
  | .inYield k => some (k, .resumed)

section

variable {o : Ordinator κ ε} {id : Nat} {r : Routine κ ε} {f : κ}

theorem resume_idle (c : Code κ ε σ) (hid : id ≠ 0) (hr : o.routines.lookup id = some r)
    (hidle : r.Idle) {k : κ} {sig : Signal ε} (hplace : r.place = some (k, sig)) (s : σ) :
    (resume c o s id).1.2 = (c.run id k sig s).2 ∧
      (∀ j, j ≠ id → (resume c o s id).1.1.routines.lookup j = o.routines.lookup j) ∧
      match (c.run id k sig s).1 with
      | .yield k' => (resume c o s id).1.1.routines.lookup id = some { r with ctx := .inYield k' } ∧
          (resume c o s id).2.value = .ok true
      | .ret => (resume c o s id).1.1.routines.lookup id = none ∧
          (resume c o s id).2.value = .ok true
      | .throw e => (resume c o s id).1.1.routines.lookup id = none ∧
          (resume c o s id).2.value = .error e := by
  obtain ⟨hfin, hexc⟩ := hidle
  -- without an exception a routine goes on from its place, whether it is new or suspended
  have hswitch : ∃ x, resume c o s id = reap id (exec c id { o with current := id } k sig s x) := by
    simp only [resume, if_neg hid, hr, hfin, Bool.false_eq_true, if_false, switchTo]
    unfold Routine.place at hplace
    rcases hctx : r.ctx with _ | k'
    · rw [hctx, Option.map_eq_some_iff] at hplace
      obtain ⟨f, hf, heq⟩ := hplace
      cases heq
      exact ⟨.start (some k), by rw [hf]⟩
    · rw [hctx] at hplace
      cases hplace
      exact ⟨.resumed k, by rw [hexc]⟩
  obtain ⟨x, hswitch⟩ := hswitch
  have hexec := exec_idle (o := { o with current := id }) c hr hexc rfl k sig s x
  rw [hswitch, hexec]
  rcases c.run id k sig s with ⟨seg, s'⟩
  cases seg with
  | yield k =>
    simp only
    rw [reap_suspended id (r := { r with ctx := .inYield k }) hfin]
    exact ⟨rfl, fun j hj => AList.lookup_insert_ne hj, AList.lookup_insert _, rfl⟩
  | ret =>
    obtain ⟨r', nodes, hreap⟩ := reap_finish (o := { o with current := id }) hr none s' [x]
    simp only [hreap, hexc]
    refine ⟨trivial, fun j hj => ?_, AList.lookup_erase id _, rfl⟩
    rw [AList.lookup_erase_ne hj, AList.lookup_insert_ne hj]
  | throw e =>
    obtain ⟨r', nodes, hreap⟩ := reap_finish (o := { o with current := id }) hr (some e) s' [x]
    simp only [hreap]
    refine ⟨trivial, fun j hj => ?_, AList.lookup_erase id _, rfl⟩
    rw [AList.lookup_erase_ne hj, AList.lookup_insert_ne hj]

theorem resume_created (c : Code κ ε σ) (hid : id ≠ 0) (hr : o.routines.lookup id = some r)
    (hnew : r.Created (some f)) (s : σ) :
    (resume c o s id).1.2 = (c.run id f .start s).2 ∧
      (∀ j, j ≠ id → (resume c o s id).1.1.routines.lookup j = o.routines.lookup j) ∧
      match (c.run id f .start s).1 with
      | .yield k => (resume c o s id).1.1.routines.lookup id = some { r with ctx := .inYield k } ∧
          (resume c o s id).2.value = .ok true
      | .ret => (resume c o s id).1.1.routines.lookup id = none ∧
          (resume c o s id).2.value = .ok true
      | .throw e => (resume c o s id).1.1.routines.lookup id = none ∧
          (resume c o s id).2.value = .error e := by
  have hplace : r.place = some (f, .start) := by
    unfold Routine.place
    rw [hnew.ctx, hnew.func]
    rfl
  exact resume_idle c hid hr ⟨hnew.finished, hnew.exception⟩ hplace s

theorem switchTo_killed {c : Code κ ε σ} (hc : c.Propagates) {e : Exn ε}
    (hr : o.routines.lookup id = some r) (hctx : r.ctx = .entry) (hfunc : r.func = some f)
    (hex : r.exception = some e) (hcur : o.current = id) (s : σ) :
    ∃ t ran, switchTo c id o r s = ⟨finish o id t, (c.run id f .start s).2, ran⟩ := by
  subst hcur
  simp only [switchTo, hctx, hfunc, exec]
  rcases hrun : c.run o.current f .start s with ⟨seg, s'⟩
  cases seg with
  | yield k =>
    refine ⟨some e, [.start (some f), .raised k e], ?_⟩
    have hend : unwind c o.current { o with current := 0 } k e s' =
        ⟨finish { o with current := 0 } o.current (some e), s', [.raised k e]⟩ :=
      unwind_throw (hc 0 k e s')
    have hsame : finish { o with current := 0 } o.current (some e) =
        finish o o.current (some e) := by simp only [finish, hr]
    simp only [yield_killed hr hex k, hend, hsame, Switched.cons]
  | ret => exact ⟨none, _, rfl⟩
  | throw e' => exact ⟨some e', _, rfl⟩

theorem switchTo_killed_suspended {c : Code κ ε σ} (hc : c.Propagates) {e : Exn ε} {k : κ}
    (hctx : r.ctx = .inYield k) (hex : r.exception = some e) (s : σ) :
    ∃ t ran, switchTo c id o r s = ⟨finish o id t, s, ran⟩ := by
  refine ⟨some e, [.raised k e], ?_⟩
  simp only [switchTo, hctx, hex]
  exact unwind_throw (hc o.current k e s)

/-- A switch into the killed routine that ends it is all that `kill` does. -/
theorem kill_of_switchTo {c : Code κ ε σ} (hid : id ≠ 0) (hr : o.routines.lookup id = some r)
    (hfin : r.finished = false) {s w : σ} {e : Exn ε} {t : Option (Exn ε)} {ran : List (Ran κ ε)}
    (hswitch : switchTo c id ⟨o.routines.insert id { r with exception := some e }, o.finished, id⟩
        { r with exception := some e } s =
      ⟨finish ⟨o.routines.insert id { r with exception := some e }, o.finished, id⟩ id t, w, ran⟩) :
    (kill c o s id (some e)).1.2 = w ∧
      (∀ j, j ≠ id → (kill c o s id (some e)).1.1.routines.lookup j = o.routines.lookup j) ∧
      (kill c o s id (some e)).1.1.routines.lookup id = none := by
  generalize hr' : ({ r with exception := some e } : Routine κ ε) = marked at hswitch
  have hfin' : marked.finished = false := hr' ▸ hfin
  have hmarked : (o.routines.insert id marked).lookup id = some marked := AList.lookup_insert _
  obtain ⟨r', nodes, hreap⟩ := reap_finish
    (o := ⟨o.routines.insert id marked, o.finished, id⟩) hmarked t w ran
  have hresume : resume c ⟨o.routines.insert id marked, o.finished, o.current⟩ s id =
      ((⟨((o.routines.insert id marked).insert id r').erase id, nodes, 0⟩, w),
        ⟨ran, rethrow (t <|> marked.exception)⟩) := by
    simp only [resume, if_neg hid, hmarked, hfin', Bool.false_eq_true, if_false, hswitch]
    exact hreap
  have hother : ∀ j, j ≠ id →
      (((o.routines.insert id marked).insert id r').erase id).lookup j = o.routines.lookup j :=
    fun j hj => by
      rw [AList.lookup_erase_ne hj, AList.lookup_insert_ne hj, AList.lookup_insert_ne hj]
  simp only [kill, if_neg hid, hr, hr', hresume]
  split
  · exact ⟨rfl, hother, AList.lookup_erase id _⟩
  · exact ⟨rfl, hother, AList.lookup_erase id _⟩

/-- A `kill` of a created routine runs its first segment too, and always ends it. -/
theorem kill_created {c : Code κ ε σ} (hc : c.Propagates) (hid : id ≠ 0)
    (hr : o.routines.lookup id = some r) (hnew : r.Created (some f)) (s : σ) (e : Exn ε) :
    (kill c o s id (some e)).1.2 = (c.run id f .start s).2 ∧
      (∀ j, j ≠ id → (kill c o s id (some e)).1.1.routines.lookup j = o.routines.lookup j) ∧
      (kill c o s id (some e)).1.1.routines.lookup id = none := by
  obtain ⟨t, ran, hswitch⟩ := switchTo_killed
    (o := ⟨o.routines.insert id { r with exception := some e }, o.finished, id⟩)
    (r := { r with exception := some e }) hc (AList.lookup_insert _) hnew.ctx hnew.func rfl rfl s
  exact kill_of_switchTo hid hr hnew.finished hswitch

theorem kill_suspended {c : Code κ ε σ} (hc : c.Propagates) (hid : id ≠ 0)
    (hr : o.routines.lookup id = some r) (hfin : r.finished = false) {k : κ}
    (hctx : r.ctx = .inYield k) (s : σ) (e : Exn ε) :
    (kill c o s id (some e)).1.2 = s ∧
      (∀ j, j ≠ id → (kill c o s id (some e)).1.1.routines.lookup j = o.routines.lookup j) ∧
      (kill c o s id (some e)).1.1.routines.lookup id = none := by
  obtain ⟨t, ran, hswitch⟩ := switchTo_killed_suspended
    (o := ⟨o.routines.insert id { r with exception := some e }, o.finished, id⟩)
    (r := { r with exception := some e }) hc hctx rfl s
  exact kill_of_switchTo hid hr hfin hswitch

end

end AdvCppTP.Coroutine
