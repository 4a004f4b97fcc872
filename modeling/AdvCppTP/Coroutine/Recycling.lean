import AdvCppTP.Coroutine.Fresh

/-! The scheduler that reuses the nodes of finished routines answers every call as the one that
allocates a fresh routine each time: a recycled node is reset before anything of it can be seen. -/

namespace AdvCppTP.Coroutine

variable {κ ε σ : Type*}

structure Routine.Created (r : Routine κ ε) (f : Option κ) : Prop where
  ctx : r.ctx = .entry
  func : r.func = f
  exception : r.exception = none
  finished : r.finished = false

theorem Routine.Created.emplace {r : Routine κ ε} {f : Option κ} (hr : r.Created f) (id : Nat)
    (m : AList fun _ : Nat => Routine κ ε) :
    (∀ j, j ≠ id → (Lib.emplace id r m).lookup j = m.lookup j) ∧
      (∀ r', m.lookup id = some r' → (Lib.emplace id r m).lookup id = some r') ∧
      (m.lookup id = none → ∃ r', (Lib.emplace id r m).lookup id = some r' ∧ r'.Created f) := by
  refine ⟨fun j hj => Lib.lookup_emplace_ne _ m hj, fun r' hr' => ?_, fun hnone => ⟨r, ?_, hr⟩⟩
  · rw [Lib.lookup_emplace_self, hr', Option.getD_some]
  · rw [Lib.lookup_emplace_self, hnone, Option.getD_none]

theorem create_spec (o : Ordinator κ ε) (id : Nat) (f : Option κ) :
    (∀ j, j ≠ id → (create o id f).1.routines.lookup j = o.routines.lookup j) ∧
      (∀ r, o.routines.lookup id = some r → (create o id f).1.routines.lookup id = some r) ∧
      (o.routines.lookup id = none → ∃ r,
        (create o id f).1.routines.lookup id = some r ∧ r.Created f) := by
  unfold create
  split
  · exact Routine.Created.emplace ⟨rfl, rfl, rfl, rfl⟩ id o.routines
  · exact Routine.Created.emplace ⟨rfl, rfl, rfl, rfl⟩ id o.routines

theorem finish_of_lookup {o : Ordinator κ ε} {id : Nat} {r : Routine κ ε}
    (h : o.routines.lookup id = some r) (thrown : Option (Exn ε)) :
    finish o id thrown =
      ⟨o.routines.insert id { r with finished := true, exception := thrown <|> r.exception },
        o.finished, 0⟩ := by
  simp only [finish, h]

theorem yield_idle {o : Ordinator κ ε} {r : Routine κ ε}
    (h : o.routines.lookup o.current = some r) (hr : r.exception = none) (k : κ) :
    yield o k =
      (⟨o.routines.insert o.current { r with ctx := .inYield k }, o.finished, 0⟩, none) := by
  simp only [yield, h, hr]

theorem yield_killed {o : Ordinator κ ε} {r : Routine κ ε} {e : Exn ε}
    (h : o.routines.lookup o.current = some r) (hr : r.exception = some e) (k : κ) :
    yield o k = ({ o with current := 0 }, some e) := by
  simp only [yield, h, hr]

theorem yield_nowhere {o : Ordinator κ ε} (h : o.routines.lookup o.current = none) (k : κ) :
    yield o k = (o, some .outOfRange) := by
  simp only [yield, h]

/-- The exception that the next `yield` of a routine throws which was killed with `ex`. -/
def pending (o : Ordinator κ ε) (ex : Exn ε) : Exn ε :=
  if o.current = 0 then .outOfRange else ex

/-- What the segments of a killed routine come to: the body is driven to its end, and the
routine stays in the table as finished, with the exception it ended with or else the one it was
killed with. -/
theorem unwind_eq (c : Code κ ε σ) {id : Nat} {r : Routine κ ε} {ex : Exn ε}
    (hex : r.exception = some ex) (k : κ) (e : Exn ε) (o : Ordinator κ ε) (s : σ)
    (hr : o.routines.lookup id = some r) (hzero : o.routines.lookup 0 = none)
    (hcur : o.current = id ∨ o.current = 0) :
    unwind c id o k e s =
      ⟨finish o id (deliver c o.current k e (pending o ex) s).thrown,
        (deliver c o.current k e (pending o ex) s).world,
        (deliver c o.current k e (pending o ex) s).ran⟩ := by
  induction k using c.unwinds.induction generalizing e o s with
  | _ k ih =>
    rcases hrun : c.run o.current k (.raised e) s with ⟨seg, s'⟩
    cases seg with
    | yield k' =>
      have hrec := ih k' ⟨o.current, e, s, s', hrun⟩
      rw [unwind_yield hrun, deliver_yield hrun]
      by_cases h0 : o.current = 0
      · have hnext : pending o ex = .outOfRange := if_pos h0
        rw [yield_nowhere (h0 ▸ hzero) k']
        simp only [hrec .outOfRange o s' hr hzero hcur, hnext, h0, Switched.cons]
      · have hid : o.current = id := hcur.resolve_right h0
        have hnext : pending o ex = ex := if_neg h0
        have hlast : pending { o with current := 0 } ex = .outOfRange := if_pos rfl
        have hclose : ∀ t, finish { o with current := 0 } id t = finish o id t := fun t => by
          simp only [finish, hr]
        have hrec' := hrec ex { o with current := 0 } s' hr hzero (Or.inr rfl)
        rw [hclose, hlast] at hrec'
        rw [yield_killed (hid ▸ hr) hex k']
        simp only [hrec', hnext, Switched.cons]
    | ret => rw [unwind_ret hrun, deliver_ret hrun]
    | throw e' => rw [unwind_throw hrun, deliver_throw hrun]

theorem exec_idle (c : Code κ ε σ) {id : Nat} {r : Routine κ ε} {o : Ordinator κ ε}
    (hr : o.routines.lookup id = some r) (hidle : r.exception = none) (hcur : o.current = id)
    (k : κ) (sig : Signal ε) (s : σ) (x : Ran κ ε) :
    exec c id o k sig s x =
      match c.run id k sig s with
      | (.yield k', s') =>
        ⟨⟨o.routines.insert id { r with ctx := .inYield k' }, o.finished, 0⟩, s', [x]⟩
      | (.ret, s') => ⟨finish o id none, s', [x]⟩
      | (.throw e', s') => ⟨finish o id (some e'), s', [x]⟩ := by
  subst hcur
  rw [exec]
  rcases c.run o.current k sig s with ⟨seg, s'⟩
  cases seg with
  | yield k' => simp only [yield_idle hr hidle]
  | ret => rfl
  | throw e' => rfl

def Routine.ended (r : Routine κ ε) (thrown : Option (Exn ε)) : Routine κ ε :=
  { r with finished := true, exception := thrown <|> r.exception }

theorem reap_finish_eq {o : Ordinator κ ε} {id : Nat} {r : Routine κ ε}
    (hr : o.routines.lookup id = some r) (thrown : Option (Exn ε)) (s : σ) (ran : List (Ran κ ε)) :
    reap id ⟨finish o id thrown, s, ran⟩ =
      ((⟨(o.routines.insert id (r.ended thrown)).erase id, o.finished ++ [(id, r.ended thrown)], 0⟩,
        s), ⟨ran, rethrow (thrown <|> r.exception)⟩) := by
  rw [finish_of_lookup hr]
  simp only [reap, AList.lookup_insert, if_true]
  rfl

theorem reap_finish {o : Ordinator κ ε} {id : Nat} {r : Routine κ ε}
    (hr : o.routines.lookup id = some r) (thrown : Option (Exn ε)) (s : σ) (ran : List (Ran κ ε)) :
    ∃ r' nodes, reap id ⟨finish o id thrown, s, ran⟩ =
      ((⟨(o.routines.insert id r').erase id, nodes, 0⟩, s),
        ⟨ran, rethrow (thrown <|> r.exception)⟩) :=
  ⟨_, _, reap_finish_eq hr thrown s ran⟩

theorem reap_suspended (id : Nat) {r : Routine κ ε} (hr : r.finished = false)
    (t : AList fun _ : Nat => Routine κ ε) (nodes : List (Nat × Routine κ ε)) (s : σ)
    (ran : List (Ran κ ε)) :
    reap id ⟨⟨t.insert id r, nodes, 0⟩, s, ran⟩ =
      ((⟨t.insert id r, nodes, 0⟩, s), ⟨ran, .ok true⟩) := by
  simp only [reap, AList.lookup_insert, hr, Bool.false_eq_true, if_false]

variable {o : Ordinator κ ε} {m : Table κ}

theorem Holds.exec (h : Holds o m) (c : Code κ ε σ) {id : Nat} {r : Routine κ ε} (hid : id ≠ 0)
    (hr : o.routines.lookup id = some r) (k : κ) (sig : Signal ε) (s : σ) (x : Ran κ ε) :
    (reap id (exec c id { o with current := id } k sig s x)).2 =
        (Fresh.keep m id x (c.run id k sig s)).2 ∧
      (reap id (exec c id { o with current := id } k sig s x)).1.2 =
        (Fresh.keep m id x (c.run id k sig s)).1.2 ∧
      Holds (reap id (exec c id { o with current := id } k sig s x)).1.1
        (Fresh.keep m id x (c.run id k sig s)).1.1 := by
  -- an idle routine has no exception to throw, so `yield` stores its place
  obtain ⟨hfin, hexc⟩ := h.idle id r hr
  rw [exec_idle (o := { o with current := id }) c hr hexc rfl]
  rcases c.run id k sig s with ⟨seg, s'⟩
  cases seg with
  | yield k' =>
    have hins := h.insert hid { r with ctx := .inYield k' } ⟨hfin, hexc⟩ o.finished
    have hreap := reap_suspended id (r := { r with ctx := .inYield k' }) hfin o.routines o.finished
      s' [x]
    simp only [Fresh.keep, hreap]
    exact ⟨trivial, trivial, hins⟩
  | ret =>
    obtain ⟨r', nodes, hreap⟩ := reap_finish (o := { o with current := id }) hr none s' [x]
    simp only [Fresh.keep, hreap, hexc]
    exact ⟨rfl, trivial, h.erase id r' nodes⟩
  | throw e =>
    obtain ⟨r', nodes, hreap⟩ := reap_finish (o := { o with current := id }) hr (some e) s' [x]
    simp only [Fresh.keep, hreap]
    exact ⟨rfl, trivial, h.erase id r' nodes⟩

theorem Holds.resume (h : Holds o m) (c : Code κ ε σ) (s : σ) (id : Nat) :
    (Coroutine.resume c o s id).2 = (Fresh.resume c m s id).2 ∧
      (Coroutine.resume c o s id).1.2 = (Fresh.resume c m s id).1.2 ∧
      Holds (Coroutine.resume c o s id).1.1 (Fresh.resume c m s id).1.1 := by
  by_cases hid : id = 0
  · simp only [Coroutine.resume, Fresh.resume, if_pos hid]
    exact ⟨trivial, trivial, h⟩
  · simp only [Coroutine.resume, Fresh.resume, if_neg hid]
    rcases hm : m.lookup id with _ | x
    · simp only [h.lookup_none hm]
      exact ⟨trivial, trivial, h⟩
    · obtain ⟨r, hr, hrest, hfin, hexc⟩ := h.lookup_some hm
      simp only [hr, hfin, Bool.false_eq_true, if_false, switchTo]
      rcases hctx : r.ctx with _ | k
      · obtain rfl : .fresh r.func = x := by rw [← hrest, Routine.rest, hctx]
        rcases hf : r.func with _ | f
        · obtain ⟨r', nodes, hreap⟩ :=
            reap_finish (o := { o with current := id }) hr none s [.start none]
          simp only [hreap, hexc]
          exact ⟨rfl, trivial, h.erase id r' nodes⟩
        · exact h.exec c hid hr f .start s (.start (some f))
      · obtain rfl : .suspended k = x := by rw [← hrest, Routine.rest, hctx]
        simp only [hexc]
        exact h.exec c hid hr k .resumed s (.resumed k)

theorem exec_killed (c : Code κ ε σ) {id : Nat} {r : Routine κ ε} {ex : Exn ε}
    {o : Ordinator κ ε} (hr : o.routines.lookup id = some r) (hex : r.exception = some ex)
    (hzero : o.routines.lookup 0 = none) (hcur : o.current = id) (hid : id ≠ 0)
    (k : κ) (sig : Signal ε) (s : σ) (x : Ran κ ε) :
    exec c id o k sig s x =
      match c.run id k sig s with
      | (.yield k', s') =>
        ⟨finish o id (deliver c 0 k' ex .outOfRange s').thrown,
          (deliver c 0 k' ex .outOfRange s').world, x :: (deliver c 0 k' ex .outOfRange s').ran⟩
      | (.ret, s') => ⟨finish o id none, s', [x]⟩
      | (.throw e', s') => ⟨finish o id (some e'), s', [x]⟩ := by
  subst hcur
  rw [exec]
  rcases c.run o.current k sig s with ⟨seg, s'⟩
  cases seg with
  | yield k' =>
    have hclose : ∀ t, finish { o with current := 0 } o.current t = finish o o.current t :=
      fun t => by simp only [finish, hr]
    have hrest := unwind_eq c hex k' ex { o with current := 0 } s' hr hzero (Or.inr rfl)
    simp only [hclose, pending, if_true] at hrest
    simp only [yield_killed hr hex, hrest, Switched.cons]
  | ret => rfl
  | throw e' => rfl

def marked (o : Ordinator κ ε) (id : Nat) (r : Routine κ ε) (e : Exn ε) : Ordinator κ ε :=
  ⟨o.routines.insert id { r with exception := some e }, o.finished, id⟩

theorem Holds.kill_of_finish (h : Holds o m) (c : Code κ ε σ) {s s' : σ} {id : Nat}
    {r : Routine κ ε} {e : Exn ε} {thrown : Option (Exn ε)} {ran : List (Ran κ ε)} (hid : id ≠ 0)
    (hr : o.routines.lookup id = some r)
    (hrun : switchTo c id (marked o id r e) { r with exception := some e } s =
      ⟨finish (marked o id r e) id thrown, s', ran⟩) :
    (Coroutine.kill c o s id (some e)).2 = ⟨ran, .error (thrown.getD e)⟩ ∧
      (Coroutine.kill c o s id (some e)).1.2 = s' ∧
      Holds (Coroutine.kill c o s id (some e)).1.1 (m.erase id) := by
  have hmarked : (marked o id r e).routines.lookup id = some { r with exception := some e } :=
    AList.lookup_insert o.routines
  obtain ⟨r', nodes, hreap⟩ := reap_finish hmarked thrown s' ran
  have hvalue : rethrow (thrown <|> some e) = .error (thrown.getD e) := by
    cases thrown <;> rfl
  have hresume : Coroutine.resume c
      { o with routines := o.routines.insert id { r with exception := some e } } s id =
      ((⟨(o.routines.insert id r').erase id, nodes, 0⟩, s'), ⟨ran, .error (thrown.getD e)⟩) := by
    simp only [Coroutine.resume, if_neg hid, AList.lookup_insert, (h.idle id r hr).1,
      Bool.false_eq_true, if_false]
    rw [marked, (h.idle id r hr).1] at hrun
    rw [hrun]
    rw [marked, (h.idle id r hr).1] at hreap
    rw [hreap, hvalue, AList.insert_insert]
  simp only [Coroutine.kill, if_neg hid, hr, hresume]
  exact ⟨trivial, trivial, h.erase id r' nodes⟩

theorem Holds.kill (h : Holds o m) (c : Code κ ε σ) (s : σ) (id : Nat) (ex : Option (Exn ε)) :
    (Coroutine.kill c o s id ex).2 = (Fresh.kill c m s id ex).2 ∧
      (Coroutine.kill c o s id ex).1.2 = (Fresh.kill c m s id ex).1.2 ∧
      Holds (Coroutine.kill c o s id ex).1.1 (Fresh.kill c m s id ex).1.1 := by
  by_cases hid : id = 0
  · simp only [Coroutine.kill, Fresh.kill, if_pos hid]
    exact ⟨trivial, trivial, h⟩
  rcases ex with _ | e
  · simp only [Coroutine.kill, Fresh.kill, if_neg hid]
    exact ⟨trivial, trivial, h⟩
  rcases hm : m.lookup id with _ | x
  · simp only [Coroutine.kill, Fresh.kill, if_neg hid, hm, h.lookup_none hm]
    exact ⟨trivial, trivial, h⟩
  obtain ⟨r, hr, hrest, hfin, hexc⟩ := h.lookup_some hm
  have hzero : (marked o id r e).routines.lookup 0 = none := by
    rw [marked, AList.lookup_insert_ne (Ne.symm hid)]
    exact h.lookup_none h.zero
  have hmarked : (marked o id r e).routines.lookup id = some { r with exception := some e } :=
    AList.lookup_insert o.routines
  -- whatever the routine is in the middle of, `kill` ends with it finished
  rcases hctx : r.ctx with _ | k
  · obtain rfl : .fresh r.func = x := by rw [← hrest, Routine.rest, hctx]
    rcases hf : r.func with _ | f
    · have hend : switchTo c id (marked o id r e) { r with exception := some e } s =
          ⟨finish (marked o id r e) id none, s, [.start none]⟩ := by
        simp only [switchTo, hctx, hf]
      simpa only [Fresh.kill, if_neg hid, hm, hf, Option.getD_none] using
        h.kill_of_finish c hid hr hend
    · have hexec := exec_killed c hmarked rfl hzero rfl hid f .start s (.start (some f))
      rcases hseg : c.run id f .start s with ⟨seg, s'⟩
      rw [hseg] at hexec
      simp only [Fresh.kill, if_neg hid, hm, hf, hseg]
      cases seg with
      | yield k => exact h.kill_of_finish c hid hr (by simpa only [switchTo, hctx, hf] using hexec)
      | ret => exact h.kill_of_finish c hid hr (by simpa only [switchTo, hctx, hf] using hexec)
      | throw e' => exact h.kill_of_finish c hid hr (by simpa only [switchTo, hctx, hf] using hexec)
  · obtain rfl : .suspended k = x := by rw [← hrest, Routine.rest, hctx]
    have hunwind := unwind_eq c (r := { r with exception := some e }) rfl k e (marked o id r e) s
      hmarked hzero (Or.inl rfl)
    have hnext : pending (marked o id r e) e = e := if_neg hid
    simp only [Fresh.kill, if_neg hid, hm]
    refine h.kill_of_finish c hid hr ?_
    simp only [switchTo, hctx]
    rw [hunwind, hnext]
    rfl

theorem Holds.create (h : Holds o m) {id : Nat} (hid : id ≠ 0) (hm : m.lookup id = none)
    (f : Option κ) : Holds (Coroutine.create o id f).1 (m.insert id (.fresh f)) := by
  have hnot : id ∉ o.routines := AList.lookup_eq_none.mp (h.lookup_none hm)
  have hcur : o.current = 0 := h.current
  rcases o with ⟨routines, finished, current⟩
  obtain rfl : current = 0 := hcur
  rcases finished with _ | ⟨⟨key, node⟩, nodes⟩
  · simp only [Coroutine.create, Lib.emplace_of_notMem hnot]
    exact h.insert hid (Routine.new f) ⟨rfl, rfl⟩ []
  · simp only [Coroutine.create, Lib.emplace_of_notMem hnot]
    exact h.insert hid (node.reset f) ⟨rfl, rfl⟩ nodes

theorem call_simulation (c : Code κ ε σ) (st : Ordinator κ ε × σ) (t : Table κ × σ)
    (x : Call κ ε) (h : Holds st.1 t.1 ∧ st.2 = t.2) (hx : Fresh.Admissible t x) :
    (call c st x).2 = (Fresh.call c t x).2 ∧
      Holds (call c st x).1.1 (Fresh.call c t x).1.1 ∧
        (call c st x).1.2 = (Fresh.call c t x).1.2 := by
  obtain ⟨o, s⟩ := st
  obtain ⟨m, s'⟩ := t
  obtain ⟨hholds, rfl⟩ := h
  cases x with
  | create id f => exact ⟨rfl, hholds.create hx.1 hx.2 f, rfl⟩
  | resume id =>
    obtain ⟨hout, hs, hholds'⟩ := hholds.resume c s id
    exact ⟨hout, hholds', hs⟩
  | kill id ex =>
    obtain ⟨hout, hs, hholds'⟩ := hholds.kill c s id ex
    exact ⟨hout, hholds', hs⟩

end AdvCppTP.Coroutine
