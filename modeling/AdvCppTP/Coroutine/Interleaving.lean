import AdvCppTP.Coroutine.Recycling

/-! One routine among the others: its segments run in order, each once, however the calls for
other ids are interleaved, and the recycling of nodes does not show. -/

namespace AdvCppTP.Coroutine

variable {κ ε σ : Type*}

theorem Fresh.keep_other (m : Table κ) {id j : Nat} (h : j ≠ id) (x : Ran κ ε) (y : Seg κ ε × σ) :
    (Fresh.keep m id x y).1.1.lookup j = m.lookup j := by
  obtain ⟨seg, s⟩ := y
  cases seg with
  | yield k => exact AList.lookup_insert_ne h
  | ret => exact AList.lookup_erase_ne h
  | throw e => exact AList.lookup_erase_ne h

theorem Fresh.call_other (c : Code κ ε σ) (st : Table κ × σ) {x : Call κ ε} {id : Nat}
    (hx : x.id ≠ id) : (Fresh.call c st x).1.1.lookup id = st.1.lookup id := by
  have hne : id ≠ x.id := Ne.symm hx
  cases x with
  | create j f => exact AList.lookup_insert_ne hne
  | resume j =>
    simp only [Fresh.call, Fresh.resume]
    split
    · rfl
    split
    · rfl
    · exact AList.lookup_erase_ne hne
    · exact Fresh.keep_other _ hne _ _
    · exact Fresh.keep_other _ hne _ _
  | kill j ex =>
    simp only [Fresh.call, Fresh.kill]
    split
    · rfl
    split
    · rfl
    split
    · rfl
    · exact AList.lookup_erase_ne hne
    · split <;> exact AList.lookup_erase_ne hne
    · exact AList.lookup_erase_ne hne

theorem Fresh.call_same [Subsingleton σ] (c : Code κ ε σ) (st t : Table κ × σ) {x : Call κ ε}
    (h : st.1.lookup x.id = t.1.lookup x.id) :
    (Fresh.call c st x).2 = (Fresh.call c t x).2 ∧
      (Fresh.call c st x).1.1.lookup x.id = (Fresh.call c t x).1.1.lookup x.id := by
  obtain ⟨m, s⟩ := st
  obtain ⟨m', s'⟩ := t
  obtain rfl : s = s' := Subsingleton.elim s s'
  -- the calls read and write one entry of the table only
  have hkeep : ∀ (id : Nat) (y : Ran κ ε) (z : Seg κ ε × σ),
      (Fresh.keep m id y z).2 = (Fresh.keep m' id y z).2 ∧
        (Fresh.keep m id y z).1.1.lookup id = (Fresh.keep m' id y z).1.1.lookup id := by
    rintro id y ⟨seg, z⟩
    cases seg with
    | yield k => exact ⟨rfl, (AList.lookup_insert m).trans (AList.lookup_insert m').symm⟩
    | ret => exact ⟨rfl, (AList.lookup_erase id m).trans (AList.lookup_erase id m').symm⟩
    | throw e => exact ⟨rfl, (AList.lookup_erase id m).trans (AList.lookup_erase id m').symm⟩
  cases x with
  | create id f => exact ⟨rfl, (AList.lookup_insert m).trans (AList.lookup_insert m').symm⟩
  | resume id =>
    replace h : m.lookup id = m'.lookup id := h
    simp only [Fresh.call, Fresh.resume, Call.id, ← h]
    split
    · exact ⟨rfl, h⟩
    split
    · exact ⟨rfl, h⟩
    · exact ⟨rfl, (AList.lookup_erase id m).trans (AList.lookup_erase id m').symm⟩
    · exact hkeep _ _ _
    · exact hkeep _ _ _
  | kill id ex =>
    have herase := (AList.lookup_erase id m).trans (AList.lookup_erase id m').symm
    replace h : m.lookup id = m'.lookup id := h
    simp only [Fresh.call, Fresh.kill, Call.id, ← h]
    split
    · exact ⟨rfl, h⟩
    split
    · exact ⟨rfl, h⟩
    split
    · exact ⟨rfl, h⟩
    · exact ⟨rfl, herase⟩
    · split <;> exact ⟨rfl, herase⟩
    · exact ⟨rfl, herase⟩

theorem Fresh.runs_filter [Subsingleton σ] (c : Code κ ε σ) (id : Nat) (st : Table κ × σ)
    (calls : List (Call κ ε)) :
    (Lib.runs (Fresh.call c) st calls).2.filter (fun p => p.1.id = id) =
      (Lib.runs (Fresh.call c) st (calls.filter fun x => x.id = id)).2 :=
  Lib.runs_filter (P := fun x : Call κ ε => x.id = id)
    (R := fun st t : Table κ × σ => st.1.lookup id = t.1.lookup id)
    (fun st t _ hx hst => hx ▸ Fresh.call_same c st t (hx ▸ hst))
    (fun st _ _ hx hst => (Fresh.call_other c st hx).trans hst) rfl calls

/-- The first `n` segments of what is left of a body that runs with id `id`. -/
def segments (c : Code κ ε σ) (id : Nat) (s : σ) : Nat → Rest κ → List (Ran κ ε)
  | 0, _ => []
  | _ + 1, .fresh none => [.start none]
  | n + 1, .fresh (some f) =>
    .start (some f) :: match (c.run id f .start s).1 with
      | .yield k => segments c id s n (.suspended k)
      | _ => []
  | n + 1, .suspended k =>
    .resumed k :: match (c.run id k .resumed s).1 with
      | .yield k' => segments c id s n (.suspended k')
      | _ => []

def ranIn (trace : List (Call κ ε × Out κ ε)) : List (Ran κ ε) :=
  trace.flatMap fun p => p.2.ran

theorem resumes_gone (c : Code κ ε σ) {id : Nat} (n : Nat) (m : Table κ) (s : σ)
    (h : m.lookup id = none) :
    ranIn (Lib.runs (Fresh.call c) (m, s) (List.replicate n (.resume id))).2 = [] := by
  induction n with
  | zero => rfl
  | succ n ih =>
    rw [List.replicate_succ, Lib.runs]
    have hstay : Fresh.call c (m, s) (.resume id) = ((m, s), ⟨[], if id = 0 then .ok false
        else .error .outOfRange⟩) := by
      simp only [Fresh.call, Fresh.resume, h]
      split <;> rfl
    simp only [hstay, ranIn, List.flatMap_cons, List.nil_append]
    exact ih

theorem resumes_run_segments [Subsingleton σ] (c : Code κ ε σ) {id : Nat} (hid : id ≠ 0) (n : Nat)
    (m : Table κ) (s : σ) (x : Rest κ) (h : m.lookup id = some x) :
    ranIn (Lib.runs (Fresh.call c) (m, s) (List.replicate n (.resume id))).2 =
      segments c id s n x := by
  induction n generalizing m s x with
  | zero => cases x <;> rfl
  | succ n ih =>
    have hseg : ∀ (y : Ran κ ε) (z : Seg κ ε × σ),
        Fresh.call c (m, s) (.resume id) = Fresh.keep m id y z →
        ranIn (Lib.runs (Fresh.call c) (m, s) (List.replicate (n + 1) (.resume id))).2 =
          y :: match z.1 with
            | .yield k => segments c id s n (.suspended k)
            | _ => [] := by
      rintro y ⟨seg, s'⟩ hcall
      obtain rfl : s = s' := Subsingleton.elim s s'
      rw [List.replicate_succ, Lib.runs, hcall, ranIn, List.flatMap_cons]
      cases seg with
      | yield k =>
        exact congrArg (y :: ·) (ih (m.insert id (.suspended k)) s (.suspended k)
          (AList.lookup_insert m))
      | ret => exact congrArg (y :: ·) (resumes_gone c n (m.erase id) s (AList.lookup_erase id m))
      | throw e =>
        exact congrArg (y :: ·) (resumes_gone c n (m.erase id) s (AList.lookup_erase id m))
    rcases x with (_ | f) | k
    · rw [segments]
      refine hseg (.start none) (.ret, s) ?_
      simp only [Fresh.call, Fresh.resume, if_neg hid, h, Fresh.keep]
    · rw [segments]
      refine hseg (.start (some f)) (c.run id f .start s) ?_
      simp only [Fresh.call, Fresh.resume, if_neg hid, h]
    · rw [segments]
      refine hseg (.resumed k) (c.run id k .resumed s) ?_
      simp only [Fresh.call, Fresh.resume, if_neg hid, h]

/-- Recycling is unobservable. An admissible sequence of calls has the same answers and leaves
the same memory on the scheduler and on the table of bodies; where bodies share no memory, the
calls for one id are answered as if they were the only ones, and the resumes behind a `create`
run the segments of its body in order. -/
theorem recycling_unobservable (c : Code κ ε σ) (s : σ) (calls : List (Call κ ε))
    (hcalls : Lib.Along (Fresh.call c) Fresh.Admissible (∅, s) calls) :
    (Lib.runs (call c) (Ordinator.init, s) calls).2 =
        (Lib.runs (Fresh.call c) (∅, s) calls).2 ∧
      (Lib.runs (call c) (Ordinator.init, s) calls).1.2 =
        (Lib.runs (Fresh.call c) (∅, s) calls).1.2 ∧
      (Subsingleton σ → ∀ id,
        (Lib.runs (call c) (Ordinator.init, s) calls).2.filter (fun p => p.1.id = id) =
          (Lib.runs (Fresh.call c) (∅, s) (calls.filter fun x => x.id = id)).2) ∧
      (Subsingleton σ → ∀ pre id f post, calls = pre ++ .create id f :: post →
        (∀ x ∈ post, x.id = id → x = .resume id) →
        ranIn ((Lib.runs (call c) (Lib.runs (call c) (Ordinator.init, s) pre).1
            (.create id f :: post)).2.filter fun p => p.1.id = id) =
          segments c id s (post.filter fun x => x.id = id).length (.fresh f)) := by
  have hstart : Holds (Ordinator.init : Ordinator κ ε) (∅ : Table κ) ∧ s = s := ⟨holds_init, rfl⟩
  obtain ⟨htrace, hend⟩ :=
    Lib.runs_simulation (s := (Ordinator.init, s)) (call_simulation c) hstart hcalls
  refine ⟨htrace, hend.2, fun hσ id => ?_, fun hσ pre id f post hsplit hpost => ?_⟩
  · rw [htrace]
    exact Fresh.runs_filter c id (∅, s) calls
  · rw [hsplit, Lib.along_append] at hcalls
    obtain ⟨-, hmid⟩ :=
      Lib.runs_simulation (s := (Ordinator.init, s)) (call_simulation c) hstart hcalls.1
    obtain ⟨htail, -⟩ := Lib.runs_simulation (call_simulation c) hmid hcalls.2
    have hid : id ≠ 0 := hcalls.2.1.1
    have honly : (Call.create id f :: post).filter (fun x => x.id = id) =
        .create id f :: List.replicate (post.filter fun x => x.id = id).length (.resume id) := by
      rw [List.filter_cons_of_pos (by simp [Call.id])]
      refine congrArg (Call.create id f :: ·) (List.eq_replicate_of_mem fun x hx => ?_)
      rw [List.mem_filter, decide_eq_true_eq] at hx
      exact hpost x hx.1 hx.2
    rw [htail, Fresh.runs_filter, honly]
    generalize (Lib.runs (Fresh.call c) ((∅ : Table κ), s) pre).1 = st
    obtain ⟨m, s'⟩ := st
    obtain rfl : s' = s := Subsingleton.elim s' s
    rw [Lib.runs, ranIn, List.flatMap_cons]
    exact resumes_run_segments c hid _ _ _ (.fresh f) (AList.lookup_insert m)

/-- `routine2(init, max)` of the library's example: place `(i, max)` is the head of its loop. -/
def routine2 : Code (Nat × Nat) Unit Unit where
  run _ k sig s :=
    match sig with
    | .raised e => (.throw e, s)
    | _ => if k.1 < k.2 then (.yield (k.1 + 1, k.2), s) else (.ret, s)
  unwinds := ⟨fun _ => ⟨_, fun _ h => by simp at h⟩⟩

def recyclingCalls : List (Call (Nat × Nat) Unit) :=
  [.create 1 (some (1, 2)), .resume 1, .create 2 (some (1, 6)), .resume 2, .resume 1,
    .create 3 (some (5, 6)), .resume 3]

theorem recycling_unobservable_example :
    (Lib.runs (call routine2) (Ordinator.init, ()) recyclingCalls).2 =
      (Lib.runs (Fresh.call routine2) (∅, ()) recyclingCalls).2 :=
  (recycling_unobservable routine2 () recyclingCalls
    ⟨⟨by decide, rfl⟩, trivial, ⟨by decide, rfl⟩, trivial, trivial, ⟨by decide, rfl⟩, trivial,
      trivial⟩).1

end AdvCppTP.Coroutine
