import AdvCppTP.Coroutine.Create
import AdvCppTP.Coroutine.Killing

/-! Compiled bodies are a case of free ones: every `resume` and every `kill` in one step is a run
of acts, with the same answer, the same table and the same segments. -/

namespace AdvCppTP.Coroutine

variable {κ ε σ : Type*}

/-- Acts of routine `id` that run the segments `ran` and leave it with the table `o'`. -/
structure Leads (t : Thread κ ε) (during : List (Act κ ε)) (id : Nat) (caller : Caller)
    (o' : Ordinator κ ε) (ran : List (Ran κ ε)) : Prop where
  body : Lib.Along Thread.step (fun t a => a.OfBody t) t during
  quiet : ∀ a ∈ during, a.isCreate = false
  thread : (Lib.runs Thread.step t during).1 = (Thread.back id caller o').1
  last : (Lib.runs Thread.step t during).2.getLast?.map Prod.snd =
    some (Thread.back id caller o').2
  segments : (Lib.runs Thread.step t during).2.filterMap (fun p => p.2.segment) = ran

section

variable {o o' : Ordinator κ ε} {id : Nat} {caller : Caller} {a : Act κ ε} {ran : List (Ran κ ε)}

theorem Leads.single (ha : a.OfBody ⟨o, .body id caller⟩) (hquiet : a.isCreate = false)
    (hstep : Thread.step ⟨o, .body id caller⟩ a = Thread.back id caller o') :
    Leads ⟨o, .body id caller⟩ [a] id caller o' [] := by
  refine ⟨⟨ha, trivial⟩, List.forall_mem_singleton.mpr hquiet, ?_, ?_, ?_⟩
  · rw [Lib.runs, hstep]
    rfl
  · rw [Lib.runs, hstep]
    rfl
  · rw [Lib.runs, hstep]
    rfl

theorem Leads.cons {o₁ : Ordinator κ ε} {x : Ran κ ε} {during : List (Act κ ε)}
    (ha : a.OfBody ⟨o, .body id caller⟩) (hquiet : a.isCreate = false)
    (hstep : Thread.step ⟨o, .body id caller⟩ a = (⟨o₁, .body id caller⟩, .ran x))
    (h : Leads ⟨o₁, .body id caller⟩ during id caller o' ran) :
    Leads ⟨o, .body id caller⟩ (a :: during) id caller o' (x :: ran) := by
  refine ⟨⟨ha, ?_⟩, List.forall_mem_cons.mpr ⟨hquiet, h.quiet⟩, ?_, ?_, ?_⟩
  · rw [hstep]
    exact h.body
  · rw [Lib.runs, hstep]
    exact h.thread
  · obtain ⟨p, hp, hlast⟩ := Option.map_eq_some_iff.mp h.last
    rw [Lib.runs, hstep, List.getLast?_cons, hp, Option.getD_some]
    exact congrArg some hlast
  · rw [Lib.runs, hstep, List.filterMap_cons]
    exact congrArg (x :: ·) h.segments

end

theorem unwind_leads (c : Code κ ε σ) (id : Nat) (caller : Caller) (k : κ) (e : Exn ε)
    (o : Ordinator κ ε) (s : σ) :
    ∃ during ran, Leads ⟨o, .body id caller⟩ during id caller (unwind c id o k e s).o ran ∧
      (unwind c id o k e s).ran = .raised k e :: ran := by
  induction k using c.unwinds.induction generalizing e o s with
  | _ k ih =>
    rcases hrun : c.run o.current k (.raised e) s with ⟨seg, s'⟩
    cases seg with
    | yield k' =>
      rw [unwind_yield hrun]
      have hstep : Thread.step ⟨o, .body id caller⟩ (.yield k') = Thread.yield o id caller k' := rfl
      have hbody : Act.OfBody (ε := ε) ⟨o, .body id caller⟩ (.yield k') :=
        ⟨by simp, by simp [Act.Allowed], trivial⟩
      rcases hy : Coroutine.yield o k' with ⟨o', _ | e'⟩
      · simp only [Thread.yield, hy] at hstep
        exact ⟨_, _, Leads.single hbody rfl hstep, rfl⟩
      · simp only [Thread.yield, hy] at hstep
        obtain ⟨during, ran, hleads, hran⟩ := ih k' ⟨o.current, e, s, s', hrun⟩ e' o' s'
        refine ⟨_, _, Leads.cons hbody rfl hstep hleads, ?_⟩
        simp only [Switched.cons, hran]
    | ret =>
      rw [unwind_ret hrun]
      exact ⟨[.ret], [], Leads.single ⟨by simp, by simp [Act.Allowed], trivial⟩ rfl rfl, rfl⟩
    | throw e' =>
      rw [unwind_throw hrun]
      exact ⟨[.throw e'], [], Leads.single ⟨by simp, by simp [Act.Allowed], trivial⟩ rfl rfl, rfl⟩

theorem exec_leads (c : Code κ ε σ) (id : Nat) (caller : Caller) (o : Ordinator κ ε) (k : κ)
    (sig : Signal ε) (s : σ) (x : Ran κ ε) :
    ∃ during ran, Leads ⟨o, .body id caller⟩ during id caller (exec c id o k sig s x).o ran ∧
      (exec c id o k sig s x).ran = x :: ran := by
  rw [exec]
  rcases c.run o.current k sig s with ⟨seg, s'⟩
  cases seg with
  | yield k' =>
    have hstep : Thread.step ⟨o, .body id caller⟩ (.yield k') = Thread.yield o id caller k' := rfl
    have hbody : Act.OfBody (ε := ε) ⟨o, .body id caller⟩ (.yield k') :=
      ⟨by simp, by simp [Act.Allowed], trivial⟩
    simp only []
    rcases hy : Coroutine.yield o k' with ⟨o', _ | e'⟩
    · simp only [Thread.yield, hy] at hstep
      exact ⟨_, _, Leads.single hbody rfl hstep, rfl⟩
    · simp only [Thread.yield, hy] at hstep
      obtain ⟨during, ran, hleads, hran⟩ := unwind_leads c id caller k' e' o' s'
      refine ⟨_, _, Leads.cons hbody rfl hstep hleads, ?_⟩
      simp only [Switched.cons, hran]
  | ret => exact ⟨[.ret], [], Leads.single ⟨by simp, by simp [Act.Allowed], trivial⟩ rfl rfl, rfl⟩
  | throw e' =>
    exact ⟨[.throw e'], [], Leads.single ⟨by simp, by simp [Act.Allowed], trivial⟩ rfl rfl, rfl⟩

/-- A step into a routine, and acts of it that lead back to the main context. -/
structure Comes (p : Thread κ ε × Seen κ ε) (during : List (Act κ ε)) (o' : Ordinator κ ε)
    (last : Seen κ ε) (ran : List (Ran κ ε)) : Prop where
  body : Lib.Along Thread.step (fun t a => a.OfBody t) p.1 during
  quiet : ∀ a ∈ during, a.isCreate = false
  thread : (Lib.runs Thread.step p.1 during).1 = ⟨o', .main⟩
  last : (p.2 :: (Lib.runs Thread.step p.1 during).2.map Prod.snd).getLast? = some last
  segments : (p.2 :: (Lib.runs Thread.step p.1 during).2.map Prod.snd).filterMap Seen.segment = ran

theorem Comes.at_once {o : Ordinator κ ε} {seen : Seen κ ε} (h : seen.segment = none) :
    Comes (⟨o, .main⟩, seen) [] o seen [] := by
  refine ⟨trivial, by simp, rfl, rfl, ?_⟩
  simp only [Lib.runs, List.map_nil, List.filterMap_cons, h, List.filterMap_nil]

theorem Leads.comes {t : Thread κ ε} {during : List (Act κ ε)} {id : Nat} {caller : Caller}
    {o' : Ordinator κ ε} {ran : List (Ran κ ε)} (h : Leads t during id caller o' ran)
    (x : Ran κ ε) :
    Comes (t, .ran x) during (Thread.back id caller o').1.o (Thread.back id caller o').2
      (x :: ran) := by
  refine ⟨h.body, h.quiet, h.thread, ?_, ?_⟩
  · rw [List.getLast?_cons, List.getLast?_map, h.last, Option.getD_some]
  · rw [List.filterMap_cons, List.filterMap_map]
    exact congrArg (x :: ·) h.segments

theorem back_eq_reap (id : Nat) (caller : Caller) (r : Switched κ ε σ) :
    Thread.back id caller r.o = (⟨(reap id r).1.1, .main⟩, .back id caller (reap id r).2.value) := by
  unfold Thread.back reap
  rcases r.o.routines.lookup id with _ | routine
  · rfl
  · by_cases hfin : routine.finished = true
    · simp only [hfin, if_true]
    · simp only [hfin, if_false, Bool.false_eq_true]

/-- A switch into a routine comes back as `r`; an empty function has no code to run. -/
def Returns (p : Thread κ ε × Seen κ ε) (r : (Ordinator κ ε × σ) × Out κ ε) (last : Seen κ ε) :
    Prop :=
  ∃ during ran, Comes p during r.1.1 last ran ∧ (r.2.ran = ran ∨ r.2.ran = [.start none] ∧ ran = [])

theorem switch_returns (c : Code κ ε σ) (id : Nat) (caller : Caller) (o : Ordinator κ ε)
    (r : Routine κ ε) (s : σ) :
    Returns (Thread.switch id caller o r) (reap id (switchTo c id o r s))
      (.back id caller (reap id (switchTo c id o r s)).2.value) := by
  have hback := back_eq_reap id caller (switchTo c id o r s)
  have hran := ran_reap id (switchTo c id o r s)
  have hgoes : ∀ (x : Ran κ ε) during ran,
      Thread.switch id caller o r = (⟨o, .body id caller⟩, .ran x) →
      Leads ⟨o, .body id caller⟩ during id caller (switchTo c id o r s).o ran →
      (switchTo c id o r s).ran = x :: ran →
      Returns (Thread.switch id caller o r) (reap id (switchTo c id o r s))
        (.back id caller (reap id (switchTo c id o r s)).2.value) := by
    intro x during ran hswitch hleads hsegments
    have hcomes := hleads.comes x
    rw [hback] at hcomes
    rw [hswitch]
    exact ⟨during, x :: ran, hcomes, Or.inl (hran.trans hsegments)⟩
  -- a fresh routine starts its function, if it has one; a suspended one goes on or unwinds
  rcases hctx : r.ctx with _ | k
  · rcases hfunc : r.func with _ | f
    · have hend : switchTo c id o r s = ⟨finish o id none, s, [.start none]⟩ := by
        simp only [switchTo, hctx, hfunc]
      have hswitch : Thread.switch id caller o r =
          (⟨(reap id (switchTo c id o r s)).1.1, .main⟩,
            .back id caller (reap id (switchTo c id o r s)).2.value) := by
        rw [← hback, hend]
        simp only [Thread.switch, hctx, hfunc]
      rw [hswitch]
      refine ⟨[], [], Comes.at_once rfl, Or.inr ⟨?_, rfl⟩⟩
      rw [hran, hend]
    · obtain ⟨during, ran, hleads, hsegments⟩ :=
        exec_leads c id caller o f .start s (.start (some f))
      refine hgoes (.start (some f)) during ran ?_ ?_ ?_
      · simp only [Thread.switch, hctx, hfunc]
      · simpa only [switchTo, hctx, hfunc] using hleads
      · simpa only [switchTo, hctx, hfunc] using hsegments
  · rcases hexc : r.exception with _ | e
    · obtain ⟨during, ran, hleads, hsegments⟩ := exec_leads c id caller o k .resumed s (.resumed k)
      refine hgoes (.resumed k) during ran ?_ ?_ ?_
      · simp only [Thread.switch, hctx, hexc]
      · simpa only [switchTo, hctx, hexc] using hleads
      · simpa only [switchTo, hctx, hexc] using hsegments
    · obtain ⟨during, ran, hleads, hsegments⟩ := unwind_leads c id caller k e o s
      refine hgoes (.raised k e) during ran ?_ ?_ ?_
      · simp only [Thread.switch, hctx, hexc]
      · simpa only [switchTo, hctx, hexc] using hleads
      · simpa only [switchTo, hctx, hexc] using hsegments

/-- `resume` in one step is a run of acts. -/
theorem resume_returns (c : Code κ ε σ) (o : Ordinator κ ε) (s : σ) (id : Nat) (caller : Caller) :
    Returns (Thread.resume o id caller) (resume c o s id)
      (.back id caller (resume c o s id).2.value) := by
  unfold Thread.resume resume
  split
  · exact ⟨[], [], Comes.at_once rfl, Or.inl rfl⟩
  rcases o.routines.lookup id with _ | r
  · exact ⟨[], [], Comes.at_once rfl, Or.inl rfl⟩
  · simp only []
    split
    · exact ⟨[], [], Comes.at_once rfl, Or.inl rfl⟩
    · exact switch_returns c id caller _ r s

/-- `kill` in one step is a run of acts: it refuses, or ends as its `resume` makes it. -/
theorem kill_returns (c : Code κ ε σ) (o : Ordinator κ ε) (s : σ) (id : Nat)
    (ex : Option (Exn ε)) :
    ∃ last, Returns (Thread.kill o id ex) (kill c o s id ex) last ∧
      ((∃ e, last = .refused e ∧ (kill c o s id ex).2.value = .error e) ∨
        ∃ value, last = .back id .kill value ∧
          (kill c o s id ex).2.value = Caller.ends .kill value) := by
  unfold Thread.kill kill
  split
  · exact ⟨_, ⟨[], [], Comes.at_once rfl, Or.inl rfl⟩, Or.inl ⟨_, rfl, rfl⟩⟩
  rcases ex with _ | e
  · exact ⟨_, ⟨[], [], Comes.at_once rfl, Or.inl rfl⟩, Or.inl ⟨_, rfl, rfl⟩⟩
  rcases o.routines.lookup id with _ | r
  · exact ⟨_, ⟨[], [], Comes.at_once rfl, Or.inl rfl⟩, Or.inl ⟨_, rfl, rfl⟩⟩
  · obtain ⟨during, ran, hcomes, hran⟩ := resume_returns c
      { o with routines := o.routines.insert id { r with exception := some e } } s id .kill
    simp only []
    split
    · rename_i e' hvalue
      exact ⟨_, ⟨during, ran, hcomes, hran⟩, Or.inr ⟨_, rfl, by rw [hvalue]; rfl⟩⟩
    · rename_i b hvalue
      exact ⟨_, ⟨during, ran, hcomes, hran⟩, Or.inr ⟨_, rfl, by rw [hvalue]; rfl⟩⟩

end AdvCppTP.Coroutine
