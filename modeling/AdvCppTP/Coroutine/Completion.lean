import Mathlib.Data.List.Induction
import AdvCppTP.Coroutine.Killing

/-! What `resume` reports about one routine, over any operations on the others: `true` for each of
its segments, and what it does behind the last one. -/

namespace AdvCppTP.Coroutine

variable {κ ε : Type*}

/-- A call from the main context, and the acts of the routine that it switches to. -/
structure Op (κ ε : Type*) where
  call : Act κ ε
  during : List (Act κ ε)

def Thread.operate (t : Thread κ ε) (op : Op κ ε) : Thread κ ε × List (Seen κ ε) :=
  let run := Lib.runs Thread.step t (op.call :: op.during)
  (run.1, run.2.map Prod.snd)

/-- The operation is called by the main context and comes back to it. -/
structure Op.Complete (t : Thread κ ε) (op : Op κ ε) : Prop where
  call : op.call.Allowed t
  during : Lib.Along Thread.step (fun t a => t.control ≠ .main ∧ a.Allowed t)
    (t.step op.call).1 op.during
  main : (t.operate op).1.control = .main

def Act.Names (id : Nat) : Act κ ε → Prop
  | .create j _ => j = id
  | .resume j => j = id
  | .kill j _ => j = id
  | _ => False

def Act.resumes (id : Nat) : Act κ ε → Bool
  | .resume j => j = id
  | _ => false

/-- The operations resume `id`, or are on other ids; no body creates `id`. -/
def Op.Leaves (id : Nat) (op : Op κ ε) : Prop :=
  (op.call.resumes id = true ∨ ¬ op.call.Names id) ∧ ∀ a ∈ op.during, ¬ a.Names id

def resumes (id : Nat) (ops : List (Op κ ε)) : Nat := ops.countP fun op => op.call.resumes id

/-- The body of `id` yields `n` times and then returns: so its segments end, if they are run. -/
def YieldsThenReturns (id n : Nat) (ops : List (Op κ ε)) : Prop :=
  ∀ before op after, ops = before ++ op :: after → op.call.resumes id = true →
    ∀ a, op.during.getLast? = some a →
      (resumes id before < n → ∃ k, a = .yield k) ∧ (resumes id before = n → a = .ret)

/-- Each of the first `n + 1` calls `resume(id)` runs one segment and returns `true`; each further
one returns `false` and changes nothing. -/
def Reports (id n : Nat) (t : Thread κ ε) (ops : List (Op κ ε)) : Prop :=
  ∀ before op after, ops = before ++ op :: after → op.call.resumes id = true →
    let t' := (Lib.runs Thread.operate t before).1
    if resumes id before ≤ n then
      (∃ x, (t'.operate op).2.filterMap Seen.segment = [x]) ∧
        (t'.operate op).2.getLast? = some (.back id .resume (.ok true))
    else (t'.operate op).2 = [.back id .resume (.ok false)] ∧ (t'.operate op).1 = t'

/-! ## Other ids -/

section

variable {o : Ordinator κ ε} {id : Nat} {t : Thread κ ε} {a : Act κ ε}
  {x : Option (Routine κ ε)}

/-- What is known of routine `id` while another one, or none, is switched to: `yield` writes to the
routine that `current` names, which `id` is not. -/
structure Thread.Aside (t : Thread κ ε) (id : Nat) (x : Option (Routine κ ε)) : Prop where
  other : t.control.id ≠ id
  current : t.control = .main ∨ t.o.current ≠ id
  lookup : t.o.routines.lookup id = x

theorem Thread.back_aside (hid : id ≠ 0) {j : Nat} (hj : id ≠ j) (caller : Caller)
    (h : o.routines.lookup id = x) : (Thread.back j caller o).1.Aside id x := by
  refine ⟨hid.symm, .inl rfl, ?_⟩
  rw [Thread.back, reap]
  split
  · exact h
  · split
    · exact (AList.lookup_erase_ne hj).trans h
    · exact h

theorem lookup_finish_ne {j : Nat} (hj : id ≠ j) (o : Ordinator κ ε) (thrown : Option (Exn ε)) :
    (finish o j thrown).routines.lookup id = o.routines.lookup id := by
  unfold finish
  split
  · rfl
  · exact AList.lookup_insert_ne hj

theorem Thread.switch_aside (hid : id ≠ 0) {j : Nat} (hj : id ≠ j) (caller : Caller)
    (hcur : o.current ≠ id) (h : o.routines.lookup id = x) (r : Routine κ ε) :
    (Thread.switch j caller o r).1.Aside id x := by
  rcases Thread.switch_cases o j caller r with ⟨y, hswitch⟩ | hswitch
  · rw [hswitch]
    exact ⟨hj.symm, .inr hcur, h⟩
  · rw [hswitch]
    exact Thread.back_aside hid hj caller ((lookup_finish_ne hj o none).trans h)

theorem Thread.resume_aside (hid : id ≠ 0) {j : Nat} (hj : id ≠ j) (caller : Caller)
    (h : o.routines.lookup id = x) : (Thread.resume o j caller).1.Aside id x := by
  unfold Thread.resume
  split
  · exact ⟨hid.symm, .inl rfl, h⟩
  · split
    · exact ⟨hid.symm, .inl rfl, h⟩
    · split
      · exact ⟨hid.symm, .inl rfl, h⟩
      · exact Thread.switch_aside (o := { o with current := j }) hid hj caller hj.symm h _

theorem Thread.kill_aside (hid : id ≠ 0) {j : Nat} (hj : id ≠ j) (ex : Option (Exn ε))
    (h : o.routines.lookup id = x) : (Thread.kill o j ex).1.Aside id x := by
  unfold Thread.kill
  split
  · exact ⟨hid.symm, .inl rfl, h⟩
  · split
    · exact ⟨hid.symm, .inl rfl, h⟩
    · split
      · exact ⟨hid.symm, .inl rfl, h⟩
      · exact Thread.resume_aside hid hj .kill ((AList.lookup_insert_ne hj).trans h)

theorem yield_aside (hid : id ≠ 0) (hcur : o.current ≠ id) (k : κ) :
    (Coroutine.yield o k).1.current ≠ id ∧
      (Coroutine.yield o k).1.routines.lookup id = o.routines.lookup id := by
  unfold Coroutine.yield
  split
  · exact ⟨hcur, rfl⟩
  · split
    · exact ⟨hid.symm, rfl⟩
    · exact ⟨hid.symm, AList.lookup_insert_ne hcur.symm⟩

theorem Thread.Aside.step (h : t.Aside id x) (hid : id ≠ 0) (ha : a.Allowed t)
    (hname : ¬ a.Names id) : (t.step a).1.Aside id x := by
  obtain ⟨o, control⟩ := t
  obtain ⟨hother, hcurrent, hlookup⟩ := h
  -- main may call about any other routine, a body may only create, yield or end
  cases a with
  | create j f =>
    have hnew := ((create_spec o j f).1 id (Ne.symm hname)).trans hlookup
    refine ⟨hother, hcurrent.imp_right fun hcur => ?_, hnew⟩
    exact (create_current o j f).symm ▸ hcur
  | resume j =>
    obtain rfl : control = .main := ha
    exact Thread.resume_aside hid (Ne.symm hname) .resume hlookup
  | kill j ex =>
    obtain rfl : control = .main := ha
    exact Thread.kill_aside hid (Ne.symm hname) ex hlookup
  | yield k =>
    rcases control with _ | ⟨j, caller⟩
    · exact absurd rfl ha
    · have hcur : o.current ≠ id := hcurrent.resolve_left (by simp)
      obtain ⟨hcur', hlookup'⟩ := yield_aside hid hcur k
      simp only [Thread.step, Thread.yield]
      split
      case h_1 o' heq =>
        rw [heq] at hlookup'
        exact Thread.back_aside hid (Ne.symm hother) caller (hlookup'.trans hlookup)
      case h_2 o' e heq =>
        rw [heq] at hcur' hlookup'
        exact ⟨hother, .inr hcur', hlookup'.trans hlookup⟩
  | ret =>
    rcases control with _ | ⟨j, caller⟩
    · exact absurd rfl ha
    · have hj : id ≠ j := Ne.symm hother
      exact Thread.back_aside hid hj caller ((lookup_finish_ne hj o none).trans hlookup)
  | throw e =>
    rcases control with _ | ⟨j, caller⟩
    · exact absurd rfl ha
    · have hj : id ≠ j := Ne.symm hother
      exact Thread.back_aside hid hj caller ((lookup_finish_ne hj o (some e)).trans hlookup)

theorem Thread.Aside.run (h : t.Aside id x) (hid : id ≠ 0) {during : List (Act κ ε)}
    (hduring : Lib.Along Thread.step (fun t a => t.control ≠ .main ∧ a.Allowed t) t during)
    (hnames : ∀ a ∈ during, ¬ a.Names id) : (Lib.runs Thread.step t during).1.Aside id x := by
  induction during generalizing t with
  | nil => exact h
  | cons a during ih =>
    have hstep := h.step hid hduring.1.2 (hnames a List.mem_cons_self)
    exact ih hstep hduring.2 fun b hb => hnames b (List.mem_cons_of_mem a hb)

theorem Thread.Aside.operate (h : t.Aside id x) (hid : id ≠ 0) {op : Op κ ε}
    (hop : op.Complete t) (hcall : ¬ op.call.Names id) (hnames : ∀ a ∈ op.during, ¬ a.Names id) :
    (t.operate op).1.Aside id x :=
  (h.step hid hop.call hcall).run hid hop.during hnames

end

/-! ## One routine -/

def Routine.HasCode (r : Routine κ ε) : Prop := r.ctx = .entry → ∃ f, r.func = some f

theorem Thread.switch_code {r : Routine κ ε} (h : r.HasCode) (id : Nat) (caller : Caller)
    (o : Ordinator κ ε) :
    ∃ x, Thread.switch id caller o r = (⟨o, .body id caller⟩, .ran x) := by
  unfold Thread.switch
  rcases hctx : r.ctx with _ | k
  · obtain ⟨f, hf⟩ := h hctx
    rw [hf]
    exact ⟨_, rfl⟩
  · rcases r.exception with _ | e
    · exact ⟨_, rfl⟩
    · exact ⟨_, rfl⟩

/-- Routine `id` executes and is not killed. -/
structure Ordinator.Resumed (o : Ordinator κ ε) (id : Nat) (r : Routine κ ε) : Prop where
  current : o.current = id
  lookup : o.routines.lookup id = some r
  idle : r.Idle

theorem Ordinator.Resumed.create {o : Ordinator κ ε} {id : Nat} {r : Routine κ ε}
    (h : o.Resumed id r) (j : Nat) (f : Option κ) : (Coroutine.create o j f).1.Resumed id r := by
  obtain ⟨hother, hold, -⟩ := create_spec o j f
  refine ⟨(create_current o j f).trans h.current, ?_, h.idle⟩
  rcases eq_or_ne id j with rfl | hne
  · exact hold r h.lookup
  · exact (hother id hne).trans h.lookup

/-- What is left of a routine that was resumed, when its last act was a `yield` or its return. -/
structure Segment (id : Nat) (r : Routine κ ε) (during : List (Act κ ε))
    (run : Thread κ ε × List (Act κ ε × Seen κ ε)) : Prop where
  segments : (run.2.map Prod.snd).filterMap Seen.segment = []
  last : (run.2.map Prod.snd).getLast? = some (.back id .resume (.ok true))
  yields : ∀ k, during.getLast? = some (.yield k) →
    run.1.o.routines.lookup id = some { r with ctx := .inYield k }
  returns : during.getLast? = some .ret → run.1.o.routines.lookup id = none

theorem Ordinator.Resumed.segment {o : Ordinator κ ε} {id : Nat} {r : Routine κ ε}
    (h : o.Resumed id r) {during : List (Act κ ε)}
    (hduring : Lib.Along Thread.step (fun t a => t.control ≠ .main ∧ a.Allowed t)
      ⟨o, .body id .resume⟩ during)
    (hmain : (Lib.runs Thread.step ⟨o, .body id .resume⟩ during).1.control = .main)
    (hlast : (∃ k, during.getLast? = some (.yield k)) ∨ during.getLast? = some .ret) :
    Segment id r during (Lib.runs Thread.step ⟨o, .body id .resume⟩ during) := by
  -- by induction on what the body does: it creates, and the first other act ends the segment
  induction during generalizing o with
  | nil => cases hmain
  | cons a during ih =>
    obtain ⟨-, hallowed⟩ := hduring.1
    cases a with
    | create j f =>
      have hne : during ≠ [] := by
        rintro rfl
        cases hmain
      have hsame : (Act.create j f :: during).getLast? = during.getLast? :=
        List.getLast?_cons_of_ne_nil hne
      rw [hsame] at hlast
      have hrest := ih (h.create j f) hduring.2 hmain hlast
      refine ⟨hrest.segments, ?_, fun k hk => ?_, fun hret => ?_⟩
      · rw [Lib.runs, List.map_cons, List.getLast?_cons]
        exact congrArg some (congrArg (Option.getD · _) hrest.last)
      · exact hrest.yields k (hsame.symm.trans hk)
      · exact hrest.returns (hsame.symm.trans hret)
    | resume j => cases hallowed
    | kill j ex => cases hallowed
    | yield k =>
      have hyield := Thread.yield_idle h.current h.lookup h.idle .resume k
      obtain ⟨rfl, hruns⟩ := along_body_last (t := ⟨o, .body id .resume⟩) (a := .yield k) hyield
        rfl hduring.2 fun _ _ ha => ha.1
      rw [hruns]
      refine ⟨rfl, rfl, fun k' hk' => ?_, fun hret => ?_⟩
      · cases hk'
        exact AList.lookup_insert _
      · cases hret
    | ret =>
      have hback := Thread.back_finish h.lookup .resume none
      obtain ⟨rfl, hruns⟩ := along_body_last (t := ⟨o, .body id .resume⟩) (a := .ret) hback rfl
        hduring.2 fun _ _ ha => ha.1
      rw [hruns, h.idle.2]
      refine ⟨rfl, rfl, fun k' hk' => ?_, fun _ => AList.lookup_erase _ _⟩
      cases hk'
    | throw e =>
      have hback := Thread.back_finish h.lookup .resume (some e)
      obtain ⟨rfl, -⟩ := along_body_last (t := ⟨o, .body id .resume⟩) (a := .throw e) hback rfl
        hduring.2 fun _ _ ha => ha.1
      rcases hlast with ⟨k, hk⟩ | hret
      · cases hk
      · cases hret

/-! ## Between the operations -/

/-- The state of the routine behind `c` of its resumes, when its body yields `n` times. -/
structure Thread.After (t : Thread κ ε) (id n c : Nat) : Prop where
  main : t.control = .main
  live : c ≤ n → ∃ r, t.o.routines.lookup id = some r ∧ r.Idle ∧ r.HasCode
  gone : n < c → t.o.routines.lookup id = none

section

variable {t : Thread κ ε} {id n c : Nat} {op : Op κ ε}

theorem Thread.After.other (h : t.After id n c) (hid : id ≠ 0) (hop : op.Complete t)
    (hcall : ¬ op.call.Names id) (hnames : ∀ a ∈ op.during, ¬ a.Names id) :
    (t.operate op).1.After id n c := by
  have haside : t.Aside id (t.o.routines.lookup id) := by
    refine ⟨?_, .inl h.main, rfl⟩
    rw [h.main]
    exact hid.symm
  have hlookup := (haside.operate hid hop hcall hnames).lookup
  refine ⟨hop.main, fun hle => ?_, fun hlt => ?_⟩
  · rw [hlookup]
    exact h.live hle
  · rw [hlookup]
    exact h.gone hlt

theorem Thread.After.resume_live (h : t.After id n c) (hid : id ≠ 0) (hop : op.Complete t)
    (hcall : op.call = .resume id) (hle : c ≤ n)
    (hbody : ∀ a, op.during.getLast? = some a → (c < n → ∃ k, a = .yield k) ∧ (c = n → a = .ret)) :
    (t.operate op).1.After id n (c + 1) ∧
      (∃ x, (t.operate op).2.filterMap Seen.segment = [x]) ∧
      (t.operate op).2.getLast? = some (.back id .resume (.ok true)) := by
  obtain ⟨o, control⟩ := t
  obtain rfl : control = .main := h.main
  obtain ⟨call, during⟩ := op
  obtain rfl : call = .resume id := hcall
  obtain ⟨r, hr, hidle, hcode⟩ := h.live hle
  have hexec : ({ o with current := id } : Ordinator κ ε).Resumed id r := ⟨rfl, hr, hidle⟩
  obtain ⟨x, hswitch⟩ := Thread.switch_code hcode id .resume { o with current := id }
  have hstep : Thread.step ⟨o, .main⟩ (.resume id) =
      (⟨{ o with current := id }, .body id .resume⟩, .ran x) := by
    simp only [Thread.step, Thread.resume, if_neg hid, hr, hidle.1, Bool.false_eq_true, if_false]
    exact hswitch
  have hduring := hop.during
  have hmain := hop.main
  simp only [Thread.operate, Lib.runs] at hmain ⊢
  rw [hstep] at hduring hmain ⊢
  -- the call is one segment, which ends with `yield` before the last one and with a return there
  obtain ⟨a, ha⟩ : ∃ a, during.getLast? = some a := by
    rcases hlast : during.getLast? with _ | a
    · rw [List.getLast?_eq_none_iff.mp hlast] at hmain
      cases hmain
    · exact ⟨a, rfl⟩
  obtain ⟨hyields, hreturns⟩ := hbody a ha
  have hlast : (∃ k, during.getLast? = some (.yield k)) ∨ during.getLast? = some .ret := by
    rcases lt_or_eq_of_le hle with hlt | heq
    · obtain ⟨k, rfl⟩ := hyields hlt
      exact .inl ⟨k, ha⟩
    · exact .inr (hreturns heq ▸ ha)
  have hseg := hexec.segment hduring hmain hlast
  refine ⟨⟨hmain, fun hlt => ?_, fun hlt => ?_⟩, ⟨x, ?_⟩, ?_⟩
  · obtain ⟨k, rfl⟩ := hyields hlt
    exact ⟨_, hseg.yields k ha, hidle, fun hentry => by cases hentry⟩
  · have heq := le_antisymm hle (Nat.le_of_lt_succ hlt)
    exact hseg.returns (hreturns heq ▸ ha)
  · rw [List.map_cons, List.filterMap_cons]
    exact congrArg (x :: ·) hseg.segments
  · rw [List.map_cons, List.getLast?_cons, hseg.last, Option.getD_some]

/-- A `resume` that switches to no routine is all of its operation. -/
theorem operate_at_once (hop : op.Complete t) {seen : Seen κ ε} (hmain : t.control = .main)
    (hstep : t.step op.call = (t, seen)) : t.operate op = (t, [seen]) := by
  obtain ⟨call, during⟩ := op
  obtain ⟨-, hruns⟩ := along_body_last hstep hmain hop.during fun _ _ ha => ha.1
  simp only [Thread.operate, hruns, List.map_cons, List.map_nil]

theorem Thread.After.resume_gone (h : t.After id n c) (hid : id ≠ 0) (hop : op.Complete t)
    (hcall : op.call = .resume id) (hlt : n < c) :
    t.operate op = (t, [.back id .resume (.error .outOfRange)]) := by
  obtain ⟨o, control⟩ := t
  obtain rfl : control = .main := h.main
  refine operate_at_once hop rfl ?_
  simp only [hcall, Thread.step, Thread.resume, if_neg hid, h.gone hlt]

theorem operate_resume_zero (hmain : t.control = .main) (hop : op.Complete t)
    (hcall : op.call = .resume 0) : t.operate op = (t, [.back 0 .resume (.ok false)]) := by
  obtain ⟨o, control⟩ := t
  obtain rfl : control = .main := hmain
  refine operate_at_once hop rfl ?_
  simp only [hcall, Thread.step, Thread.resume, if_true]

theorem main_of_complete (hmain : t.control = .main) {ops : List (Op κ ε)}
    (hops : Lib.Along Thread.operate (fun t op => op.Complete t) t ops) :
    (Lib.runs Thread.operate t ops).1.control = .main :=
  Lib.runs_invariant_along (I := fun t => t.control = .main) (fun _ _ _ hop => hop.main) hmain hops

theorem Act.resumes_eq {a : Act κ ε} (h : a.resumes id = true) : a = .resume id := by
  cases a with
  | resume j => rw [of_decide_eq_true h]
  | create j f => cases h
  | kill j ex => cases h
  | yield k => cases h
  | ret => cases h
  | throw e => cases h

theorem resumes_concat (id : Nat) (ops : List (Op κ ε)) (op : Op κ ε) :
    resumes id (ops ++ [op]) = resumes id ops + if op.call.resumes id = true then 1 else 0 := by
  rw [resumes, List.countP_append, List.countP_singleton]
  rfl

theorem YieldsThenReturns.take {before after : List (Op κ ε)}
    (h : YieldsThenReturns id n (before ++ after)) : YieldsThenReturns id n before := by
  intro first op rest hsplit hcall
  refine h first op (rest ++ after) ?_ hcall
  rw [hsplit, List.append_assoc, List.cons_append]

theorem Thread.After.run (h : t.After id n 0) (hid : id ≠ 0) {ops : List (Op κ ε)}
    (hops : Lib.Along Thread.operate (fun t op => op.Complete t) t ops)
    (hleaves : ∀ op ∈ ops, op.Leaves id) (hbody : YieldsThenReturns id n ops) :
    (Lib.runs Thread.operate t ops).1.After id n (resumes id ops) := by
  induction ops using List.reverseRecOn with
  | nil => exact h
  | append_singleton ops op ih =>
    rw [Lib.along_append] at hops
    obtain ⟨hcalls, hnames⟩ := hleaves op (List.mem_append_right _ List.mem_cons_self)
    have hbefore := ih hops.1 (fun op' hop' => hleaves op' (List.mem_append_left _ hop')) hbody.take
    have hop : op.Complete (Lib.runs Thread.operate t ops).1 := hops.2.1
    rw [Lib.runs_append, resumes_concat]
    simp only [Lib.runs]
    by_cases hcall : op.call.resumes id = true
    · rw [if_pos hcall]
      rcases Nat.lt_or_ge n (resumes id ops) with hlt | hle
      · rw [hbefore.resume_gone hid hop (Act.resumes_eq hcall) hlt]
        refine ⟨hbefore.main, fun hle => ?_, fun _ => hbefore.gone hlt⟩
        exact absurd hle (not_le.mpr (Nat.lt_succ_of_lt hlt))
      · have hlast := hbody ops op [] rfl hcall
        exact (hbefore.resume_live hid hop (Act.resumes_eq hcall) hle hlast).1
    · rw [if_neg hcall, Nat.add_zero]
      exact hbefore.other hid hop (hcalls.resolve_left hcall) hnames

end

/-- `create` of a dead id leaves the main context with a routine that has its whole body. -/
theorem Thread.created_after (o : Ordinator κ ε) {id : Nat} (hdead : id ∉ o.routines) (f : κ)
    (n : Nat) : (Thread.step ⟨o, .main⟩ (.create id (some f))).1.After id n 0 := by
  obtain ⟨-, -, hnew⟩ := create_spec o id (some f)
  obtain ⟨r, hr, hcreated⟩ := hnew (AList.lookup_eq_none.mpr hdead)
  refine ⟨rfl, fun _ => ⟨r, hr, ⟨hcreated.finished, hcreated.exception⟩, fun _ => ?_⟩,
      fun hlt => ?_⟩
  · exact ⟨f, hcreated.func⟩
  · exact absurd hlt (Nat.not_lt_zero n)

/-- A routine 0 is not run by any `resume`. -/
theorem reports_zero_iff {t : Thread κ ε} (hmain : t.control = .main) (n : Nat)
    {ops : List (Op κ ε)} (hops : Lib.Along Thread.operate (fun t op => op.Complete t) t ops) :
    Reports 0 n t ops ↔ resumes 0 ops = 0 := by
  constructor
  · intro h
    by_contra hsome
    obtain ⟨before, op, after, rfl, hcall, hcount⟩ :=
      Lib.exists_event_of_lt_countP (Nat.pos_of_ne_zero hsome)
    rw [Lib.along_append] at hops
    have hreport := h before op after rfl hcall
    have hle : resumes 0 before ≤ n := le_of_eq_of_le hcount (Nat.zero_le n)
    simp only [if_pos hle] at hreport
    obtain ⟨⟨x, hx⟩, -⟩ := hreport
    rw [operate_resume_zero (main_of_complete hmain hops.1) hops.2.1 (Act.resumes_eq hcall)] at hx
    cases hx
  · intro hnone before op after hsplit hcall
    have hmem : op ∈ ops := by
      rw [hsplit]
      exact List.mem_append_right _ List.mem_cons_self
    exact absurd hcall (List.countP_eq_zero.mp hnone op hmem)

/-- The body of a routine yields `n` times and returns. Whatever is done with the other ids in
between, `resume` reports its completion exactly when it is called no more than the `n + 1` times
that it has segments: the call behind the last one throws, for the id is no longer in the table.
A routine 0 has none that `resume` runs. -/
theorem resume_reports_iff (o : Ordinator κ ε) (id : Nat) (hdead : id ∉ o.routines) (f : κ)
    (n : Nat) (ops : List (Op κ ε))
    (hops : Lib.Along Thread.operate (fun t op => op.Complete t)
      (Thread.step ⟨o, .main⟩ (.create id (some f))).1 ops)
    (hleaves : ∀ op ∈ ops, op.Leaves id) (hbody : YieldsThenReturns id n ops) :
    Reports id n (Thread.step ⟨o, .main⟩ (.create id (some f))).1 ops ↔
      id ≠ 0 ∧ resumes id ops ≤ n + 1 ∨ resumes id ops = 0 := by
  have hcreated := Thread.created_after o hdead f n
  generalize (Thread.step ⟨o, .main⟩ (.create id (some f))).1 = t at *
  rcases eq_or_ne id 0 with rfl | hid
  · rw [reports_zero_iff hcreated.main n hops]
    exact ⟨.inr, fun h => h.resolve_left fun hzero => hzero.1 rfl⟩
  -- every part of the operations leads to the same account of the routine
  have hstate : ∀ before op after, ops = before ++ op :: after →
      (Lib.runs Thread.operate t before).1.After id n (resumes id before) ∧
        op.Complete (Lib.runs Thread.operate t before).1 := by
    rintro before op after rfl
    rw [Lib.along_append] at hops
    refine ⟨hcreated.run hid hops.1 (fun op' hop' => ?_) hbody.take, hops.2.1⟩
    exact hleaves op' (List.mem_append_left _ hop')
  constructor
  · intro h
    refine .inl ⟨hid, ?_⟩
    by_contra hmore
    obtain ⟨before, op, after, hsplit, hcall, hcount⟩ :=
      Lib.exists_event_of_lt_countP (not_le.mp hmore)
    obtain ⟨hafter, hop⟩ := hstate before op after hsplit
    have hlt : n < resumes id before :=
      lt_of_lt_of_eq (Nat.lt_succ_self n) hcount.symm
    have hreport := h before op after hsplit hcall
    simp only [if_neg (not_le.mpr hlt)] at hreport
    rw [hafter.resume_gone hid hop (Act.resumes_eq hcall) hlt] at hreport
    cases hreport.1
  · intro hfew before op after hsplit hcall
    obtain ⟨hafter, hop⟩ := hstate before op after hsplit
    have hle : resumes id before ≤ n := by
      have hcount : resumes id ops = resumes id before + (resumes id after + 1) := by
        rw [hsplit, resumes, List.countP_append]
        exact congrArg (resumes id before + ·) (List.countP_cons_of_pos hcall)
      omega
    simp only [if_pos hle]
    have hends := hbody before op after hsplit hcall
    exact (hafter.resume_live hid hop (Act.resumes_eq hcall) hle hends).2

/-- A body that yields once, and another one that throws in between. -/
def oneYield : List (Op Unit Unit) :=
  [⟨.resume 1, [.yield ()]⟩, ⟨.create 2 (some ()), []⟩, ⟨.resume 2, [.throw (.user ())]⟩,
    ⟨.resume 1, [.ret]⟩]

theorem resume_reports_one_yield :
    Reports 1 1 (Thread.step ⟨Ordinator.init, .main⟩ (.create 1 (some ()))).1 oneYield := by
  refine (resume_reports_iff Ordinator.init 1 (by decide) () 1 oneYield
    ⟨⟨rfl, ⟨by decide, by decide⟩, rfl⟩, ⟨trivial, trivial, rfl⟩,
      ⟨rfl, ⟨by decide, by decide⟩, rfl⟩, ⟨rfl, ⟨by decide, by decide⟩, rfl⟩, trivial⟩ ?_ ?_).mpr
    (by decide)
  · simp [oneYield, Op.Leaves, Act.resumes, Act.Names]
  · refine Lib.forall_split_cons ?_ (Lib.forall_split_cons ?_ (Lib.forall_split_cons ?_
      (Lib.forall_split_cons ?_ Lib.forall_split_nil)))
    · exact fun _ a ha => ⟨fun _ => ⟨(), (Option.some.inj ha).symm⟩, fun h => absurd h (by decide)⟩
    · exact fun h => absurd h (by decide)
    · exact fun h => absurd h (by decide)
    · exact fun _ a ha => ⟨fun h => absurd h (by decide), fun _ => (Option.some.inj ha).symm⟩

/-- A body that returns at once is resumed again. -/
theorem resume_throws_behind_last_segment :
    ¬ ∀ ops : List (Op Unit Unit),
      Lib.Along Thread.operate (fun t op => op.Complete t)
        (Thread.step ⟨Ordinator.init, .main⟩ (.create 1 (some ()))).1 ops →
      (∀ op ∈ ops, op.Leaves 1) → YieldsThenReturns 1 0 ops →
      Reports 1 0 (Thread.step ⟨Ordinator.init, .main⟩ (.create 1 (some ()))).1 ops := by
  intro h
  have hreport := h [⟨.resume 1, [.ret]⟩, ⟨.resume 1, []⟩]
    ⟨⟨rfl, ⟨by decide, by decide⟩, rfl⟩, ⟨rfl, trivial, rfl⟩, trivial⟩
    (by simp [Op.Leaves, Act.resumes, Act.Names])
    (Lib.forall_split_cons
      (fun _ a ha => ⟨fun h => absurd h (by decide), fun _ => (Option.some.inj ha).symm⟩)
      (Lib.forall_split_cons (fun _ a ha => by cases ha) Lib.forall_split_nil))
  have hlast := hreport [⟨.resume 1, [.ret]⟩] ⟨.resume 1, []⟩ [] rfl rfl
  have hseen : [Seen.back 1 .resume (.error .outOfRange)] =
      [(Seen.back 1 .resume (.ok false) : Seen Unit Unit)] := hlast.1
  cases hseen

end AdvCppTP.Coroutine
