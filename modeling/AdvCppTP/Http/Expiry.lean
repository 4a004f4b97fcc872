import AdvCppTP.Coroutine.Acts
import AdvCppTP.Http.Containment

/-! `checkTimeouts` over killed coroutines that unwind in any way: which entries and which
coroutines it takes away. -/

namespace AdvCppTP.Http

/-- How a killed coroutine unwinds: its acts, and what they do to the memory. -/
structure Unwinding where
  during : List (Coroutine.Act ClientPc Thrown)
  touch : World → World

def timeoutReached : Exn := .user (.httpError "Timeout reached")

def Unwinding.run (u : Unwinding) (s : State) (id : Nat) : Coroutine.Thread ClientPc Thrown :=
  (Lib.runs Coroutine.Thread.step (Coroutine.Thread.kill s.o id (some timeoutReached)).1 u.during).1

/-- One turn of the second loop of `checkTimeouts`, which catches what `kill` throws. -/
def expireBy (unwind : Nat → Unwinding) (s : State) (id : Nat) : Except Ended State :=
  match deleteConnection id ((unwind id).touch s.w) with
  | none => .error (.threw .outOfRange)
  | some w => .ok ⟨((unwind id).run s id).o, w⟩

def checkTimeoutsBy (unwind : Nat → Unwinding) (now : Nat) (s : State) : Except Ended State :=
  (expired now s.w).foldlM (expireBy unwind) s

/-- The coroutine comes to its end, and touches only its own entry. -/
structure Unwinding.Ends (u : Unwinding) (s : State) (id : Nat) : Prop where
  acts : Lib.Along Coroutine.Thread.step (fun t a => a.OfBody t)
    (Coroutine.Thread.kill s.o id (some timeoutReached)).1 u.during
  main : (u.run s id).control = .main
  quiet : ∀ a ∈ u.during, a.isCreate = false
  other : ∀ j, j ≠ id → (u.touch s.w).routines.lookup j = s.w.routines.lookup j
  entry : id ∈ s.w.routines → id ∈ (u.touch s.w).routines

/-- With compiled bodies a turn of `checkTimeouts` is one with some unwinding. -/
theorem expireWith_eq_expireBy (code : Coroutine.Code ClientPc Thrown World) {s : State} {id : Nat}
    (hdefined : (Coroutine.kill code s.o s.w id (some timeoutReached)).1.2.undefined = false) :
    ∃ during,
      Lib.Along Coroutine.Thread.step (fun t a => a.OfBody t)
        (Coroutine.Thread.kill s.o id (some timeoutReached)).1 during ∧
      (∀ a ∈ during, a.isCreate = false) ∧
      ∀ unwind : Nat → Unwinding,
        unwind id = ⟨during, fun w => (Coroutine.kill code s.o w id (some timeoutReached)).1.2⟩ →
        ((unwind id).run s id).control = .main ∧ expireWith code s id = expireBy unwind s id := by
  obtain ⟨last, ⟨during, ran, hcomes, -⟩, -⟩ :=
    Coroutine.kill_returns code s.o s.w id (some timeoutReached)
  refine ⟨during, hcomes.body, hcomes.quiet, fun unwind hunwind => ?_⟩
  have hrun : (unwind id).run s id =
      ⟨(Coroutine.kill code s.o s.w id (some timeoutReached)).1.1, .main⟩ := by
    rw [hunwind]
    exact hcomes.thread
  refine ⟨by rw [hrun], ?_⟩
  rw [expireBy, hrun, hunwind]
  exact if_neg (ne_true_of_eq_false hdefined)

/-- The coroutines of `clientRoutine` unwind so, suspended or not yet started. -/
theorem clientRoutine_unwinds (server : Server) {s : State} {id : Nat} (hid : id ≠ 0)
    {r : Coroutine.Routine ClientPc Thrown} (hr : s.o.routines.lookup id = some r)
    (hbelongs : BelongsTo id r) (hdefined : s.w.undefined = false) :
    ∃ u : Unwinding, u.Ends s id ∧
      ∀ unwind : Nat → Unwinding, unwind id = u → expire server s id = expireBy unwind s id := by
  have hc := clientCode_propagates server
  have hworld : (∀ j, j ≠ id → (Coroutine.kill (clientCode server) s.o s.w id
        (some timeoutReached)).1.2.routines.lookup j = s.w.routines.lookup j) ∧
      (Coroutine.kill (clientCode server) s.o s.w id (some timeoutReached)).1.2.undefined =
        false := by
    rcases hctx : r.ctx with _ | k
    · have hnew : r.Created (some .clientRoutine) :=
        ⟨hctx, hbelongs.func, hbelongs.idle.2, hbelongs.idle.1⟩
      rw [(Coroutine.kill_created hc hid hr hnew s.w timeoutReached).1]
      have hown : ClientPc.Own id .clientRoutine := trivial
      have hstart : ∀ e : Exn, Coroutine.Signal.start ≠ .raised e := by simp
      obtain ⟨hother, -, hdefined'⟩ := clientRun_own server hown hstart s.w
      exact ⟨hother, hdefined'.mpr ⟨hdefined, trivial⟩⟩
    · rw [(Coroutine.kill_suspended hc hid hr hbelongs.idle.1 hctx s.w timeoutReached).1]
      exact ⟨fun _ _ => rfl, hdefined⟩
  obtain ⟨during, hacts, hquiet, hby⟩ := expireWith_eq_expireBy (clientCode server) hworld.2
  let world := fun w => (Coroutine.kill (clientCode server) s.o w id (some timeoutReached)).1.2
  refine ⟨⟨during, world⟩,
    ⟨hacts, ?_, hquiet, hworld.1, fun hmem => ?_⟩, fun unwind hunwind => (hby unwind hunwind).2⟩
  · exact (hby (fun _ => _) rfl).1
  · exact ((keepingClientCode server).kill_fixed s id id (some timeoutReached)).mem_iff.mpr hmem

/-- The coroutines of the clients to come wait, and can be killed. -/
structure State.Live (s : State) (ids : List Nat) : Prop where
  entry : ∀ id ∈ ids, id ∈ s.w.routines
  coroutine : ∀ id ∈ ids, id ≠ 0 ∧
    ∃ r, s.o.routines.lookup id = some r ∧ r.finished = false

/-- What is left behind the turns for `ids`: their entries are gone, and their coroutines too but
for those that a routine 0 let out. -/
structure SweptBy (unwind : Nat → Unwinding) (s : State) (ids : List Nat) (s' : State) : Prop where
  entries : ∀ j, s'.w.routines.lookup j = if j ∈ ids then none else s.w.routines.lookup j
  others : ∀ j, j ∉ ids → j ≠ 0 → s'.o.routines.lookup j = s.o.routines.lookup j
  gone : ∀ id ∈ ids, s'.o.routines.lookup id = none ↔
    s.o.NoSpare ∨ Coroutine.yields (unwind id).during ≤ 1
  zero : (s.o.NoSpare ∨ ∀ id ∈ ids, Coroutine.yields (unwind id).during ≤ 1) →
    s'.o.routines.lookup 0 = s.o.routines.lookup 0
  spare : s'.o.NoSpare ↔ s.o.NoSpare

theorem SweptBy.refl (unwind : Nat → Unwinding) (s : State) : SweptBy unwind s [] s :=
  ⟨fun _ => rfl, fun _ _ _ => rfl, fun _ hid => absurd hid List.not_mem_nil, fun _ => rfl, Iff.rfl⟩

theorem SweptBy.cons {unwind : Nat → Unwinding} {s s₁ s' : State} {id : Nat} {ids : List Nat}
    (hid : id ≠ 0) (hnot : id ∉ ids) (h : SweptBy unwind s [id] s₁)
    (h' : SweptBy unwind s₁ ids s') : SweptBy unwind s (id :: ids) s' := by
  refine ⟨fun j => ?_, fun j hj hj0 => ?_, fun j hj => ?_, fun hspare => ?_, h'.spare.trans h.spare⟩
  · rw [h'.entries, h.entries]
    by_cases hj : j = id <;> simp [hj]
  · obtain ⟨hne, hj⟩ := not_or.mp (mt List.mem_cons.mpr hj)
    rw [h'.others j hj hj0, h.others j (fun hmem => hne (List.mem_singleton.mp hmem)) hj0]
  · rcases List.mem_cons.mp hj with rfl | hj
    · rw [h'.others j hnot hid]
      exact h.gone j List.mem_cons_self
    · rw [h'.gone j hj, h.spare]
  · rw [h'.zero (hspare.imp h.spare.mpr fun hyields j hj => hyields j (List.mem_cons_of_mem id hj)),
      h.zero (hspare.imp_right fun hyields j hj => ?_)]
    rw [List.mem_singleton.mp hj]
    exact hyields id List.mem_cons_self

theorem expireBy_ok {unwind : Nat → Unwinding} {s : State} {id : Nat} (hid : id ≠ 0)
    (hentry : id ∈ s.w.routines) {r : Coroutine.Routine ClientPc Thrown}
    (hr : s.o.routines.lookup id = some r) (hfin : r.finished = false)
    (hends : (unwind id).Ends s id) :
    ∃ s', expireBy unwind s id = .ok s' ∧ SweptBy unwind s [id] s' := by
  rw [expireBy, deleteConnection_of_mem (hends.entry hentry)]
  refine ⟨_, rfl, ?_⟩
  have hentries : ∀ j, (((unwind id).touch s.w).routines.erase id).lookup j =
      if j ∈ [id] then none else s.w.routines.lookup j := fun j => by
    simp only [List.mem_singleton]
    split
    case isTrue hj =>
      rw [hj]
      exact AList.lookup_erase id _
    case isFalse hj =>
      rw [AList.lookup_erase_ne hj]
      exact hends.other j hj
  by_cases hspare : s.o.NoSpare ∨ Coroutine.yields (unwind id).during ≤ 1
  · have hfreed := Coroutine.kill_frees hid hr hfin timeoutReached hends.acts hends.quiet hspare
      hends.main
    have hzero : ((unwind id).run s id).o.routines.lookup 0 = s.o.routines.lookup 0 :=
      (hfreed 0).trans (if_neg hid.symm)
    refine ⟨hentries, fun j hj _ => ?_, fun j hj => ?_, fun _ => hzero,
      Coroutine.Ordinator.noSpare_of_lookup hzero⟩
    · exact (hfreed j).trans (if_neg fun heq => hj (List.mem_singleton.mpr heq))
    · rw [List.mem_singleton.mp hj]
      exact iff_of_true ((hfreed id).trans (if_pos rfl)) hspare
  · obtain ⟨hnone, hmore⟩ := not_or.mp hspare
    have hstays := Coroutine.kill_stays hid hr hfin timeoutReached hends.acts hends.quiet hnone
      (not_le.mp hmore)
    refine ⟨hentries, fun j hj hj0 => ?_, fun j hj => ?_, fun hno => ?_,
      iff_of_false hstays.spare hnone⟩
    · exact hstays.others j (fun heq => hj (List.mem_singleton.mpr heq)) hj0
    · rw [List.mem_singleton.mp hj]
      exact iff_of_false hstays.stays hspare
    · exact absurd (hno.imp_right fun hyields => hyields id (List.mem_singleton.mpr rfl)) hspare

theorem sweepBy_ok {unwind : Nat → Unwinding} (ids : List Nat) (hnodup : ids.Nodup) {s : State}
    (hlive : s.Live ids)
    (hends : Lib.Throughout (expireBy unwind) (fun s id => (unwind id).Ends s id) s ids) :
    ∃ s', ids.foldlM (expireBy unwind) s = .ok s' ∧ SweptBy unwind s ids s' := by
  induction ids generalizing s with
  | nil => exact ⟨s, rfl, SweptBy.refl unwind s⟩
  | cons id ids ih =>
    obtain ⟨hnot, hnodup⟩ := List.nodup_cons.mp hnodup
    obtain ⟨hid, r, hr, hfin⟩ := hlive.coroutine id List.mem_cons_self
    obtain ⟨s₁, hstep, hswept⟩ := expireBy_ok hid (hlive.entry id List.mem_cons_self) hr hfin
      hends.1
    have hne : ∀ j ∈ ids, j ∉ [id] := fun j hj heq => hnot (List.mem_singleton.mp heq ▸ hj)
    have hlive₁ : s₁.Live ids := by
      refine ⟨fun j hj => ?_, fun j hj => ?_⟩
      · rw [← AList.lookup_isSome, hswept.entries, if_neg (hne j hj), AList.lookup_isSome]
        exact hlive.entry j (List.mem_cons_of_mem id hj)
      · have hj' := hlive.coroutine j (List.mem_cons_of_mem id hj)
        rw [hswept.others j (hne j hj) hj'.1]
        exact hj'
    obtain ⟨s', hrest, hswept'⟩ := ih hnodup hlive₁ (hends.2 s₁ hstep)
    exact ⟨s', Lib.foldlM_cons_eq_ok.mpr ⟨s₁, hstep, hrest⟩, hswept.cons hid hnot hswept'⟩

/-- It returns, `routines_` keeps the entries whose timeout has not passed as they were, and the
expired ids, no others, are gone from the coroutines. -/
def RemovesExpired (unwind : Nat → Unwinding) (now : Nat) (s : State) : Prop :=
  ∃ s', checkTimeoutsBy unwind now s = .ok s' ∧
    (∀ j, s'.w.routines.lookup j =
      (s.w.routines.lookup j).filter fun info => now ≤ info.timeout) ∧
    ∀ j, s'.o.routines.lookup j = if j ∈ expired now s.w then none else s.o.routines.lookup j

theorem SweptBy.entries_filter {unwind : Nat → Unwinding} {now : Nat} {s s' : State}
    (h : SweptBy unwind s (expired now s.w) s') (j : Nat) :
    s'.w.routines.lookup j =
      (s.w.routines.lookup j).filter fun info => now ≤ info.timeout := by
  rw [h.entries]
  rcases hinfo : s.w.routines.lookup j with _ | info
  · rw [ite_self, Option.filter_none]
  · have hlate : j ∈ expired now s.w ↔ info.timeout < now := by
      rw [mem_expired, hinfo]
      exact ⟨fun ⟨info', heq, h⟩ => Option.some.inj heq ▸ h, fun h => ⟨info, rfl, h⟩⟩
    by_cases hlt : info.timeout < now
    · rw [if_pos (hlate.mpr hlt), Option.filter_some, if_neg (by simpa using hlt)]
    · rw [if_neg (fun h => hlt (hlate.mp h)), Option.filter_some, if_pos (by simpa using hlt)]

/-- `checkTimeouts` removes exactly the expired clients, whatever their coroutines do as they
unwind, precisely when none yields a second time or there is no routine 0: by then `current` is
cleared, and the `yield` suspends routine 0. -/
theorem checkTimeouts_removes_expired_iff (unwind : Nat → Unwinding) (now : Nat) (s : State)
    (hlive : ∀ id ∈ s.w.routines, id ≠ 0 ∧
      ∃ r, s.o.routines.lookup id = some r ∧ r.finished = false)
    (hends : Lib.Throughout (expireBy unwind) (fun s id => (unwind id).Ends s id) s
      (expired now s.w)) :
    RemovesExpired unwind now s ↔
      s.o.NoSpare ∨ ∀ id ∈ expired now s.w, Coroutine.yields (unwind id).during ≤ 1 := by
  have hentry : ∀ id ∈ expired now s.w, id ∈ s.w.routines := fun id hid => by
    obtain ⟨info, hinfo, -⟩ := mem_expired.mp hid
    exact Lib.mem_of_lookup hinfo
  obtain ⟨s', hok, hswept⟩ := sweepBy_ok (expired now s.w) (nodup_expired now s.w)
    ⟨hentry, fun id hid => hlive id (hentry id hid)⟩ hends
  constructor
  · rintro ⟨s'', hok', -, htable⟩
    obtain rfl : s'' = s' := Except.ok.inj (hok'.symm.trans hok)
    by_contra hno
    obtain ⟨hspare, hyields⟩ := not_or.mp hno
    refine hyields fun id hid => ?_
    exact ((hswept.gone id hid).mp ((htable id).trans (if_pos hid))).resolve_left hspare
  · intro hspare
    refine ⟨s', hok, hswept.entries_filter, fun j => ?_⟩
    split
    case isTrue hj => exact (hswept.gone j hj).mpr (hspare.imp_right fun hyields => hyields j hj)
    case isFalse hj =>
      rcases eq_or_ne j 0 with rfl | hj0
      · exact hswept.zero hspare
      · exact hswept.others j hj hj0

/-- Two clients, of which the first is late and catches what it is killed with. -/
def lateClient : State where
  o := ((Lib.runs Coroutine.Thread.step Coroutine.Thread.init
    [.create 5 (some .clientRoutine), .create 6 (some .clientRoutine), .resume 5,
      .yield (.suspended 5 0 .served)]).1).o
  w :=
    { routines := (AList.singleton 5 ⟨0, 5, [], .epollin, 10⟩).insert 6 ⟨1, 6, [], .epollin, 90⟩
      nodes := 2
      io := ⟨[], [], [], []⟩
      undefined := false }

def catchesOnce : Nat → Unwinding := fun _ => ⟨[.yield .clientRoutine, .ret], fun w => w⟩

theorem checkTimeouts_removes_expired_late : RemovesExpired catchesOnce 50 lateClient := by
  refine (checkTimeouts_removes_expired_iff catchesOnce 50 lateClient ?_ ?_).mpr
    (Or.inr (by decide))
  · intro id hid
    have hcases : id = 6 ∨ id = 5 := List.mem_pair.mp (AList.mem_keys.mp hid)
    rcases hcases with rfl | rfl
    · exact ⟨by decide, _, rfl, rfl⟩
    · exact ⟨by decide, _, rfl, rfl⟩
  · exact ⟨⟨by decide, rfl, by decide, fun _ _ => rfl, fun h => h⟩, fun _ _ => trivial⟩

/-- A client that is late, and the coroutine of one with descriptor 0 that has hung up. -/
def leftover : State where
  o := ((Lib.runs Coroutine.Thread.step Coroutine.Thread.init
    [.create 0 (some .clientRoutine), .create 5 (some .clientRoutine), .resume 5,
      .yield (.suspended 5 0 .served)]).1).o
  w :=
    { routines := AList.singleton 5 ⟨0, 5, [], .epollin, 10⟩
      nodes := 1
      io := ⟨[], [], [], []⟩
      undefined := false }

/-- The coroutine catches what it is killed with twice, and yields. -/
theorem checkTimeouts_leaves_coroutine :
    ¬ ∀ (unwind : Nat → Unwinding) (now : Nat) (s : State),
      (∀ id ∈ s.w.routines, id ≠ 0 ∧
        ∃ r, s.o.routines.lookup id = some r ∧ r.finished = false) →
      Lib.Throughout (expireBy unwind) (fun s id => (unwind id).Ends s id) s (expired now s.w) →
      RemovesExpired unwind now s := by
  intro h
  obtain ⟨s', hok, -, htable⟩ :=
    h (fun _ => ⟨[.yield .clientRoutine, .yield .clientRoutine], fun w => w⟩) 50 leftover
    (fun id hid => by
      obtain rfl : id = 5 := List.mem_singleton.mp (AList.mem_keys.mp hid)
      exact ⟨by decide, _, rfl, rfl⟩)
    ⟨⟨by decide, rfl, by decide, fun _ _ => rfl, fun h => h⟩, fun _ _ => trivial⟩
  obtain rfl := Except.ok.inj hok
  cases htable 5

end AdvCppTP.Http
