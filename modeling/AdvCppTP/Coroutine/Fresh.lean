import AdvCppTP.Coroutine.Routine

/-! What the scheduler is for: a finite map from ids to what is left of their bodies, in which
every `create` stores the new body and nothing is recycled. -/

namespace AdvCppTP.Coroutine

variable {κ ε σ : Type*}

inductive Rest (κ : Type*)
  | fresh (f : Option κ)
  | suspended (k : κ)
  deriving DecidableEq, Repr

abbrev Table (κ : Type*) := AList fun _ : Nat => Rest κ

structure Delivered (κ ε σ : Type*) where
  world : σ
  ran : List (Ran κ ε)
  thrown : Option (Exn ε)

/-- `e` is thrown at place `k`; should the body yield again, `later` is thrown there, and
`out_of_range` at every `yield` after that. -/
def deliver (c : Code κ ε σ) (cur : Nat) (k : κ) (e later : Exn ε) (s : σ) : Delivered κ ε σ :=
  match _h : c.run cur k (.raised e) s with
  | (.yield k', s') =>
    let d := deliver c 0 k' later .outOfRange s'
    { d with ran := .raised k e :: d.ran }
  | (.ret, s') => ⟨s', [.raised k e], none⟩
  | (.throw e', s') => ⟨s', [.raised k e], some e'⟩
termination_by c.unwinds.wrap k
decreasing_by exact ⟨_, _, _, _, _h⟩

section

variable {c : Code κ ε σ} {cur : Nat} {k k' : κ} {e e' later : Exn ε} {s s' : σ}

theorem deliver_yield (h : c.run cur k (.raised e) s = (.yield k', s')) :
    deliver c cur k e later s =
      { deliver c 0 k' later .outOfRange s' with
        ran := .raised k e :: (deliver c 0 k' later .outOfRange s').ran } := by
  rw [deliver]
  split <;> simp_all

theorem deliver_ret (h : c.run cur k (.raised e) s = (.ret, s')) :
    deliver c cur k e later s = ⟨s', [.raised k e], none⟩ := by
  rw [deliver]
  split <;> simp_all

theorem deliver_throw (h : c.run cur k (.raised e) s = (.throw e', s')) :
    deliver c cur k e later s = ⟨s', [.raised k e], some e'⟩ := by
  rw [deliver]
  split <;> simp_all

end

namespace Fresh

def keep (m : Table κ) (id : Nat) (x : Ran κ ε) : Seg κ ε × σ → (Table κ × σ) × Out κ ε
  | (.yield k, s) => ((m.insert id (.suspended k), s), ⟨[x], .ok true⟩)
  | (.ret, s) => ((m.erase id, s), ⟨[x], .ok true⟩)
  | (.throw e, s) => ((m.erase id, s), ⟨[x], .error e⟩)

def resume (c : Code κ ε σ) (m : Table κ) (s : σ) (id : Nat) : (Table κ × σ) × Out κ ε :=
  if id = 0 then ((m, s), ⟨[], .ok false⟩)
  else
    match m.lookup id with
    | none => ((m, s), ⟨[], .error .outOfRange⟩)
    | some (.fresh none) => ((m.erase id, s), ⟨[.start none], .ok true⟩)
    | some (.fresh (some f)) => keep m id (.start (some f)) (c.run id f .start s)
    | some (.suspended k) => keep m id (.resumed k) (c.run id k .resumed s)

def kill (c : Code κ ε σ) (m : Table κ) (s : σ) (id : Nat) (ex : Option (Exn ε)) :
    (Table κ × σ) × Out κ ε :=
  if id = 0 then ((m, s), ⟨[], .error (.invalidArgument "You can't kill main routine")⟩)
  else
    match ex with
    | none => ((m, s), ⟨[], .error (.invalidArgument "Empty exception_ptr")⟩)
    | some e =>
      match m.lookup id with
      | none => ((m, s), ⟨[], .error .outOfRange⟩)
      | some (.fresh none) => ((m.erase id, s), ⟨[.start none], .error e⟩)
      | some (.fresh (some f)) =>
        match c.run id f .start s with
        | (.yield k, s') =>
          let d := deliver c 0 k e .outOfRange s'
          ((m.erase id, d.world), ⟨.start (some f) :: d.ran, .error (d.thrown.getD e)⟩)
        | (.ret, s') => ((m.erase id, s'), ⟨[.start (some f)], .error e⟩)
        | (.throw e', s') => ((m.erase id, s'), ⟨[.start (some f)], .error e'⟩)
      | some (.suspended k) =>
        let d := deliver c id k e e s
        ((m.erase id, d.world), ⟨d.ran, .error (d.thrown.getD e)⟩)

def call (c : Code κ ε σ) (st : Table κ × σ) : Call κ ε → (Table κ × σ) × Out κ ε
  | .create id f => ((st.1.insert id (.fresh f), st.2), ⟨[], .ok true⟩)
  | .resume id => resume c st.1 st.2 id
  | .kill id ex => kill c st.1 st.2 id ex

def Admissible (st : Table κ × σ) : Call κ ε → Prop
  | .create id _ => id ≠ 0 ∧ st.1.lookup id = none
  | _ => True

end Fresh

def Routine.rest (r : Routine κ ε) : Rest κ :=
  match r.ctx with
  | .entry => .fresh r.func
  | .inYield k => .suspended k

def Routine.Idle (r : Routine κ ε) : Prop := r.finished = false ∧ r.exception = none

/-- The table holds the same bodies as the scheduler's own, whose routines all wait to be
resumed; the main context runs, and its id names no routine. -/
structure Holds (o : Ordinator κ ε) (m : Table κ) : Prop where
  current : o.current = 0
  zero : m.lookup 0 = none
  rest : ∀ id, m.lookup id = (o.routines.lookup id).map Routine.rest
  idle : ∀ id r, o.routines.lookup id = some r → r.Idle

theorem holds_init : Holds (Ordinator.init : Ordinator κ ε) (∅ : Table κ) :=
  ⟨rfl, AList.lookup_empty 0,
    fun id => by rw [Ordinator.init, AList.lookup_empty, AList.lookup_empty, Option.map_none],
    fun id r h => by simp [Ordinator.init] at h⟩

theorem Holds.lookup_none {o : Ordinator κ ε} {m : Table κ} (h : Holds o m) {id : Nat}
    (hid : m.lookup id = none) : o.routines.lookup id = none := by
  rw [h.rest id, Option.map_eq_none_iff] at hid
  exact hid

theorem Holds.lookup_some {o : Ordinator κ ε} {m : Table κ} (h : Holds o m) {id : Nat}
    {x : Rest κ} (hid : m.lookup id = some x) :
    ∃ r, o.routines.lookup id = some r ∧ r.rest = x ∧ r.Idle := by
  rw [h.rest id, Option.map_eq_some_iff] at hid
  obtain ⟨r, hr, hx⟩ := hid
  exact ⟨r, hr, hx, h.idle id r hr⟩

theorem Holds.insert {o : Ordinator κ ε} {m : Table κ} (h : Holds o m) {id : Nat} (hid : id ≠ 0)
    (r : Routine κ ε) (hr : r.Idle) (nodes : List (Nat × Routine κ ε)) :
    Holds ⟨o.routines.insert id r, nodes, 0⟩ (m.insert id r.rest) := by
  refine ⟨rfl, ?_, fun j => ?_, fun j r' hj => ?_⟩
  · rw [AList.lookup_insert_ne (Ne.symm hid), h.zero]
  · rcases eq_or_ne j id with rfl | hj
    · rw [AList.lookup_insert, AList.lookup_insert, Option.map_some]
    · rw [AList.lookup_insert_ne hj, AList.lookup_insert_ne hj, h.rest j]
  · rcases eq_or_ne j id with rfl | hne
    · rw [AList.lookup_insert, Option.some.injEq] at hj
      exact hj ▸ hr
    · rw [AList.lookup_insert_ne hne] at hj
      exact h.idle j r' hj

theorem Holds.erase {o : Ordinator κ ε} {m : Table κ} (h : Holds o m) (id : Nat) (r : Routine κ ε)
    (nodes : List (Nat × Routine κ ε)) :
    Holds ⟨(o.routines.insert id r).erase id, nodes, 0⟩ (m.erase id) := by
  have hother : ∀ j, j ≠ id →
      ((o.routines.insert id r).erase id).lookup j = o.routines.lookup j := fun j hj => by
    rw [AList.lookup_erase_ne hj, AList.lookup_insert_ne hj]
  refine ⟨rfl, ?_, fun j => ?_, fun j r' hj => ?_⟩
  · rcases eq_or_ne 0 id with rfl | hid
    · exact AList.lookup_erase 0 m
    · rw [AList.lookup_erase_ne hid, h.zero]
  · rcases eq_or_ne j id with rfl | hj
    · rw [AList.lookup_erase, AList.lookup_erase, Option.map_none]
    · rw [AList.lookup_erase_ne hj, hother j hj, h.rest j]
  · rcases eq_or_ne j id with rfl | hne
    · rw [AList.lookup_erase] at hj
      exact absurd hj (by simp)
    · exact h.idle j r' (hother j hne ▸ hj)

end AdvCppTP.Coroutine
