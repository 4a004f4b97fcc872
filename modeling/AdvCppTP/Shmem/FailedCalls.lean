import AdvCppTP.Shmem.SharedMap

/-! A `shmem::Map` call that throws leaves the shared state as it was: blocks are freed in the
opposite order of their allocation, so that each one is topmost when its turn comes. -/

namespace AdvCppTP.Shmem

open Lib Lib.Prog

variable {κ ν α β : Type*}

theorem Heap.deallocate_allocate {h h' : Heap} {sizeT n p : UInt64}
    (hstep : h.step (.allocate sizeT n) = (h', some p)) :
    (h'.step (.deallocate ⟨p, sizeT, n⟩)).1 = h := by
  by_cases hroom : h.state.start + sizeT * n > h.state.end_
  · simp only [Heap.step, Shmem.allocate, if_pos hroom, Prod.mk.injEq, reduceCtorEq,
      and_false] at hstep
  · simp only [Heap.step, Shmem.allocate, if_neg hroom, Prod.mk.injEq, Option.some.injEq] at hstep
    obtain ⟨rfl, rfl⟩ := hstep
    simp only [Heap.step, Shmem.deallocate, if_true, List.erase_cons_head]

theorem strong_newBlock (sizeT n : UInt64) :
    (newBlock sizeT n : Prog Thrown (Shared κ ν) Block).Strong := by
  intro s x s' h
  rw [newBlock] at h
  split at h
  case h_1 heap p hstep => cases h
  case h_2 heap hstep =>
    cases h
    have hsame : heap = s.heap := by
      rw [← Heap.step_failed (congrArg Prod.snd hstep), hstep]
    rw [hsame]

theorem newBlock_undoneBy (sizeT n : UInt64) :
    (newBlock sizeT n : Prog Thrown (Shared κ ν) Block).UndoneBy freeBlock := by
  intro s b s' h
  rw [newBlock] at h
  split at h
  case h_1 heap p hstep =>
    cases h
    rw [freeBlock, Heap.deallocate_allocate hstep]
  case h_2 heap hstep => cases h

theorem strong_takeBlocks (todo : Requests) :
    (takeBlocks todo : Prog Thrown (Shared κ ν) (List Block)).Strong := by
  induction todo with
  | nil => exact (nothrow_pure _).strong
  | cons r todo ih =>
    exact (strong_newBlock r.1 r.2).andThen_unwinding (newBlock_undoneBy r.1 r.2) (fun _ => ih)
      fun _ _ => nothrow_pure _

theorem takeBlocks_undoneBy (todo : Requests) :
    (takeBlocks todo : Prog Thrown (Shared κ ν) (List Block)).UndoneBy freeBlocks := by
  induction todo with
  | nil => exact undoneBy_pure fun _ => rfl
  | cons r todo ih => exact (newBlock_undoneBy r.1 r.2).andThen (fun _ => ih) fun _ _ _ => rfl

theorem ObjectType.strong_construct (A : ObjectType α) (data : α) :
    (A.construct data : Prog Thrown (Shared κ ν) (Object α)).Strong :=
  (strong_takeBlocks _).andThen_nothrow fun _ => nothrow_pure _

theorem ObjectType.construct_undoneBy (A : ObjectType α) (data : α) :
    (A.construct data : Prog Thrown (Shared κ ν) (Object α)).UndoneBy Object.destroy := by
  intro s o s' h
  obtain ⟨bs, s₁, htake, hlast⟩ := andThen_eq_returns.mp h
  cases hlast
  exact takeBlocks_undoneBy _ s bs s' htake

theorem Object.strong_assign (A : ObjectType α) (o : Object α) (data : α) :
    (o.assign A data : Prog Thrown (Shared κ ν) (Object α)).Strong := by
  rw [Object.assign]
  split
  · exact (nothrow_pure _).strong
  · refine (strong_takeBlocks _).andThen_nothrow fun bs => ?_
    exact nothrow_andThen (nothrow_update _) fun _ => nothrow_pure _

theorem Object.nothrow_moveAssign (o source : Object α) :
    (o.moveAssign source : Prog Thrown (Shared κ ν) (Object α × Object α)).Nothrow := by
  rw [Object.moveAssign]
  split
  · exact nothrow_pure _
  · exact nothrow_andThen (nothrow_update _) fun _ => nothrow_pure _

theorem semWait_undoneBy : (semWait : Prog Thrown (Shared κ ν) Unit).UndoneBy fun _ => semPost := by
  intro s u s' h
  rw [semWait] at h
  split at h
  · cases h
  case isFalse hsem =>
    cases h
    simp only [semPost, Nat.sub_add_cancel (Nat.pos_of_ne_zero hsem)]

theorem nothrow_semWait : (semWait : Prog Thrown (Shared κ ν) Unit).Nothrow := by
  intro s x s' h
  rw [semWait] at h
  split at h
  · cases h
  · cases h

theorem strong_semLock {body : Prog Thrown (Shared κ ν) β} (hbody : body.Strong) :
    (semLock body).Strong :=
  nothrow_semWait.strong.inScope semWait_undoneBy fun _ =>
    hbody.andThen_nothrow fun _ => nothrow_pure _

theorem strong_newNode (K : ObjectType κ) (V : ObjectType ν) (nodeSize : UInt64) (key : κ)
    (value : ν) : (newNode K V nodeSize key value).Strong := by
  -- the node, the key, the value: what throws lies on top
  refine (strong_newBlock nodeSize 1).andThen_unwinding (newBlock_undoneBy nodeSize 1)
    (fun _ => ?_) fun _ _ => nothrow_pure _
  exact (K.strong_construct key).andThen_unwinding (K.construct_undoneBy key)
    (fun _ => V.strong_construct value) fun _ _ => nothrow_pure _

/-- A temporary is built in front of a call and destroyed behind it. -/
theorem strong_converting (A : ObjectType α) (obj : α) {γ : Type*}
    {body : Object α → Prog Thrown (Shared κ ν) (γ × Object α)} (hbody : ∀ o, (body o).Strong) :
    ((getObjectWithAllocator A obj).inScope Object.destroy body).Strong :=
  (A.strong_construct obj).inScope (A.construct_undoneBy obj) hbody

variable [DecidableEq κ]

theorem strong_mapAt (key : κ) : (mapAt key : Prog Thrown (Shared κ ν) ν).Strong := by
  refine strong_read fun s => ?_
  split
  · exact strong_throw _
  · exact (nothrow_pure _).strong

theorem nothrow_mapErase (key : κ) : (mapErase key : Prog Thrown (Shared κ ν) Nat).Nothrow := by
  refine nothrow_read fun s => ?_
  split
  · exact nothrow_pure _
  · exact nothrow_andThen (nothrow_update _) fun _ => nothrow_pure _

theorem strong_insertOrAssign (K : ObjectType κ) (V : ObjectType ν) (nodeSize : UInt64) (key : κ)
    (value : ν) : (insertOrAssign K V nodeSize key value).Strong := by
  refine strong_read fun s => ?_
  split
  · refine (strong_newNode K V nodeSize key value).andThen_nothrow fun node => ?_
    exact nothrow_andThen (nothrow_update _) fun _ => nothrow_pure _
  · refine (Object.strong_assign V _ value).andThen_nothrow fun v => ?_
    exact nothrow_andThen (nothrow_update _) fun _ => nothrow_pure _

theorem strong_insertOrAssignMoved (nodeSize : UInt64) (key : Object κ) (value : Object ν) :
    (insertOrAssignMoved nodeSize key value).Strong := by
  refine strong_read fun s => ?_
  split
  · refine (strong_newBlock nodeSize 1).andThen_nothrow fun block => ?_
    exact nothrow_andThen (nothrow_update _) fun _ => nothrow_pure _
  · refine (nothrow_andThen (Object.nothrow_moveAssign _ value) fun v => ?_).strong
    exact nothrow_andThen (nothrow_update _) fun _ => nothrow_pure _

theorem Call.strong_run (K : ObjectType κ) (V : ObjectType ν) (nodeSize : UInt64)
    (c : Call κ ν) : (c.run K V nodeSize).Strong := by
  cases c with
  | «at» key =>
    exact (strong_semLock (strong_mapAt key)).andThen_nothrow fun _ => nothrow_pure _
  | atConverted key =>
    refine Strong.andThen_nothrow (strong_converting K key fun k => ?_) fun _ => nothrow_pure _
    exact (strong_semLock (strong_mapAt k.data)).andThen_nothrow fun _ => nothrow_pure _
  | erase key =>
    exact (strong_semLock (nothrow_mapErase key).strong).andThen_nothrow fun _ => nothrow_pure _
  | eraseConverted key =>
    refine Strong.andThen_nothrow (strong_converting K key fun k => ?_) fun _ => nothrow_pure _
    exact (strong_semLock (nothrow_mapErase k.data).strong).andThen_nothrow fun _ => nothrow_pure _
  | insert key value =>
    refine Strong.andThen_nothrow (strong_semLock ?_) fun _ => nothrow_pure _
    exact strong_insertOrAssign K V nodeSize key value
  | insertConverted key value =>
    refine Strong.andThen_nothrow (strong_converting K key fun k => ?_) fun _ => nothrow_pure _
    refine strong_converting V value fun v => ?_
    refine Strong.andThen_nothrow (strong_semLock ?_) fun _ => nothrow_pure _
    exact strong_insertOrAssignMoved nodeSize k v

/-- Wherever a call throws, contents, allocator and semaphore are those of before. -/
theorem failed_call_changes_nothing (K : ObjectType κ) (V : ObjectType ν) (nodeSize : UInt64)
    (c : Call κ ν) {s s' : Shared κ ν} {x : Thrown} (h : c.run K V nodeSize s = .throws x s') :
    s' = s :=
  c.strong_run K V nodeSize s x s' h

/-- Room for the key and the value, not for their node. -/
theorem failed_call_changes_nothing_behind_temporaries :
    (Call.insertConverted (List.replicate 20 'k') (List.replicate 30 'v')).run (.string 15)
        (.string 15) 112 ⟨⟨⟨1000, 1100⟩, []⟩, 1, ∅⟩ =
      .throws .badAlloc ⟨⟨⟨1000, 1100⟩, []⟩, 1, ∅⟩ := by
  obtain ⟨s', h⟩ : ∃ s', (Call.insertConverted (List.replicate 20 'k') (List.replicate 30 'v')).run
      (.string 15) (.string 15) 112 ⟨⟨⟨1000, 1100⟩, []⟩, 1, ∅⟩ = .throws .badAlloc s' := ⟨_, rfl⟩
  rw [h, failed_call_changes_nothing _ _ _ _ h]

end AdvCppTP.Shmem
