import AdvCppTP.Lib.Locking
import AdvCppTP.Shmem.Contents

/-! What the methods of a `shmem::Map` do while they hold the semaphore, access by access, and that
it is what they do as a whole. -/

namespace AdvCppTP.Shmem

open Lib Lib.Prog

variable {κ ν α : Type*}

/-- What lies in the shared memory beside the semaphore. -/
structure Memory (κ ν : Type*) where
  heap : Heap
  mapObject : AList fun _ : κ => Node ν

def Shared.memory (s : Shared κ ν) : Memory κ ν := ⟨s.heap, s.mapObject⟩

/-- The state that a process works on which holds the semaphore. -/
def Memory.held (m : Memory κ ν) : Shared κ ν := ⟨m.heap, 0, m.mapObject⟩

/-- A method from some place on; `busy` is in the midst of an allocator call, and what follows that
is told the block which it has got, if it has got one. -/
inductive Code (κ ν : Type*)
  | ret (r : Except Thrown (Answer ν))
  | find (next : AList (fun _ : κ => Node ν) → Code κ ν)
  | store (f : AList (fun _ : κ => Node ν) → AList fun _ : κ => Node ν) (next : Code κ ν)
  | allocate (sizeT n : UInt64) (next : Option Block → Code κ ν)
  | deallocate (b : Block) (next : Code κ ν)
  | busy (u : Update) (next : Option Block → Code κ ν)

/-- The block that an allocator call has got when its last access is this one. -/
def Update.granted : Update → Option Block
  | .allocReloaded sizeT n result _ => some ⟨result, sizeT, n⟩
  | _ => none

/-- One access to the shared memory. -/
def Code.work (c : Code κ ν) (m : Memory κ ν) :
    Memory κ ν × (Code κ ν ⊕ Except Thrown (Answer ν)) :=
  match c with
  | .ret r => (m, .inr r)
  | .find next => (m, .inl (next m.mapObject))
  | .store f next => ({ m with mapObject := f m.mapObject }, .inl next)
  | .allocate sizeT n next => (m, .inl (.busy (.allocLoaded sizeT n m.heap.state.start) next))
  | .deallocate b next => (m, .inl (.busy (.freeLoaded b m.heap.state.start) fun _ => next))
  | .busy u next =>
    let (heap, after) := u.next m.heap
    match after with
    | .more u => ({ m with heap }, .inl (.busy u next))
    | .done => ({ m with heap }, .inl (next u.granted))
    | .badAlloc => ({ m with heap }, .inl (next none))

/-! ## The methods -/

def takeCode : Requests → Code κ ν → (List Block → Code κ ν) → Code κ ν
  | [], _, next => next []
  | (sizeT, n) :: todo, fail, next => .allocate sizeT n fun
    | none => fail
    | some b => takeCode todo (.deallocate b fail) fun bs => next (b :: bs)

/-- The last block first. -/
def freeCode : List Block → Code κ ν → Code κ ν
  | [], next => next
  | b :: bs, next => freeCode bs (.deallocate b next)

def newNodeCode (K : ObjectType κ) (V : ObjectType ν) (nodeSize : UInt64) (key : κ) (value : ν)
    (fail : Code κ ν) (next : Node ν → Code κ ν) : Code κ ν :=
  .allocate nodeSize 1 fun
  | none => fail
  | some block => takeCode (K.build key) (.deallocate block fail) fun ks =>
    takeCode (V.build value) (freeCode ks (.deallocate block fail)) fun vs =>
      next ⟨block, ks, ⟨value, vs⟩⟩

def assignCode (A : ObjectType α) (o : Object α) (data : α) (fail : Code κ ν)
    (next : Object α → Code κ ν) : Code κ ν :=
  match A.assign o.blocks data with
  | none => next ⟨data, o.blocks⟩
  | some todo => takeCode todo fail fun bs => freeCode o.blocks (next ⟨data, bs⟩)

variable [DecidableEq κ]

def atCode (key : κ) : Code κ ν := .find fun mapObject =>
  match mapObject.lookup key with
  | none => .ret (.error .outOfRange)
  | some node => .ret (.ok (.mapped node.value.data))

def eraseCode (key : κ) : Code κ ν := .find fun mapObject =>
  match mapObject.lookup key with
  | none => .ret (.ok (.erased 0))
  | some node => .store (AList.erase key) (freeCode node.value.blocks (freeCode node.keyBlocks
      (.deallocate node.block (.ret (.ok (.erased 1))))))

def insertCode (K : ObjectType κ) (V : ObjectType ν) (nodeSize : UInt64) (key : κ) (value : ν) :
    Code κ ν := .find fun mapObject =>
  match mapObject.lookup key with
  | none => newNodeCode K V nodeSize key value (.ret (.error .badAlloc)) fun node =>
    .store (AList.insert key node) (.ret (.ok (.inserted node.block.p true)))
  | some node => assignCode V node.value value (.ret (.error .badAlloc)) fun v =>
    .store (AList.insert key { node with value := v })
      (.ret (.ok (.inserted node.block.p false)))

/-- Rvalues that hold no blocks are taken as plain data are. -/
def Call.code (K : ObjectType κ) (V : ObjectType ν) (nodeSize : UInt64) : Call κ ν → Code κ ν
  | .at key => atCode key
  | .atConverted key => atCode key
  | .erase key => eraseCode key
  | .eraseConverted key => eraseCode key
  | .insert key value => insertCode K V nodeSize key value
  | .insertConverted key value => insertCode (.pod κ) (.pod ν) nodeSize key value

/-! ## As a whole -/

/-- An allocator call from one of its accesses to its end. -/
def Update.complete (h : Heap) : Update → Heap × Option Block
  | .allocLoaded sizeT n result =>
    if result + sizeT * n > h.state.end_ then (h, none)
    else (⟨{ h.state with start := h.state.start + sizeT * n }, ⟨result, sizeT, n⟩ :: h.live⟩,
      some ⟨result, sizeT, n⟩)
  | .allocChecked sizeT n result =>
    (⟨{ h.state with start := h.state.start + sizeT * n }, ⟨result, sizeT, n⟩ :: h.live⟩,
      some ⟨result, sizeT, n⟩)
  | .allocReloaded sizeT n result start =>
    (⟨{ h.state with start := start + sizeT * n }, ⟨result, sizeT, n⟩ :: h.live⟩,
      some ⟨result, sizeT, n⟩)
  | .freeLoaded b start =>
    if b.p + b.sizeT * b.n = start then (⟨{ h.state with start := b.p }, h.live.erase b⟩, none)
    else (⟨h.state, h.live.erase b⟩, none)
  | .freeChecked b => (⟨{ h.state with start := b.p }, h.live.erase b⟩, none)

/-- What a method does from some place on when nobody disturbs it. -/
def Code.eval : Code κ ν → Memory κ ν → Memory κ ν × Except Thrown (Answer ν)
  | .ret r, m => (m, r)
  | .find next, m => (next m.mapObject).eval m
  | .store f next, m => next.eval { m with mapObject := f m.mapObject }
  | .allocate sizeT n next, m =>
    let (heap, p) := m.heap.step (.allocate sizeT n)
    (next (p.map fun p => ⟨p, sizeT, n⟩)).eval { m with heap }
  | .deallocate b next, m => next.eval { m with heap := (m.heap.step (.deallocate b)).1 }
  | .busy u next, m =>
    let (heap, b) := u.complete m.heap
    (next b).eval { m with heap }

section Whole

omit [DecidableEq κ]

/-- The code goes on where the program returns, and fails where it throws `bad_alloc`. -/
def Implements (code : Code κ ν → (α → Code κ ν) → Code κ ν) (prog : Prog Thrown (Shared κ ν) α) :
    Prop :=
  ∀ m : Memory κ ν, (∃ a m', prog m.held = .returns a m'.held ∧
      ∀ fail next, (code fail next).eval m = (next a).eval m') ∨
    ∃ m', prog m.held = .throws .badAlloc m'.held ∧
      ∀ fail next, (code fail next).eval m = fail.eval m'

/-- A step that is undone where the rest throws. -/
theorem Implements.andThen_unwinding {β γ : Type*} {first : Code κ ν → (α → Code κ ν) → Code κ ν}
    {m₁ : Prog Thrown (Shared κ ν) α} {second : α → Code κ ν → (β → Code κ ν) → Code κ ν}
    {m₂ : α → Prog Thrown (Shared κ ν) β} {undoCode : α → Code κ ν → Code κ ν}
    (h₁ : Implements first m₁) (h₂ : ∀ a, Implements (second a) (m₂ a))
    (undo : α → Shared κ ν → Shared κ ν)
    (hundo : ∀ a (m : Memory κ ν), ∃ m', undo a m.held = m'.held ∧
      ∀ next, (undoCode a next).eval m = next.eval m') (f : α → β → γ) :
    Implements
      (fun fail next => first fail fun a => second a (undoCode a fail) fun b => next (f a b))
      (m₁.andThen fun a => ((m₂ a).unwinding (undo a)).andThen fun b => .pure (f a b)) := by
  intro m
  rcases h₁ m with ⟨a, m', hreturns, hcode⟩ | ⟨m', hthrows, hcode⟩
  · rcases h₂ a m' with ⟨b, m'', hreturns', hcode'⟩ | ⟨m'', hthrows', hcode'⟩
    · refine .inl ⟨f a b, m'', ?_, fun fail next => ?_⟩
      · simp only [Prog.andThen, hreturns, Prog.unwinding, hreturns', Prog.pure]
      · rw [hcode, hcode']
    · obtain ⟨m₃, hgone, hcode''⟩ := hundo a m''
      refine .inr ⟨m₃, ?_, fun fail next => ?_⟩
      · simp only [Prog.andThen, hreturns, Prog.unwinding, hthrows', hgone]
      · rw [hcode, hcode', hcode'']
  · refine .inr ⟨m', ?_, fun fail next => ?_⟩
    · simp only [Prog.andThen, hthrows]
    · rw [hcode]

end Whole

/-! ## The methods as a whole -/

/-- How a method ends that starts behind `sem_wait`. -/
def Code.ends (c : Code κ ν) (m : Memory κ ν) : Outcome Thrown (Shared κ ν) (Answer ν) :=
  match c.eval m with
  | (m', .ok a) => .returns a m'.held
  | (m', .error x) => .throws x m'.held

section Calls

variable (K : ObjectType κ) (V : ObjectType ν)

/-- What a call converts needs no blocks. -/
def Call.Plain : Call κ ν → Prop
  | .at _ => True
  | .atConverted key => K.build key = []
  | .erase _ => True
  | .eraseConverted key => K.build key = []
  | .insert _ _ => True
  | .insertConverted key value => K.build key = [] ∧ V.build value = []

variable {K V}

/-- How a call ends that nobody disturbs. -/
def Code.reply (c : Code κ ν) (m : Memory κ ν) : Outcome Thrown (Shared κ ν) (Answer ν) :=
  match c.eval m with
  | (m', .ok a) => .returns a (semPost m'.held)
  | (m', .error x) => .throws x (semPost m'.held)

end Calls

end AdvCppTP.Shmem
