import AdvCppTP.Lib.Scope
import AdvCppTP.Shmem.MapLock
import Mathlib.Data.List.AList

/-! The calls of a `shmem::Map` with the objects that they build, move, assign and destroy in the
shared memory, and the state that a call which throws leaves. -/

namespace AdvCppTP.Shmem

open Lib

inductive Thrown
  | badAlloc
  | outOfRange
  deriving DecidableEq, Repr

/-- An object of the shared memory with the blocks it has taken there, the first one first. -/
structure Object (α : Type*) where
  data : α
  blocks : List Block
  deriving DecidableEq, Repr

/-- What the objects of a type ask of the allocator: to be built with some data, and to be assigned
them when they have `blocks` already; `none` where these are used again. -/
structure ObjectType (α : Type*) where
  build : α → Requests
  assign : List Block → α → Option Requests

def ObjectType.pod (α : Type*) : ObjectType α := ⟨fun _ => [], fun _ _ => none⟩

/-- `shmem::string<char>`: up to `inPlace` characters need no buffer, and a buffer that has become
too small is replaced by one of at least twice its capacity. -/
def ObjectType.string (inPlace : Nat) : ObjectType (List Char) where
  build s := if s.length ≤ inPlace then [] else [(1, UInt64.ofNat (s.length + 1))]
  assign blocks s :=
    let capacity := match blocks with
      | [] => inPlace
      | b :: _ => b.n.toNat - 1
    if s.length ≤ capacity then none
    else some [(1, UInt64.ofNat (max (2 * capacity) s.length + 1))]

/-- A node of the `std::map` and the pair in it; the key itself is where the node is found. -/
structure Node (ν : Type*) where
  block : Block
  keyBlocks : List Block
  value : Object ν
  deriving DecidableEq, Repr

/-- What the processes share: the `AllocState` with its blocks, the semaphore and the map. -/
structure Shared (κ ν : Type*) where
  heap : Heap
  sem : Nat
  mapObject : AList fun _ : κ => Node ν

variable {κ ν α β : Type*}

def newBlock (sizeT n : UInt64) : Prog Thrown (Shared κ ν) Block := fun s =>
  match s.heap.step (.allocate sizeT n) with
  | (heap, some p) => .returns ⟨p, sizeT, n⟩ { s with heap }
  | (heap, none) => .throws .badAlloc { s with heap }

def freeBlock (b : Block) (s : Shared κ ν) : Shared κ ν :=
  { s with heap := (s.heap.step (.deallocate b)).1 }

/-- A constructor that throws destroys what it has built. -/
def takeBlocks : Requests → Prog Thrown (Shared κ ν) (List Block)
  | [] => .pure []
  | (sizeT, n) :: todo => (newBlock sizeT n).andThen fun b =>
    ((takeBlocks todo).unwinding (freeBlock b)).andThen fun bs => .pure (b :: bs)

def freeBlocks (bs : List Block) (s : Shared κ ν) : Shared κ ν := bs.foldr freeBlock s

def Object.destroy (o : Object α) (s : Shared κ ν) : Shared κ ν := freeBlocks o.blocks s

def ObjectType.construct (A : ObjectType α) (data : α) : Prog Thrown (Shared κ ν) (Object α) :=
  (takeBlocks (A.build data)).andThen fun bs => .pure ⟨data, bs⟩

/-- A POD object is a copy, any other one is built with the allocator. -/
def getObjectWithAllocator (A : ObjectType α) (obj : α) : Prog Thrown (Shared κ ν) (Object α) :=
  A.construct obj

/-- New blocks are taken before the old ones are given back. -/
def Object.assign (A : ObjectType α) (o : Object α) (data : α) :
    Prog Thrown (Shared κ ν) (Object α) :=
  match A.assign o.blocks data with
  | none => .pure ⟨data, o.blocks⟩
  | some todo => (takeBlocks todo).andThen fun bs =>
    (Prog.update (freeBlocks o.blocks)).andThen fun _ => .pure ⟨data, bs⟩

/-- The object assigned to, and what is left of the one it is moved from. -/
def Object.moveAssign (o source : Object α) : Prog Thrown (Shared κ ν) (Object α × Object α) :=
  match source.blocks with
  | [] => .pure (⟨source.data, o.blocks⟩, source)
  | _ :: _ => (Prog.update (freeBlocks o.blocks)).andThen fun _ =>
    .pure (source, ⟨source.data, []⟩)

/-- A wait at 0 lasts until another process posts. -/
def semWait : Prog Thrown (Shared κ ν) Unit := fun s =>
  if s.sem = 0 then .waits s else .returns () { s with sem := s.sem - 1 }

def semPost (s : Shared κ ν) : Shared κ ν := { s with sem := s.sem + 1 }

def semLock (body : Prog Thrown (Shared κ ν) β) : Prog Thrown (Shared κ ν) β :=
  semWait.inScope (fun _ => semPost) fun _ => body.andThen fun r => .pure (r, ())

section MapObject

variable [DecidableEq κ]

def Shared.put (key : κ) (node : Node ν) (s : Shared κ ν) : Shared κ ν :=
  { s with mapObject := s.mapObject.insert key node }

def Shared.remove (key : κ) (s : Shared κ ν) : Shared κ ν :=
  { s with mapObject := s.mapObject.erase key }

/-- `std::map::at`. -/
def mapAt (key : κ) : Prog Thrown (Shared κ ν) ν := .read fun s =>
  match s.mapObject.lookup key with
  | none => .throw .outOfRange
  | some node => .pure node.value.data

def Node.drop (node : Node ν) (s : Shared κ ν) : Shared κ ν :=
  freeBlock node.block (freeBlocks node.keyBlocks (node.value.destroy s))

/-- `std::map::erase`. -/
def mapErase (key : κ) : Prog Thrown (Shared κ ν) Nat := .read fun s =>
  match s.mapObject.lookup key with
  | none => .pure 0
  | some node => (Prog.update fun s => node.drop (s.remove key)).andThen fun _ => .pure 1

/-- A node with copies of a key and a value. -/
def newNode (K : ObjectType κ) (V : ObjectType ν) (nodeSize : UInt64) (key : κ) (value : ν) :
    Prog Thrown (Shared κ ν) (Node ν) :=
  (newBlock nodeSize 1).andThen fun block =>
    (((K.construct key).andThen fun k =>
      ((V.construct value).unwinding k.destroy).andThen fun v => .pure (k.blocks, v)).unwinding
        (freeBlock block)).andThen fun r => .pure ⟨block, r.1, r.2⟩

/-- `std::map::insert_or_assign` of lvalues. -/
def insertOrAssign (K : ObjectType κ) (V : ObjectType ν) (nodeSize : UInt64) (key : κ)
    (value : ν) : Prog Thrown (Shared κ ν) (UInt64 × Bool) := .read fun s =>
  match s.mapObject.lookup key with
  | none => (newNode K V nodeSize key value).andThen fun node =>
    (Prog.update (Shared.put key node)).andThen fun _ => .pure (node.block.p, true)
  | some node => (node.value.assign V value).andThen fun v =>
    (Prog.update (Shared.put key { node with value := v })).andThen fun _ =>
      .pure (node.block.p, false)

/-- `std::map::insert_or_assign` of rvalues, and what it leaves of them. -/
def insertOrAssignMoved (nodeSize : UInt64) (key : Object κ) (value : Object ν) :
    Prog Thrown (Shared κ ν) ((UInt64 × Bool) × Object κ × Object ν) := .read fun s =>
  match s.mapObject.lookup key.data with
  | none => (newBlock nodeSize 1).andThen fun block =>
    (Prog.update (Shared.put key.data ⟨block, key.blocks, value⟩)).andThen fun _ =>
      .pure ((block.p, true), ⟨key.data, []⟩, ⟨value.data, []⟩)
  | some node => (node.value.moveAssign value).andThen fun v =>
    (Prog.update (Shared.put key.data { node with value := v.1 })).andThen fun _ =>
      .pure ((node.block.p, false), key, v.2)

def Map.at (key : κ) : Prog Thrown (Shared κ ν) ν := semLock (mapAt key)

def Map.atConverted (K : ObjectType κ) (key : κ) : Prog Thrown (Shared κ ν) ν :=
  (getObjectWithAllocator K key).inScope Object.destroy fun k =>
    (Map.at k.data).andThen fun r => .pure (r, k)

def Map.erase (key : κ) : Prog Thrown (Shared κ ν) Nat := semLock (mapErase key)

def Map.eraseConverted (K : ObjectType κ) (key : κ) : Prog Thrown (Shared κ ν) Nat :=
  (getObjectWithAllocator K key).inScope Object.destroy fun k =>
    (Map.erase k.data).andThen fun r => .pure (r, k)

def Map.insert (K : ObjectType κ) (V : ObjectType ν) (nodeSize : UInt64) (key : κ) (value : ν) :
    Prog Thrown (Shared κ ν) (UInt64 × Bool) :=
  semLock (insertOrAssign K V nodeSize key value)

def Map.insertConverted (K : ObjectType κ) (V : ObjectType ν) (nodeSize : UInt64) (key_ : κ)
    (value_ : ν) : Prog Thrown (Shared κ ν) (UInt64 × Bool) :=
  (getObjectWithAllocator K key_).inScope Object.destroy fun key =>
    (getObjectWithAllocator V value_).inScope Object.destroy fun value =>
      (semLock (insertOrAssignMoved nodeSize key value)).andThen fun r =>
        .pure ((r.1, r.2.1), r.2.2)

inductive Call (κ ν : Type*)
  | at (key : κ)
  | atConverted (key : κ)
  | erase (key : κ)
  | eraseConverted (key : κ)
  | insert (key : κ) (value : ν)
  | insertConverted (key : κ) (value : ν)
  deriving DecidableEq, Repr

inductive Answer (ν : Type*)
  | mapped (value : ν)
  | erased (count : Nat)
  | inserted (it : UInt64) (isNew : Bool)
  deriving DecidableEq, Repr

def Call.run (K : ObjectType κ) (V : ObjectType ν) (nodeSize : UInt64) :
    Call κ ν → Prog Thrown (Shared κ ν) (Answer ν)
  | .at key => (Map.at key).andThen fun v => .pure (.mapped v)
  | .atConverted key => (Map.atConverted K key).andThen fun v => .pure (.mapped v)
  | .erase key => (Map.erase key).andThen fun n => .pure (.erased n)
  | .eraseConverted key => (Map.eraseConverted K key).andThen fun n => .pure (.erased n)
  | .insert key value =>
    (Map.insert K V nodeSize key value).andThen fun r => .pure (.inserted r.1 r.2)
  | .insertConverted key value =>
    (Map.insertConverted K V nodeSize key value).andThen fun r => .pure (.inserted r.1 r.2)

end MapObject

end AdvCppTP.Shmem
