import AdvCppTP.Lib.Totals
import AdvCppTP.Shmem.FreeSpace
import AdvCppTP.Shmem.FailedCalls
import Mathlib.Tactic.Abel

/-! What the nodes of a `shmem::Map` hold: the blocks that are live, each one once, for any types of
keys and values; and what is found in it, which is a finite map. -/

namespace AdvCppTP.Shmem

open Lib Lib.Prog

variable {κ ν α β : Type*}

/-! ## Blocks in use -/

/-- A request of some elements that have a size, for less than half of the address space. -/
def Modest (r : UInt64 × UInt64) : Prop := 0 < r.1.toNat ∧ r.1.toNat * r.2.toNat < 2 ^ 63

/-- The live blocks are `bs`, all of them apart. -/
structure Heap.Holds (start₀ : UInt64) (h : Heap) (bs : Multiset Block) : Prop where
  sound : h.Sound start₀
  room : h.state.end_.toNat < 2 ^ 62
  sized : ∀ b ∈ h.live, 0 < b.sizeT.toNat
  live : (h.live : Multiset Block) = bs

variable {start₀ : UInt64}

/-- What an object with some data asks for is modest, also when it is assigned them. -/
structure ObjectType.Modest (A : ObjectType α) (data : α) : Prop where
  build : ∀ r ∈ A.build data, Shmem.Modest r
  assign : ∀ blocks : List Block, (∀ b ∈ blocks, 0 < b.sizeT.toNat ∧ b.len < 2 ^ 62) →
    ∀ todo ∈ A.assign blocks data, ∀ r ∈ todo, Shmem.Modest r

def Node.blocks (node : Node ν) : Multiset Block :=
  {node.block} + (node.keyBlocks + node.value.blocks)

/-- The blocks that the nodes of the map hold. -/
def Shared.owned (s : Shared κ ν) : Multiset Block :=
  total (fun _ node => Node.blocks node) s.mapObject

/-- What is found under the keys: the address of the element, and its value. -/
abbrev Contents (κ ν : Type*) := κ → Option (UInt64 × ν)

/-- What a call is for; the converting overloads are for the same as the others. -/
inductive Demand (κ ν : Type*)
  | at (key : κ)
  | erase (key : κ)
  | insert (key : κ) (value : ν)
  deriving DecidableEq, Repr

def Call.demand : Call κ ν → Demand κ ν
  | .at key => .at key
  | .atConverted key => .at key
  | .erase key => .erase key
  | .eraseConverted key => .erase key
  | .insert key value => .insert key value
  | .insertConverted key value => .insert key value

variable [DecidableEq κ]

def Shared.contents (s : Shared κ ν) : Contents κ ν := fun key =>
  (s.mapObject.lookup key).map fun node => (node.block.p, node.value.data)

/-- How a finite map answers a demand, and what is in it then. An element keeps its address until
it is erased. -/
inductive Demand.Answers (m : Contents κ ν) :
    Demand κ ν → Except Thrown (Answer ν) → Contents κ ν → Prop
  | found {key : κ} {it : UInt64} {value : ν} (h : m key = some (it, value)) :
      Answers m (.at key) (.ok (.mapped value)) m
  | missing {key : κ} (h : m key = none) : Answers m (.at key) (.error .outOfRange) m
  | erased {key : κ} {it : UInt64} {value : ν} (h : m key = some (it, value)) :
      Answers m (.erase key) (.ok (.erased 1)) (Function.update m key none)
  | absent {key : κ} (h : m key = none) : Answers m (.erase key) (.ok (.erased 0)) m
  | added {key : κ} {value : ν} (it : UInt64) (h : m key = none) :
      Answers m (.insert key value) (.ok (.inserted it true))
        (Function.update m key (some (it, value)))
  | assigned {key : κ} {value old : ν} {it : UInt64} (h : m key = some (it, old)) :
      Answers m (.insert key value) (.ok (.inserted it false))
        (Function.update m key (some (it, value)))

section Bodies

variable {s : Shared κ ν} {extra : Multiset Block}

end Bodies

/-! ## Calls -/

/-- The blocks of the nodes and `extra` are live, and the answer is that of a finite map. -/
def Answered (start₀ : UInt64) (extra : Multiset Block) (d : Demand κ ν) (s : Shared κ ν)
    (a : Answer ν) (s' : Shared κ ν) : Prop :=
  s'.heap.Holds start₀ (s'.owned + extra) ∧ s'.sem = 1 ∧
    d.Answers s.contents (.ok a) s'.contents

section Calls

variable {s : Shared κ ν} {extra : Multiset Block}

end Calls

/-! ## Runs -/

section Runs

variable (K : ObjectType κ) (V : ObjectType ν)

def Call.Modest : Call κ ν → Prop
  | .at _ => True
  | .atConverted key => K.Modest key
  | .erase _ => True
  | .eraseConverted key => K.Modest key
  | .insert key value => K.Modest key ∧ V.Modest value
  | .insertConverted key value => K.Modest key ∧ V.Modest value

/-- Whether a call asks for memory at all. -/
def Call.Takes : Call κ ν → Prop
  | .at _ => False
  | .atConverted key => K.build key ≠ []
  | .erase _ => False
  | .eraseConverted key => K.build key ≠ []
  | .insert _ _ => True
  | .insertConverted _ _ => True

/-- The answer of a finite map, or `bad_alloc` where the call asks for memory and nothing has
happened. -/
def Call.Answers (m : Contents κ ν) (c : Call κ ν) (r : Except Thrown (Answer ν))
    (m' : Contents κ ν) : Prop :=
  c.demand.Answers m r m' ∨ r = .error .badAlloc ∧ c.Takes K ∧ m' = m

variable {K V} {nodeSize : UInt64} {s : Shared κ ν}

/-- A call by a process that nobody disturbs, with what comes back. -/
def Shared.reply (K : ObjectType κ) (V : ObjectType ν) (nodeSize : UInt64) (s : Shared κ ν)
    (c : Call κ ν) : Shared κ ν × Option (Except Thrown (Answer ν)) :=
  ((c.run K V nodeSize s).state, (c.run K V nodeSize s).result)

variable {state : AllocState}

end Runs

end AdvCppTP.Shmem
