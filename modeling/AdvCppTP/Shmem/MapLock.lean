import AdvCppTP.Lib.Progress
import AdvCppTP.Shmem.Allocator

/-! Processes that work on one shared `shmem::Map`. An allocator call is a sequence of accesses to
the shared `AllocState`; whether the semaphore is held meanwhile depends on the overload. -/

namespace AdvCppTP.Shmem

/-- The `allocate` calls, as pairs of `sizeof(T)` and `n`, that building an object with the map's
allocator makes; a POD object and a short string make none. -/
abbrev Requests := List (UInt64 × UInt64)

/-- A call of a `Map` method; the converting overloads build a key or a value of their own. -/
inductive MapCall
  | at
  | atConverted (key : Requests)
  | erase
  | eraseConverted (key : Requests)
  | insert
  | insertConverted (key value : Requests)
  deriving DecidableEq, Repr

def MapCall.temporaries : MapCall → Requests
  | .at => []
  | .atConverted key => key
  | .erase => []
  | .eraseConverted key => key
  | .insert => []
  | .insertConverted key value => key ++ value

/-- A converting overload builds its temporaries, then calls the method under a `SemLock`, and
destroys them after the `SemLock`. -/
inductive Phase
  | building (todo : Requests)
  | locked
  | dropping
  deriving DecidableEq, Repr

/-- What is left to do in a phase that allocates `sizeT * n` bytes next, if it may. The methods
allocate as many nodes, keys and values as `std::map` asks for. -/
def MapCall.allocates (c : MapCall) (sizeT n : UInt64) : Phase → Option Phase
  | .building todo => if todo.head? = some (sizeT, n) then some (.building todo.tail) else none
  | .locked =>
    match c with
    | .insert => some .locked
    | .insertConverted _ _ => some .locked
    | _ => none
  | .dropping => none

/-- Whether a phase may free blocks. A temporary may hold the former buffer of a value it was
moved into. -/
def MapCall.frees (c : MapCall) : Phase → Bool
  | .building _ => false
  | .locked =>
    match c with
    | .at => false
    | .atConverted _ => false
    | _ => true
  | .dropping => c.temporaries ≠ []

/-- Where `bad_alloc` leads: the objects built so far are destroyed. -/
def Phase.failed : Phase → Phase
  | .building _ => .dropping
  | .locked => .locked
  | .dropping => .dropping

/-- An allocator call after some of its accesses to the `AllocState`; `result` and `start` are
what it has loaded. -/
inductive Update
  | allocLoaded (sizeT n result : UInt64)
  | allocChecked (sizeT n result : UInt64)
  | allocReloaded (sizeT n result start : UInt64)
  | freeLoaded (b : Block) (start : UInt64)
  | freeChecked (b : Block)
  deriving DecidableEq, Repr

inductive After
  | more (u : Update)
  | done
  | badAlloc
  deriving DecidableEq, Repr

def Update.next (h : Heap) : Update → Heap × After
  | .allocLoaded sizeT n result =>
    if result + sizeT * n > h.state.end_ then (h, .badAlloc)
    else (h, .more (.allocChecked sizeT n result))
  | .allocChecked sizeT n result => (h, .more (.allocReloaded sizeT n result h.state.start))
  | .allocReloaded sizeT n result start =>
    (⟨{ h.state with start := start + sizeT * n }, ⟨result, sizeT, n⟩ :: h.live⟩, .done)
  | .freeLoaded b start =>
    if b.p + b.sizeT * b.n = start then (h, .more (.freeChecked b))
    else (⟨h.state, h.live.erase b⟩, .done)
  | .freeChecked b => (⟨{ h.state with start := b.p }, h.live.erase b⟩, .done)

inductive Pc
  | idle
  | run (c : MapCall) (ph : Phase)
  | busy (c : MapCall) (ph : Phase) (u : Update)
  deriving DecidableEq, Repr

def Pc.updating : Pc → Bool
  | .busy _ _ _ => true
  | _ => false

structure Sys where
  heap : Heap
  sem : Nat
  pc : Nat → Pc

inductive Move
  | call (c : MapCall)
  | wait
  | post
  | ret
  | allocate (sizeT n : UInt64)
  | deallocate (b : Block)
  | access
  deriving DecidableEq, Repr

def Sys.setPc (s : Sys) (p : Nat) (pc : Pc) : Sys := { s with pc := Function.update s.pc p pc }

/-- What process `p` does next; `none` when it cannot. No container asks for 2^63 bytes. -/
def Sys.step (s : Sys) (p : Nat) : Move → Option Sys
  | .call c =>
    match s.pc p with
    | .idle => some (s.setPc p (.run c (.building c.temporaries)))
    | _ => none
  | .wait =>
    match s.pc p with
    | .run c (.building []) =>
      if s.sem = 0 then none else some { s.setPc p (.run c .locked) with sem := s.sem - 1 }
    | _ => none
  | .post =>
    match s.pc p with
    | .run c .locked => some { s.setPc p (.run c .dropping) with sem := s.sem + 1 }
    | _ => none
  | .ret =>
    match s.pc p with
    | .run _ .dropping => some (s.setPc p .idle)
    | _ => none
  | .allocate sizeT n =>
    match s.pc p with
    | .run c ph =>
      if sizeT.toNat * n.toNat < 2 ^ 63 then
        (c.allocates sizeT n ph).map fun ph =>
          s.setPc p (.busy c ph (.allocLoaded sizeT n s.heap.state.start))
      else none
    | _ => none
  | .deallocate b =>
    match s.pc p with
    | .run c ph =>
      if c.frees ph ∧ b ∈ s.heap.live then
        some (s.setPc p (.busy c ph (.freeLoaded b s.heap.state.start)))
      else none
    | _ => none
  | .access =>
    match s.pc p with
    | .busy c ph u =>
      let (heap, after) := u.next s.heap
      let pc := match after with
        | .more u => .busy c ph u
        | .done => .run c ph
        | .badAlloc => .run c ph.failed
      some { s.setPc p pc with heap }
    | _ => none

def Sys.run (s : Sys) (moves : List (Nat × Move)) : Option Sys :=
  Lib.steps (fun s (m : Nat × Move) => s.step m.1 m.2) s moves

def Sys.init (state : AllocState) : Sys := ⟨⟨state, []⟩, 1, fun _ => .idle⟩

end AdvCppTP.Shmem
