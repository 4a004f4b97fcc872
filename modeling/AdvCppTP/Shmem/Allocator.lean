import AdvCppTP.Lib.Runs
import Mathlib.Order.Interval.Finset.Nat

/-! The bump allocator of `hw-5/shmem_lib` over one shared `AllocState`, for any mix of element
types: `sizeT` is `sizeof(T)`, addresses and sizes are 64-bit words. -/

namespace AdvCppTP.Shmem

structure AllocState where
  start : UInt64
  end_ : UInt64
  deriving DecidableEq, Repr

/-- `Allocator<T>::allocate(n)`; `none` is `bad_alloc`. -/
def allocate (sizeT n : UInt64) (state : AllocState) : Option (UInt64 × AllocState) :=
  let result := state.start
  if result + sizeT * n > state.end_ then none
  else some (result, { state with start := state.start + sizeT * n })

def deallocate (sizeT p n : UInt64) (state : AllocState) : AllocState :=
  if p + sizeT * n = state.start then { state with start := p } else state

/-- What `Allocator<T>::allocate(n)` has handed out at `p`. -/
structure Block where
  p : UInt64
  sizeT : UInt64
  n : UInt64
  deriving DecidableEq, Repr

def Block.len (b : Block) : Nat := b.sizeT.toNat * b.n.toNat

def Block.bytes (b : Block) : Finset Nat := Finset.Ico b.p.toNat (b.p.toNat + b.len)

structure Heap where
  state : AllocState
  live : List Block
  deriving DecidableEq, Repr

inductive Op
  | allocate (sizeT n : UInt64)
  | deallocate (b : Block)
  deriving DecidableEq, Repr

def Heap.step (h : Heap) : Op → Heap × Option UInt64
  | .allocate sizeT n =>
    match Shmem.allocate sizeT n h.state with
    | none => (h, none)
    | some (result, state) => (⟨state, ⟨result, sizeT, n⟩ :: h.live⟩, some result)
  | .deallocate b => (⟨Shmem.deallocate b.sizeT b.p b.n h.state, h.live.erase b⟩, none)

/-- An allocation does not leave the address space, and what is freed is live. -/
def Heap.Admissible (h : Heap) : Op → Prop
  | .allocate sizeT n => h.state.start.toNat + sizeT.toNat * n.toNat < 2 ^ 64
  | .deallocate b => b ∈ h.live

instance (h : Heap) : (op : Op) → Decidable (h.Admissible op)
  | .allocate _ _ => Nat.decLt _ _
  | .deallocate b => inferInstanceAs (Decidable (b ∈ h.live))

/-- The blocks that hold bytes lie in `[start₀, start)` one beside the other, the others are
pointers into `[start₀, end]`. -/
structure Heap.Sound (start₀ : UInt64) (h : Heap) : Prop where
  above : start₀ ≤ h.state.start
  below : h.state.start ≤ h.state.end_
  within : ∀ b ∈ h.live, 0 < b.len →
    start₀.toNat ≤ b.p.toNat ∧ b.p.toNat + b.len ≤ h.state.start.toNat
  pointer : ∀ b ∈ h.live, start₀ ≤ b.p ∧ b.p ≤ h.state.end_
  apart : h.live.Pairwise fun a b => Disjoint a.bytes b.bytes

theorem Heap.sound_empty {state : AllocState} (h : state.start ≤ state.end_) :
    Heap.Sound state.start ⟨state, []⟩ :=
  ⟨UInt64.le_refl _, h, fun _ hb => absurd hb List.not_mem_nil,
    fun _ hb => absurd hb List.not_mem_nil, List.Pairwise.nil⟩

theorem toNat_bytes {p sizeT n : UInt64} (h : p.toNat + sizeT.toNat * n.toNat < 2 ^ 64) :
    (p + sizeT * n).toNat = p.toNat + sizeT.toNat * n.toNat := by
  have hmul : sizeT.toNat * n.toNat < 2 ^ 64 := by omega
  rw [UInt64.toNat_add, UInt64.toNat_mul, Nat.mod_eq_of_lt hmul, Nat.mod_eq_of_lt h]

theorem Block.bytes_eq_empty {b : Block} (h : b.len = 0) : b.bytes = ∅ := by
  rw [Block.bytes, h, Nat.add_zero, Finset.Ico_self]

theorem Block.disjoint_of_le {a b : Block} (h : 0 < b.len → b.p.toNat + b.len ≤ a.p.toNat) :
    Disjoint a.bytes b.bytes := by
  rcases Nat.eq_zero_or_pos b.len with h0 | hpos
  · rw [Block.bytes_eq_empty h0]
    exact Finset.disjoint_empty_right _
  · rw [Finset.disjoint_left]
    intro x hx hy
    rw [Block.bytes, Finset.mem_Ico] at hx hy
    exact absurd (h hpos) (by omega)

theorem Block.le_of_disjoint {a b : Block} (h : Disjoint a.bytes b.bytes) (ha : 0 < a.len)
    (hb : 0 < b.len) (hle : b.p.toNat + b.len ≤ a.p.toNat + a.len) :
    b.p.toNat + b.len ≤ a.p.toNat := by
  by_contra hlt
  have hx : b.p.toNat + b.len - 1 ∈ b.bytes := by
    rw [Block.bytes, Finset.mem_Ico]
    omega
  refine Finset.disjoint_left.mp h ?_ hx
  rw [Block.bytes, Finset.mem_Ico]
  omega

variable {start₀ : UInt64} {h : Heap}

theorem Heap.Sound.push (hs : h.Sound start₀) {sizeT n : UInt64}
    (hwrap : h.state.start.toNat + sizeT.toNat * n.toNat < 2 ^ 64)
    (hroom : ¬ h.state.start + sizeT * n > h.state.end_) :
    Heap.Sound start₀ ⟨{ h.state with start := h.state.start + sizeT * n },
      ⟨h.state.start, sizeT, n⟩ :: h.live⟩ := by
  have hnat := toNat_bytes hwrap
  have habove := UInt64.le_iff_toNat_le.mp hs.above
  refine ⟨?_, UInt64.not_lt.mp hroom, ?_, ?_, ?_⟩
  · show start₀ ≤ h.state.start + sizeT * n
    rw [UInt64.le_iff_toNat_le]
    omega
  · intro b hb hpos
    rcases List.mem_cons.mp hb with rfl | hb
    · exact ⟨habove, by simp only [hnat, Block.len]; omega⟩
    · have hwithin := hs.within b hb hpos
      exact ⟨hwithin.1, by simp only [hnat]; omega⟩
  · intro b hb
    rcases List.mem_cons.mp hb with rfl | hb
    · exact ⟨hs.above, hs.below⟩
    · exact hs.pointer b hb
  · refine List.Pairwise.cons (fun b hb => ?_) hs.apart
    exact Block.disjoint_of_le fun hpos => (hs.within b hb hpos).2

theorem Heap.Sound.pop (hs : h.Sound start₀) {b : Block} (hb : b ∈ h.live)
    (htop : b.p + b.sizeT * b.n = h.state.start) :
    Heap.Sound start₀ ⟨{ h.state with start := b.p }, h.live.erase b⟩ := by
  -- the blocks that hold bytes end below the topmost one
  obtain ⟨hlow, hhigh⟩ := hs.pointer b hb
  refine ⟨hlow, hhigh, fun a ha hpos => ?_, fun a ha => hs.pointer a (List.mem_of_mem_erase ha),
    hs.apart.sublist List.erase_sublist⟩
  have halive : a ∈ h.live := List.mem_of_mem_erase ha
  have hwithin := hs.within a halive hpos
  refine ⟨hwithin.1, ?_⟩
  rcases Nat.eq_zero_or_pos b.len with h0 | hbpos
  · have hsame : h.state.start = b.p := by
      rw [← htop, ← UInt64.toNat_inj, toNat_bytes]
      · exact Nat.add_eq_left.mpr h0
      · rw [show b.sizeT.toNat * b.n.toNat = 0 from h0]
        exact b.p.toNat_lt
    rw [← hsame]
    exact hwithin.2
  · have hbwithin := hs.within b hb hbpos
    have hperm := List.perm_cons_erase hb
    have happ := (hperm.pairwise_iff fun {x y} hxy => Disjoint.symm hxy).mp hs.apart
    have hdisj : Disjoint b.bytes a.bytes := (List.pairwise_cons.mp happ).1 a ha
    have hnat : (b.p + b.sizeT * b.n).toNat = b.p.toNat + b.len := by
      refine toNat_bytes ?_
      have := h.state.start.toNat_lt
      simp only [Block.len] at hbwithin
      omega
    rw [htop] at hnat
    exact Block.le_of_disjoint hdisj hbpos hpos (by omega)

theorem Heap.Sound.drop (hs : h.Sound start₀) (b : Block) :
    Heap.Sound start₀ ⟨h.state, h.live.erase b⟩ :=
  ⟨hs.above, hs.below, fun a ha => hs.within a (List.mem_of_mem_erase ha),
    fun a ha => hs.pointer a (List.mem_of_mem_erase ha), hs.apart.sublist List.erase_sublist⟩

theorem Heap.Sound.step (hs : h.Sound start₀) {op : Op} (hop : h.Admissible op) :
    (h.step op).1.Sound start₀ := by
  cases op with
  | allocate sizeT n =>
    by_cases hroom : h.state.start + sizeT * n > h.state.end_
    · simpa only [Heap.step, Shmem.allocate, if_pos hroom] using hs
    · simpa only [Heap.step, Shmem.allocate, if_neg hroom] using hs.push hop hroom
  | deallocate b =>
    by_cases htop : b.p + b.sizeT * b.n = h.state.start
    · simpa only [Heap.step, Shmem.deallocate, if_pos htop] using hs.pop hop htop
    · simpa only [Heap.step, Shmem.deallocate, if_neg htop] using hs.drop b

theorem Heap.step_end (h : Heap) (op : Op) : (h.step op).1.state.end_ = h.state.end_ := by
  cases op with
  | allocate sizeT n =>
    by_cases hroom : h.state.start + sizeT * n > h.state.end_
    · simp only [Heap.step, Shmem.allocate, if_pos hroom]
    · simp only [Heap.step, Shmem.allocate, if_neg hroom]
  | deallocate b =>
    by_cases htop : b.p + b.sizeT * b.n = h.state.start
    · simp only [Heap.step, Shmem.deallocate, if_pos htop]
    · simp only [Heap.step, Shmem.deallocate, if_neg htop]

theorem Heap.step_failed {h₀ : Heap} {sizeT n : UInt64}
    (h : (Heap.step h₀ (.allocate sizeT n)).2 = none) :
    (Heap.step h₀ (.allocate sizeT n)).1 = h₀ := by
  by_cases hroom : h₀.state.start + sizeT * n > h₀.state.end_
  · simp only [Heap.step, Shmem.allocate, if_pos hroom]
  · simp only [Heap.step, Shmem.allocate, if_neg hroom, reduceCtorEq] at h

theorem empty_block_above_start :
    ¬ ∀ (state : AllocState) (ops : List Op), state.start ≤ state.end_ →
      Lib.Along Heap.step Heap.Admissible ⟨state, []⟩ ops →
      ∀ b ∈ (Lib.runs Heap.step ⟨state, []⟩ ops).1.live,
        state.start.toNat ≤ b.p.toNat ∧
          b.p.toNat + b.len ≤ (Lib.runs Heap.step ⟨state, []⟩ ops).1.state.start.toNat := by
  intro h
  have hempty := h ⟨100, 200⟩ [.allocate 1 4, .allocate 1 0, .deallocate ⟨100, 1, 4⟩]
    (by decide) (by decide) ⟨104, 1, 0⟩ (by decide)
  exact absurd hempty.2 (by decide)

/-- Whatever element types allocate and free in whatever order, live blocks do not overlap. -/
theorem live_blocks_apart {state : AllocState} (hstate : state.start ≤ state.end_) (ops : List Op)
    (hops : Lib.Along Heap.step Heap.Admissible ⟨state, []⟩ ops) :
    ((Lib.runs Heap.step ⟨state, []⟩ ops).1.live.Pairwise fun a b => Disjoint a.bytes b.bytes) ∧
      (∀ b ∈ (Lib.runs Heap.step ⟨state, []⟩ ops).1.live, 0 < b.len →
        state.start.toNat ≤ b.p.toNat ∧
          b.p.toNat + b.len ≤ (Lib.runs Heap.step ⟨state, []⟩ ops).1.state.start.toNat) ∧
      (∀ b ∈ (Lib.runs Heap.step ⟨state, []⟩ ops).1.live, b.len = 0 →
        b.bytes = ∅ ∧ state.start ≤ b.p ∧ b.p ≤ state.end_) ∧
      (Lib.runs Heap.step ⟨state, []⟩ ops).1.state.start ≤
        (Lib.runs Heap.step ⟨state, []⟩ ops).1.state.end_ ∧
      ∀ sizeT n, (((Lib.runs Heap.step ⟨state, []⟩ ops).1).step (.allocate sizeT n)).2 = none →
        (((Lib.runs Heap.step ⟨state, []⟩ ops).1).step (.allocate sizeT n)).1 =
          (Lib.runs Heap.step ⟨state, []⟩ ops).1 := by
  have hsound : Heap.Sound state.start (Lib.runs Heap.step ⟨state, []⟩ ops).1 :=
    Lib.runs_invariant_along (fun _ _ hs hop => hs.step hop) (Heap.sound_empty hstate) hops
  have hend : (Lib.runs Heap.step ⟨state, []⟩ ops).1.state.end_ = state.end_ :=
    Lib.runs_invariant (I := fun h : Heap => h.state.end_ = state.end_)
      (fun h op hh => (h.step_end op).trans hh) rfl ops
  refine ⟨hsound.apart, hsound.within, fun b hb h0 => ?_, hsound.below, fun _ _ => Heap.step_failed⟩
  have hpointer := hsound.pointer b hb
  exact ⟨Block.bytes_eq_empty h0, hpointer.1, hend ▸ hpointer.2⟩

theorem live_blocks_apart_example :
    (Lib.runs Heap.step ⟨⟨100, 200⟩, []⟩ [.allocate 1 4, .allocate 8 2, .deallocate ⟨100, 1, 4⟩,
      .allocate 4 3]).1.live.Pairwise fun a b => Disjoint a.bytes b.bytes :=
  (live_blocks_apart (by decide) _ (by decide)).1

end AdvCppTP.Shmem
