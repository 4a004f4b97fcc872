import AdvCppTP.Lib.Runs
import AdvCppTP.Shmem.Allocator
import Mathlib.Data.Nat.ModEq

/-! What the allocator grants: requests whose byte count leaves the address space, and pointers
for types of different alignments. -/

namespace AdvCppTP.Shmem

/-! ## Requests of any size -/

/-- A call that returns takes the bytes it was asked for, which are there, and one that throws
takes nothing. -/
def Heap.GrantsExactly (h : Heap) (sizeT n : UInt64) : Prop :=
  match h.step (.allocate sizeT n) with
  | (h', some _) =>
    h.state.start.toNat + sizeT.toNat * n.toNat ≤ h.state.end_.toNat ∧
      h'.state.start.toNat = h.state.start.toNat + sizeT.toNat * n.toNat
  | (h', none) => h'.state = h.state

theorem toNat_bytes_mod (p sizeT n : UInt64) :
    (p + sizeT * n).toNat = (p.toNat + sizeT.toNat * n.toNat) % 2 ^ 64 := by
  rw [UInt64.toNat_add, UInt64.toNat_mul, Nat.add_mod_mod]

/-- An allocation is refused, or exact, unless what is left of its end modulo the word lies in
front of `end`. -/
theorem allocate_exact_iff (h : Heap) (sizeT n : UInt64) :
    h.GrantsExactly sizeT n ↔
      h.state.start.toNat + sizeT.toNat * n.toNat < 2 ^ 64 ∨
        h.state.end_.toNat < (h.state.start.toNat + sizeT.toNat * n.toNat) % 2 ^ 64 := by
  have hnat := toNat_bytes_mod h.state.start sizeT n
  have hend := h.state.end_.toNat_lt
  rw [← hnat]
  by_cases hroom : h.state.start + sizeT * n > h.state.end_
  · have hlt : h.state.end_.toNat < (h.state.start + sizeT * n).toNat :=
      UInt64.lt_iff_toNat_lt.mp hroom
    simp only [Heap.GrantsExactly, Heap.step, Shmem.allocate, if_pos hroom, hlt, or_true]
  · have hle : (h.state.start + sizeT * n).toNat ≤ h.state.end_.toNat :=
      UInt64.le_iff_toNat_le.mp (UInt64.not_lt.mp hroom)
    simp only [Heap.GrantsExactly, Heap.step, Shmem.allocate, if_neg hroom]
    constructor
    · rintro ⟨hfits, -⟩
      exact .inl (by omega)
    · rintro (hword | hover)
      · rw [Nat.mod_eq_of_lt hword] at hnat
        exact ⟨by omega, hnat⟩
      · exact absurd hover (by omega)

/-- `8 * 2 ^ 61` is 0 in a word. -/
theorem huge_request_is_granted :
    ¬ ∀ (h : Heap) (sizeT n : UInt64), h.state.start ≤ h.state.end_ → 0 < sizeT →
      h.GrantsExactly sizeT n := by
  intro h
  have hgranted := h ⟨⟨1000, 2000⟩, []⟩ 8 0x2000000000000000 (by decide) (by decide)
  exact absurd hgranted.1 (by decide)

/-! ## Pointers for any type -/

/-- `sizeof(T)` and `alignof(T)`. -/
structure ElementType where
  sizeT : UInt64
  alignT : Nat
  pos : 0 < sizeT
  pow : ∃ k, alignT = 2 ^ k
  dvd : alignT ∣ sizeT.toNat
  deriving DecidableEq

theorem ElementType.alignT_dvd_word (T : ElementType) : T.alignT ∣ 2 ^ 64 := by
  obtain ⟨k, hk⟩ := T.pow
  have hpos : 0 < T.sizeT.toNat := UInt64.lt_iff_toNat_lt.mp T.pos
  have hle : T.alignT ≤ T.sizeT.toNat := Nat.le_of_dvd hpos T.dvd
  rw [hk] at hle ⊢
  have hlt : 2 ^ k < 2 ^ 64 := lt_of_le_of_lt hle T.sizeT.toNat_lt
  exact Nat.pow_dvd_pow 2 ((Nat.pow_lt_pow_iff_right (by decide)).mp hlt).le

/-- A call of `Allocator<T>`, for whichever `T` it has been rebound to. -/
inductive TypedOp
  | allocate (T : ElementType) (n : UInt64)
  | deallocate (T : ElementType) (p n : UInt64)
  deriving DecidableEq

def TypedOp.type : TypedOp → ElementType
  | .allocate T _ => T
  | .deallocate T _ _ => T

def TypedOp.op : TypedOp → Op
  | .allocate T n => .allocate T.sizeT n
  | .deallocate T p n => .deallocate ⟨p, T.sizeT, n⟩

def Heap.typedStep (h : Heap) (o : TypedOp) : Heap × Option UInt64 := h.step o.op

/-- What is freed is live. -/
def Heap.Frees (h : Heap) : TypedOp → Prop
  | .allocate _ _ => True
  | .deallocate T p n => ⟨p, T.sizeT, n⟩ ∈ h.live

instance (h : Heap) : (o : TypedOp) → Decidable (h.Frees o)
  | .allocate _ _ => .isTrue trivial
  | .deallocate T p n => inferInstanceAs (Decidable (Block.mk p T.sizeT n ∈ h.live))

/-- A pointer that `Allocator<T>::allocate` has returned. -/
def TypedOp.Aligned : TypedOp → Option UInt64 → Prop
  | .allocate T _, some p => T.alignT ∣ p.toNat
  | _, _ => True

theorem Heap.typedStep_refused {h : Heap} {T : ElementType} {n : UInt64}
    (hroom : h.state.start + T.sizeT * n > h.state.end_) :
    h.typedStep (.allocate T n) = (h, none) := by
  simp only [Heap.typedStep, TypedOp.op, Heap.step, Shmem.allocate, if_pos hroom]

theorem Heap.typedStep_granted {h : Heap} {T : ElementType} {n : UInt64}
    (hroom : ¬ h.state.start + T.sizeT * n > h.state.end_) :
    h.typedStep (.allocate T n) =
      (⟨{ h.state with start := h.state.start + T.sizeT * n },
        ⟨h.state.start, T.sizeT, n⟩ :: h.live⟩, some h.state.start) := by
  simp only [Heap.typedStep, TypedOp.op, Heap.step, Shmem.allocate, if_neg hroom]

/-! The history of the bump pointer: the blocks that it has been moved by and not been taken back
under since, the last one first, and those that were there when a block was handed out. -/

structure History where
  heap : Heap
  passed : List Block
  under : Block → List Block

def bytesOf : List Block → Nat
  | [] => 0
  | b :: bs => b.len + bytesOf bs

def History.step (y : History) (o : TypedOp) : History × Option UInt64 :=
  let (heap, result) := y.heap.typedStep o
  match o, result with
  | .allocate T n, some p =>
    let b : Block := ⟨p, T.sizeT, n⟩
    (⟨heap, b :: y.passed, Function.update y.under b y.passed⟩, some p)
  | .allocate _ _, none => ({ y with heap }, none)
  | .deallocate T p n, _ =>
    let b : Block := ⟨p, T.sizeT, n⟩
    let passed := if p + T.sizeT * n = y.heap.state.start then y.under b else y.passed
    ({ y with heap, passed }, none)

/-- An allocation that there is room for comes behind blocks that keep `T` aligned. -/
def History.KeepsAlignment (y : History) : TypedOp → Prop
  | .allocate T n =>
    ¬ y.heap.state.start + T.sizeT * n > y.heap.state.end_ → T.alignT ∣ bytesOf y.passed
  | .deallocate _ _ _ => True

instance (y : History) : (o : TypedOp) → Decidable (y.KeepsAlignment o)
  | .allocate T n => inferInstanceAs (Decidable (¬ y.heap.state.start + T.sizeT * n >
      y.heap.state.end_ → T.alignT ∣ bytesOf y.passed))
  | .deallocate _ _ _ => .isTrue trivial

def History.fresh (state : AllocState) : History := ⟨⟨state, []⟩, [], fun _ => []⟩

/-- The sizes of the blocks add up to where the bump pointer is, modulo the word. -/
structure History.Adds (start₀ : UInt64) (y : History) : Prop where
  start : start₀.toNat + bytesOf y.passed ≡ y.heap.state.start.toNat [MOD 2 ^ 64]
  under : ∀ b ∈ y.heap.live, start₀.toNat + bytesOf (y.under b) ≡ b.p.toNat [MOD 2 ^ 64]

theorem History.step_heap (y : History) (o : TypedOp) :
    (y.step o).1.heap = (y.heap.typedStep o).1 ∧ (y.step o).2 = (y.heap.typedStep o).2 := by
  cases o with
  | allocate T n =>
    by_cases hroom : y.heap.state.start + T.sizeT * n > y.heap.state.end_
    · simp only [History.step, Heap.typedStep_refused hroom, and_self]
    · simp only [History.step, Heap.typedStep_granted hroom, and_self]
  | deallocate T p n => exact ⟨rfl, rfl⟩

theorem History.Adds.step {start₀ : UInt64} {y : History} (hy : y.Adds start₀) {o : TypedOp}
    (ho : y.heap.Frees o) : (y.step o).1.Adds start₀ := by
  cases o with
  | allocate T n =>
    by_cases hroom : y.heap.state.start + T.sizeT * n > y.heap.state.end_
    · simpa only [History.step, Heap.typedStep_refused hroom] using hy
    · simp only [History.step, Heap.typedStep_granted hroom]
      refine ⟨?_, fun b hb => ?_⟩
      · show start₀.toNat + (T.sizeT.toNat * n.toNat + bytesOf y.passed) ≡
          (y.heap.state.start + T.sizeT * n).toNat [MOD 2 ^ 64]
        rw [toNat_bytes_mod, Nat.add_comm (T.sizeT.toNat * n.toNat), ← Nat.add_assoc]
        exact (hy.start.add_right _).trans (Nat.mod_modEq _ _).symm
      · by_cases heq : b = ⟨y.heap.state.start, T.sizeT, n⟩
        · subst heq
          simpa only [Function.update_self] using hy.start
        · simpa only [Function.update_of_ne heq] using
            hy.under b ((List.mem_cons.mp hb).resolve_left heq)
  | deallocate T p n =>
    have hunder := hy.under _ ho
    refine ⟨?_, fun b hb => ?_⟩
    · by_cases htop : p + T.sizeT * n = y.heap.state.start
      · simpa only [History.step, Heap.typedStep, TypedOp.op, Heap.step, Shmem.deallocate,
          if_pos htop] using hunder
      · simpa only [History.step, Heap.typedStep, TypedOp.op, Heap.step, Shmem.deallocate,
          if_neg htop] using hy.start
    · exact hy.under b (List.mem_of_mem_erase hb)

theorem History.Adds.aligned_iff {start₀ : UInt64} {y : History} (hy : y.Adds start₀)
    {o : TypedOp} (hstart : o.type.alignT ∣ start₀.toNat) :
    o.Aligned (y.heap.typedStep o).2 ↔ y.KeepsAlignment o := by
  cases o with
  | allocate T n =>
    by_cases hroom : y.heap.state.start + T.sizeT * n > y.heap.state.end_
    · rw [Heap.typedStep_refused hroom]
      exact iff_of_true trivial fun hfits => absurd hroom hfits
    · have hfirst : T.alignT ∣ start₀.toNat := hstart
      have hsum := (hy.start.of_dvd T.alignT_dvd_word).dvd_iff dvd_rfl
      rw [Nat.dvd_add_right hfirst] at hsum
      rw [Heap.typedStep_granted hroom]
      exact hsum.symm.trans ⟨fun hsize _ => hsize, fun hsize => hsize hroom⟩
  | deallocate T p n => exact Iff.rfl

/-- Every pointer is aligned for its type exactly where the blocks below each allocation add up to
a multiple of its alignment. -/
theorem allocations_aligned_iff (state : AllocState) (ops : List TypedOp)
    (hstart : ∀ o ∈ ops, o.type.alignT ∣ state.start.toNat)
    (hfrees : Lib.Along Heap.typedStep Heap.Frees ⟨state, []⟩ ops) :
    (∀ x ∈ (Lib.runs Heap.typedStep ⟨state, []⟩ ops).2, x.1.Aligned x.2) ↔
      Lib.Along History.step History.KeepsAlignment (.fresh state) ops := by
  have hheap := fun y o => (History.step_heap y o).1
  have hhistory : Lib.Along History.step
      (fun y o => y.heap.Frees o ∧ o.type.alignT ∣ state.start.toNat) (.fresh state) ops := by
    refine (Lib.along_and _ _ _ _ _).mpr ⟨?_, (Lib.along_events _ _ _ _).mpr hstart⟩
    exact (Lib.along_map hheap (.fresh state) ops).mp hfrees
  have hfresh : (History.fresh state).Adds state.start :=
    ⟨Nat.ModEq.refl _, fun _ hb => absurd hb List.not_mem_nil⟩
  rw [Lib.forall_outputs_iff Heap.typedStep TypedOp.Aligned]
  refine (Lib.along_map hheap (.fresh state) ops).trans ?_
  exact Lib.along_congr_of (I := History.Adds state.start) (fun y o hy ho => hy.aligned_iff ho.2)
    (fun y o hy ho _ => hy.step ho.1) hfresh hhistory

/-- `char`, and the nodes of a `std::map` of strings. -/
def charType : ElementType := ⟨1, 1, by decide, ⟨0, rfl⟩, by decide⟩

def nodeType : ElementType := ⟨112, 8, by decide, ⟨3, rfl⟩, by decide⟩

theorem allocations_aligned_example :
    (Lib.runs Heap.typedStep ⟨⟨96, 8192⟩, []⟩ [.allocate charType 17, .deallocate charType 96 17,
      .allocate nodeType 1, .allocate charType 40, .allocate nodeType 1]).2.Forall
        fun x => x.1.Aligned x.2 :=
  List.forall_iff_forall_mem.mpr
    ((allocations_aligned_iff ⟨96, 8192⟩ _ (by decide) (by decide)).mpr (by decide))

/-- A node behind the buffer of a string of 16 characters. -/
theorem node_behind_string_is_misaligned :
    ¬ ∀ (state : AllocState) (ops : List TypedOp),
      (∀ o ∈ ops, o.type.alignT ∣ state.start.toNat) →
      Lib.Along Heap.typedStep Heap.Frees ⟨state, []⟩ ops →
      ∀ x ∈ (Lib.runs Heap.typedStep ⟨state, []⟩ ops).2, x.1.Aligned x.2 := by
  intro h
  have haligned := h ⟨96, 8192⟩ [.allocate charType 17, .allocate nodeType 1] (by decide)
    (by decide) (.allocate nodeType 1, some 113) (by decide)
  exact absurd (show 8 ∣ 113 from haligned) (by decide)

end AdvCppTP.Shmem
