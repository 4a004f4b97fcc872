import AdvCppTP.Lib.Emplace
import AdvCppTP.Shmem.Slots

/-! What is left of the shared memory of a `shmem::Map` of plain data after any calls. -/

namespace AdvCppTP.Shmem

open Lib

variable {κ ν α : Type*}

def Shared.call [DecidableEq κ] (nodeSize : UInt64) (s : Shared κ ν) (c : Call κ ν) :
    Shared κ ν × Option Thrown :=
  ((c.run (.pod κ) (.pod ν) nodeSize s).state, (c.run (.pod κ) (.pod ν) nodeSize s).thrown)

/-- A map that has just been built. -/
def Shared.fresh (state : AllocState) : Shared κ ν := ⟨⟨state, []⟩, 1, ∅⟩

def AllocState.space (state : AllocState) : Int := state.end_.toNat - state.start.toNat

def Slots.capacity (state : AllocState) (nodeSize : UInt64) : Nat :=
  (state.end_.toNat - state.start.toNat) / nodeSize.toNat

/-- A node takes room, and the region lies far from the word limit. -/
structure AllocState.Addressable (state : AllocState) (nodeSize : UInt64) : Prop where
  size : 0 < nodeSize.toNat
  node : nodeSize.toNat < 2 ^ 63
  start : state.start.toNat < 2 ^ 63
  end_ : state.end_.toNat < 2 ^ 63

theorem construct_pod (data : α) :
    (ObjectType.pod α).construct data = (Prog.pure ⟨data, []⟩ : Prog Thrown (Shared κ ν) _) := rfl

/-- A temporary of plain data is not seen. -/
theorem converted_pod (obj : α) {γ : Type*} (m : α → Prog Thrown (Shared κ ν) γ) :
    (getObjectWithAllocator (.pod α) obj).inScope Object.destroy
      (fun o => (m o.data).andThen fun r => .pure (r, o)) = m obj := by
  funext s
  simp only [getObjectWithAllocator, construct_pod, Prog.inScope, Prog.andThen,
    Prog.pure, Prog.unwinding, Prog.update]
  cases m obj s with
  | returns r s' => rfl
  | throws x s' => rfl
  | waits s' => rfl

/-- Nobody else is inside. -/
theorem semLock_ends {m : Prog Thrown (Shared κ ν) α} {s : Shared κ ν}
    {post : Option Thrown → Shared κ ν → Prop} (hsem : s.sem = 1)
    (h : (m { s with sem := 0 }).Ends fun x s' => post x (semPost s')) :
    (semLock m s).Ends post := by
  have hwait : semWait s = .returns () { s with sem := 0 } := by
    rw [semWait, if_neg (by omega), hsem]
  simp only [semLock, Prog.inScope, Prog.andThen, Prog.unwinding, Prog.update, Prog.pure, hwait]
  cases hm : m { s with sem := 0 } with
  | returns r s' => exact (hm ▸ h : (Outcome.returns r s').Ends _)
  | throws x s' => exact (hm ▸ h : (Outcome.throws x s').Ends _)
  | waits s' => exact (hm ▸ h : (Outcome.waits s').Ends _)

variable [DecidableEq κ]

theorem insertOrAssign_pod (nodeSize : UInt64) (key : κ) (value : ν) (s : Shared κ ν) :
    insertOrAssign (.pod κ) (.pod ν) nodeSize key value s =
      match s.mapObject.lookup key with
      | none => match newBlock nodeSize 1 s with
        | .returns b s' => .returns (b.p, true) (s'.put key ⟨b, [], ⟨value, []⟩⟩)
        | .throws x s' => .throws x s'
        | .waits s' => .waits s'
      | some node => .returns (node.block.p, false)
          (s.put key { node with value := ⟨value, node.value.blocks⟩ }) := by
  rw [insertOrAssign, Prog.read]
  cases s.mapObject.lookup key with
  | none =>
    simp only [newNode, Prog.andThen]
    cases newBlock nodeSize 1 s with
    | returns b s' => rfl
    | throws x s' => rfl
    | waits s' => rfl
  | some node => rfl

theorem insertOrAssignMoved_pod (nodeSize : UInt64) (key : κ) (value : ν) :
    insertOrAssignMoved nodeSize ⟨key, []⟩ ⟨value, []⟩ =
      (insertOrAssign (.pod κ) (.pod ν) nodeSize key value).andThen fun r =>
        .pure (r, ⟨key, []⟩, ⟨value, []⟩) := by
  funext s
  rw [Prog.andThen, insertOrAssign_pod, insertOrAssignMoved, Prog.read]
  cases s.mapObject.lookup key with
  | none =>
    simp only [Prog.andThen]
    cases newBlock nodeSize 1 s with
    | returns b s' => rfl
    | throws x s' => rfl
    | waits s' => rfl
  | some node => rfl

theorem insertConverted_pod (nodeSize : UInt64) (key : κ) (value : ν) :
    Map.insertConverted (.pod κ) (.pod ν) nodeSize key value =
      Map.insert (.pod κ) (.pod ν) nodeSize key value := by
  funext s
  simp only [Map.insertConverted, Map.insert, getObjectWithAllocator, construct_pod, semLock,
    insertOrAssignMoved_pod, Prog.inScope, Prog.andThen, Prog.pure, Prog.unwinding, Prog.update]
  cases semWait s with
  | returns u s' =>
    simp only
    cases insertOrAssign (.pod κ) (.pod ν) nodeSize key value s' with
    | returns r s' => rfl
    | throws x s' => rfl
    | waits s' => rfl
  | throws x s' => rfl
  | waits s' => rfl

/-- The nodes lie in the slots of their keys, up to the bump pointer. -/
structure Slots.Lays (state : AllocState) (nodeSize : UInt64) (slots : Slots κ)
    (s : Shared κ ν) : Prop where
  start : s.heap.state.start.toNat = state.start.toNat + nodeSize.toNat * slots.length
  end_ : s.heap.state.end_ = state.end_
  fits : slots.length ≤ Slots.capacity state nodeSize
  keys : ∀ key ∈ s.mapObject, some key ∈ slots
  nodes : ∀ above key below, slots = above ++ some key :: below →
    some key ∉ below ∧ ∃ p value,
      s.mapObject.lookup key = some ⟨⟨p, nodeSize, 1⟩, [], ⟨value, []⟩⟩ ∧
      p.toNat = state.start.toNat + nodeSize.toNat * below.length

section Lays

variable {state : AllocState} {nodeSize : UInt64} {slots : Slots κ} {s : Shared κ ν}

theorem Slots.Lays.mem_iff (h : slots.Lays state nodeSize s) (key : κ) :
    key ∈ s.mapObject ↔ some key ∈ slots := by
  refine ⟨h.keys key, fun hmem => ?_⟩
  obtain ⟨above, below, hsplit⟩ := List.append_of_mem hmem
  obtain ⟨-, p, value, hlookup, -⟩ := h.nodes above key below hsplit
  exact AList.lookup_isSome.mp (hlookup ▸ rfl)

theorem Slots.Lays.notMem_of_lookup (h : slots.Lays state nodeSize s) {key : κ}
    (hlookup : s.mapObject.lookup key = none) : some key ∉ slots :=
  fun hmem => AList.lookup_eq_none.mp hlookup ((h.mem_iff key).mpr hmem)

theorem Slots.Lays.exists_slot (h : slots.Lays state nodeSize s) {key : κ} {node : Node ν}
    (hlookup : s.mapObject.lookup key = some node) :
    ∃ above below p value, slots = above ++ some key :: below ∧
      node = ⟨⟨p, nodeSize, 1⟩, [], ⟨value, []⟩⟩ ∧
      p.toNat = state.start.toNat + nodeSize.toNat * below.length := by
  obtain ⟨above, below, hsplit⟩ := List.append_of_mem (h.keys key (mem_of_lookup hlookup))
  obtain ⟨-, p, value, hnode, hp⟩ := h.nodes above key below hsplit
  exact ⟨above, below, p, value, hsplit, Option.some.inj (hlookup.symm.trans hnode), hp⟩

theorem Slots.Lays.of_same (h : slots.Lays state nodeSize s) {s' : Shared κ ν}
    (hheap : s'.heap = s.heap) (hmap : s'.mapObject = s.mapObject) :
    slots.Lays state nodeSize s' := by
  obtain ⟨heap, sem, mapObject⟩ := s'
  obtain rfl : heap = s.heap := hheap
  obtain rfl : mapObject = s.mapObject := hmap
  exact ⟨h.start, h.end_, h.fits, h.keys, h.nodes⟩

theorem mapAt_ends (h : slots.Lays state nodeSize s) (key : κ) :
    (mapAt key s).Ends fun x s' =>
      x = (if some key ∈ slots then none else some .outOfRange) ∧ s' = s := by
  rw [mapAt, Prog.read]
  cases hlookup : s.mapObject.lookup key with
  | none =>
    have habsent := h.notMem_of_lookup hlookup
    exact ⟨(if_neg habsent).symm, rfl⟩
  | some node =>
    have hpresent : some key ∈ slots := h.keys key (mem_of_lookup hlookup)
    exact ⟨(if_pos hpresent).symm, rfl⟩

/-- Addresses of slots do not wrap. -/
theorem Slots.Lays.slot_end (h : slots.Lays state nodeSize s)
    (hstate : state.Addressable nodeSize) {p : UInt64} {n : Nat} (hn : n ≤ slots.length)
    (hp : p.toNat = state.start.toNat + nodeSize.toNat * n) :
    (p + nodeSize * 1).toNat = state.start.toNat + nodeSize.toNat * (n + 1) := by
  have hfits : nodeSize.toNat * n ≤ state.end_.toNat - state.start.toNat :=
    (Nat.mul_le_mul_left _ (hn.trans h.fits)).trans (Nat.mul_div_le _ _)
  obtain ⟨-, hnode, hstart, hend⟩ := hstate
  rw [toNat_bytes (by rw [hp, UInt64.toNat_one, Nat.mul_one]; omega), hp, UInt64.toNat_one,
    Nat.mul_one, Nat.mul_succ, Nat.add_assoc]

theorem Slots.capacity_le_iff (state : AllocState) {nodeSize : UInt64}
    (hsize : 0 < nodeSize.toNat) (n : Nat) : Slots.capacity state nodeSize ≤ n ↔
      state.end_.toNat < state.start.toNat + nodeSize.toNat * (n + 1) := by
  rw [Slots.capacity, ← Nat.lt_succ_iff, Nat.div_lt_iff_lt_mul hsize, Nat.mul_comm (n + 1)]
  have hpos : 0 < nodeSize.toNat * (n + 1) := Nat.mul_pos hsize (Nat.succ_pos _)
  omega

/-- The room behind the bump pointer is that for another slot. -/
theorem Slots.Lays.full_iff (h : slots.Lays state nodeSize s)
    (hstate : state.Addressable nodeSize) : s.heap.state.start + nodeSize * 1 > s.heap.state.end_ ↔
      Slots.capacity state nodeSize ≤ slots.length := by
  rw [gt_iff_lt, UInt64.lt_iff_toNat_lt, h.slot_end hstate le_rfl h.start, h.end_,
    Slots.capacity_le_iff state hstate.size]

theorem Slots.Lays.put_new (h : slots.Lays state nodeSize s)
    (hstate : state.Addressable nodeSize) {key : κ} (habsent : some key ∉ slots)
    (hroom : ¬ Slots.capacity state nodeSize ≤ slots.length)
    (value : ν) (live : List Block) :
    Slots.Lays state nodeSize (some key :: slots)
      (Shared.put key ⟨⟨s.heap.state.start, nodeSize, 1⟩, [], ⟨value, []⟩⟩ { s with heap :=
        ⟨{ s.heap.state with start := s.heap.state.start + nodeSize * 1 }, live⟩ }) where
  start := h.slot_end hstate le_rfl h.start
  end_ := h.end_
  fits := Nat.lt_of_not_le hroom
  keys key' hmem := by
    rcases (AList.mem_insert _).mp hmem with rfl | hmem
    · exact List.mem_cons_self
    · exact List.mem_cons_of_mem _ (h.keys key' hmem)
  nodes above key' below hsplit := by
    cases above with
    | nil =>
      obtain ⟨hkey, rfl⟩ := List.cons.inj hsplit
      obtain rfl := Option.some.inj hkey
      exact ⟨habsent, _, value, AList.lookup_insert _, h.start⟩
    | cons slot above =>
      obtain ⟨-, hrest⟩ := List.cons.inj hsplit
      obtain ⟨hbelow, p, value', hlookup, hp⟩ := h.nodes above key' below hrest
      refine ⟨hbelow, p, value', ?_, hp⟩
      have hne : key' ≠ key := fun heq => habsent (heq ▸ hrest ▸ by simp)
      exact (AList.lookup_insert_ne hne).trans hlookup

theorem Slots.Lays.put_again (h : slots.Lays state nodeSize s) {key : κ} {p : UInt64}
    {value₀ : ν} (hlookup : s.mapObject.lookup key = some ⟨⟨p, nodeSize, 1⟩, [], ⟨value₀, []⟩⟩)
    (value : ν) :
    slots.Lays state nodeSize (s.put key ⟨⟨p, nodeSize, 1⟩, [], ⟨value, []⟩⟩) where
  start := h.start
  end_ := h.end_
  fits := h.fits
  keys key' hmem := by
    rcases (AList.mem_insert _).mp hmem with rfl | hmem
    · exact h.keys _ (mem_of_lookup hlookup)
    · exact h.keys key' hmem
  nodes above key' below hsplit := by
    obtain ⟨hbelow, p', value', hlookup', hp⟩ := h.nodes above key' below hsplit
    by_cases heq : key' = key
    · subst heq
      obtain rfl : p' = p := by
        rw [hlookup] at hlookup'
        cases hlookup'
        rfl
      exact ⟨hbelow, p', value, AList.lookup_insert _, hp⟩
    · exact ⟨hbelow, p', value', (AList.lookup_insert_ne heq).trans hlookup', hp⟩

theorem insertOrAssign_ends (h : slots.Lays state nodeSize s)
    (hstate : state.Addressable nodeSize) (key : κ) (value : ν) :
    (insertOrAssign (.pod κ) (.pod ν) nodeSize key value s).Ends fun x s' =>
      x = (slots.push (Slots.capacity state nodeSize) key).2 ∧ s'.sem = s.sem ∧
        (slots.push (Slots.capacity state nodeSize) key).1.Lays state nodeSize s' := by
  rw [insertOrAssign_pod, Slots.push]
  cases hlookup : s.mapObject.lookup key with
  | none =>
    have habsent := h.notMem_of_lookup hlookup
    have hfull := h.full_iff hstate
    simp only [if_neg habsent]
    by_cases hroom : Slots.capacity state nodeSize ≤ slots.length
    · simp only [newBlock, Heap.step, Shmem.allocate, if_pos (hfull.mpr hroom), if_pos hroom]
      exact ⟨rfl, rfl, h⟩
    · simp only [newBlock, Heap.step, Shmem.allocate, if_neg (mt hfull.mp hroom), if_neg hroom]
      exact ⟨rfl, rfl, h.put_new hstate habsent hroom value _⟩
  | some node =>
    have hpresent : some key ∈ slots := h.keys key (mem_of_lookup hlookup)
    obtain ⟨above, below, p, value₀, -, rfl, -⟩ := h.exists_slot hlookup
    rw [if_pos hpresent]
    exact ⟨rfl, rfl, h.put_again hlookup value⟩

theorem Slots.Lays.pop {key : κ} {rest : Slots κ}
    (h : Slots.Lays state nodeSize (some key :: rest) s) {p : UInt64}
    (hp : p.toNat = state.start.toNat + nodeSize.toNat * rest.length) (live : List Block) :
    rest.Lays state nodeSize { s.remove key with heap := ⟨{ s.heap.state with start := p }, live⟩ }
    where
  start := hp
  end_ := h.end_
  fits := (Nat.le_succ _).trans h.fits
  keys key' hmem := by
    obtain ⟨hne, hmem⟩ := AList.mem_erase.mp hmem
    rcases List.mem_cons.mp (h.keys key' hmem) with heq | hrest
    · exact absurd (Option.some.inj heq) hne
    · exact hrest
  nodes above key' below hsplit := by
    obtain ⟨hbelow, p', value, hlookup, hp'⟩ := h.nodes (some key :: above) key' below (by
      rw [hsplit, List.cons_append])
    refine ⟨hbelow, p', value, (AList.lookup_erase_ne fun heq => ?_).trans hlookup, hp'⟩
    exact (h.nodes [] key rest rfl).1 (heq ▸ hsplit ▸ by simp)

theorem Slots.Lays.blank (h : slots.Lays state nodeSize s) (key : κ) (live : List Block) :
    Slots.Lays state nodeSize (slots.map fun slot => if slot = some key then none else slot)
      { s.remove key with heap := ⟨s.heap.state, live⟩ } where
  start := by rw [List.length_map]; exact h.start
  end_ := h.end_
  fits := by rw [List.length_map]; exact h.fits
  keys key' hmem := by
    obtain ⟨hne, hmem⟩ := AList.mem_erase.mp hmem
    exact List.mem_map.mpr ⟨some key', h.keys key' hmem, if_neg (by simpa using hne)⟩
  nodes above key' below hsplit := by
    obtain ⟨above', rest, rfl, rfl, hrest⟩ := List.map_eq_append_iff.mp hsplit
    obtain ⟨slot, below', rfl, hslot, rfl⟩ := List.map_eq_cons_iff.mp hrest
    split at hslot
    · cases hslot
    case isFalse hne =>
      subst hslot
      obtain ⟨hbelow, p, value, hlookup, hp⟩ := h.nodes above' key' below' rfl
      refine ⟨fun hmem => ?_, p, value, ?_, by rw [List.length_map]; exact hp⟩
      · obtain ⟨slot, hslot, heq⟩ := List.mem_map.mp hmem
        split at heq
        · cases heq
        · exact hbelow (heq ▸ hslot)
      · exact (AList.lookup_erase_ne fun heq => hne (congrArg some heq)).trans hlookup

/-- An erased key lies in the topmost slot exactly when its node ends at the bump pointer. -/
theorem Slots.Lays.on_top_iff {above below : Slots κ} {key : κ}
    (h : Slots.Lays state nodeSize (above ++ some key :: below) s)
    (hstate : state.Addressable nodeSize) {p : UInt64}
    (hp : p.toNat = state.start.toNat + nodeSize.toNat * below.length) :
    p + nodeSize * 1 = s.heap.state.start ↔ above = [] := by
  have hlength : (above ++ some key :: below).length = above.length + (below.length + 1) :=
    List.length_append
  have hslot := h.slot_end hstate (by rw [hlength]; omega) hp
  rw [← UInt64.toNat_inj, hslot, h.start, hlength, Nat.add_right_inj,
    Nat.mul_right_inj hstate.size.ne', ← List.length_eq_zero_iff]
  omega

theorem Slots.Lays.head?_eq_iff {above below : Slots κ} {key : κ}
    (h : Slots.Lays state nodeSize (above ++ some key :: below) s) :
    (above ++ some key :: below).head? = some (some key) ↔ above = [] := by
  cases above with
  | nil => exact iff_of_true rfl rfl
  | cons slot above =>
    refine iff_of_false (fun htop => ?_) (List.cons_ne_nil _ _)
    obtain rfl : slot = some key := Option.some.inj htop
    exact (h.nodes [] key (above ++ some key :: below) rfl).1 (by simp)

theorem Node.drop_pod (p nodeSize : UInt64) (value : ν) (key : κ) (s : Shared κ ν) :
    Node.drop ⟨⟨p, nodeSize, 1⟩, [], ⟨value, []⟩⟩ (s.remove key) = { s.remove key with heap :=
      ⟨Shmem.deallocate nodeSize p 1 s.heap.state, s.heap.live.erase ⟨p, nodeSize, 1⟩⟩ } := rfl

theorem mapErase_ends (h : slots.Lays state nodeSize s) (hstate : state.Addressable nodeSize)
    (key : κ) : (mapErase key s).Ends fun x s' =>
      x = none ∧ s'.sem = s.sem ∧ (slots.drop key).Lays state nodeSize s' := by
  rw [mapErase, Prog.read]
  cases hlookup : s.mapObject.lookup key with
  | none =>
    have habsent := h.notMem_of_lookup hlookup
    exact ⟨rfl, rfl, (Slots.drop_of_notMem habsent).symm ▸ h⟩
  | some node =>
    obtain ⟨above, below, p, value, rfl, rfl, hp⟩ := h.exists_slot hlookup
    have hfreed := h.on_top_iff hstate hp
    have hhead := h.head?_eq_iff
    refine ⟨rfl, rfl, ?_⟩
    show Slots.Lays state nodeSize _ (Node.drop ⟨⟨p, nodeSize, 1⟩, [], ⟨value, []⟩⟩ (s.remove key))
    by_cases htop : above = []
    · rw [Slots.drop, if_pos (hhead.mpr htop), Node.drop_pod, Shmem.deallocate,
        if_pos (hfreed.mpr htop)]
      subst htop
      exact h.pop hp _
    · rw [Slots.drop, if_neg (mt hhead.mp htop), Node.drop_pod, Shmem.deallocate,
        if_neg (mt hfreed.mp htop)]
      exact h.blank key _

theorem Call.run_ends (h : slots.Lays state nodeSize s) (hstate : state.Addressable nodeSize)
    (hsem : s.sem = 1) (c : Call κ ν) :
    (c.run (.pod κ) (.pod ν) nodeSize s).Ends fun x s' =>
      x = (slots.call (Slots.capacity state nodeSize) c).2 ∧ s'.sem = 1 ∧
        (slots.call (Slots.capacity state nodeSize) c).1.Lays state nodeSize s' := by
  have hlocked : slots.Lays state nodeSize { s with sem := 0 } := h.of_same rfl rfl
  -- three calls under the lock; the others convert their arguments and make one of these
  have hat : ∀ key, (Map.at key s).Ends fun x s' =>
      x = (if some key ∈ slots then none else some .outOfRange) ∧ s'.sem = 1 ∧
        slots.Lays state nodeSize s' := by
    intro key
    refine semLock_ends hsem ((mapAt_ends hlocked key).mono ?_)
    rintro x s' ⟨hx, rfl⟩
    exact ⟨hx, rfl, h.of_same rfl rfl⟩
  have herase : ∀ key, (Map.erase key s).Ends fun x s' =>
      x = none ∧ s'.sem = 1 ∧ (slots.drop key).Lays state nodeSize s' := by
    intro key
    refine semLock_ends hsem ((mapErase_ends hlocked hstate key).mono ?_)
    rintro x s' ⟨hx, hsem', hlays⟩
    exact ⟨hx, congrArg (· + 1) hsem', hlays.of_same rfl rfl⟩
  have hinsert : ∀ key value, (Map.insert (.pod κ) (.pod ν) nodeSize key value s).Ends fun x s' =>
      x = (slots.push (Slots.capacity state nodeSize) key).2 ∧ s'.sem = 1 ∧
        (slots.push (Slots.capacity state nodeSize) key).1.Lays state nodeSize s' := by
    intro key value
    refine semLock_ends hsem
      ((insertOrAssign_ends hlocked hstate key value).mono ?_)
    rintro x s' ⟨hx, hsem', hlays⟩
    exact ⟨hx, congrArg (· + 1) hsem', hlays.of_same rfl rfl⟩
  cases c with
  | «at» key => exact Prog.ends_andThen_pure _ (hat key)
  | atConverted key =>
    have hsame : Map.atConverted (.pod κ) key = (Map.at key : Prog Thrown (Shared κ ν) ν) :=
      converted_pod key Map.at
    exact Prog.ends_andThen_pure _ (hsame ▸ hat key)
  | erase key => exact Prog.ends_andThen_pure _ (herase key)
  | eraseConverted key =>
    have hsame : Map.eraseConverted (.pod κ) key = (Map.erase key : Prog Thrown (Shared κ ν) Nat) :=
      converted_pod key Map.erase
    exact Prog.ends_andThen_pure _ (hsame ▸ herase key)
  | insert key value => exact Prog.ends_andThen_pure _ (hinsert key value)
  | insertConverted key value =>
    refine Prog.ends_andThen_pure _ ?_
    rw [insertConverted_pod]
    exact hinsert key value

theorem Slots.Lays.keys_length (h : slots.Lays state nodeSize s) :
    s.mapObject.keys.length = slots.keys.length := by
  have hnodup : slots.keys.Nodup :=
    Slots.nodup_keys fun above key below hsplit => (h.nodes above key below hsplit).1
  refine ((List.perm_ext_iff_of_nodup s.mapObject.keys_nodup hnodup).mpr fun key => ?_).length_eq
  rw [AList.mem_keys.symm, h.mem_iff, Slots.mem_keys]

end Lays

theorem Slots.lays_fresh (state : AllocState) (nodeSize : UInt64) :
    Slots.Lays state nodeSize [] (Shared.fresh state : Shared κ ν) where
  start := rfl
  end_ := rfl
  fits := Nat.zero_le _
  keys _ hmem := absurd hmem (AList.notMem_empty _)
  nodes above key below hsplit := absurd hsplit (by simp)

/-- A map of plain data answers its calls as the stack of slots does. -/
theorem Shared.call_refines {state : AllocState} {nodeSize : UInt64}
    (hstate : state.Addressable nodeSize) (calls : List (Call κ ν)) :
    (runs (Shared.call nodeSize) (Shared.fresh state) calls).2 =
        (runs (Slots.call (Slots.capacity state nodeSize)) [] calls).2 ∧
      (runs (Shared.call nodeSize) (Shared.fresh state) calls).1.sem = 1 ∧
      Slots.Lays state nodeSize (runs (Slots.call (Slots.capacity state nodeSize)) [] calls).1
        (runs (Shared.call nodeSize) (Shared.fresh state) calls).1 := by
  refine runs_simulation
    (R := fun (s : Shared κ ν) (slots : Slots κ) => s.sem = 1 ∧ slots.Lays state nodeSize s)
    (fun s slots c hR _ => ?_) ⟨rfl, Slots.lays_fresh state nodeSize⟩
    (along_of_forall (p := fun _ _ => True) (fun _ _ => trivial) _ _)
  exact (Call.run_ends hR.2 hstate hR.1 c).holds

theorem Slots.Lays.space_eq {state : AllocState} {nodeSize : UInt64} {slots : Slots κ}
    {s : Shared κ ν} (h : slots.Lays state nodeSize s) :
    s.heap.state.space =
      state.space - nodeSize.toNat * (s.mapObject.keys.length + slots.holes) := by
  rw [AllocState.space, h.end_, h.start, AllocState.space, h.keys_length, slots.length_eq]
  push_cast
  omega

/-- What the nodes in the map do not take is free but for the holes, and there is none exactly when
only the key inserted last has ever been erased. -/
theorem free_space_of_calls {state : AllocState} {nodeSize : UInt64}
    (hstate : state.Addressable nodeSize) (calls : List (Call κ ν)) {s : Shared κ ν}
    (hs : s = (runs (Shared.call nodeSize) (Shared.fresh state) calls).1) {slots : Slots κ}
    (hslots : slots = (runs (Slots.call (Slots.capacity state nodeSize)) [] calls).1) :
    s.heap.state.space =
        state.space - nodeSize.toNat * (s.mapObject.keys.length + slots.holes) ∧
      (s.heap.state.space = state.space - nodeSize.toNat * s.mapObject.keys.length ↔
        Along (Slots.call (Slots.capacity state nodeSize)) Slots.ErasesLast [] calls) ∧
      ∀ c, (s.call nodeSize c).2 = some .badAlloc →
        state.space < nodeSize.toNat * (s.mapObject.keys.length + slots.holes + 1) := by
  obtain ⟨-, hsem, hlays⟩ := Shared.call_refines (ν := ν) hstate calls
  rw [← hs] at hsem
  rw [← hs, ← hslots] at hlays
  have hspace := hlays.space_eq
  refine ⟨hspace, ?_, fun c hc => ?_⟩
  · rw [← Slots.holes_runs_eq_zero_iff rfl, ← hslots, hspace, Int.mul_add]
    have hiff : nodeSize.toNat * slots.holes = 0 ↔ slots.holes = 0 := by
      rw [Nat.mul_eq_zero, or_iff_right hstate.size.ne']
    rw [← hiff]
    omega
  · have hfull : (slots.call (Slots.capacity state nodeSize) c).2 = some .badAlloc :=
      (Call.run_ends hlays hstate hsem c).holds.1.symm.trans hc
    have hlt := (Slots.capacity_le_iff state hstate.size _).mp (Slots.full_of_badAlloc hfull)
    rw [slots.length_eq, ← hlays.keys_length, ← Int.ofNat_lt] at hlt
    push_cast at hlt
    rw [AllocState.space]
    omega

theorem free_space_of_calls_example :
    (runs (Shared.call 48) (Shared.fresh ⟨1000, 2000⟩) [Call.insert (1 : Int) (0 : Int),
        .insertConverted 2 0, .insert 3 0, .erase 3, .eraseConverted 1]).1.heap.state.space =
      1000 - 48 * (1 + 1) :=
  (free_space_of_calls ⟨by decide, by decide, by decide, by decide⟩ _ rfl rfl).1

/-- The node of key 1 lies below that of key 2. -/
theorem erased_space_is_lost :
    (¬ ∀ (state : AllocState) (nodeSize : UInt64) (calls : List (Call Int Int)),
      state.start ≤ state.end_ → 0 < nodeSize →
      (runs (Shared.call nodeSize) (Shared.fresh state) calls).1.heap.state.space = state.space -
        nodeSize.toNat *
          (runs (Shared.call nodeSize) (Shared.fresh state) calls).1.mapObject.keys.length) ∧
    ((runs (Shared.call 48) (Shared.fresh ⟨1000, 1150⟩) [Call.insert (1 : Int) (0 : Int),
        .insert 2 0, .erase 1, .insert 3 0, .erase 2, .insert 4 0]).2.map Prod.snd =
      [none, none, none, none, none, some .badAlloc]) := by
  refine ⟨fun h => ?_, by decide⟩
  have hspace := h ⟨1000, 2000⟩ 48 [.insert 1 0, .insert 2 0, .erase 1] (by decide) (by decide)
  exact absurd hspace (by decide)

end AdvCppTP.Shmem
