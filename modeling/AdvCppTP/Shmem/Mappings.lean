import AdvCppTP.Lib.Runs
import Mathlib.Order.Interval.Finset.Nat

/-! The pages that `shmem::Map` objects map when they are constructed and unmap when they are
destroyed, in an address space of pages that `pageSize` bytes are in. -/

namespace AdvCppTP.Shmem

def mmapDefaultSize : Nat := 8192

def pagesOf (pageSize size : Nat) : Nat := (size + pageSize - 1) / pageSize

/-- The pages of an `mmap` of `size` bytes that begins with page `base`. -/
def mmapPages (pageSize base size : Nat) : Finset Nat :=
  Finset.Ico base (base + pagesOf pageSize size)

/-- `::munmap(addr, len)` takes away each page that has an address in `[addr, addr + len)`. -/
def munmap (pageSize addr len : Nat) (mapped : Finset Nat) : Finset Nat :=
  mapped.filter fun q => ¬ (q * pageSize < addr + len ∧ addr < (q + 1) * pageSize)

/-- A `Map` by the page of its `state_`, and what it was constructed with. -/
structure MapObject where
  base : Nat
  mmapSize : Nat
  deriving DecidableEq, Repr

def MapObject.pages (pageSize : Nat) (m : MapObject) : Finset Nat :=
  mmapPages pageSize m.base m.mmapSize

structure AddressSpace where
  mapped : Finset Nat
  maps : List MapObject
  deriving DecidableEq

inductive MapEvent
  | mmapFails (mmapSize : Nat) (errno : String)
  | semInitFails (m : MapObject) (errno : String)
  | construct (m : MapObject)
  | destroy (m : MapObject)
  deriving DecidableEq, Repr

/-- `Map::Map` with what it throws, and `Map::~Map`. -/
def AddressSpace.step (pageSize : Nat) (s : AddressSpace) :
    MapEvent → AddressSpace × Option String
  | .mmapFails _ errno => (s, some ("Mmap failed: " ++ errno))
  | .semInitFails m errno =>
    let mapped := s.mapped ∪ m.pages pageSize
    ({ s with mapped := munmap pageSize (m.base * pageSize) mmapDefaultSize mapped },
      some ("Semaphore init failure: " ++ errno))
  | .construct m => (⟨s.mapped ∪ m.pages pageSize, m :: s.maps⟩, none)
  | .destroy m =>
    (⟨munmap pageSize (m.base * pageSize) mmapDefaultSize s.mapped, s.maps.erase m⟩, none)

/-- `mmap` of some bytes returns pages that are not mapped, and what is destroyed is live. -/
def AddressSpace.Allows (pageSize : Nat) (s : AddressSpace) : MapEvent → Prop
  | .mmapFails _ _ => True
  | .semInitFails m _ => 0 < m.mmapSize ∧ Disjoint (m.pages pageSize) s.mapped
  | .construct m => 0 < m.mmapSize ∧ Disjoint (m.pages pageSize) s.mapped
  | .destroy m => m ∈ s.maps

instance (pageSize : Nat) (s : AddressSpace) : (e : MapEvent) → Decidable (s.Allows pageSize e)
  | .mmapFails _ _ => .isTrue trivial
  | .semInitFails m _ =>
    inferInstanceAs (Decidable (0 < m.mmapSize ∧ Disjoint (m.pages pageSize) s.mapped))
  | .construct m =>
    inferInstanceAs (Decidable (0 < m.mmapSize ∧ Disjoint (m.pages pageSize) s.mapped))
  | .destroy m => inferInstanceAs (Decidable (m ∈ s.maps))

/-- No page of a `Map` that lives on or of another mapping goes, and no page of any other `Map`
stays. -/
def AddressSpace.ReleasesOwn (pageSize : Nat) (others : Finset Nat) (s : AddressSpace)
    (e : MapEvent) : Prop :=
  (∀ q ∈ s.mapped, q ∉ (s.step pageSize e).1.mapped →
    q ∉ others ∧ ∀ m ∈ (s.step pageSize e).1.maps, q ∉ m.pages pageSize) ∧
  ∀ q ∈ (s.step pageSize e).1.mapped,
    q ∈ others ∨ ∃ m ∈ (s.step pageSize e).1.maps, q ∈ m.pages pageSize

/-- What `MMAP_DEFAULT_SIZE` bytes from there on take of the mapped pages is all of the map. -/
def AddressSpace.Covers (pageSize : Nat) (s : AddressSpace) (m : MapObject) : Prop :=
  pagesOf pageSize m.mmapSize ≤ pagesOf pageSize mmapDefaultSize ∧
    ∀ q ∈ Finset.Ico (m.base + pagesOf pageSize m.mmapSize)
      (m.base + pagesOf pageSize mmapDefaultSize), q ∉ s.mapped

def AddressSpace.DefaultFits (pageSize : Nat) (s : AddressSpace) : MapEvent → Prop
  | .semInitFails m _ => s.Covers pageSize m
  | .destroy m => s.Covers pageSize m
  | _ => True

instance (pageSize : Nat) (s : AddressSpace) (m : MapObject) :
    Decidable (s.Covers pageSize m) :=
  inferInstanceAs (Decidable (_ ∧ _))

instance (pageSize : Nat) (s : AddressSpace) :
    (e : MapEvent) → Decidable (s.DefaultFits pageSize e)
  | .mmapFails _ _ => .isTrue trivial
  | .semInitFails m _ => inferInstanceAs (Decidable (s.Covers pageSize m))
  | .construct _ => .isTrue trivial
  | .destroy m => inferInstanceAs (Decidable (s.Covers pageSize m))

/-! ## Pages -/

variable {pageSize : Nat}

theorem pagesOf_pos {size : Nat} (hpage : 0 < pageSize) (hsize : 0 < size) :
    0 < pagesOf pageSize size :=
  Nat.div_pos (by omega) hpage

theorem lt_pagesOf_iff {size i : Nat} (hpage : 0 < pageSize) :
    i < pagesOf pageSize size ↔ i * pageSize < size := by
  rw [pagesOf, ← Nat.succ_le_iff, Nat.le_div_iff_mul_le hpage, Nat.succ_mul]
  omega

/-- From the start of a page on, the pages taken away are those that `mmap` would give. -/
theorem munmap_eq_sdiff (hpage : 0 < pageSize) (base len : Nat) (mapped : Finset Nat) :
    munmap pageSize (base * pageSize) len mapped = mapped \ mmapPages pageSize base len := by
  ext q
  rw [munmap, Finset.mem_filter, Finset.mem_sdiff, mmapPages, Finset.mem_Ico]
  refine and_congr_right fun _ => not_congr ?_
  rw [Nat.mul_lt_mul_right hpage, Nat.lt_succ_iff, and_comm]
  refine and_congr_right fun hle => ?_
  obtain ⟨i, rfl⟩ := Nat.exists_eq_add_of_le hle
  rw [Nat.add_mul, Nat.add_lt_add_iff_left, Nat.add_lt_add_iff_left, lt_pagesOf_iff hpage]

/-- Taking away `n` pages leaves exactly what does not belong to a run of `k` pages. -/
theorem sdiff_run_eq_iff {rest : Finset Nat} {base k n : Nat} (hk : 0 < k)
    (hrest : Disjoint (Finset.Ico base (base + k)) rest) :
    (rest ∪ Finset.Ico base (base + k)) \ Finset.Ico base (base + n) = rest ↔
      k ≤ n ∧ ∀ q ∈ Finset.Ico (base + k) (base + n), q ∉ rest := by
  rw [Finset.disjoint_left] at hrest
  constructor
  · intro heq
    refine ⟨?_, fun q hq hin => ?_⟩
    · by_contra hlt
      have hlast : base + (k - 1) ∈ Finset.Ico base (base + k) := by
        rw [Finset.mem_Ico]
        omega
      refine hrest hlast (heq ▸ Finset.mem_sdiff.mpr ⟨Finset.mem_union_right _ hlast, ?_⟩)
      rw [Finset.mem_Ico]
      omega
    · rw [← heq, Finset.mem_sdiff, Finset.mem_Ico] at hin
      rw [Finset.mem_Ico] at hq
      omega
  · rintro ⟨hle, hfree⟩
    ext q
    rw [Finset.mem_sdiff, Finset.mem_union]
    constructor
    · rintro ⟨hin | hown, hout⟩
      · exact hin
      · rw [Finset.mem_Ico] at hown hout
        omega
    · intro hin
      refine ⟨.inl hin, fun hout => ?_⟩
      have hown : q ∉ Finset.Ico base (base + k) := fun hown => hrest hown hin
      refine hfree q ?_ hin
      rw [Finset.mem_Ico] at hown hout ⊢
      omega

/-! ## Whose pages are mapped -/

/-- The pages of the other mappings and those of the maps. -/
def belongs (pageSize : Nat) (others : Finset Nat) : List MapObject → Finset Nat
  | [] => others
  | m :: maps => belongs pageSize others maps ∪ m.pages pageSize

theorem mem_belongs {others : Finset Nat} {maps : List MapObject} {q : Nat} :
    q ∈ belongs pageSize others maps ↔ q ∈ others ∨ ∃ m ∈ maps, q ∈ m.pages pageSize := by
  induction maps with
  | nil => simp [belongs]
  | cons m maps ih =>
    rw [belongs, Finset.mem_union, ih, List.exists_mem_cons_iff, or_assoc, or_comm (a := ∃ _, _)]

/-- Mapped is what belongs to someone, and each page to one only. -/
structure AddressSpace.Owned (pageSize : Nat) (others : Finset Nat) (s : AddressSpace) : Prop where
  mapped : s.mapped = belongs pageSize others s.maps
  sizes : ∀ m ∈ s.maps, 0 < m.mmapSize
  foreign : ∀ m ∈ s.maps, Disjoint (m.pages pageSize) others
  apart : s.maps.Pairwise fun m m' => Disjoint (m.pages pageSize) (m'.pages pageSize)

section

variable {others : Finset Nat} {s : AddressSpace}

theorem AddressSpace.owned_init (pageSize : Nat) (others : Finset Nat) :
    AddressSpace.Owned pageSize others ⟨others, []⟩ where
  mapped := rfl
  sizes _ hm := absurd hm List.not_mem_nil
  foreign _ hm := absurd hm List.not_mem_nil
  apart := List.Pairwise.nil

theorem AddressSpace.Owned.construct (h : s.Owned pageSize others) {m : MapObject}
    (hsize : 0 < m.mmapSize) (hfresh : Disjoint (m.pages pageSize) s.mapped) :
    AddressSpace.Owned pageSize others ⟨s.mapped ∪ m.pages pageSize, m :: s.maps⟩ where
  mapped := congrArg (· ∪ m.pages pageSize) h.mapped
  sizes := List.forall_mem_cons.mpr ⟨hsize, h.sizes⟩
  foreign := by
    refine List.forall_mem_cons.mpr ⟨?_, h.foreign⟩
    refine hfresh.mono_right fun q hq => ?_
    rw [h.mapped]
    exact mem_belongs.mpr (.inl hq)
  apart := by
    refine List.Pairwise.cons (fun m' hm' => ?_) h.apart
    refine hfresh.mono_right fun q hq => ?_
    rw [h.mapped]
    exact mem_belongs.mpr (.inr ⟨m', hm', hq⟩)

/-- The pages of a live map are those it does not share with what is left without it. -/
theorem AddressSpace.Owned.split (h : s.Owned pageSize others) {m : MapObject} (hm : m ∈ s.maps) :
    s.mapped = belongs pageSize others (s.maps.erase m) ∪ m.pages pageSize ∧
      Disjoint (m.pages pageSize) (belongs pageSize others (s.maps.erase m)) := by
  have hperm := List.perm_cons_erase hm
  constructor
  · rw [h.mapped]
    show belongs pageSize others s.maps = belongs pageSize others (m :: s.maps.erase m)
    ext q
    rw [mem_belongs, mem_belongs]
    simp only [hperm.mem_iff]
  · have hapart := (hperm.pairwise_iff fun {x y} hxy => Disjoint.symm hxy).mp h.apart
    rw [Finset.disjoint_left]
    intro q hq hin
    rcases mem_belongs.mp hin with hother | ⟨m', hm', hq'⟩
    · exact Finset.disjoint_left.mp (h.foreign m hm) hq hother
    · exact Finset.disjoint_left.mp ((List.pairwise_cons.mp hapart).1 m' hm') hq hq'

theorem AddressSpace.Owned.destroy (h : s.Owned pageSize others) (m : MapObject) :
    AddressSpace.Owned pageSize others
      ⟨belongs pageSize others (s.maps.erase m), s.maps.erase m⟩ where
  mapped := rfl
  sizes m' hm' := h.sizes m' (List.mem_of_mem_erase hm')
  foreign m' hm' := h.foreign m' (List.mem_of_mem_erase hm')
  apart := h.apart.sublist List.erase_sublist

/-- What a step should leave mapped. -/
theorem AddressSpace.Owned.releasesOwn_iff (h : s.Owned pageSize others) (e : MapEvent) :
    s.ReleasesOwn pageSize others e ↔
      (s.step pageSize e).1.mapped = belongs pageSize others (s.step pageSize e).1.maps := by
  have hkept : ∀ q ∈ belongs pageSize others (s.step pageSize e).1.maps,
      q ∈ s.mapped ∨ q ∈ (s.step pageSize e).1.mapped := by
    intro q hq
    rw [h.mapped]
    cases e with
    | mmapFails mmapSize errno => exact .inl hq
    | semInitFails m errno => exact .inl hq
    | construct m =>
      rcases Finset.mem_union.mp hq with hq | hq
      · exact .inl hq
      · exact .inr (Finset.mem_union_right _ hq)
    | destroy m =>
      rcases mem_belongs.mp hq with hq | ⟨m', hm', hq⟩
      · exact .inl (mem_belongs.mpr (.inl hq))
      · exact .inl (mem_belongs.mpr (.inr ⟨m', List.mem_of_mem_erase hm', hq⟩))
  constructor
  · rintro ⟨hgone, hstays⟩
    ext q
    refine ⟨fun hq => mem_belongs.mpr (hstays q hq), fun hq => ?_⟩
    by_contra hout
    have hwhose := hgone q ((hkept q hq).resolve_right hout) hout
    rcases mem_belongs.mp hq with hq | ⟨m, hm, hq⟩
    · exact hwhose.1 hq
    · exact hwhose.2 m hm hq
  · intro heq
    refine ⟨fun q _ hout => ?_, fun q hq => mem_belongs.mp (heq ▸ hq)⟩
    rw [heq, mem_belongs, not_or, not_exists] at hout
    exact ⟨hout.1, fun m hm hq => hout.2 m ⟨hm, hq⟩⟩

theorem MapObject.release_iff (hpage : 0 < pageSize) {m : MapObject}
    {rest : Finset Nat} (hsize : 0 < m.mmapSize) (hrest : Disjoint (m.pages pageSize) rest) :
    munmap pageSize (m.base * pageSize) mmapDefaultSize (rest ∪ m.pages pageSize) = rest ↔
      pagesOf pageSize m.mmapSize ≤ pagesOf pageSize mmapDefaultSize ∧
        ∀ q ∈ Finset.Ico (m.base + pagesOf pageSize m.mmapSize)
          (m.base + pagesOf pageSize mmapDefaultSize), q ∉ rest := by
  rw [munmap_eq_sdiff hpage]
  exact sdiff_run_eq_iff (pagesOf_pos hpage hsize) hrest

theorem AddressSpace.Owned.step_iff (hpage : 0 < pageSize) (h : s.Owned pageSize others)
    {e : MapEvent} (he : s.Allows pageSize e) :
    s.ReleasesOwn pageSize others e ↔ s.DefaultFits pageSize e := by
  rw [h.releasesOwn_iff]
  cases e with
  | mmapFails mmapSize errno => exact iff_of_true h.mapped trivial
  | semInitFails m errno =>
    obtain ⟨hsize, hfresh⟩ := he
    have hiff := MapObject.release_iff hpage hsize hfresh
    simp only [AddressSpace.step, ← h.mapped]
    exact hiff
  | construct m => exact iff_of_true (h.construct he.1 he.2).mapped trivial
  | destroy m =>
    obtain ⟨hsplit, hapart⟩ := h.split he
    have hiff := MapObject.release_iff hpage (h.sizes m he) hapart
    rw [← hsplit] at hiff
    refine hiff.trans (and_congr_right fun _ => forall₂_congr fun q hq => not_congr ?_)
    rw [hsplit, Finset.mem_union, or_iff_left]
    intro hown
    have hmem := Finset.mem_Ico.mp hown
    rw [Finset.mem_Ico] at hq
    omega

theorem AddressSpace.Owned.step (h : s.Owned pageSize others) {e : MapEvent}
    (he : s.Allows pageSize e) (hown : s.ReleasesOwn pageSize others e) :
    (s.step pageSize e).1.Owned pageSize others := by
  have hmapped := (h.releasesOwn_iff e).mp hown
  cases e with
  | mmapFails mmapSize errno => exact h
  | semInitFails m errno =>
    exact ⟨hmapped, h.sizes, h.foreign, h.apart⟩
  | construct m => exact h.construct he.1 he.2
  | destroy m =>
    have hdestroy := h.destroy m
    exact ⟨hmapped, hdestroy.sizes, hdestroy.foreign, hdestroy.apart⟩

end

/-- Maps release their own pages and no others in a run exactly where `MMAP_DEFAULT_SIZE` covers
what each of them has mapped and nothing that is mapped behind it; then nothing is left of maps that
have all been destroyed. -/
theorem maps_release_own_iff (hpage : 0 < pageSize) (others : Finset Nat) (es : List MapEvent)
    (hes : Lib.Along (AddressSpace.step pageSize) (AddressSpace.Allows pageSize) ⟨others, []⟩ es) :
    (Lib.Along (AddressSpace.step pageSize) (AddressSpace.ReleasesOwn pageSize others)
        ⟨others, []⟩ es ↔
      Lib.Along (AddressSpace.step pageSize) (AddressSpace.DefaultFits pageSize)
        ⟨others, []⟩ es) ∧
      (Lib.Along (AddressSpace.step pageSize) (AddressSpace.DefaultFits pageSize) ⟨others, []⟩ es →
        (Lib.runs (AddressSpace.step pageSize) ⟨others, []⟩ es).1.maps = [] →
          (Lib.runs (AddressSpace.step pageSize) ⟨others, []⟩ es).1.mapped = others) := by
  have hinit := AddressSpace.owned_init pageSize others
  have hkeep : ∀ s e, AddressSpace.Owned pageSize others s → s.Allows pageSize e →
      s.DefaultFits pageSize e → (s.step pageSize e).1.Owned pageSize others :=
    fun s e hs he hfits => hs.step he ((hs.step_iff hpage he).mpr hfits)
  refine ⟨Lib.along_congr_of (fun s e hs he => hs.step_iff hpage he) hkeep hinit hes, ?_⟩
  intro hfits hnone
  have hend : (Lib.runs (AddressSpace.step pageSize) ⟨others, []⟩ es).1.Owned pageSize others :=
    Lib.runs_invariant_along (fun s e hs he => hkeep s e hs he.1 he.2) hinit
      ((Lib.along_and _ _ _ _ _).mpr ⟨hes, hfits⟩)
  rw [hend.mapped, hnone, belongs]

theorem maps_release_own_example :
    (Lib.runs (AddressSpace.step 4096) ⟨{2, 9}, []⟩ [.construct ⟨0, 8192⟩, .construct ⟨5, 5000⟩,
      .semInitFails ⟨7, 8192⟩ "EINVAL", .destroy ⟨0, 8192⟩, .destroy ⟨5, 5000⟩]).1.mapped =
        {2, 9} :=
  (maps_release_own_iff (by decide) {2, 9} _ (by decide)).2 (by decide) (by decide)

/-- A map of one page takes the page behind it along, one of three pages leaves its last. -/
theorem other_sizes_are_not_released :
    (¬ ∀ (others : Finset Nat) (es : List MapEvent),
      Lib.Along (AddressSpace.step 4096) (AddressSpace.Allows 4096) ⟨others, []⟩ es →
      ∀ q ∈ others, q ∈ (Lib.runs (AddressSpace.step 4096) ⟨others, []⟩ es).1.mapped) ∧
    ¬ ∀ (others : Finset Nat) (es : List MapEvent),
      Lib.Along (AddressSpace.step 4096) (AddressSpace.Allows 4096) ⟨others, []⟩ es →
      (Lib.runs (AddressSpace.step 4096) ⟨others, []⟩ es).1.maps = [] →
      ∀ q ∈ (Lib.runs (AddressSpace.step 4096) ⟨others, []⟩ es).1.mapped, q ∈ others := by
  constructor
  · intro h
    have hstays := h {1} [.construct ⟨0, 4096⟩, .destroy ⟨0, 4096⟩] (by decide) 1 (by decide)
    exact absurd hstays (by decide)
  · intro h
    have hgone := h ∅ [.construct ⟨0, 12288⟩, .destroy ⟨0, 12288⟩] (by decide) (by decide) 2
      (by decide)
    exact absurd hgone (by decide)

end AdvCppTP.Shmem
