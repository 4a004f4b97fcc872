import Mathlib.Data.List.Perm.Basic
import Mathlib.Data.UInt

/-! The keys that `FileGenerator` writes, batch by batch, and the slots of the index that
`calculate_index_offset` gives them. -/

namespace AdvCppTP.KVReader

abbrev Key := UInt64

def gigabyte : UInt64 := (1 : UInt64) <<< 30

def maxBytesVector : UInt64 := gigabyte / 2

def maxElementsInVector : UInt64 := maxBytesVector / 8

/-- `sizeof(std::pair<Key_t, Data>)`: the 28 bytes are padded to the alignment of the key. -/
def sizeofRecord : UInt64 := 32

def sizeofIndexData : UInt64 := 16

/-- `std::shuffle` in its successive calls: any permutation each time. -/
structure Shuffle where
  apply : Nat → List Key → List Key
  perm : ∀ call keys, (apply call keys).Perm keys

def Shuffle.identity : Shuffle := ⟨fun _ keys => keys, fun _ _ => .refl _⟩

namespace FileGenerator

/-- `start` is the static counter of `generate_vector`, `calls` how often it was called; `keys` are
those of the records in the file. -/
structure Progress where
  start : UInt64
  calls : Nat
  written : UInt64
  elemsToCreate : UInt64
  keys : List Key
  deriving DecidableEq, Repr

def generateVector (shuffle : Shuffle) (p : Progress) : List Key :=
  shuffle.apply p.calls
    ((List.range p.elemsToCreate.toNat).map fun i => p.start + UInt64.ofNat i)

def nextElems (remaining : UInt64) : UInt64 :=
  if remaining > maxElementsInVector then maxElementsInVector else remaining

/-- One turn of the loop of `run`. -/
def batch (shuffle : Shuffle) (elemNumber : UInt64) (p : Progress) : Progress :=
  let keys := generateVector shuffle p
  let written := p.written + UInt64.ofNat keys.length
  { start := p.start + p.elemsToCreate
    calls := p.calls + 1
    written
    elemsToCreate := nextElems (elemNumber - written)
    keys := p.keys ++ keys }

/-- The loop of `run`; `none` when it makes more turns than `fuel`. -/
def loop (shuffle : Shuffle) (elemNumber : UInt64) : Nat → Progress → Option Progress
  | 0, p => if elemNumber - p.written > 0 then none else some p
  | fuel + 1, p =>
    if elemNumber - p.written > 0 then loop shuffle elemNumber fuel (batch shuffle elemNumber p)
    else some p

def run (shuffle : Shuffle) (start filesize : UInt64) : Option Progress :=
  let elemNumber := filesize / sizeofRecord
  loop shuffle elemNumber elemNumber.toNat
    { start, calls := 0, written := 0, elemsToCreate := nextElems elemNumber, keys := [] }

/-! ## What a run writes -/

def firstKeys (n : UInt64) : List Key := (List.range n.toNat).map UInt64.ofNat

theorem firstKeys_add {m n : UInt64} (h : m.toNat + n.toNat < 2 ^ 64) :
    firstKeys (m + n) =
      firstKeys m ++ (List.range n.toNat).map fun i => m + UInt64.ofNat i := by
  have hsum : (m + n).toNat = m.toNat + n.toNat := by
    rw [UInt64.toNat_add, Nat.mod_eq_of_lt h]
  rw [firstKeys, hsum, List.range_add, List.map_append, List.map_map]
  refine congrArg (firstKeys m ++ ·) (List.map_congr_left fun i _ => ?_)
  rw [Function.comp_apply, UInt64.ofNat_add, UInt64.ofNat_toNat]

/-- In front of each turn the records hold the keys below the counter, which is how many there
are; the next batch is what is missing, or as much of it as fits in a vector. -/
structure Progress.Valid (elemNumber : UInt64) (p : Progress) : Prop where
  le : p.written ≤ elemNumber
  start : p.start = p.written
  next : p.elemsToCreate = nextElems (elemNumber - p.written)
  keys : p.keys.Perm (firstKeys p.written)

theorem generateVector_perm (shuffle : Shuffle) (p : Progress) :
    (generateVector shuffle p).Perm
      ((List.range p.elemsToCreate.toNat).map fun i => p.start + UInt64.ofNat i) :=
  shuffle.perm _ _

theorem nextElems_spec {remaining : UInt64} (h : remaining > 0) :
    0 < (nextElems remaining).toNat ∧ (nextElems remaining).toNat ≤ remaining.toNat := by
  rw [nextElems]
  split
  · rename_i hmax
    exact ⟨by decide +kernel, UInt64.le_iff_toNat_le.mp (UInt64.le_of_lt hmax)⟩
  · exact ⟨UInt64.lt_iff_toNat_lt.mp h, Nat.le_refl _⟩

theorem Progress.Valid.batch {elemNumber : UInt64} {p : Progress} (h : p.Valid elemNumber)
    (shuffle : Shuffle) (hmore : elemNumber - p.written > 0) :
    (FileGenerator.batch shuffle elemNumber p).Valid elemNumber ∧
      (elemNumber - (FileGenerator.batch shuffle elemNumber p).written).toNat <
        (elemNumber - p.written).toNat := by
  obtain ⟨hpos, hfit⟩ := nextElems_spec hmore
  rw [← h.next] at hpos hfit
  have hle := UInt64.le_iff_toNat_le.mp h.le
  rw [UInt64.toNat_sub_of_le _ _ h.le] at hfit ⊢
  have hlen : UInt64.ofNat (generateVector shuffle p).length = p.elemsToCreate := by
    rw [(generateVector_perm shuffle p).length_eq, List.length_map, List.length_range,
      UInt64.ofNat_toNat]
  have hbound := elemNumber.toNat_lt
  have hsum : (p.written + p.elemsToCreate).toNat = p.written.toNat + p.elemsToCreate.toNat := by
    rw [UInt64.toNat_add, Nat.mod_eq_of_lt (by omega)]
  have hwritten : (FileGenerator.batch shuffle elemNumber p).written =
      p.written + p.elemsToCreate := by
    rw [FileGenerator.batch, hlen]
  have hnext : p.written + p.elemsToCreate ≤ elemNumber := by
    rw [UInt64.le_iff_toNat_le, hsum]
    omega
  refine ⟨⟨by rwa [hwritten], ?_, ?_, ?_⟩, ?_⟩
  · rw [hwritten, FileGenerator.batch, h.start]
  · rw [hwritten, FileGenerator.batch, hlen]
  · have hvector := generateVector_perm shuffle p
    rw [h.start] at hvector
    rw [hwritten, firstKeys_add (by omega)]
    exact h.keys.append hvector
  · rw [hwritten, UInt64.toNat_sub_of_le _ _ hnext, hsum]
    omega

theorem Progress.Valid.done {elemNumber : UInt64} {p : Progress} (h : p.Valid elemNumber)
    (hstop : ¬ elemNumber - p.written > 0) : p.written = elemNumber := by
  have hzero : (elemNumber - p.written).toNat = 0 := by
    rw [gt_iff_lt, UInt64.lt_iff_toNat_lt] at hstop
    exact Nat.le_zero.mp (Nat.not_lt.mp hstop)
  have hle := UInt64.le_iff_toNat_le.mp h.le
  rw [UInt64.toNat_sub_of_le _ _ h.le] at hzero
  exact UInt64.toNat_inj.mp (by omega)

theorem loop_keys (shuffle : Shuffle) {elemNumber : UInt64} (fuel : Nat) {p : Progress}
    (h : p.Valid elemNumber) (hfuel : (elemNumber - p.written).toNat ≤ fuel) :
    ∃ p', loop shuffle elemNumber fuel p = some p' ∧ p'.Valid elemNumber ∧
      p'.written = elemNumber := by
  induction fuel generalizing p with
  | zero =>
    have hstop : ¬ elemNumber - p.written > 0 := by
      rw [gt_iff_lt, UInt64.lt_iff_toNat_lt]
      exact Nat.not_lt.mpr hfuel
    exact ⟨p, by rw [loop, if_neg hstop], h, h.done hstop⟩
  | succ fuel ih =>
    rw [loop]
    split
    · rename_i hmore
      obtain ⟨hvalid, hless⟩ := h.batch shuffle hmore
      exact ih hvalid (by omega)
    · rename_i hstop
      exact ⟨p, rfl, h, h.done hstop⟩

/-- What `run` begins with, when `generate_vector` has counted up to `start`. -/
def Progress.first (start elemNumber : UInt64) : Progress :=
  { start, calls := 0, written := 0, elemsToCreate := nextElems elemNumber, keys := [] }

theorem Progress.Valid.first (elemNumber : UInt64) :
    (Progress.first 0 elemNumber).Valid elemNumber :=
  ⟨UInt64.zero_le, rfl, by rw [Progress.first, UInt64.sub_zero], .refl _⟩

/-- A run writes one record for each of the first keys, whatever the shuffles do. -/
theorem run_keys (shuffle : Shuffle) (filesize : UInt64) :
    ∃ p, run shuffle 0 filesize = some p ∧ p.keys.Perm (firstKeys (filesize / sizeofRecord)) := by
  obtain ⟨p, hrun, hvalid, hall⟩ := loop_keys shuffle (filesize / sizeofRecord).toNat
    (Progress.Valid.first (filesize / sizeofRecord))
    (by rw [Progress.first, UInt64.sub_zero])
  exact ⟨p, hrun, hall ▸ hvalid.keys⟩

/-! ## Every turn of a run -/

/-- One turn of the inner loop: a record is written, and counted. -/
def writeRecord (p : Progress) (key : Key) : Progress :=
  { p with written := p.written + 1, keys := p.keys ++ [key] }

/-- What there is each time that `run` takes the difference of its counters. -/
def turns (shuffle : Shuffle) (elemNumber : UInt64) : Nat → Progress → List Progress
  | 0, p => [p]
  | fuel + 1, p =>
    if elemNumber - p.written > 0 then
      p :: turns shuffle elemNumber fuel (batch shuffle elemNumber p)
    else [p]

def batches (shuffle : Shuffle) (elemNumber : UInt64) : Nat → Progress → List (List Key)
  | 0, _ => []
  | fuel + 1, p =>
    if elemNumber - p.written > 0 then
      generateVector shuffle p :: batches shuffle elemNumber fuel (batch shuffle elemNumber p)
    else []

theorem foldl_writeRecord (keys : List Key) (p : Progress) :
    keys.foldl writeRecord p =
      { p with written := p.written + UInt64.ofNat keys.length, keys := p.keys ++ keys } := by
  induction keys generalizing p with
  | nil =>
    rw [List.foldl_nil, List.length_nil, List.append_nil]
    simp
  | cons key keys ih =>
    have hcount : p.written + 1 + UInt64.ofNat keys.length =
        p.written + UInt64.ofNat (key :: keys).length := by
      rw [List.length_cons, Nat.add_comm, UInt64.ofNat_add, ← UInt64.add_assoc]
      rfl
    rw [List.foldl_cons, ih, writeRecord]
    simp only [hcount, List.append_assoc, List.singleton_append]

/-- The counter and the records of a batch are those that the inner loop leaves. -/
theorem batch_writes (shuffle : Shuffle) (elemNumber : UInt64) (p : Progress) :
    (batch shuffle elemNumber p).written =
        ((generateVector shuffle p).foldl writeRecord p).written ∧
      (batch shuffle elemNumber p).keys =
        ((generateVector shuffle p).foldl writeRecord p).keys := by
  rw [foldl_writeRecord]
  exact ⟨rfl, rfl⟩

theorem nextElems_le (remaining : UInt64) : nextElems remaining ≤ maxElementsInVector := by
  rw [nextElems]
  split
  · exact UInt64.le_refl _
  · rename_i hfits
    exact UInt64.not_lt.mp hfits

theorem Progress.Valid.vector_le {elemNumber : UInt64} {p : Progress} (h : p.Valid elemNumber)
    (shuffle : Shuffle) :
    (generateVector shuffle p).length ≤ maxElementsInVector.toNat := by
  rw [(generateVector_perm shuffle p).length_eq, List.length_map, List.length_range, h.next]
  exact UInt64.le_iff_toNat_le.mp (nextElems_le _)

theorem Progress.Valid.turns_le {elemNumber : UInt64} {p : Progress} (h : p.Valid elemNumber)
    (shuffle : Shuffle) (fuel : Nat) :
    ∀ q ∈ turns shuffle elemNumber fuel p, q.written ≤ elemNumber := by
  -- each turn begins in a valid state, in which no more is written than there is
  induction fuel generalizing p with
  | zero => exact List.forall_mem_singleton.mpr h.le
  | succ fuel ih =>
    rw [turns]
    split
    · rename_i hmore
      exact List.forall_mem_cons.mpr ⟨h.le, ih (h.batch shuffle hmore).1⟩
    · exact List.forall_mem_singleton.mpr h.le

theorem Progress.Valid.batches_le {elemNumber : UInt64} {p : Progress} (h : p.Valid elemNumber)
    (shuffle : Shuffle) (fuel : Nat) :
    ∀ keys ∈ batches shuffle elemNumber fuel p, keys.length ≤ maxElementsInVector.toNat := by
  induction fuel generalizing p with
  | zero => exact List.forall_mem_nil _
  | succ fuel ih =>
    rw [batches]
    split
    · rename_i hmore
      exact List.forall_mem_cons.mpr ⟨h.vector_le shuffle, ih (h.batch shuffle hmore).1⟩
    · exact List.forall_mem_nil _

theorem loop_flatten (shuffle : Shuffle) {elemNumber : UInt64} (fuel : Nat) {p p' : Progress}
    (h : loop shuffle elemNumber fuel p = some p') :
    p'.keys = p.keys ++ (batches shuffle elemNumber fuel p).flatten := by
  induction fuel generalizing p with
  | zero =>
    rw [loop] at h
    split at h
    · cases h
    · obtain rfl := Option.some.inj h
      exact (List.append_nil _).symm
  | succ fuel ih =>
    rw [loop] at h
    rw [batches]
    split at h
    · rename_i hmore
      rw [if_pos hmore, ih h, batch, List.flatten_cons, List.append_assoc]
    · rename_i hstop
      obtain rfl := Option.some.inj h
      rw [if_neg hstop]
      exact (List.append_nil _).symm

/-- A run ends with a record for each key below the number of records that fit, batch by batch, and
never takes more from the counters than there is. -/
theorem run_complete (shuffle : Shuffle) (filesize : UInt64) :
    let n := filesize / sizeofRecord
    let first := Progress.first 0 n
    ∃ p, run shuffle 0 filesize = some p ∧ p.written = n ∧ p.keys.length = n.toNat ∧
      p.keys.Perm ((List.range n.toNat).map UInt64.ofNat) ∧
      p.keys = (batches shuffle n n.toNat first).flatten ∧
      (∀ keys ∈ batches shuffle n n.toNat first, keys.length ≤ maxElementsInVector.toNat) ∧
      ∀ q ∈ turns shuffle n n.toNat first, q.written ≤ n := by
  intro n first
  have hfirst : first.Valid n := Progress.Valid.first n
  obtain ⟨p, hrun, hvalid, hall⟩ := loop_keys shuffle n.toNat hfirst (by
    rw [show first.written = 0 from rfl, UInt64.sub_zero])
  have hkeys : p.keys.Perm (firstKeys n) := hall ▸ hvalid.keys
  have hlength := hkeys.length_eq
  rw [firstKeys, List.length_map, List.length_range] at hlength
  exact ⟨p, hrun, hall, hlength, hkeys, loop_flatten shuffle n.toNat hrun,
    hfirst.batches_le shuffle n.toNat, hfirst.turns_le shuffle n.toNat⟩

/-! ## The slots of the keys -/

def calculateIndexOffset (key : Key) : UInt64 := (key - 1) * sizeofIndexData

def indexSlots (n : UInt64) : List UInt64 :=
  (List.range n.toNat).map fun i => UInt64.ofNat i * sizeofIndexData

/-- Every slot of an index of `n` entries is written once, and nothing outside. -/
def FillsIndex (n : UInt64) (keys : List Key) : Prop :=
  (keys.map calculateIndexOffset).Perm (indexSlots n)

theorem offsets_firstKeys {n : UInt64} (h : 0 < n) :
    (firstKeys n).map calculateIndexOffset = calculateIndexOffset 0 :: indexSlots (n - 1) := by
  have hone : (1 : UInt64) ≤ n := by
    rw [UInt64.lt_iff_toNat_lt] at h
    rw [UInt64.le_iff_toNat_le]
    exact h
  obtain ⟨k, hk⟩ : ∃ k, n.toNat = k + 1 := ⟨n.toNat - 1, by
    have := UInt64.le_iff_toNat_le.mp hone
    rw [show (1 : UInt64).toNat = 1 from rfl] at this
    omega⟩
  have hpred : (n - 1).toNat = k := by
    rw [UInt64.toNat_sub_of_le _ _ hone, hk]
    rfl
  rw [firstKeys, indexSlots, hpred, hk, List.range_succ_eq_map, List.map_cons, List.map_cons,
    List.map_map, List.map_map]
  refine congrArg (calculateIndexOffset 0 :: ·) (List.map_congr_left fun i _ => ?_)
  rw [Function.comp_apply, Function.comp_apply, calculateIndexOffset, Nat.succ_eq_add_one,
    UInt64.ofNat_add]
  show (UInt64.ofNat i + 1 - 1) * sizeofIndexData = UInt64.ofNat i * sizeofIndexData
  rw [UInt64.add_sub_cancel]

theorem offset_zero_notMem {n : UInt64} (h : n.toNat < 2 ^ 59) :
    calculateIndexOffset 0 ∉ indexSlots n := by
  intro hmem
  obtain ⟨i, hi, heq⟩ := List.mem_map.mp hmem
  have hi' := List.mem_range.mp hi
  have hval := congrArg UInt64.toNat heq
  rw [UInt64.toNat_mul, UInt64.toNat_ofNat_of_lt' (hi'.trans n.toNat_lt_size),
    show sizeofIndexData.toNat = 16 from rfl,
    show (calculateIndexOffset 0).toNat = 2 ^ 64 - 16 by decide] at hval
  omega

/-- The generator counts its keys from 0 and the index from 1: whatever the size and the shuffles,
the keys fill one slot less than there are, and key 0 goes far outside the index. -/
theorem generated_keys_miss_index (shuffle : Shuffle) (filesize : UInt64)
    (h : 0 < filesize / sizeofRecord) :
    ∃ p, run shuffle 0 filesize = some p ∧
      (p.keys.map calculateIndexOffset).Perm
        (18446744073709551600 :: indexSlots (filesize / sizeofRecord - 1)) ∧
      ¬ FillsIndex (filesize / sizeofRecord) p.keys := by
  obtain ⟨p, hrun, hkeys⟩ := run_keys shuffle filesize
  have hoffsets := hkeys.map calculateIndexOffset
  rw [offsets_firstKeys h] at hoffsets
  refine ⟨p, hrun, hoffsets, fun hfills => ?_⟩
  have hfew : (filesize / sizeofRecord).toNat < 2 ^ 59 := by
    have hlt := filesize.toNat_lt
    rw [UInt64.toNat_div, show sizeofRecord.toNat = 32 from rfl]
    omega
  exact offset_zero_notMem hfew (hfills.subset (hoffsets.symm.subset List.mem_cons_self))

theorem generated_key_misses_index :
    ∃ p, run .identity 0 32 = some p ∧
      (p.keys.map calculateIndexOffset).Perm
        (18446744073709551600 :: indexSlots (32 / sizeofRecord - 1)) ∧
      ¬ FillsIndex (32 / sizeofRecord) p.keys :=
  generated_keys_miss_index .identity 32 (by decide)

theorem index_not_filled :
    ¬ ∀ (shuffle : Shuffle) (filesize : UInt64), 0 < filesize / sizeofRecord →
      ∃ p, run shuffle 0 filesize = some p ∧ FillsIndex (filesize / sizeofRecord) p.keys := by
  intro h
  obtain ⟨p, hrun, hfills⟩ := h .identity 32 (by decide)
  have hkeys : run .identity 0 32 = some ⟨1, 1, 1, 0, [0]⟩ := by decide +kernel
  obtain rfl := Option.some.inj (hkeys.symm.trans hrun)
  have hslot : (calculateIndexOffset 0) ∈ indexSlots (32 / sizeofRecord) :=
    hfills.subset List.mem_cons_self
  exact absurd hslot (by decide)

end FileGenerator

end AdvCppTP.KVReader
