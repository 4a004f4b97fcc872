import AdvCppTP.Lib.Locking
import AdvCppTP.Shmem.MapLock

/-! Calls that allocate under the semaphore only keep each other out of the `AllocState`. The
converting overloads do not. -/

namespace AdvCppTP.Shmem

/-- What an update has loaded is still what the shared state holds. -/
def Update.Fits (h : Heap) : Update → Prop
  | .allocLoaded sizeT n result => sizeT.toNat * n.toNat < 2 ^ 63 ∧ result = h.state.start
  | .allocChecked sizeT n result =>
    sizeT.toNat * n.toNat < 2 ^ 63 ∧ result = h.state.start ∧
      ¬ h.state.start + sizeT * n > h.state.end_
  | .allocReloaded sizeT n result start =>
    sizeT.toNat * n.toNat < 2 ^ 63 ∧ result = h.state.start ∧ start = h.state.start ∧
      ¬ h.state.start + sizeT * n > h.state.end_
  | .freeLoaded b start => b ∈ h.live ∧ start = h.state.start
  | .freeChecked b => b ∈ h.live ∧ b.p + b.sizeT * b.n = h.state.start

theorem Update.next_sound {start₀ : UInt64} {h : Heap} (hs : h.Sound start₀)
    (hroom : h.state.end_.toNat < 2 ^ 63) {u : Update} (hu : u.Fits h) :
    (u.next h).1.Sound start₀ ∧ (u.next h).1.state.end_ = h.state.end_ ∧
      ∀ u', (u.next h).2 = .more u' → u'.Fits (u.next h).1 := by
  cases u with
  | allocLoaded sizeT n result =>
    obtain ⟨hsize, rfl⟩ := hu
    rw [Update.next]
    split
    · exact ⟨hs, rfl, fun u' hu' => by cases hu'⟩
    case isFalse hfits =>
      refine ⟨hs, rfl, fun u' hu' => ?_⟩
      cases hu'
      exact ⟨hsize, rfl, hfits⟩
  | allocChecked sizeT n result =>
    obtain ⟨hsize, hresult, hfits⟩ := hu
    refine ⟨hs, rfl, fun u' hu' => ?_⟩
    cases hu'
    exact ⟨hsize, hresult, rfl, hfits⟩
  | allocReloaded sizeT n result start =>
    obtain ⟨hsize, rfl, rfl, hfits⟩ := hu
    have hbelow := UInt64.le_iff_toNat_le.mp hs.below
    exact ⟨hs.push (by omega) hfits, rfl, fun u' hu' => by cases hu'⟩
  | freeLoaded b start =>
    obtain ⟨hb, rfl⟩ := hu
    rw [Update.next]
    split
    case isTrue htop =>
      refine ⟨hs, rfl, fun u' hu' => ?_⟩
      cases hu'
      exact ⟨hb, htop⟩
    · exact ⟨hs.drop b, rfl, fun u' hu' => by cases hu'⟩
  | freeChecked b =>
    obtain ⟨hb, htop⟩ := hu
    exact ⟨hs.pop hb htop, rfl, fun u' hu' => by cases hu'⟩

def Pc.holds : Pc → Bool
  | .run _ .locked => true
  | .busy _ .locked _ => true
  | _ => false

/-- A process whose calls build no temporaries. -/
def Pc.Fits (h : Heap) : Pc → Prop
  | .idle => True
  | .run c ph => c.temporaries = [] ∧ ∀ r todo, ph ≠ .building (r :: todo)
  | .busy c ph u => c.temporaries = [] ∧ ph = .locked ∧ u.Fits h

theorem Pc.Fits.holds {h : Heap} {pc : Pc} (hpc : pc.Fits h) (hu : pc.updating = true) :
    pc.holds = true := by
  cases pc with
  | idle => cases hu
  | run c ph => cases hu
  | busy c ph u =>
    obtain ⟨-, rfl, -⟩ := hpc
    rfl

theorem Pc.Fits.of_not_holds {h h' : Heap} {pc : Pc} (hpc : pc.Fits h) (hu : pc.holds = false) :
    pc.Fits h' := by
  -- only a process that holds the semaphore depends on the shared state
  cases pc with
  | idle => trivial
  | run c ph => exact hpc
  | busy c ph u =>
    obtain ⟨-, rfl, -⟩ := hpc
    cases hu

theorem Pc.fits_update {h : Heap} {pcs : Nat → Pc} {p : Nat} {pc : Pc} (hpc : pc.Fits h)
    (hothers : ∀ q, q ≠ p → (pcs q).Fits h) (q : Nat) : (Function.update pcs p pc q).Fits h :=
  (Function.forall_update_iff pcs fun _ pc => pc.Fits h).mpr ⟨hpc, hothers⟩ q

structure Sys.Guarded (start₀ : UInt64) (s : Sys) : Prop where
  sound : s.heap.Sound start₀
  room : s.heap.state.end_.toNat < 2 ^ 63
  fits : ∀ p, (s.pc p).Fits s.heap
  owned : ∃ owner, Lib.Owned Pc.holds s.pc s.sem owner

variable {start₀ : UInt64} {s : Sys}

theorem Sys.guarded_init {state : AllocState} (hstate : state.start ≤ state.end_)
    (hroom : state.end_.toNat < 2 ^ 63) : (Sys.init state).Guarded state.start :=
  ⟨Heap.sound_empty hstate, hroom, fun _ => trivial, none, Lib.owned_init rfl⟩

theorem Sys.Guarded.move (hs : s.Guarded start₀) {p : Nat} {pc : Pc} {heap : Heap}
    (hsound : heap.Sound start₀) (hend : heap.state.end_ = s.heap.state.end_)
    (hfits : pc.Fits heap) (hholds : pc.holds = (s.pc p).holds)
    (hheap : heap = s.heap ∨ (s.pc p).holds = true) :
    Sys.Guarded start₀ ⟨heap, s.sem, Function.update s.pc p pc⟩ := by
  obtain ⟨owner, howned⟩ := hs.owned
  have hothers : ∀ q, q ≠ p → (s.pc q).Fits heap := by
    intro q hq
    rcases hheap with rfl | hp
    · exact hs.fits q
    · have hwaits : ¬ (s.pc q).holds = true := fun hhold => hq (howned.eq_of_holds hp hhold)
      exact (hs.fits q).of_not_holds (Bool.eq_false_iff.mpr hwaits)
  exact ⟨hsound, hend ▸ hs.room, Pc.fits_update hfits hothers, owner, howned.keep hholds⟩

theorem Sys.Guarded.wait (hs : s.Guarded start₀) {p : Nat} {c : MapCall} (hc : c.temporaries = [])
    (hsem : s.sem ≠ 0) :
    Sys.Guarded start₀ ⟨s.heap, s.sem - 1, Function.update s.pc p (.run c .locked)⟩ := by
  obtain ⟨owner, howned⟩ := hs.owned
  obtain rfl := howned.none_of_count hsem
  have hfits : Pc.Fits s.heap (.run c .locked) := ⟨hc, fun r todo h => by cases h⟩
  exact ⟨hs.sound, hs.room, Pc.fits_update hfits fun q _ => hs.fits q, some p, howned.take rfl⟩

theorem Sys.Guarded.post (hs : s.Guarded start₀) {p : Nat} {c : MapCall} (hc : c.temporaries = [])
    (hp : (s.pc p).holds = true) :
    Sys.Guarded start₀ ⟨s.heap, s.sem + 1, Function.update s.pc p (.run c .dropping)⟩ := by
  obtain ⟨owner, howned⟩ := hs.owned
  obtain rfl := (howned.1 p).mp hp
  have hfits : Pc.Fits s.heap (.run c .dropping) := ⟨hc, fun r todo h => by cases h⟩
  exact ⟨hs.sound, hs.room, Pc.fits_update hfits fun q _ => hs.fits q, none, howned.give rfl⟩

theorem MapCall.allocates_locked {c : MapCall} {sizeT n : UInt64} {ph ph' : Phase}
    (hph : ∀ r todo, ph ≠ .building (r :: todo)) (h : c.allocates sizeT n ph = some ph') :
    ph = .locked ∧ ph' = .locked := by
  cases ph with
  | building todo =>
    cases todo with
    | nil => cases h
    | cons r todo => exact absurd rfl (hph r todo)
  | locked => cases c <;> cases h <;> exact ⟨rfl, rfl⟩
  | dropping => cases h

theorem MapCall.frees_locked {c : MapCall} (hc : c.temporaries = []) {ph : Phase}
    (h : c.frees ph = true) : ph = .locked := by
  cases ph with
  | building todo => cases h
  | locked => rfl
  | dropping => simp [MapCall.frees, hc] at h

theorem Sys.Guarded.access (hs : s.Guarded start₀) {p : Nat} {c : MapCall} {ph : Phase}
    {u : Update} (hpc : s.pc p = .busy c ph u) (hfits : Pc.Fits s.heap (.busy c ph u)) :
    Sys.Guarded start₀ ⟨(u.next s.heap).1, s.sem, Function.update s.pc p
      (match (u.next s.heap).2 with
        | .more u => .busy c ph u
        | .done => .run c ph
        | .badAlloc => .run c ph.failed)⟩ := by
  obtain ⟨hc, rfl, hu⟩ := hfits
  obtain ⟨hsound, hend, hmore⟩ := Update.next_sound hs.sound hs.room hu
  have hholds : (s.pc p).holds = true := by rw [hpc]; rfl
  rcases hafter : (u.next s.heap).2 with u' | _ | _
  · exact hs.move hsound hend ⟨hc, rfl, hmore u' hafter⟩ hholds.symm (.inr hholds)
  · exact hs.move hsound hend ⟨hc, fun r todo h => by cases h⟩ hholds.symm (.inr hholds)
  · exact hs.move hsound hend ⟨hc, fun r todo h => by cases h⟩ hholds.symm (.inr hholds)

theorem Sys.Guarded.step (hs : s.Guarded start₀) {p : Nat} {m : Move} {s' : Sys}
    (hm : ∀ c, m = .call c → c.temporaries = []) (h : s.step p m = some s') :
    s'.Guarded start₀ := by
  -- only `wait`, `post` and the accesses to the heap touch what the others see
  have hfits := hs.fits p
  cases m with
  | call c =>
    simp only [Sys.step] at h
    split at h
    case h_1 hpc =>
      cases h
      refine hs.move hs.sound rfl ⟨hm c rfl, fun r todo hbuild => ?_⟩ (by rw [hpc]; rfl) (.inl rfl)
      rw [hm c rfl] at hbuild
      cases hbuild
    · cases h
  | wait =>
    simp only [Sys.step] at h
    split at h
    case h_1 c hpc =>
      rw [hpc] at hfits
      split at h
      · cases h
      case isFalse hsem =>
        cases h
        exact hs.wait hfits.1 hsem
    · cases h
  | post =>
    simp only [Sys.step] at h
    split at h
    case h_1 c hpc =>
      rw [hpc] at hfits
      cases h
      exact hs.post hfits.1 (by rw [hpc]; rfl)
    · cases h
  | ret =>
    simp only [Sys.step] at h
    split at h
    case h_1 c hpc =>
      cases h
      exact hs.move hs.sound rfl trivial (by rw [hpc]; rfl) (.inl rfl)
    · cases h
  | allocate sizeT n =>
    simp only [Sys.step] at h
    split at h
    case h_1 c ph hpc =>
      rw [hpc] at hfits
      split at h
      case isTrue hsize =>
        rw [Option.map_eq_some_iff] at h
        obtain ⟨ph', hph', rfl⟩ := h
        obtain ⟨rfl, rfl⟩ := MapCall.allocates_locked hfits.2 hph'
        exact hs.move hs.sound rfl ⟨hfits.1, rfl, hsize, rfl⟩ (by rw [hpc]; rfl) (.inl rfl)
      · cases h
    · cases h
  | deallocate b =>
    simp only [Sys.step] at h
    split at h
    case h_1 c ph hpc =>
      rw [hpc] at hfits
      split at h
      case isTrue hb =>
        cases h
        obtain rfl := MapCall.frees_locked hfits.1 hb.1
        exact hs.move hs.sound rfl ⟨hfits.1, rfl, hb.2, rfl⟩ (by rw [hpc]; rfl) (.inl rfl)
      · cases h
    · cases h
  | access =>
    simp only [Sys.step] at h
    split at h
    case h_1 c ph u hpc =>
      rw [hpc] at hfits
      cases h
      exact hs.access hpc hfits
    · cases h

theorem Sys.Guarded.run (hs : s.Guarded start₀) {moves : List (Nat × Move)}
    (hm : ∀ m ∈ moves, ∀ c, m.2 = .call c → c.temporaries = []) {s' : Sys}
    (h : s.run moves = some s') : s'.Guarded start₀ := by
  have hkeep : ∀ (s : Sys) m s', s.Guarded start₀ → m ∈ moves → s.step m.1 m.2 = some s' →
      s'.Guarded start₀ := fun s m s' hs hmem hstep => hs.step (hm m hmem) hstep
  exact Lib.steps_invariant_mem hkeep hs h

def Sys.Exclusive (s : Sys) : Prop :=
  (∀ p q, (s.pc p).updating = true → (s.pc q).updating = true → p = q) ∧
    s.heap.live.Pairwise fun a b => Disjoint a.bytes b.bytes

theorem Sys.Guarded.exclusive (hs : s.Guarded start₀) : s.Exclusive := by
  obtain ⟨owner, howned⟩ := hs.owned
  refine ⟨fun p q hp hq => ?_, hs.sound.apart⟩
  exact howned.eq_of_holds ((hs.fits q).holds hq) ((hs.fits p).holds hp)

/-- When no call builds a temporary in the shared memory, every state reached is exclusive. -/
theorem map_updates_exclusive {state : AllocState} (hstate : state.start ≤ state.end_)
    (hroom : state.end_.toNat < 2 ^ 63) {moves : List (Nat × Move)}
    (hcalls : ∀ m ∈ moves, ∀ c, m.2 = .call c → c.temporaries = []) {s : Sys}
    (hrun : (Sys.init state).run moves = some s) : s.Exclusive :=
  ((Sys.guarded_init hstate hroom).run hcalls hrun).exclusive

def lockedMoves : List (Nat × Move) :=
  [(0, .call .insert), (1, .call .erase), (0, .wait), (0, .allocate 64 1), (0, .access),
    (0, .access), (0, .access), (0, .post), (1, .wait), (1, .deallocate ⟨100, 64, 1⟩)]

theorem map_updates_exclusive_example :
    ∃ s, (Sys.init ⟨100, 200⟩).run lockedMoves = some s ∧ s.Exclusive := by
  obtain ⟨s, hs⟩ : ∃ s, (Sys.init ⟨100, 200⟩).run lockedMoves = some s := ⟨_, rfl⟩
  refine ⟨s, hs, map_updates_exclusive (by decide) (by decide) ?_ hs⟩
  simp [lockedMoves, MapCall.temporaries]

def bothLoaded : List (Nat × Move) :=
  [(0, .call (.atConverted [(1, 32)])), (1, .call (.atConverted [(1, 32)])),
    (0, .allocate 1 32), (1, .allocate 1 32)]

theorem converting_calls_collide :
    (∃ s, (Sys.init ⟨100, 200⟩).run bothLoaded = some s ∧
      (s.pc 0).updating = true ∧ (s.pc 1).updating = true) ∧
    ∃ s, (Sys.init ⟨100, 200⟩).run (bothLoaded ++ [(0, .access), (1, .access), (0, .access),
        (1, .access), (0, .access), (1, .access)]) = some s ∧
      ¬ s.heap.live.Pairwise fun a b => Disjoint a.bytes b.bytes := by
  refine ⟨⟨_, rfl, rfl, rfl⟩, _, rfl, fun h => ?_⟩
  have happart := List.rel_of_pairwise_cons h (List.mem_singleton.mpr rfl)
  exact absurd happart (by decide)

end AdvCppTP.Shmem
