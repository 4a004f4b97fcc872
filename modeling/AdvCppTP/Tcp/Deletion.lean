import AdvCppTP.Tcp.ConnectionTable

/-! What `handleClient` does with its reference `connection` and with the table, in order, whatever
the callback does and whatever is in the table. -/

namespace AdvCppTP.Tcp

/-- A use of the reference: `connection.fd_` in `deleteConnection`, `connection.is_opened()`, or
`changeEvent(connection, event)`. -/
inductive Use
  | fd
  | isOpened
  | changeEvent
  deriving DecidableEq, Repr

inductive Access
  | uses (use : Use)
  | erases (key : Int)
  deriving DecidableEq, Repr

/-- `deleteConnection(connection)` -/
def Manager.deletion (m : Manager) (connection : Connection) : List Access :=
  .uses .fd :: if connection.fd ∈ m.slaveSockets then [.erases connection.fd] else []

/-- `handleClient` from the call of the callback on; nothing follows a use that C++ leaves
undefined. -/
def accessesAfterCallback (key : Int) (oldEvent : UInt16) (m : Manager) (r : Call × Bool) :
    List Access :=
  let called : Manager := ⟨m.slaveSockets.insert key r.1.connection, r.1.kernel⟩
  let caught := if r.2 then called.deleteConnection r.1.connection else called
  let inCatch := if r.2 then called.deletion r.1.connection else []
  inCatch ++ .uses .isOpened :: match caught.slaveSockets.lookup key with
    | none => []
    | some connection =>
      if connection.isOpened caught.kernel = false then caught.deletion connection
      else if oldEvent.toUInt32 ≠ r.1.event then [.uses .changeEvent]
      else []

def accesses (callback_ : Call → Call × Bool) (key : Int) (event : UInt32) (m : Manager) :
    List Access :=
  match m.slaveSockets.lookup key with
  | none => []
  | some connection =>
    if hangsUp event then m.deletion connection
    else accessesAfterCallback key event.toUInt16 m (callback_ ⟨connection, event, m.kernel⟩)

/-- An entry is erased only if it is that of `key`, and then nothing is used or erased any more. -/
def ErasesOwnLast (key : Int) : List Access → Prop
  | [] => True
  | .uses _ :: as => ErasesOwnLast key as
  | .erases k :: as => k = key ∧ as = []

instance ErasesOwnLast.decidable (key : Int) : (as : List Access) → Decidable (ErasesOwnLast key as)
  | [] => .isTrue trivial
  | .uses _ :: as => decidable key as
  | .erases k :: as => inferInstanceAs (Decidable (k = key ∧ as = []))

/-- Where `handleClient` deletes, the table has its own entry under `fd_`, or none; where it deletes
because of an exception, it has none. -/
def Manager.DeletesOwn (m : Manager) (callback_ : Call → Call × Bool) (key : Int) (event : UInt32)
    (connection : Connection) : Prop :=
  if hangsUp event then connection.fd = key ∨ connection.fd ∉ m.slaveSockets
  else
    let r := callback_ ⟨connection, event, m.kernel⟩
    if r.2 then r.1.connection.fd ∉ m.slaveSockets
    else r.1.connection.isOpened r.1.kernel = false →
      r.1.connection.fd = key ∨ r.1.connection.fd ∉ m.slaveSockets

theorem Manager.deletion_of_mem {m : Manager} {connection : Connection}
    (h : connection.fd ∈ m.slaveSockets) :
    m.deletion connection = [.uses .fd, .erases connection.fd] := by
  rw [Manager.deletion, if_pos h]

theorem Manager.deletion_of_notMem {m : Manager} {connection : Connection}
    (h : connection.fd ∉ m.slaveSockets) : m.deletion connection = [.uses .fd] := by
  rw [Manager.deletion, if_neg h]

theorem erasesOwnLast_deletion {m : Manager} {connection : Connection} {key : Int} :
    ErasesOwnLast key (m.deletion connection) ↔
      connection.fd = key ∨ connection.fd ∉ m.slaveSockets := by
  by_cases hin : connection.fd ∈ m.slaveSockets
  · rw [Manager.deletion_of_mem hin, or_iff_left (not_not.mpr hin)]
    exact and_iff_left rfl
  · rw [Manager.deletion_of_notMem hin]
    exact iff_of_true trivial (.inr hin)

theorem erasesOwnLast_afterCallback {key : Int} {oldEvent : UInt16} {m : Manager}
    {r : Call × Bool} (hkey : key ∈ m.slaveSockets) :
    ErasesOwnLast key (accessesAfterCallback key oldEvent m r) ↔
      if r.2 then r.1.connection.fd ∉ m.slaveSockets
      else r.1.connection.isOpened r.1.kernel = false →
        r.1.connection.fd = key ∨ r.1.connection.fd ∉ m.slaveSockets := by
  have hin : ∀ fd, fd ∈ m.slaveSockets.insert key r.1.connection ↔ fd ∈ m.slaveSockets := by
    intro fd
    rw [AList.mem_insert, or_iff_right_iff_imp]
    rintro rfl
    exact hkey
  have hrest : ErasesOwnLast key
      (if r.1.connection.isOpened r.1.kernel = false then
        (Manager.mk (m.slaveSockets.insert key r.1.connection) r.1.kernel).deletion r.1.connection
      else if oldEvent.toUInt32 ≠ r.1.event then [.uses .changeEvent] else []) ↔
      (r.1.connection.isOpened r.1.kernel = false →
        r.1.connection.fd = key ∨ r.1.connection.fd ∉ m.slaveSockets) := by
    by_cases hopen : r.1.connection.isOpened r.1.kernel = false
    · rw [if_pos hopen, erasesOwnLast_deletion, hin]
      exact ⟨fun h _ => h, fun h => h hopen⟩
    · rw [if_neg hopen]
      refine iff_of_true ?_ fun h => absurd h hopen
      split <;> trivial
  cases hthrew : r.2 with
  | false =>
    simp only [accessesAfterCallback, hthrew, Bool.false_eq_true, if_false, List.nil_append,
      AList.lookup_insert, ErasesOwnLast]
    exact hrest
  | true =>
    simp only [accessesAfterCallback, hthrew, if_true]
    by_cases hfd : r.1.connection.fd ∈ m.slaveSockets
    · rw [Manager.deletion_of_mem ((hin _).mpr hfd)]
      -- `is_opened()` follows the erasure
      exact iff_of_false (fun h => List.cons_ne_nil _ _ h.2) (not_not.mpr hfd)
    · have hnone := mt (hin _).mp hfd
      rw [Manager.deleteConnection_of_notMem hnone, Manager.deletion_of_notMem hnone]
      refine iff_of_true ?_ hfd
      simp only [List.singleton_append, ErasesOwnLast, AList.lookup_insert]
      exact hrest.mpr fun _ => .inr hfd

/-- `handleClient` is done with its connection when it deletes it, and deletes no other, exactly
where `DeletesOwn` holds. -/
theorem handleClient_erasesOwnLast_iff {m : Manager} {key : Int} {connection : Connection}
    (hlook : m.slaveSockets.lookup key = some connection) (callback_ : Call → Call × Bool)
    (event : UInt32) :
    ErasesOwnLast key (accesses callback_ key event m) ↔
      m.DeletesOwn callback_ key event connection := by
  simp only [accesses, hlook, Manager.DeletesOwn]
  split
  · exact erasesOwnLast_deletion
  · exact erasesOwnLast_afterCallback (Lib.mem_of_lookup hlook)

theorem handleClient_erasesOwnLast_example :
    ErasesOwnLast 5 (accesses (callback [.close, .read none]) 5 1
      ⟨(∅ : AList fun _ : Int => Connection).insert 5 ⟨5, []⟩, ⟨[3, 4, 5], [5]⟩⟩) := by
  have hlook : ((∅ : AList fun _ : Int => Connection).insert 5 ⟨5, []⟩).lookup 5 =
      some ⟨5, []⟩ := AList.lookup_insert _
  have hgone : (-1 : Int) ∉ (∅ : AList fun _ : Int => Connection).insert 5 ⟨5, []⟩ := by decide
  exact (handleClient_erasesOwnLast_iff hlook _ _).mpr hgone

/-- A callback that throws while its connection is open. -/
theorem deleted_connection_is_inspected :
    ¬ ∀ (m : Manager) (key : Int) (callback_ : Call → Call × Bool) (event : UInt32),
      key ∈ m.slaveSockets → ErasesOwnLast key (accesses callback_ key event m) := by
  intro h
  have hlast := h ⟨(∅ : AList fun _ : Int => Connection).insert 5 ⟨5, []⟩, ⟨[3, 4, 5], [5]⟩⟩ 5
    (callback [.throw]) 1 (by decide)
  exact absurd hlast (by decide)

/-! ## Where the table is faithful -/

/-- With its connections under their descriptors, nothing goes wrong but that a callback throws with
its connection open. -/
theorem Manager.Linked.deletesOwn_iff {m : Manager} (h : m.Linked) {key : Int}
    {connection : Connection} (hlook : m.slaveSockets.lookup key = some connection)
    (actions : List Action) (event : UInt32) :
    m.DeletesOwn (callback actions) key event connection ↔
      (hangsUp event = false → (callback actions ⟨connection, event, m.kernel⟩).2 = true →
        (callback actions ⟨connection, event, m.kernel⟩).1.connection.fd = -1) := by
  have hkey := h.key_nonneg (Lib.mem_of_lookup hlook)
  have hfd := (h.faithful key connection hlook).1
  have hnone : (-1 : Int) ∉ m.slaveSockets := fun hin => absurd (h.key_nonneg hin) (by decide)
  rw [Manager.DeletesOwn]
  split
  case isTrue hhup =>
    exact iff_of_true (.inl hfd) fun hno => absurd (hhup.symm.trans hno) (by decide)
  case isFalse hhup =>
    have hhup' := Bool.eq_false_iff.mpr hhup
    have hleft := callback_cases actions (c := ⟨connection, event, m.kernel⟩) (hfd ▸ hkey)
    generalize callback actions ⟨connection, event, m.kernel⟩ = r at hleft ⊢
    simp only [hhup', true_implies]
    obtain ⟨hsame, -⟩ | ⟨hclosed, -⟩ := hleft
    · have hfd' : r.1.connection.fd = key := hsame.trans hfd
      have hin : r.1.connection.fd ∈ m.slaveSockets := hfd' ▸ Lib.mem_of_lookup hlook
      cases r.2 with
      | false => exact iff_of_true (fun _ => .inl hfd') fun hno => absurd hno (by decide)
      | true =>
        refine iff_of_false (fun hno => hno hin) fun hno => ?_
        have := hno rfl
        omega
    · cases r.2 with
      | false => exact iff_of_true (fun _ => .inr (hclosed ▸ hnone)) fun _ => hclosed
      | true => exact iff_of_true (show r.1.connection.fd ∉ _ from hclosed ▸ hnone) fun _ => hclosed

theorem Manager.deleteConnection_lookup {m : Manager} (connection : Connection) {key : Int}
    (hkey : key ∈ m.slaveSockets) :
    (m.deleteConnection connection).slaveSockets.lookup key = none ↔ connection.fd = key := by
  obtain ⟨own, hown⟩ := Lib.exists_lookup hkey
  rw [Manager.deleteConnection]
  cases hlook : m.slaveSockets.lookup connection.fd with
  | none =>
    refine iff_of_false (fun hnone => ?_) ?_
    · rw [hown] at hnone
      cases hnone
    · rintro rfl
      rw [hown] at hlook
      cases hlook
  | some erased =>
    by_cases hfd : connection.fd = key
    · exact iff_of_true (hfd ▸ AList.lookup_erase _ _) hfd
    · refine iff_of_false (fun hnone => ?_) hfd
      rw [AList.lookup_erase_ne (Ne.symm hfd), hown] at hnone
      cases hnone

theorem changed_ne_undefined {p q : Prop} [Decidable p] [Decidable q] {deleted called : Manager}
    {changed : Except Ended Manager} (h : changed ≠ .error .undefined) :
    (if p then .ok deleted else if q then changed else .ok called) ≠ .error .undefined := by
  split
  · exact fun heq => by cases heq
  · split
    · exact h
    · exact fun heq => by cases heq

theorem afterCallback_undefined_iff {m : Manager} {key : Int} {oldEvent : UInt16}
    {failure : Option String} {r : Call × Bool} :
    afterCallback key oldEvent failure m r = .error .undefined ↔
      r.2 = true ∧ r.1.connection.fd = key := by
  have hin : key ∈ m.slaveSockets.insert key r.1.connection := (AList.mem_insert _).mpr (.inl rfl)
  cases hthrew : r.2 with
  | false =>
    refine iff_of_false ?_ fun h => Bool.false_ne_true h.1
    simp only [afterCallback, hthrew, Bool.false_eq_true, if_false, AList.lookup_insert]
    refine changed_ne_undefined fun heq => ?_
    split at heq
    · cases heq
    · cases heq
  | true =>
    have hgone := Manager.deleteConnection_lookup r.1.connection
      (m := ⟨m.slaveSockets.insert key r.1.connection, r.1.kernel⟩) hin
    simp only [afterCallback, hthrew, if_true, true_and, ← hgone]
    split
    case h_1 hnone => exact iff_of_true rfl hnone
    case h_2 connection hsome =>
      refine iff_of_false (changed_ne_undefined fun heq => ?_) fun hnone => ?_
      · split at heq
        · cases heq
        · cases heq
      · rw [hnone] at hsome
        cases hsome

theorem accessesAfterCallback_eq_iff {m : Manager} {key : Int} {oldEvent : UInt16}
    {r : Call × Bool} :
    accessesAfterCallback key oldEvent m r = [.uses .fd, .erases key, .uses .isOpened] ↔
      r.2 = true ∧ r.1.connection.fd = key := by
  cases hthrew : r.2 with
  | false =>
    refine iff_of_false (fun h => ?_) fun h => Bool.false_ne_true h.1
    simp only [accessesAfterCallback, hthrew, Bool.false_eq_true, if_false, List.nil_append] at h
    cases h
  | true =>
    have hgone := Manager.deleteConnection_lookup r.1.connection
      (m := ⟨m.slaveSockets.insert key r.1.connection, r.1.kernel⟩)
      ((AList.mem_insert _).mpr (.inl rfl))
    simp only [accessesAfterCallback, hthrew, if_true, true_and]
    by_cases hfd : r.1.connection.fd ∈ m.slaveSockets.insert key r.1.connection
    · rw [Manager.deletion_of_mem hfd]
      constructor
      · intro h
        obtain ⟨-, h⟩ := List.cons.inj h
        exact Access.erases.inj (List.cons.inj h).1
      · intro heq
        rw [hgone.mpr heq, heq]
        rfl
    · rw [Manager.deletion_of_notMem hfd]
      refine iff_of_false (fun h => ?_) fun heq => hfd (heq ▸ (AList.mem_insert _).mpr (.inl rfl))
      cases (List.cons.inj h).2

/-- What C++ leaves undefined in `handleClient` is the use of its connection after its deletion. -/
theorem handleClient_undefined_iff {m : Manager} {key : Int} {connection : Connection}
    (hlook : m.slaveSockets.lookup key = some connection) (event : UInt32) (actions : List Action)
    (failure : Option String) :
    handleClient key event actions failure m = .error .undefined ↔
      accesses (callback actions) key event m = [.uses .fd, .erases key, .uses .isOpened] := by
  simp only [handleClient, accesses, hlook]
  split
  · refine iff_of_false (fun h => ?_) fun h => ?_
    · cases h
    · by_cases hin : connection.fd ∈ m.slaveSockets
      · rw [Manager.deletion_of_mem hin] at h
        cases h
      · rw [Manager.deletion_of_notMem hin] at h
        cases h
  · rw [afterCallback_undefined_iff, accessesAfterCallback_eq_iff]

end AdvCppTP.Tcp
