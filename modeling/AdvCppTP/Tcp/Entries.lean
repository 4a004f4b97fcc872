import AdvCppTP.Tcp.ConnectionTable

/-! What accepting and the end of `handleClient` do to single entries of `slaveSockets_`, where the
connections that their callbacks have closed stay in it. -/

namespace AdvCppTP.Tcp

/-! ## Accepting -/

/-- An entry and the registration of its descriptor that stay as they are. -/
structure Manager.Kept (m m' : Manager) (key : Int) : Prop where
  lookup : m'.slaveSockets.lookup key = m.slaveSockets.lookup key
  opened : key ∈ m'.kernel.opened ↔ key ∈ m.kernel.opened
  interest : key ∈ m'.kernel.interest ↔ key ∈ m.kernel.interest

/-- The entry of a client that has been accepted. -/
structure Manager.Came (m m' : Manager) (key : Int) : Prop where
  new : key ∉ m.kernel.opened ∧ key ∉ m.kernel.interest
  nonneg : 0 ≤ key
  lookup : m'.slaveSockets.lookup key = some ⟨key, []⟩
  opened : key ∈ m'.kernel.opened
  interest : key ∈ m'.kernel.interest

theorem Manager.kept_refl (m : Manager) (key : Int) : m.Kept m key := ⟨rfl, Iff.rfl, Iff.rfl⟩

/-- Entries are of the open descriptor they are looked up by, or closed. -/
structure Manager.Settled (m : Manager) : Prop where
  entries : ∀ key connection, m.slaveSockets.lookup key = some connection →
    connection.fd = key ∧ key ∈ m.kernel.opened ∨ connection.fd = -1
  interest : ∀ fd ∈ m.kernel.interest, fd ∈ m.kernel.opened

theorem Manager.Settled.of_entries {m m' : Manager} (h : m.Settled)
    (hall : ∀ key, m.Kept m' key ∨ m.Came m' key) : m'.Settled where
  entries key connection hlook := by
    obtain hkept | hcame := hall key
    · rw [hkept.lookup] at hlook
      obtain ⟨hfd, hopen⟩ | hclosed := h.entries key connection hlook
      · exact .inl ⟨hfd, hkept.opened.mpr hopen⟩
      · exact .inr hclosed
    · obtain rfl := Option.some.inj (hcame.lookup.symm.trans hlook)
      exact .inl ⟨rfl, hcame.opened⟩
  interest fd hfd := by
    obtain hkept | hcame := hall fd
    · exact hkept.opened.mpr (h.interest fd (hkept.interest.mp hfd))
    · exact hcame.opened

/-- Assignment to the entry of a descriptor that was not open closes nothing. -/
theorem Manager.Settled.close_old {m : Manager} (h : m.Settled) {fd : Int}
    (hnew : fd ∉ m.kernel.opened) (kernel : Kernel) :
    (((m.slaveSockets.lookup fd).getD .new).close kernel).2 = kernel := by
  have hclosed : ((m.slaveSockets.lookup fd).getD .new).fd = -1 := by
    cases hlook : m.slaveSockets.lookup fd with
    | none => rfl
    | some old =>
      obtain ⟨-, hopen⟩ | hclosed := h.entries fd old hlook
      · exact absurd hopen hnew
      · exact hclosed
  exact if_neg (by rw [hclosed]; decide)

theorem Manager.Settled.acceptOne {m m' : Manager} (h : m.Settled) {outcome : AcceptOutcome}
    {more : Bool}
    (hnew : ∀ fd nonblock unnamed notAdded, outcome = .connected fd nonblock unnamed notAdded →
      (fd : Int) ∉ m.kernel.opened) (hstep : acceptOne outcome m = .ok (m', more)) (key : Int) :
    m.Kept m' key ∨ m.Came m' key := by
  rcases outcome with ⟨fd, _ | _, unnamed, notAdded⟩ | _ | _ | errno
  · obtain ⟨rfl, -⟩ := Prod.mk.inj (Except.ok.inj hstep)
    have hfd := hnew fd _ unnamed notAdded rfl
    refine .inl ⟨rfl, Kernel.mem_close_opened.trans ?_, ?_⟩
    · constructor
      · rintro ⟨hin, hne⟩
        exact (List.mem_cons.mp hin).resolve_left hne
      · intro hopen
        exact ⟨List.mem_cons_of_mem _ hopen, fun heq => hfd (heq ▸ hopen)⟩
    · refine Kernel.mem_close_interest.trans (and_iff_left_of_imp fun hin heq => ?_)
      exact hfd (heq ▸ h.interest key hin)
  · have hfd := hnew fd _ unnamed notAdded rfl
    rcases unnamed with _ | errno
    · rcases notAdded with _ | errno
      · obtain ⟨rfl, -⟩ := Prod.mk.inj (Except.ok.inj hstep)
        simp only [h.close_old hfd]
        rcases eq_or_ne key fd with rfl | hne
        · exact .inr ⟨⟨hfd, fun hin => hfd (h.interest _ hin)⟩, Int.natCast_nonneg fd,
            AList.lookup_insert _, List.mem_cons_self, List.mem_cons_self⟩
        · exact .inl ⟨AList.lookup_insert_ne hne, List.mem_cons.trans (or_iff_right hne),
            List.mem_cons.trans (or_iff_right hne)⟩
      · cases hstep
    · cases hstep
  · obtain ⟨rfl, -⟩ := Prod.mk.inj (Except.ok.inj hstep)
    exact .inl (m.kept_refl key)
  · obtain ⟨rfl, -⟩ := Prod.mk.inj (Except.ok.inj hstep)
    exact .inl (m.kept_refl key)
  · cases hstep

theorem Manager.Settled.acceptClients {outcomes : List AcceptOutcome} {m m' : Manager}
    (h : m.Settled) (hnew : AcceptsNew outcomes m)
    (hstep : acceptClients outcomes m = .ok m') (key : Int) :
    m.Kept m' key ∨ m.Came m' key := by
  induction outcomes generalizing m with
  | nil => exact Except.ok.inj hstep ▸ .inl (m.kept_refl key)
  | cons outcome outcomes ih =>
    rw [Tcp.acceptClients] at hstep
    rcases hone : Tcp.acceptOne outcome m with ended | ⟨m₁, more⟩
    · rw [hone] at hstep
      cases hstep
    · rw [hone] at hstep
      have hfirst := h.acceptOne hnew.1 hone
      cases more with
      | false => exact Except.ok.inj hstep ▸ hfirst key
      | true =>
        obtain hkept | hcame := ih (h.of_entries hfirst) (hnew.2 m₁ hone) hstep
        · obtain hkept₁ | hcame₁ := hfirst key
          · exact .inl ⟨hkept.lookup.trans hkept₁.lookup, hkept.opened.trans hkept₁.opened,
              hkept.interest.trans hkept₁.interest⟩
          · exact .inr ⟨hcame₁.new, hcame₁.nonneg, hkept.lookup.trans hcame₁.lookup,
              hkept.opened.mpr hcame₁.opened, hkept.interest.mpr hcame₁.interest⟩
        · obtain hkept₁ | hcame₁ := hfirst key
          · exact .inr ⟨⟨hcame.new.1 ∘ hkept₁.opened.mpr, hcame.new.2 ∘ hkept₁.interest.mpr⟩,
              hcame.nonneg, hcame.lookup, hcame.opened, hcame.interest⟩
          · exact absurd hcame₁.opened hcame.new.1

/-! ## The end of `handleClient` -/

section

variable {m : Manager} {key : Int} (hkey : 0 ≤ key) (oldEvent : UInt16) (failure : Option String)
  {call : Call}

include hkey

theorem afterCallback_threw (hfd : call.connection.fd = key) :
    afterCallback key oldEvent failure m (call, true) = .error .undefined := by
  have hdelete := Manager.deleteConnection_of_lookup
    (m := ⟨m.slaveSockets.insert key call.connection, call.kernel⟩) hkey hfd
    (AList.lookup_insert _)
  simp only [afterCallback, if_true, hdelete, AList.lookup_erase]

theorem afterCallback_closed (hkeys : ∀ key ∈ m.slaveSockets, 0 ≤ key)
    (hfd : call.connection.fd = -1) :
    afterCallback key oldEvent failure m (call, false) =
      .ok ⟨m.slaveSockets.insert key call.connection, call.kernel⟩ := by
  have hnone : call.connection.fd ∉ m.slaveSockets.insert key call.connection := by
    intro hin
    rw [hfd, AList.mem_insert] at hin
    obtain hin | hin := hin
    · omega
    · exact absurd (hkeys (-1) hin) (by decide)
  have hdelete := Manager.deleteConnection_of_notMem
    (m := ⟨m.slaveSockets.insert key call.connection, call.kernel⟩) hnone
  have hclosed : call.connection.isOpened call.kernel = false := by
    unfold Connection.isOpened
    rw [hfd]
    exact decide_eq_false fun h => absurd h.1 (by decide)
  simp only [afterCallback, Bool.false_eq_true, if_false, AList.lookup_insert, hclosed, if_true,
    hdelete]

theorem isOpened_of_mem (hfd : call.connection.fd = key) (hopen : key ∈ call.kernel.opened) :
    call.connection.isOpened call.kernel = true := by
  unfold Connection.isOpened
  rw [hfd]
  exact decide_eq_true ⟨hkey, hopen⟩

theorem afterCallback_kept (hfd : call.connection.fd = key) (hopen : key ∈ call.kernel.opened) :
    afterCallback key oldEvent failure m (call, false) =
        .ok ⟨m.slaveSockets.insert key call.connection, call.kernel⟩ ∨
      ∃ error, afterCallback key oldEvent failure m (call, false) = .error (.threw error) := by
  simp only [afterCallback, Bool.false_eq_true, if_false, AList.lookup_insert,
    isOpened_of_mem hkey hfd hopen, Bool.true_eq_false]
  split
  · cases failure with
    | none => exact .inl rfl
    | some errno => exact .inr ⟨_, rfl⟩
  · exact .inl rfl

end

end AdvCppTP.Tcp
