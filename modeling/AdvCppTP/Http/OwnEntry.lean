import AdvCppTP.Http.EpollManager
import AdvCppTP.Http.FirstSegment

/-! What a segment of `clientRoutine` leaves alone: the other entries of `routines_`, and in its
own one all that belongs to `EpollManager`. -/

namespace AdvCppTP.Http

/-! ## Segments are defined -/

theorem find_zero_of_find {buffer : Bytes} {pos p : Nat}
    (h : Lib.find headersEnd buffer pos = some p) : ∃ q, Lib.find headersEnd buffer 0 = some q := by
  rw [Lib.find, Option.map_eq_some_iff] at h
  obtain ⟨i, hi, -⟩ := h
  obtain ⟨hlen, hocc, -⟩ := Lib.firstOcc_eq_some.mp hi
  rw [List.drop_drop] at hocc
  have hroom := Lib.firstOcc_add_length hi
  rw [List.length_drop] at hroom
  have hfour : headersEnd.length = 4 := rfl
  obtain ⟨q, -, hq⟩ := Lib.firstOcc_le (show pos + i ≤ buffer.length by omega) hocc
  exact ⟨q, by rw [Lib.find_zero, hq]⟩

theorem receiveStep_defined (buffer : Bytes) (count : Nat) (pc : ReceiverPc) :
    receiveStep buffer count pc ≠ .throw .undefined := by
  cases pc with
  | head pos =>
    rcases hfind : Lib.find headersEnd buffer pos with _ | p
    · rw [receiveStep_head_of_none count hfind]
      simp
    · obtain ⟨q, hq⟩ := find_zero_of_find hfind
      rw [receiveStep_head_of_some count hfind]
      exact receiveHead_defined hq p
  | body firstLine headers startPos bodyLen wasRead =>
    by_cases hpart : wasRead + count < bodyLen
    · rw [receiveStep_body_part hpart]
      simp
    · obtain ⟨request, hstep⟩ | hstep := receiveStep_body_whole hpart buffer firstLine headers
        startPos
      · rw [hstep]
        simp
      · rw [hstep]
        simp

/-- What `EpollManager` keeps in an entry besides the event that `changeEvent` sets. -/
def RoutineInfo.fixed (info : RoutineInfo) : Nat × Nat × Nat := (info.node, info.fd, info.timeout)

/-- A segment that has an effect C++ defines, and leaves the fixed part of its entry alone. -/
structure RoutineSeg.Tame (c : Client) (r : RoutineSeg × Client) : Prop where
  defined : r.1 ≠ .undefined
  fixed : r.2.info.fixed = c.info.fixed

theorem Client.changeEvent_fixed (c : Client) (newEvent : EpollEvent) :
    (c.changeEvent newEvent).2.info.fixed = c.info.fixed := by
  rw [Client.changeEvent_eq]
  rfl

theorem Client.tame_afterSend (c : Client) (request : HttpRequest) :
    RoutineSeg.Tame c (c.afterSend request) := by
  have hfixed := c.changeEvent_fixed .epollin
  rw [Client.afterSend]
  split
  · rcases hchange : c.changeEvent .epollin with ⟨_ | e, c'⟩
    · rw [hchange] at hfixed
      exact ⟨by simp, hfixed⟩
    · rw [hchange] at hfixed
      exact ⟨by simp, hfixed⟩
  · exact ⟨by simp, rfl⟩

theorem Client.tame_sendRest (c : Client) (request : HttpRequest) (msg : Bytes) (sended : Nat) :
    RoutineSeg.Tame c (c.sendRest request msg sended) := by
  rw [Client.sendRest]
  rcases connectionWrite (msg.length - sended) c.io.sends with ⟨e | bytes, sends⟩
  · exact ⟨by simp, rfl⟩
  · simp only
    split
    · exact ⟨by simp, rfl⟩
    · have htame := Client.tame_afterSend { c with io.sends := sends } request
      exact ⟨htame.defined, htame.fixed⟩

theorem Client.tame_respond (server : Server) (c : Client) (request : HttpRequest) :
    RoutineSeg.Tame c (c.respond server request) := by
  refine ⟨c.respond_defined server request, ?_⟩
  rw [Client.respond]
  rcases server.onRequest c.io.served request with e | response
  · rfl
  · simp only [Client.changeEvent_eq]
    rcases ctlError c.io.ctls with _ | errno
    case some => rfl
    case none =>
      rcases response.message server.hash with _ | msg
      · rfl
      · exact (Client.tame_sendRest _ request msg 0).fixed

theorem Client.read_fixed (c : Client) : c.read.2.info.fixed = c.info.fixed := by
  rw [Client.read]
  rcases c.io.recvs with _ | ⟨recv, recvs⟩
  · rfl
  · simp only
    rcases recv.read with e | r
    · rfl
    · rfl

theorem Client.tame_turn (server : Server) {next : ReceiverPc → Client → RoutineSeg × Client}
    (hnext : ∀ pc c, RoutineSeg.Tame c (next pc c)) (pc : ReceiverPc) (c : Client) :
    RoutineSeg.Tame c (c.turn server next pc) := by
  have hfixed := c.read_fixed
  rw [Client.turn]
  rcases hread : c.read with ⟨e | count, c'⟩
  · rw [hread] at hfixed
    exact ⟨by simp, hfixed⟩
  rw [hread] at hfixed
  simp only
  have hdefined := receiveStep_defined c'.info.buffer count pc
  rcases hstep : receiveStep c'.info.buffer count pc with pc' | pc' | request | e
  · exact ⟨(hnext pc' c').defined, (hnext pc' c').fixed.trans hfixed⟩
  · exact ⟨by simp, hfixed⟩
  · have htame := c'.tame_respond server request
    exact ⟨htame.defined, htame.fixed.trans hfixed⟩
  · rw [hstep] at hdefined
    have he : e ≠ .undefined := fun heq => hdefined (heq ▸ rfl)
    refine ⟨fun hundefined => ?_, hfixed⟩
    have hends := RoutineSeg.ofStd_ends he
    rw [show RoutineSeg.ofStd e = .undefined from hundefined] at hends
    exact hends

theorem Client.tame_resume (server : Server) (pc : RoutinePc) (c : Client) :
    RoutineSeg.Tame c (c.resume server pc) := by
  have hreceive : ∀ pc c, RoutineSeg.Tame c (Client.receive server pc c) := fun pc c =>
    Client.tame_turn server (Client.tame_turn server fun _ _ => ⟨by simp, rfl⟩) pc c
  cases pc with
  | receiving pc => exact hreceive pc c
  | sending request msg sended => exact c.tame_sendRest request msg sended
  | served => exact hreceive (.head 0) c

/-! ## Segments over the table -/

/-- The client whose entry a place refers to; a routine that starts asks for `current()`. -/
def ClientPc.Own (id : Nat) : ClientPc → Prop
  | .clientRoutine => True
  | .suspended id' _ _ => id' = id

/-- The reference that a place holds is to the entry in the table. -/
def ClientPc.Live (w : World) : ClientPc → Prop
  | .clientRoutine => True
  | .suspended id node _ => ∃ info, w.routines.lookup id = some info ∧ info.node = node

theorem World.segment_spec (server : Server) {w : World} {id : Nat} {info : RoutineInfo}
    (h : w.routines.lookup id = some info) (pc : RoutinePc) :
    (∀ j, ((w.segment server id info pc).2.routines.lookup j).map RoutineInfo.fixed =
        (w.routines.lookup j).map RoutineInfo.fixed) ∧
      (∀ j, j ≠ id → (w.segment server id info pc).2.routines.lookup j = w.routines.lookup j) ∧
      (∀ k, (w.segment server id info pc).1 = .yield k → k.Own id) ∧
      (w.segment server id info pc).2.undefined = w.undefined := by
  obtain ⟨hdefined, hfixed⟩ := Client.tame_resume server pc ⟨info, w.io⟩
  rw [World.segment]
  rcases hseg : Client.resume server pc ⟨info, w.io⟩ with ⟨seg, c⟩
  rw [hseg] at hdefined hfixed
  have hentries : ∀ j, ((w.routines.insert id c.info).lookup j).map RoutineInfo.fixed =
      (w.routines.lookup j).map RoutineInfo.fixed := fun j => by
    rcases eq_or_ne j id with rfl | hne
    · rw [AList.lookup_insert, h, Option.map_some, Option.map_some, hfixed]
    · rw [AList.lookup_insert_ne hne]
  have hother : ∀ j, j ≠ id → (w.routines.insert id c.info).lookup j = w.routines.lookup j :=
    fun j hne => AList.lookup_insert_ne hne
  cases seg with
  | yield pc =>
    refine ⟨hentries, hother, fun k hk => ?_, rfl⟩
    cases hk
    rfl
  | ret =>
    refine ⟨hentries, hother, fun k hk => ?_, rfl⟩
    cases hk
  | throw e =>
    refine ⟨hentries, hother, fun k hk => ?_, rfl⟩
    cases hk
  | undefined => exact absurd rfl hdefined

theorem clientRun_fixed (server : Server) (current : Nat) (k : ClientPc)
    (sig : Coroutine.Signal Thrown) (w : World) (j : Nat) :
    ((clientRun server current k sig w).2.routines.lookup j).map RoutineInfo.fixed =
      (w.routines.lookup j).map RoutineInfo.fixed := by
  unfold clientRun
  split
  · rfl
  · rcases hlook : w.routines.lookup current with _ | info
    · rfl
    · exact (World.segment_spec server hlook _).1 j
  · rename_i id node pc _
    rcases hlook : w.routines.lookup id with _ | info
    · rfl
    · simp only
      split
      · exact (World.segment_spec server hlook _).1 j
      · rfl

/-- A segment at a place of `id`'s own: it is defined exactly when the place is live. -/
theorem clientRun_own (server : Server) {id : Nat} {k : ClientPc} (hk : k.Own id)
    {sig : Coroutine.Signal Thrown} (hsig : ∀ e, sig ≠ .raised e) (w : World) :
    (∀ j, j ≠ id → (clientRun server id k sig w).2.routines.lookup j = w.routines.lookup j) ∧
      (∀ k', (clientRun server id k sig w).1 = .yield k' → k'.Own id) ∧
      ((clientRun server id k sig w).2.undefined = false ↔
        w.undefined = false ∧ k.Live w) := by
  unfold clientRun
  split
  · exact absurd rfl (hsig _)
  · rcases hlook : w.routines.lookup id with _ | info
    · refine ⟨fun _ _ => rfl, fun k' hk' => ?_, ?_⟩
      · cases hk'
      · simp only [ClientPc.Live, and_true]
    · obtain ⟨-, hother, hyield, hundefined⟩ := World.segment_spec server hlook .served
      refine ⟨hother, hyield, ?_⟩
      simp only [hundefined, ClientPc.Live, and_true]
  · rename_i id' node pc _
    obtain rfl : id' = id := hk
    rcases hlook : w.routines.lookup id' with _ | info
    · refine ⟨fun _ _ => rfl, fun k' hk' => ?_, ?_⟩
      · cases hk'
      · simp [ClientPc.Live, hlook]
    · obtain ⟨-, hother, hyield, hundefined⟩ := World.segment_spec server hlook pc
      simp only
      split
      case isTrue hnode =>
        refine ⟨hother, hyield, ?_⟩
        simp [hundefined, ClientPc.Live, hlook, hnode]
      case isFalse hnode =>
        refine ⟨fun _ _ => rfl, fun k' hk' => ?_, ?_⟩
        · cases hk'
        · simp [ClientPc.Live, hlook, hnode]

/-- Bodies that may do anything but add or remove entries of `routines_` or change their fixed
part. -/
structure KeepingCode extends Coroutine.Code ClientPc Thrown World where
  keeps : ∀ current k sig w j, ((run current k sig w).2.routines.lookup j).map RoutineInfo.fixed =
    (w.routines.lookup j).map RoutineInfo.fixed

def keepingClientCode (server : Server) : KeepingCode :=
  { clientCode server with keeps := clientRun_fixed server }

end AdvCppTP.Http
