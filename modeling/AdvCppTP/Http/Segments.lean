import AdvCppTP.Http.FirstSegment
import AdvCppTP.Http.Session

/-! What `clientRoutine` does from one `yield` to the next is a run of its session. -/

namespace AdvCppTP.Http

open Lib

/-- What the kernel is going to answer. -/
abbrev Kernel := List RecvOutcome × List SendOutcome × List (Option String)

def Io.kernel (io : Io) : Kernel := (io.recvs, io.sends, io.ctls)

/-- The answer to a call with `size` bytes. -/
def SendOutcome.result (size : Nat) : SendOutcome → SendResult
  | .accepted bytes => .accepted (min bytes size)
  | .eintr => .eintr
  | .error => .error

/-- What it answers next; it has no input, takes everything and does not fail unless it is said. -/
inductive Kernel.Answers : Kernel → SessionEvent → Kernel → Prop
  | recv (outcome : RecvOutcome) (k : Kernel) :
      Answers (outcome :: k.1, k.2) (.recv outcome) k
  | quiet (k : Kernel) : Answers ([], k.2) (.recv .wouldBlock) ([], k.2)
  | send (outcome : SendOutcome) (size : Nat) (k : Kernel) :
      Answers (k.1, outcome :: k.2.1, k.2.2) (.send (outcome.result size)) k
  | taken (size : Nat) (k : Kernel) :
      Answers (k.1, [], k.2.2) (.send (.accepted size)) (k.1, [], k.2.2)
  | ctl (errno : Option String) (k : Kernel) :
      Answers (k.1, k.2.1, errno :: k.2.2) (.ctl errno) k
  | done (k : Kernel) : Answers (k.1, k.2.1, []) (.ctl none) (k.1, k.2.1, [])

/-- The session goes on with what the kernel answers. -/
inductive Session.Goes (server : Server) : Session → Kernel → Session → Kernel → Prop
  | stay (s : Session) (k : Kernel) : Goes server s k s k
  | step {s s₁ s' : Session} {k k₁ k' : Kernel} {e : SessionEvent}
      (hstep : s.step server e = some s₁) (hk : k.Answers e k₁) (hrest : Goes server s₁ k₁ s' k') :
      Goes server s k s' k'

namespace Session.Goes

variable {server : Server} {s s₁ s' : Session} {k k₁ k' : Kernel}

theorem exists_steps (h : Goes server s k s' k') :
    ∃ es, steps (Session.step server) s es = some s' := by
  induction h with
  | stay s k => exact ⟨[], rfl⟩
  | step hstep hk hrest ih =>
    obtain ⟨es, hes⟩ := ih
    exact ⟨_ :: es, steps_cons.mpr ⟨_, hstep, hes⟩⟩

theorem one {e : SessionEvent} (hstep : s.step server e = some s') (hk : k.Answers e k') :
    Goes server s k s' k' :=
  .step hstep hk (.stay s' k')

end Session.Goes

/-- Where a session is behind a segment. -/
def RoutineSeg.At : RoutineSeg → SessionPc → Prop
  | .yield (.receiving pc), place => place = .waiting pc
  | .yield (.sending request msg sended), place =>
    ∃ accepted, place = .sending request ⟨msg, sended, .yield, accepted⟩
  | .yield .served, place => place = .served
  | how, place => place = .ended how

/-- A session that has read and served what a client has. -/
structure Session.Of (s : Session) (c : Client) : Prop where
  buffer : s.buffer = c.info.buffer
  served : s.served = c.io.served

/-- From here on the session does what the segment has done. -/
def Reaches (server : Server) (s : Session) (c : Client) (r : RoutineSeg × Client) : Prop :=
  ∃ s', s.Goes server c.io.kernel s' r.2.io.kernel ∧ r.1.At s'.pc ∧ s'.Of r.2

theorem Reaches.step {server : Server} {s s₁ : Session} {c : Client} (c₁ : Client)
    {r : RoutineSeg × Client} {e : SessionEvent} (hstep : s.step server e = some s₁)
    (hk : c.io.kernel.Answers e c₁.io.kernel) (h : Reaches server s₁ c₁ r) :
    Reaches server s c r := by
  obtain ⟨s', hgoes, hat, hof⟩ := h
  exact ⟨s', .step hstep hk hgoes, hat, hof⟩

theorem Reaches.stay {server : Server} {s : Session} {c : Client} (how : RoutineSeg)
    (hat : how.At s.pc) (hof : s.Of c) : Reaches server s c (how, c) :=
  ⟨s, .stay _ _, hat, hof⟩

theorem answers_ctl (io : Io) :
    io.kernel.Answers (.ctl (ctlError io.ctls)) { io with ctls := io.ctls.tail }.kernel := by
  unfold Io.kernel
  cases hctls : io.ctls with
  | nil => exact .done (io.recvs, io.sends, [])
  | cons errno ctls => exact .ctl errno (io.recvs, io.sends, ctls)

/-- The loop of `read_body` does not lead to another one. -/
theorem receiveStep_again {buffer : Bytes} {count : ℕ} {pc pc' : ReceiverPc}
    (h : receiveStep buffer count pc = .again pc') (buffer' : Bytes) (count' : ℕ)
    (pc₂ : ReceiverPc) : receiveStep buffer' count' pc' ≠ .again pc₂ := by
  have hbody : ∀ (buffer : Bytes) (count : ℕ) (firstLine : QueryLine) (headers : StringMap)
      (startPos bodyLen wasRead : ℕ) (pc : ReceiverPc),
      receiveStep buffer count (.body firstLine headers startPos bodyLen wasRead) ≠ .again pc := by
    intro buffer count firstLine headers startPos bodyLen wasRead pc hagain
    obtain h | ⟨request, h⟩ | ⟨e, h⟩ := receiveStep_body_cases buffer count firstLine headers
      startPos bodyLen wasRead
    all_goals
      rw [h] at hagain
      cases hagain
  cases pc with
  | body firstLine headers startPos bodyLen wasRead => exact absurd h (hbody _ _ _ _ _ _ _ _)
  | head pos =>
    cases hfind : Lib.find headersEnd buffer pos with
    | none =>
      rw [receiveStep_head_of_none count hfind] at h
      cases h
    | some p =>
      rw [receiveStep_head_of_some count hfind] at h
      obtain ⟨f, hs, start, len, was, hhead⟩ | ⟨request, hhead⟩ | ⟨e, hhead⟩ :=
        receiveHead_cases buffer p
      · rw [hhead] at h
        cases h
        exact hbody _ _ _ _ _ _ _ _
      · rw [hhead] at h
        cases h
      · rw [hhead] at h
        cases h

section

variable {server : Server} {s : Session} {c : Client}

/-- `changeEvent` in a session that is in `epoll_ctl`. -/
theorem reaches_changeEvent (newEvent : EpollEvent) {s₁ : Session} {r : RoutineSeg × Client}
    (hdone : s.step server (.ctl none) = some s₁)
    (hfails : ∀ errno,
      s.step server (.ctl (some errno)) = some (s.stop (.throw (Session.epollError errno))))
    (hof : s.Of c)
    (hrest : ∀ c', c.changeEvent newEvent = (none, c') → c'.info.buffer = c.info.buffer →
      c'.io.served = c.io.served → c'.io.sends = c.io.sends → Reaches server s₁ c' r)
    (hthrow : ∀ errno c', c.changeEvent newEvent = (some (Session.epollError errno), c') →
      r = (.throw (Session.epollError errno), c')) : Reaches server s c r := by
  simp only [Client.changeEvent_eq] at hrest hthrow
  have hanswers := answers_ctl c.io
  rcases hctl : ctlError c.io.ctls with _ | errno
  · rw [hctl] at hanswers hrest
    exact .step _ hdone hanswers (hrest _ rfl rfl rfl rfl)
  · rw [hctl] at hanswers hthrow
    obtain rfl := hthrow errno _ rfl
    have hstop : s.stop (.throw (Session.epollError errno)) |>.Of
        { c with info.currentEvent := newEvent, io.ctls := c.io.ctls.tail } :=
      ⟨hof.buffer, hof.served⟩
    exact .step { c with info.currentEvent := newEvent, io.ctls := c.io.ctls.tail }
      (hfails errno) hanswers (.stay _ rfl hstop)

theorem reaches_afterSend {request : HttpRequest} (hpc : s.pc =
    if request.keepAlive then .rearming else .ended .ret) (hof : s.Of c) :
    Reaches server s c (c.afterSend request) := by
  unfold Client.afterSend
  split
  case isTrue halive =>
    rw [if_pos halive] at hpc
    have hdone : s.step server (.ctl none) = some { s with pc := .served } := by
      simp only [Session.step, hpc]
    have hfails : ∀ errno,
        s.step server (.ctl (some errno)) = some (s.stop (.throw (Session.epollError errno))) := by
      intro errno
      simp only [Session.step, hpc]
    refine reaches_changeEvent .epollin hdone hfails hof (fun c' hchange hbuffer hserved _ => ?_)
      fun errno c' hchange => ?_
    · simp only [hchange]
      exact .stay (.yield .served) rfl
        ⟨hof.buffer.trans hbuffer.symm, hof.served.trans hserved.symm⟩
    · simp only [hchange]
  case isFalse halive =>
    rw [if_neg halive] at hpc
    exact .stay .ret hpc hof

/-- `::send` takes at least one byte when it takes any. -/
def SendsSome (sends : List SendOutcome) : Prop := ∀ n, .accepted n ∈ sends → 1 ≤ n

theorem step_send {request : HttpRequest} {sending sending' : Sending} {r : SendResult}
    (hpc : s.pc = .sending request sending) (hstep : sending.step (.answer r) = .ok sending') :
    s.step server (.send r) = some (s.sends request sending') := by
  simp only [Session.step, hpc, hstep]
  rfl

theorem sends_of (request : HttpRequest) (sending : Sending) (hof : s.Of c) :
    (s.sends request sending).Of c := by
  unfold Session.sends
  split <;> exact ⟨hof.buffer, hof.served⟩

/-- A `write` that returns. -/
theorem reaches_wrote {request : HttpRequest} {msg accepted : Bytes} {sended bytes : Nat}
    (sends : List SendOutcome) {r : RoutineSeg × Client}
    (hpc : s.pc = .sending request ⟨msg, sended, .write sended (msg.length - sended), accepted⟩)
    (hbytes : 1 ≤ bytes ∧ bytes ≤ msg.length - sended) (hof : s.Of c)
    (hk : c.io.kernel.Answers (.send (.accepted bytes)) { c.io with sends := sends }.kernel)
    (hr : r = if sended + bytes < msg.length then
        (.yield (.sending request msg (sended + bytes)), { c with io.sends := sends })
      else Client.afterSend { c with io.sends := sends } request) :
    Reaches server s c r := by
  have hstep : Sending.step ⟨msg, sended, .write sended (msg.length - sended), accepted⟩
      (.answer (.accepted bytes)) =
        .ok ⟨msg, sended + bytes, if sended + bytes < msg.length then .yield else .returned,
          accepted ++ (msg.drop sended).take bytes⟩ := by
    rw [Sending.step_answer rfl, Sending.answered, if_pos hbytes]
    rfl
  have hof' : ∀ sending, (s.sends request sending).Of { c with io.sends := sends } := by
    intro sending
    obtain ⟨hbuffer, hserved⟩ := sends_of request sending hof
    exact ⟨hbuffer, hserved⟩
  refine .step { c with io.sends := sends } (step_send hpc hstep) hk ?_
  rw [hr]
  split
  case isTrue hpart =>
    simp only at hof' ⊢
    exact .stay (.yield (.sending request msg (sended + bytes))) ⟨_, rfl⟩ (hof' _)
  case isFalse hwhole =>
    simp only at hof' ⊢
    exact reaches_afterSend rfl (hof' _)

theorem reaches_sendRest {request : HttpRequest} {msg accepted : Bytes} {sended : Nat}
    (hsome : SendsSome c.io.sends) (hlt : sended < msg.length)
    (hpc : s.pc = .sending request ⟨msg, sended, .write sended (msg.length - sended), accepted⟩)
    (hof : s.Of c) : Reaches server s c (c.sendRest request msg sended) := by
  have hroom : 1 ≤ msg.length - sended := Nat.sub_pos_of_lt hlt
  -- by induction on the answers: an interrupted call is made again
  generalize hsends : c.io.sends = sends
  induction sends generalizing c s with
  | nil =>
    refine reaches_wrote [] hpc ⟨hroom, le_refl _⟩ hof ?_ ?_
    · unfold Io.kernel
      rw [hsends]
      exact .taken _ (c.io.recvs, [], c.io.ctls)
    · simp only [Client.sendRest, hsends, connectionWrite]
  | cons outcome sends ih =>
    have hanswers : c.io.kernel.Answers (.send (outcome.result (msg.length - sended)))
        { c.io with sends := sends }.kernel := by
      unfold Io.kernel
      rw [hsends]
      exact .send outcome _ (c.io.recvs, sends, c.io.ctls)
    cases outcome with
    | accepted bytes =>
      have hbytes : 1 ≤ bytes := hsome bytes (hsends ▸ List.mem_cons_self)
      refine reaches_wrote sends hpc ⟨le_min hbytes hroom, min_le_right _ _⟩ hof hanswers ?_
      simp only [Client.sendRest, hsends, connectionWrite]
    | eintr =>
      have hstep : Sending.step ⟨msg, sended, .write sended (msg.length - sended), accepted⟩
          (.answer .eintr) = .ok ⟨msg, sended, .write sended (msg.length - sended), accepted⟩ := rfl
      have hrest : SendsSome sends := fun n hn => hsome n (hsends ▸ List.mem_cons_of_mem _ hn)
      have hsame : c.sendRest request msg sended =
          Client.sendRest { c with io.sends := sends } request msg sended := by
        simp only [Client.sendRest, hsends, connectionWrite]
      rw [hsame]
      exact .step { c with io.sends := sends } (step_send hpc hstep) hanswers
        (ih hrest rfl ⟨hof.buffer, hof.served⟩ rfl)
    | error =>
      have hstep : Sending.step ⟨msg, sended, .write sended (msg.length - sended), accepted⟩
          (.answer .error) =
            .ok ⟨msg, sended, .thrown (.user (.tcpError "Error to write")), accepted⟩ := rfl
      have hthrow : c.sendRest request msg sended =
          (.throw (.user (.tcpError "Error to write")), { c with io.sends := sends }) := by
        simp only [Client.sendRest, hsends, connectionWrite]
      rw [hthrow]
      exact .step { c with io.sends := sends } (step_send hpc hstep) hanswers
        (.stay _ rfl ⟨hof.buffer, hof.served⟩)

/-- The client that `clear_buffer` and the call of the handler leave. -/
def Client.called (c : Client) (request : HttpRequest) : Client :=
  { c with info.buffer := [], io.served := c.io.served ++ [⟨request, c.info.buffer⟩] }

theorem reaches_respond {request : HttpRequest} (hsome : SendsSome c.io.sends) (hof : s.Of c) :
    Reaches server (s.handle server request) c (c.respond server request) := by
  have hof' : (s.handle server request).Of (c.called request) := by
    refine ⟨rfl, ?_⟩
    unfold Session.handle Client.called
    rw [hof.served, hof.buffer]
  simp only [Client.respond]
  cases hresponse : server.onRequest c.io.served request with
  | error e =>
    refine .stay (.throw e) ?_ hof'
    simp only [Session.handle, hof.served, hresponse]
    rfl
  | ok response =>
    have hpc : (s.handle server request).pc = .announcing request response := by
      simp only [Session.handle, hof.served, hresponse]
    have hdone : (s.handle server request).step server (.ctl none) =
        some ((s.handle server request).sends request (response.send server.hash)) := by
      simp only [Session.step, hpc]
    have hfails : ∀ errno, (s.handle server request).step server (.ctl (some errno)) =
        some ((s.handle server request).stop (.throw (Session.epollError errno))) := by
      intro errno
      simp only [Session.step, hpc]
    refine reaches_changeEvent (c := c.called request) .epollout hdone hfails hof'
      (fun c' hchange hbuffer hserved hsends => ?_) fun errno c' hchange => ?_
    · have hof₁ : ((s.handle server request).sends request (response.send server.hash)).Of c' :=
        sends_of _ _ ⟨hof'.buffer.trans hbuffer.symm, hof'.served.trans hserved.symm⟩
      simp only [Client.called] at hchange
      simp only [hchange]
      cases hmsg : response.message server.hash with
      | none =>
        refine .stay (.throw .outOfRange) ?_ hof₁
        simp only [HttpResponse.send, hmsg, Session.sends]
        rfl
      | some msg =>
        rw [HttpResponse.send_eq hmsg] at hof₁ ⊢
        have hsome' : SendsSome c'.io.sends := hsends ▸ hsome
        exact reaches_sendRest hsome' (HttpResponse.message_pos hmsg) rfl hof₁
    · simp only [Client.called] at hchange
      simp only [hchange]

/-- What follows a read that left the client. -/
def Client.follow (server : Server) (next : ReceiverPc → Client → RoutineSeg × Client)
    (pc : ReceiverPc) (count : ℕ) (c : Client) : RoutineSeg × Client :=
  match receiveStep c.info.buffer count pc with
  | .again pc => next pc c
  | .yield pc => (.yield (.receiving pc), c)
  | .done request => c.respond server request
  | .throw e => (.ofStd e, c)

/-- One read, where the loop it leads to is known. -/
theorem reaches_turn {pc : ReceiverPc} {next : ReceiverPc → Client → RoutineSeg × Client}
    (hpc : s.pc = .reading pc) (hsome : SendsSome c.io.sends) (hof : s.Of c)
    (hnext : ∀ buffer count pc', receiveStep buffer count pc = .again pc' →
      ∀ (s' : Session) (c' : Client), s'.pc = .reading pc' → s'.Of c' → SendsSome c'.io.sends →
        Reaches server s' c' (next pc' c')) :
    Reaches server s c (c.turn server next pc) := by
  have hreceived : ∀ (c' : Client) (r : ReadResult), c'.info.buffer = c.info.buffer ++ r.appended →
      c'.io.served = c.io.served → c'.io.sends = c.io.sends →
      Reaches server (s.received server pc r) c' (c'.follow server next pc r.count) := by
    intro c' r hbuffer hserved hsends
    have hbuffer' : s.buffer ++ r.appended = c'.info.buffer := by rw [hof.buffer, hbuffer]
    have hserved' : s.served = c'.io.served := hof.served.trans hserved.symm
    simp only [Session.received, hbuffer', Client.follow]
    cases hstep : receiveStep c'.info.buffer r.count pc with
    | again pc' => exact hnext _ _ pc' hstep _ c' rfl ⟨rfl, hserved'⟩ (hsends ▸ hsome)
    | yield pc' => exact .stay (.yield (.receiving pc')) rfl ⟨rfl, hserved'⟩
    | done request => exact reaches_respond (hsends ▸ hsome) ⟨rfl, hserved'⟩
    | throw e =>
      refine .stay (.ofStd e) ?_ ⟨rfl, hserved'⟩
      cases e <;> rfl
  unfold Client.turn Client.read
  rcases hrecvs : c.io.recvs with _ | ⟨outcome, recvs⟩
  · have hanswers : c.io.kernel.Answers (.recv .wouldBlock) c.io.kernel := by
      unfold Io.kernel
      rw [hrecvs]
      exact .quiet ([], c.io.sends, c.io.ctls)
    have hstep : s.step server (.recv .wouldBlock) = some (s.received server pc ⟨[], 0⟩) := by
      simp only [Session.step, hpc]
      rfl
    exact .step c hstep hanswers (hreceived c ⟨[], 0⟩ (List.append_nil _).symm rfl rfl)
  · have hanswers : c.io.kernel.Answers (.recv outcome) { c.io with recvs := recvs }.kernel := by
      unfold Io.kernel
      rw [hrecvs]
      exact .recv outcome (recvs, c.io.sends, c.io.ctls)
    simp only
    cases hread : outcome.read with
    | error e =>
      have hstep : s.step server (.recv outcome) = some (s.stop (.throw e)) := by
        simp only [Session.step, hpc, hread]
      exact .step { c with io.recvs := recvs } hstep hanswers
        (.stay (.throw e) rfl ⟨hof.buffer, hof.served⟩)
    | ok r =>
      have hstep : s.step server (.recv outcome) = some (s.received server pc r) := by
        simp only [Session.step, hpc, hread]
      exact .step _ hstep hanswers (hreceived _ r rfl rfl rfl)

theorem reaches_receive {pc : ReceiverPc} (hpc : s.pc = .reading pc)
    (hsome : SendsSome c.io.sends) (hof : s.Of c) :
    Reaches server s c (c.receive server pc) := by
  refine reaches_turn hpc hsome hof fun buffer count pc' hagain s₁ c₁ hpc₁ hof₁ hsome₁ => ?_
  refine reaches_turn hpc₁ hsome₁ hof₁ fun buffer' count' pc₂ hagain' => ?_
  exact absurd hagain' (receiveStep_again hagain buffer' count' pc₂)

/-- What a session is suspended at, as the coroutine knows it. -/
def RoutinePc.Suspends : RoutinePc → SessionPc → Prop
  | .receiving pc, place => place = .waiting pc
  | .sending request msg sended, place =>
    sended < msg.length ∧ ∃ accepted, place = .sending request ⟨msg, sended, .yield, accepted⟩
  | .served, place => place = .served

/-- Resumed at a `yield`, `clientRoutine` does up to the next one what its session does. -/
theorem resume_is_session {pc : RoutinePc} (hpc : pc.Suspends s.pc) (hsome : SendsSome c.io.sends)
    (hof : s.Of c) :
    ∃ s₁ s' es, s.step server .resumed = some s₁ ∧
      steps (Session.step server) s₁ es = some s' ∧
      s₁.Goes server c.io.kernel s' (c.resume server pc).2.io.kernel ∧
      (c.resume server pc).1.At s'.pc ∧ s'.Of (c.resume server pc).2 := by
  have hreaches : ∃ s₁, s.step server .resumed = some s₁ ∧
      Reaches server s₁ c (c.resume server pc) := by
    cases pc with
    | receiving pc =>
      refine ⟨{ s with pc := .reading pc }, ?_, reaches_receive rfl hsome ⟨hof.buffer, hof.served⟩⟩
      simp only [Session.step, show s.pc = .waiting pc from hpc]
    | served =>
      refine ⟨{ s with pc := .reading (.head 0) }, ?_,
        reaches_receive rfl hsome ⟨hof.buffer, hof.served⟩⟩
      simp only [Session.step, show s.pc = .served from hpc]
    | sending request msg sended =>
      obtain ⟨hlt, accepted, hpc⟩ := hpc
      refine ⟨{ s with
          pc := .sending request ⟨msg, sended, .write sended (msg.length - sended), accepted⟩ },
        ?_, reaches_sendRest hsome hlt rfl ⟨hof.buffer, hof.served⟩⟩
      simp only [Session.step, hpc]
      rfl
  obtain ⟨s₁, hresumed, s', hgoes, hat, hof'⟩ := hreaches
  obtain ⟨es, hes⟩ := hgoes.exists_steps
  exact ⟨s₁, s', es, hresumed, hes, hgoes, hat, hof'⟩

end

theorem Session.Goes.sends_suffix {server : Server} {s s' : Session} {k k' : Kernel}
    (h : s.Goes server k s' k') : k'.2.1 <:+ k.2.1 := by
  induction h with
  | stay s k => exact List.suffix_rfl
  | step hstep hk hrest ih =>
    refine ih.trans ?_
    cases hk with
    | send outcome size => exact List.suffix_cons outcome _
    | recv | quiet | taken | ctl | done => exact List.suffix_rfl

/-- A session that waits for its turn to write has something left to write. -/
theorem suspends_of_at {server : Server} {es : List SessionEvent} {s : Session} {pc : RoutinePc}
    (hrun : steps (Session.step server) .init es = some s) (h : (RoutineSeg.yield pc).At s.pc) :
    pc.Suspends s.pc := by
  cases pc with
  | receiving pc => exact h
  | served => exact h
  | sending request msg sended =>
    obtain ⟨accepted, hpc⟩ := h
    have hout := Session.out_of_run hrun
    unfold Session.Out at hout
    rw [hpc] at hout
    cases hout with
    | sending hlog hreply hin hsent =>
      have hwhole : msg = _ := hin.whole
      have hlt : sended < _ := hin.place
      rw [← hwhole] at hlt
      exact ⟨hlt, accepted, hpc⟩

/-- However often the routine is resumed, and whatever the kernel answers, its client is where a
session is that has heard the same. -/
theorem serve_is_session (server : Server) {c : Client} (hsome : SendsSome c.io.sends)
    (hbuffer : c.info.buffer = []) (hserved : c.io.served = []) (n : ℕ) :
    ∃ es s, steps (Session.step server) .init es = some s ∧
      s.Of (serve server n (.yield .served, c)) := by
  have key : ∀ n (r : RoutineSeg × Client) es s,
      steps (Session.step server) .init es = some s → r.1.At s.pc → s.Of r.2 →
        SendsSome r.2.io.sends → ∃ es s, steps (Session.step server) .init es = some s ∧
          s.Of (serve server n r) := by
    intro n
    induction n with
    | zero => exact fun r es s hrun _ hof _ => ⟨es, s, hrun, hof⟩
    | succ n ih =>
      rintro ⟨how, c⟩ es s hrun hat hof hsends
      cases how with
      | yield pc =>
        obtain ⟨s₁, s', es', hstep, hes', hgoes, hat', hof'⟩ :=
          resume_is_session (suspends_of_at hrun hat) hsends hof
        refine ih _ (es ++ .resumed :: es') s' ?_ hat' hof' fun n hn => ?_
        · exact steps_append.mpr ⟨s, hrun, steps_cons.mpr ⟨s₁, hstep, hes'⟩⟩
        · exact hsends n (hgoes.sends_suffix.subset hn)
      | ret | throw e | undefined => exact ⟨es, s, hrun, hof⟩
  exact key n _ [] .init rfl rfl ⟨hbuffer.symm, hserved.symm⟩ hsome

end AdvCppTP.Http
