import AdvCppTP.Lib.Messages
import AdvCppTP.Lib.Progress
import AdvCppTP.Http.Pipelining
import AdvCppTP.Http.Sending

/-! One connection from `accept` to its end: `clientRoutine` call by call, what it reads, what it
hands to the handler and what the socket takes from it. -/

namespace AdvCppTP.Http

open Lib

/-- Where `clientRoutine` is: in a call that something else answers, behind a `yield`, or over. -/
inductive SessionPc
  | reading (pc : ReceiverPc)
  | announcing (request : HttpRequest) (response : HttpResponse)
  | sending (request : HttpRequest) (sending : Sending)
  | rearming
  | waiting (pc : ReceiverPc)
  | served
  | ended (how : RoutineSeg)

/-- `sent` is what the socket has taken in the calls of `HttpResponse::send` that are over. -/
structure Session where
  pc : SessionPc
  buffer : Bytes
  served : List Served
  sent : Bytes

inductive SessionEvent
  | recv (outcome : RecvOutcome)
  | ctl (errno : Option String)
  | send (r : SendResult)
  | resumed
  | raised (e : Exn)

def SessionEvent.read? : SessionEvent → Option ReadResult
  | .recv outcome => outcome.read.toOption
  | _ => none

namespace Session

def init : Session := ⟨.served, [], [], []⟩

/-- `connection.clear_buffer()` and `server_.onRequest(request)`. -/
def handle (server : Server) (s : Session) (request : HttpRequest) : Session :=
  { s with
    pc := match server.onRequest s.served request with
      | .error e => .ended (.throw e)
      | .ok response => .announcing request response
    buffer := []
    served := s.served ++ [⟨request, s.buffer⟩] }

/-- `receive` behind a `read`. -/
def received (server : Server) (s : Session) (pc : ReceiverPc) (r : ReadResult) : Session :=
  let s := { s with buffer := s.buffer ++ r.appended }
  match receiveStep s.buffer r.count pc with
  | .again pc => { s with pc := .reading pc }
  | .yield pc => { s with pc := .waiting pc }
  | .done request => s.handle server request
  | .throw e => { s with pc := .ended (.ofStd e) }

/-- `response.send(connection)` as far as it is now, and what follows it. -/
def sends (s : Session) (request : HttpRequest) (sending : Sending) : Session :=
  match sending.pc with
  | .returned =>
    { s with
      pc := if request.keepAlive then .rearming else .ended .ret
      sent := s.sent ++ sending.accepted }
  | .thrown e => { s with pc := .ended (.throw e), sent := s.sent ++ sending.accepted }
  | _ => { s with pc := .sending request sending }

def stop (s : Session) (how : RoutineSeg) : Session := { s with pc := .ended how }

def epollError (errno : String) : Exn := .user (.epollError ("Epoll mod error: " ++ errno))

/-- `none` where the routine does not wait for this. -/
def step (server : Server) (s : Session) : SessionEvent → Option Session
  | .recv outcome =>
    match s.pc with
    | .reading pc =>
      match outcome.read with
      | .error e => some (s.stop (.throw e))
      | .ok r => some (s.received server pc r)
    | _ => none
  | .ctl errno =>
    match s.pc with
    | .announcing request response =>
      match errno with
      | none => some (s.sends request (response.send server.hash))
      | some errno => some (s.stop (.throw (epollError errno)))
    | .rearming =>
      match errno with
      | none => some { s with pc := .served }
      | some errno => some (s.stop (.throw (epollError errno)))
    | _ => none
  | .send r =>
    match s.pc with
    | .sending request sending => (sending.step (.answer r)).toOption.map (s.sends request)
    | _ => none
  | .resumed =>
    match s.pc with
    | .sending request sending => (sending.step .resumed).toOption.map (s.sends request)
    | .waiting pc => some { s with pc := .reading pc }
    | .served => some { s with pc := .reading (.head 0) }
    | _ => none
  | .raised e =>
    match s.pc with
    | .sending request sending => (sending.step (.raised e)).toOption.map (s.sends request)
    | .waiting _ => some (s.stop (.throw e))
    | .served => some (s.stop (.throw e))
    | _ => none

/-- What the socket has taken so far. -/
def written (s : Session) : Bytes :=
  match s.pc with
  | .sending _ sending => s.sent ++ sending.accepted
  | _ => s.sent

/-- What a step can do, by the place of the routine. -/
inductive Steps (server : Server) (s : Session) : SessionEvent → Session → Prop
  | unread {pc : ReceiverPc} {outcome : RecvOutcome} {e : Exn} (hpc : s.pc = .reading pc)
      (hread : outcome.read = .error e) : Steps _ s (.recv outcome) (s.stop (.throw e))
  | read {pc : ReceiverPc} {outcome : RecvOutcome} {r : ReadResult} (hpc : s.pc = .reading pc)
      (hread : outcome.read = .ok r) : Steps _ s (.recv outcome) (s.received server pc r)
  | announced {request : HttpRequest} {response : HttpResponse}
      (hpc : s.pc = .announcing request response) :
      Steps _ s (.ctl none) (s.sends request (response.send server.hash))
  | unannounced {request : HttpRequest} {response : HttpResponse} (errno : String)
      (hpc : s.pc = .announcing request response) :
      Steps _ s (.ctl (some errno)) (s.stop (.throw (epollError errno)))
  | rearmed (hpc : s.pc = .rearming) : Steps _ s (.ctl none) { s with pc := .served }
  | unarmed (errno : String) (hpc : s.pc = .rearming) :
      Steps _ s (.ctl (some errno)) (s.stop (.throw (epollError errno)))
  | sent {request : HttpRequest} {sending sending' : Sending} {e : SessionEvent} (e' : SendEvent)
      (hpc : s.pc = .sending request sending) (hstep : sending.step e' = .ok sending')
      (he : e.read? = none) : Steps _ s e (s.sends request sending')
  | woken {pc : ReceiverPc} (hpc : s.pc = .waiting pc) :
      Steps _ s .resumed { s with pc := .reading pc }
  | again (hpc : s.pc = .served) : Steps _ s .resumed { s with pc := .reading (.head 0) }
  | killedWaiting {pc : ReceiverPc} {e : Exn} (hpc : s.pc = .waiting pc) :
      Steps _ s (.raised e) (s.stop (.throw e))
  | killed {e : Exn} (hpc : s.pc = .served) : Steps _ s (.raised e) (s.stop (.throw e))

theorem steps_of_sending {server : Server} {s s' : Session} {request : HttpRequest}
    {sending : Sending} {e : SessionEvent} {e' : SendEvent} (hpc : s.pc = .sending request sending)
    (he : e.read? = none) (h : (sending.step e').toOption.map (s.sends request) = some s') :
    s.Steps server e s' := by
  obtain ⟨sending', hstep, rfl⟩ := Option.map_eq_some_iff.mp h
  cases hresult : sending.step e' with
  | ok sending'' =>
    rw [hresult] at hstep
    obtain rfl := Option.some.inj hstep
    exact .sent e' hpc hresult he
  | error x =>
    rw [hresult] at hstep
    cases hstep

theorem steps_of_step {server : Server} {s s' : Session} {e : SessionEvent}
    (h : s.step server e = some s') : s.Steps server e s' := by
  cases e with
  | recv outcome =>
    simp only [step] at h
    split at h
    case h_1 pc hpc =>
      split at h
      case h_1 e hread =>
        cases h
        exact .unread hpc hread
      case h_2 r hread =>
        cases h
        exact .read hpc hread
    case h_2 => cases h
  | ctl errno =>
    simp only [step] at h
    split at h
    case h_1 request response hpc =>
      cases errno with
      | none =>
        cases h
        exact .announced hpc
      | some errno =>
        cases h
        exact .unannounced errno hpc
    case h_2 hpc =>
      cases errno with
      | none =>
        cases h
        exact .rearmed hpc
      | some errno =>
        cases h
        exact .unarmed errno hpc
    case h_3 => cases h
  | send r =>
    simp only [step] at h
    split at h
    case h_1 request sending hpc => exact steps_of_sending hpc rfl h
    case h_2 => cases h
  | resumed =>
    simp only [step] at h
    split at h
    case h_1 request sending hpc => exact steps_of_sending hpc rfl h
    case h_2 pc hpc =>
      cases h
      exact .woken hpc
    case h_3 hpc =>
      cases h
      exact .again hpc
    case h_4 => cases h
  | raised e =>
    simp only [step] at h
    split at h
    case h_1 request sending hpc => exact steps_of_sending hpc rfl h
    case h_2 pc hpc =>
      cases h
      exact .killedWaiting hpc
    case h_3 hpc =>
      cases h
      exact .killed hpc
    case h_4 => cases h

end Session

/-! ## What goes out -/

/-- The message that answers a request; there is none when the handler throws, or `send` does for
the status. -/
def Server.reply (server : Server) (history : List Served) (request : HttpRequest) :
    Option Bytes :=
  match server.onRequest history request with
  | .error _ => none
  | .ok response => response.message server.hash

/-- The messages that answer the calls of the handler behind those of `history`. -/
def Server.repliesFrom (server : Server) (history : List Served) : List Served → List Bytes
  | [] => []
  | call :: log =>
    (server.reply history call.request).getD [] :: server.repliesFrom (history ++ [call]) log

def Server.replies (server : Server) (log : List Served) : List Bytes := server.repliesFrom [] log

theorem repliesFrom_concat (server : Server) (history log : List Served) (call : Served) :
    server.repliesFrom history (log ++ [call]) =
      server.repliesFrom history log ++
        [(server.reply (history ++ log) call.request).getD []] := by
  induction log generalizing history with
  | nil => rw [List.append_nil]; rfl
  | cons first log ih =>
    rw [List.cons_append, Server.repliesFrom, Server.repliesFrom, ih, List.append_assoc,
      List.singleton_append, List.cons_append]

theorem replies_concat (server : Server) (log : List Served) (call : Served) :
    server.replies (log ++ [call]) =
      server.replies log ++ [(server.reply log call.request).getD []] :=
  repliesFrom_concat server [] log call

/-- What has gone out at each place of the routine. -/
inductive SessionPc.Out (server : Server) (log : List Served) (sent : Bytes) : SessionPc → Prop
  | reading (pc : ReceiverPc) (h : sent = (server.replies log).flatten) : Out _ _ _ (.reading pc)
  | waiting (pc : ReceiverPc) (h : sent = (server.replies log).flatten) : Out _ _ _ (.waiting pc)
  | served (h : sent = (server.replies log).flatten) : Out _ _ _ .served
  | rearming (h : sent = (server.replies log).flatten) : Out _ _ _ .rearming
  | announcing {earlier : List Served} {call : Served} {response : HttpResponse}
      (hlog : log = earlier ++ [call])
      (hresponse : server.onRequest earlier call.request = .ok response)
      (h : sent = (server.replies earlier).flatten) : Out _ _ _ (.announcing call.request response)
  | sending {earlier : List Served} {call : Served} {msg : Bytes} {sending : Sending}
      (hlog : log = earlier ++ [call]) (hreply : server.reply earlier call.request = some msg)
      (hin : sending.InOrder msg) (h : sent = (server.replies earlier).flatten) :
      Out _ _ _ (.sending call.request sending)
  | returned (h : sent = (server.replies log).flatten) : Out _ _ _ (.ended .ret)
  | ended {how : RoutineSeg} (hhow : how ≠ .ret) (h : CutAtEnd sent (server.replies log)) :
      Out _ _ _ (.ended how)

def Session.Out (server : Server) (s : Session) : Prop := s.pc.Out server s.served s.sent

namespace Session

section Out

variable {server : Server} {s s' : Session}

theorem out_cut {earlier : List Served} (call : Served) {msg part : Bytes}
    (hreply : (server.reply earlier call.request).getD [] = msg) (hpart : part <+: msg) :
    CutAtEnd ((server.replies earlier).flatten ++ part) (server.replies (earlier ++ [call])) := by
  rw [replies_concat, hreply]
  exact cutAtEnd_concat _ hpart

theorem out_throw (hlog : s.sent = (server.replies s.served).flatten) {how : RoutineSeg}
    (hhow : how ≠ .ret) : SessionPc.Out server s.served s.sent (.ended how) := by
  refine .ended hhow ?_
  rw [hlog]
  exact cutAtEnd_flatten _

theorem sends_out {earlier : List Served} {call : Served} {msg : Bytes} {sending : Sending}
    (hlog : s.served = earlier ++ [call]) (hreply : server.reply earlier call.request = some msg)
    (hin : sending.InOrder msg) (hsent : s.sent = (server.replies earlier).flatten) :
    (s.sends call.request sending).Out server := by
  have hgetD : (server.reply earlier call.request).getD [] = msg := by
    rw [hreply]
    rfl
  unfold Session.Out sends
  cases hpc : sending.pc with
  | write data size => exact .sending hlog hreply hin hsent
  | yield => exact .sending hlog hreply hin hsent
  | returned =>
    have hend : sending.sended = msg.length := hin.place_of hpc
    have hall : s.sent ++ sending.accepted = (server.replies s.served).flatten := by
      rw [hsent, hlog, replies_concat, hgetD, hin.accepted, hend, List.take_length,
        List.flatten_append, List.flatten_singleton]
    simp only
    split
    · exact .rearming hall
    · exact .returned hall
  | thrown e =>
    refine .ended (by simp) ?_
    simp only
    rw [hsent, hlog, hin.accepted]
    exact out_cut _ hgetD (List.take_prefix _ msg)

theorem handle_out (request : HttpRequest) (h : s.sent = (server.replies s.served).flatten) :
    (s.handle server request).Out server := by
  unfold Session.Out handle
  simp only
  cases hresponse : server.onRequest s.served request with
  | ok response =>
    exact @SessionPc.Out.announcing _ _ _ _ ⟨request, s.buffer⟩ _ rfl hresponse h
  | error e =>
    refine .ended (by simp) ?_
    have hreply : (server.reply s.served request).getD [] = [] := by
      unfold Server.reply
      rw [hresponse]
      rfl
    have hcut := out_cut ⟨request, s.buffer⟩ hreply List.prefix_rfl
    rwa [List.append_nil, ← h] at hcut

theorem received_out (pc : ReceiverPc) (r : ReadResult)
    (h : s.sent = (server.replies s.served).flatten) :
    (s.received server pc r).Out server := by
  unfold received
  simp only
  cases receiveStep (s.buffer ++ r.appended) r.count pc with
  | again pc => exact .reading pc h
  | yield pc => exact .waiting pc h
  | done request => exact handle_out request h
  | throw e => exact out_throw h (by cases e <;> simp [RoutineSeg.ofStd])

/-- A response that cannot be sent for its status leaves nothing. -/
theorem send_out {earlier : List Served} {call : Served} {response : HttpResponse}
    (hlog : s.served = earlier ++ [call])
    (hresponse : server.onRequest earlier call.request = .ok response)
    (hsent : s.sent = (server.replies earlier).flatten) :
    (s.sends call.request (response.send server.hash)).Out server := by
  have hreply : server.reply earlier call.request = response.message server.hash := by
    unfold Server.reply
    rw [hresponse]
  cases hmsg : response.message server.hash with
  | some msg => exact sends_out hlog (hreply.trans hmsg) (HttpResponse.send_inOrder hmsg) hsent
  | none =>
    have hgetD : (server.reply earlier call.request).getD [] = [] := by
      rw [hreply, hmsg]
      rfl
    unfold Session.Out sends HttpResponse.send
    rw [hmsg]
    refine .ended (by simp) ?_
    simp only
    rw [hsent, hlog]
    exact out_cut _ hgetD List.prefix_rfl

theorem Out.step (h : s.Out server) {e : SessionEvent} (hstep : s.Steps server e s') :
    s'.Out server := by
  unfold Session.Out at h
  cases hstep with
  | unread hpc hread =>
    rw [hpc] at h
    cases h with
    | reading _ hsent => exact out_throw hsent (by simp)
  | read hpc hread =>
    rw [hpc] at h
    cases h with
    | reading _ hsent => exact received_out _ _ hsent
  | announced hpc =>
    rw [hpc] at h
    cases h with
    | announcing hlog hresponse hsent => exact send_out hlog hresponse hsent
  | unannounced errno hpc =>
    rw [hpc] at h
    cases h with
    | announcing hlog hresponse hsent =>
      refine .ended (by simp) ?_
      simp only [stop]
      rw [hlog, hsent, ← List.append_nil (List.flatten _)]
      exact out_cut _ rfl List.nil_prefix
  | rearmed hpc =>
    rw [hpc] at h
    cases h with
    | rearming hsent => exact .served hsent
  | unarmed errno hpc =>
    rw [hpc] at h
    cases h with
    | rearming hsent => exact out_throw hsent (by simp)
  | sent e' hpc hstep he =>
    rw [hpc] at h
    cases h with
    | sending hlog hreply hin hsent => exact sends_out hlog hreply (hin.step hstep) hsent
  | woken hpc =>
    rw [hpc] at h
    cases h with
    | waiting _ hsent => exact .reading _ hsent
  | again hpc =>
    rw [hpc] at h
    cases h with
    | served hsent => exact .reading _ hsent
  | killedWaiting hpc =>
    rw [hpc] at h
    cases h with
    | waiting _ hsent => exact out_throw hsent (by simp)
  | killed hpc =>
    rw [hpc] at h
    cases h with
    | served hsent => exact out_throw hsent (by simp)

theorem Out.cut (h : s.Out server) : CutAtEnd s.written (server.replies s.served) := by
  unfold Session.Out at h
  unfold written
  generalize hpc : s.pc = pc at h
  cases h with
  | reading _ hsent | waiting _ hsent | served hsent | rearming hsent | returned hsent =>
    simp only [hsent]
    exact cutAtEnd_flatten _
  | announcing hlog hresponse hsent =>
    rw [hsent, hlog, ← List.append_nil (List.flatten _)]
    exact out_cut _ rfl List.nil_prefix
  | sending hlog hreply hin hsent =>
    simp only
    rw [hsent, hlog, hin.accepted]
    refine out_cut _ ?_ (List.take_prefix _ _)
    rw [hreply]
    rfl
  | ended hhow hcut =>
    exact hcut

end Out

end Session

/-! ## What comes in -/

theorem receive_waiting_append {pc pc' : ReceiverPc} {buffer buffer' : Bytes}
    {reads : List ReadResult} (h : receive pc buffer reads = .waiting pc' buffer')
    (more : List ReadResult) : receive pc buffer (reads ++ more) = receive pc' buffer' more := by
  induction reads generalizing pc buffer with
  | nil =>
    cases h
    rfl
  | cons r reads ih =>
    rw [List.cons_append, receive_cons]
    rw [receive_cons] at h
    cases hstep : receiveStep (buffer ++ r.appended) r.count pc with
    | again pc₁ | yield pc₁ =>
      rw [hstep] at h
      exact ih h
    | done request | throw e =>
      rw [hstep] at h
      cases h

theorem receive_returned_append {pc : ReceiverPc} {buffer buf : Bytes}
    {reads rest : List ReadResult} {request : HttpRequest}
    (h : receive pc buffer reads = .returned request buf rest) (more : List ReadResult) :
    receive pc buffer (reads ++ more) = .returned request buf (rest ++ more) := by
  induction reads generalizing pc buffer with
  | nil => cases h
  | cons r reads ih =>
    rw [List.cons_append, receive_cons]
    rw [receive_cons] at h
    cases hstep : receiveStep (buffer ++ r.appended) r.count pc with
    | again pc₁ | yield pc₁ =>
      rw [hstep] at h
      exact ih h
    | done request' =>
      rw [hstep] at h
      cases h
      rfl
    | throw e =>
      rw [hstep] at h
      cases h

/-- The handler is called with `log` for these reads, and goes on with those that follow. -/
def Continues (reads : List ReadResult) (log : List Served) : Prop :=
  ∀ rest log', Handed rest log' → Handed (reads ++ rest) (log ++ log')

theorem handed_nil_nil : Handed [] [] := .stop fun _ _ _ h => by cases h

theorem Continues.handed {reads : List ReadResult} {log : List Served} (h : Continues reads log) :
    Handed reads log := by
  have hnow := h [] [] handed_nil_nil
  rwa [List.append_nil, List.append_nil] at hnow

theorem Continues.stop {reads current : List ReadResult} {log : List Served}
    (h : Continues reads log)
    (hstop : ∀ request buf rest, receive (.head 0) [] current ≠ .returned request buf rest) :
    Handed (reads ++ current) log := by
  have hnow := h current [] (.stop hstop)
  rwa [List.append_nil] at hnow

/-- What has come in at each place of the routine. -/
inductive SessionPc.In (reads : List ReadResult) (buffer : Bytes) (log : List Served) :
    SessionPc → Prop
  | reading {consumed current : List ReadResult} {pc : ReceiverPc}
      (hreads : reads = consumed ++ current) (hlog : Continues consumed log)
      (hreceive : receive (.head 0) [] current = .waiting pc buffer) : In _ _ _ (.reading pc)
  | waiting {consumed current : List ReadResult} {pc : ReceiverPc}
      (hreads : reads = consumed ++ current) (hlog : Continues consumed log)
      (hreceive : receive (.head 0) [] current = .waiting pc buffer) : In _ _ _ (.waiting pc)
  | served (hbuffer : buffer = []) (hlog : Continues reads log) : In _ _ _ .served
  | rearming (hbuffer : buffer = []) (hlog : Continues reads log) : In _ _ _ .rearming
  | announcing {request : HttpRequest} {response : HttpResponse} (hbuffer : buffer = [])
      (hnow : Handed reads log) (hlog : request.keepAlive = true → Continues reads log) :
      In _ _ _ (.announcing request response)
  | sending {request : HttpRequest} {sending : Sending} (hbuffer : buffer = [])
      (hnow : Handed reads log) (hlog : request.keepAlive = true → Continues reads log) :
      In _ _ _ (.sending request sending)
  | ended {how : RoutineSeg} (hnow : Handed reads log) : In _ _ _ (.ended how)

def Session.In (reads : List ReadResult) (s : Session) : Prop := s.pc.In reads s.buffer s.served

namespace Session

section In

variable {server : Server} {s s' : Session} {reads : List ReadResult}

theorem handle_in {request : HttpRequest} (hnow : Handed reads (s.served ++ [⟨request, s.buffer⟩]))
    (hlog : request.keepAlive = true → Continues reads (s.served ++ [⟨request, s.buffer⟩])) :
    (s.handle server request).In reads := by
  unfold Session.In handle
  simp only
  cases server.onRequest s.served request with
  | ok response => exact .announcing rfl hnow hlog
  | error e => exact .ended hnow

theorem sends_in {request : HttpRequest} (sending : Sending) (hbuffer : s.buffer = [])
    (hnow : Handed reads s.served) (hlog : request.keepAlive = true → Continues reads s.served) :
    (s.sends request sending).In reads := by
  unfold Session.In sends
  cases hpc : sending.pc with
  | write data size => exact .sending hbuffer hnow hlog
  | yield => exact .sending hbuffer hnow hlog
  | returned =>
    simp only
    split
    case isTrue halive => exact .rearming hbuffer (hlog halive)
    case isFalse => exact .ended hnow
  | thrown e => exact .ended hnow

theorem received_in {consumed current : List ReadResult} {pc : ReceiverPc}
    (hlog : Continues consumed s.served)
    (hreceive : receive (.head 0) [] current = .waiting pc s.buffer) (r : ReadResult) :
    (s.received server pc r).In (consumed ++ (current ++ [r])) := by
  have hreceive' := receive_waiting_append hreceive [r]
  rw [receive_cons] at hreceive'
  unfold received
  simp only
  cases hstep : receiveStep (s.buffer ++ r.appended) r.count pc with
  | again pc' =>
    rw [hstep] at hreceive'
    exact .reading rfl hlog hreceive'
  | yield pc' =>
    rw [hstep] at hreceive'
    exact .waiting rfl hlog hreceive'
  | done request =>
    rw [hstep] at hreceive'
    have hnext : request.keepAlive = true → Continues (consumed ++ (current ++ [r]))
        (s.served ++ [⟨request, s.buffer ++ r.appended⟩]) := by
      intro halive rest log' hrest
      have hall := hlog _ _ (.next (receive_returned_append hreceive' rest) halive hrest)
      rwa [List.append_cons s.served, ← List.append_assoc consumed] at hall
    refine handle_in ?_ hnext
    by_cases halive : request.keepAlive = true
    · exact (hnext halive).handed
    · exact hlog _ _ (.close hreceive' (Bool.eq_false_iff.mpr halive))
  | throw e =>
    rw [hstep] at hreceive'
    refine .ended (hlog.stop fun request buf rest hreturned => ?_)
    rw [hreceive'] at hreturned
    cases hreturned

theorem In.handed (h : s.In reads) : Handed reads s.served := by
  unfold Session.In at h
  generalize s.pc = pc at h
  cases h with
  | reading hreads hlog hreceive | waiting hreads hlog hreceive =>
    rw [hreads]
    refine hlog.stop fun request buf rest hreturned => ?_
    rw [hreceive] at hreturned
    cases hreturned
  | served _ hlog | rearming _ hlog => exact hlog.handed
  | announcing _ hnow _ | sending _ hnow _ | ended hnow => exact hnow

theorem In.step (h : s.In reads) {e : SessionEvent} (hstep : s.Steps server e s') :
    s'.In (reads ++ e.read?.toList) := by
  have hhanded := h.handed
  have hsame : ∀ e : SessionEvent, e.read? = none → reads ++ e.read?.toList = reads := by
    intro e he
    rw [he]
    exact List.append_nil reads
  unfold Session.In at h
  cases hstep with
  | @unread pc outcome e hpc hread =>
    have hnone : (SessionEvent.recv outcome).read? = none := by
      unfold SessionEvent.read?
      simp only [hread]
      rfl
    rw [hsame _ hnone]
    exact .ended hhanded
  | @read pc outcome r hpc hread =>
    have hsome : (SessionEvent.recv outcome).read? = some r := by
      unfold SessionEvent.read?
      simp only [hread]
      rfl
    rw [hpc] at h
    rw [hsome]
    cases h with
    | reading hreads hlog hreceive =>
      rw [hreads, List.append_assoc]
      exact received_in hlog hreceive r
  | announced hpc =>
    rw [hpc] at h
    rw [hsame (.ctl none) rfl]
    cases h with
    | announcing hbuffer hnow hlog => exact sends_in _ hbuffer hnow hlog
  | unannounced errno hpc | unarmed errno hpc =>
    rw [hsame (.ctl (some errno)) rfl]
    exact .ended hhanded
  | rearmed hpc =>
    rw [hpc] at h
    rw [hsame (.ctl none) rfl]
    cases h with
    | rearming hbuffer hlog => exact .served hbuffer hlog
  | sent e' hpc hsends he =>
    rw [hpc] at h
    rw [hsame e he]
    cases h with
    | sending hbuffer hnow hlog => exact sends_in _ hbuffer hnow hlog
  | woken hpc =>
    rw [hpc] at h
    rw [hsame .resumed rfl]
    cases h with
    | waiting hreads hlog hreceive => exact .reading hreads hlog hreceive
  | again hpc =>
    rw [hpc] at h
    rw [hsame .resumed rfl]
    cases h with
    | served hbuffer hlog =>
      refine .reading (List.append_nil reads).symm hlog ?_
      simp only [hbuffer]
      rfl
  | @killedWaiting pc e hpc | @killed e hpc =>
    rw [hsame (.raised e) rfl]
    exact .ended hhanded

end In

/-! ## Sessions -/

/-- No response is under way: the routine reads, waits for input or has returned. -/
def Answered (s : Session) : Prop :=
  match s.pc with
  | .reading _ | .waiting _ | .served | .rearming | .ended .ret => True
  | _ => False

theorem Out.answered {server : Server} {s : Session} (h : s.Out server) (hs : s.Answered) :
    s.written = (server.replies s.served).flatten := by
  unfold Session.Out at h
  unfold Answered at hs
  unfold written
  generalize s.pc = pc at h hs
  cases h with
  | reading _ hsent | waiting _ hsent | served hsent | rearming hsent
  | returned hsent => exact hsent
  | announcing | sending => exact hs.elim
  | @ended how hhow hcut =>
    cases how with
    | ret => exact absurd rfl hhow
    | _ => exact hs.elim

theorem out_of_run {server : Server} {es : List SessionEvent} {s : Session}
    (hrun : steps (Session.step server) .init es = some s) : s.Out server := by
  refine steps_invariant (fun s e s' hs hstep => ?_) ?_ hrun
  · exact Out.step hs (steps_of_step hstep)
  · exact .served rfl

/-- A connection in order. However its bytes come in, whatever the socket takes of them at a time,
and wherever it fails or is killed: the handler is called with the requests that `receive` makes of
what has been read, and the socket has taken the responses to these calls, one behind the other and
at most the last one cut; none is cut when the routine reads again. -/
theorem session_in_order {server : Server} {es : List SessionEvent} {s : Session}
    (hrun : steps (Session.step server) .init es = some s) :
    Handed (es.filterMap SessionEvent.read?) s.served ∧
      CutAtEnd s.written (server.replies s.served) ∧
      (s.Answered → s.written = (server.replies s.served).flatten) := by
  have hout := out_of_run hrun
  have hin : s.In (es.filterMap SessionEvent.read?) := by
    refine steps_history (I := fun es s => s.In (es.filterMap SessionEvent.read?))
      (fun es s e s' hs hstep => ?_) ?_ hrun
    · have hnext := In.step hs (steps_of_step hstep)
      rw [List.filterMap_append]
      cases hread : e.read? with
      | none | some r =>
        simpa only [hread, List.filterMap_cons, List.filterMap_nil, Option.toList] using hnext
    · exact .served rfl fun rest log' h => h
  exact ⟨hin.handed, hout.cut, hout.answered⟩

/-- A request that comes in two reads, and is answered in two parts before the client is killed. -/
def killedMeanwhile : List SessionEvent :=
  [.resumed, .recv (.chunk (keepAliveRequest.bytes.take 9)), .resumed,
    .recv (.chunk (keepAliveRequest.bytes.drop 9)), .ctl none, .send (.accepted 9), .resumed,
    .send .eintr, .send (.accepted 14), .ctl none, .raised (.user (.httpError "Timeout reached"))]

theorem session_in_order_killed :
    ∃ s, steps (Session.step okServer) .init killedMeanwhile = some s ∧
      Handed (killedMeanwhile.filterMap SessionEvent.read?) s.served ∧
      CutAtEnd s.written (okServer.replies s.served) := by
  have hrun : steps (Session.step okServer) .init killedMeanwhile = some _ := rfl
  obtain ⟨hhanded, hcut, -⟩ := session_in_order hrun
  exact ⟨_, hrun, hhanded, hcut⟩

end Session

end AdvCppTP.Http
