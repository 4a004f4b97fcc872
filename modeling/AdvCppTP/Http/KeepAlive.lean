import AdvCppTP.Http.Alignment
import AdvCppTP.Http.ClientRoutine

/-! Requests one behind another on a connection: which of them `clientRoutine` hands to the
handler, and what `clear_buffer` discards each time. -/

namespace AdvCppTP.Http

/-- `clientRoutine` resumed up to `n` times behind the end of a segment. -/
def serve (server : Server) : Nat → RoutineSeg × Client → Client
  | 0, r => r.2
  | n + 1, r =>
    match r.1 with
    | .yield pc => serve server n (r.2.resume server pc)
    | _ => r.2

/-- The calls of the handler, once resuming adds no more. -/
def Settles (server : Server) (r : RoutineSeg × Client) (log : List Served) : Prop :=
  ∃ N, ∀ n ≥ N, (serve server n r).io.served = log

section

variable {server : Server} {log : List Served}

theorem Settles.resume {c : Client} {pc : RoutinePc}
    (h : Settles server (c.resume server pc) log) : Settles server (.yield pc, c) log := by
  obtain ⟨N, hN⟩ := h
  refine ⟨N + 1, fun n hn => ?_⟩
  obtain ⟨n, rfl⟩ : ∃ k, n = k + 1 := ⟨n - 1, by omega⟩
  exact hN n (by omega)

theorem settles_ended {seg : RoutineSeg} (h : ∀ pc, seg ≠ .yield pc) (c : Client) :
    Settles server (seg, c) c.io.served := by
  refine ⟨0, fun n _ => ?_⟩
  cases n with
  | zero => rfl
  | succ n =>
    cases seg with
    | yield pc => exact absurd rfl (h pc)
    | ret => rfl
    | throw e => rfl
    | undefined => rfl

theorem settles_loop {c : Client} {pc : RoutinePc} (h : c.resume server pc = (.yield pc, c)) :
    Settles server (.yield pc, c) c.io.served := by
  -- by induction on the resumes: each leaves the client as it was
  refine ⟨0, fun n _ => ?_⟩
  induction n with
  | zero => rfl
  | succ n ih =>
    simp only [serve, h]
    exact ih (Nat.zero_le n)

end

/-! ## Sending -/

structure Client.Sound (c : Client) : Prop where
  sends : .error ∉ c.io.sends
  ctls : ∀ errno, some errno ∉ c.io.ctls

/-- Clients that differ only in what the kernel will say about sending. -/
structure Client.Like (c c' : Client) : Prop where
  buffer : c'.info.buffer = c.info.buffer
  recvs : c'.io.recvs = c.io.recvs
  served : c'.io.served = c.io.served
  sound : c'.Sound

theorem Client.Like.trans {c c' c'' : Client} (h : c.Like c') (h' : c'.Like c'') : c.Like c'' :=
  ⟨h'.buffer.trans h.buffer, h'.recvs.trans h.recvs, h'.served.trans h.served, h'.sound⟩

theorem Client.changeEvent_like {c : Client} (h : c.Sound) (newEvent : EpollEvent) :
    ∃ c', c.changeEvent newEvent = (none, c') ∧ c.Like c' := by
  have hctls := h.ctls
  rcases hc : c.io.ctls with _ | ⟨_ | errno, ctls⟩
  · exact ⟨{ c with info.currentEvent := newEvent }, by simp only [Client.changeEvent, hc],
      rfl, rfl, rfl, h.sends, h.ctls⟩
  · rw [hc] at hctls
    exact ⟨{ c with info.currentEvent := newEvent, io.ctls := ctls },
      by simp only [Client.changeEvent, hc], rfl, rfl, rfl, h.sends,
      fun errno hf => hctls errno (List.mem_cons_of_mem none hf)⟩
  · rw [hc] at hctls
    exact absurd List.mem_cons_self (hctls errno)

theorem connectionWrite_ok (size : Nat) {sends : List SendOutcome} (h : .error ∉ sends) :
    ∃ bytes sends', connectionWrite size sends = (.ok bytes, sends') ∧ .error ∉ sends' ∧
      (sends'.length < sends.length ∨ sends' = [] ∧ size ≤ bytes) := by
  induction sends with
  | nil => exact ⟨size, [], rfl, h, .inr ⟨rfl, Nat.le_refl size⟩⟩
  | cons send sends ih =>
    have htail : .error ∉ sends := fun hmem => h (List.mem_cons_of_mem send hmem)
    cases send with
    | accepted bytes =>
      exact ⟨min bytes size, sends, rfl, htail, .inl (Nat.lt_succ_self _)⟩
    | eintr =>
      obtain ⟨bytes, sends', hwrite, herror, hlen⟩ := ih htail
      refine ⟨bytes, sends', hwrite, herror, hlen.imp_left fun hlt => ?_⟩
      exact Nat.lt_succ_of_lt hlt
    | error => exact absurd List.mem_cons_self h

variable {server : Server} {log : List Served}

theorem settles_sendRest {request : HttpRequest} {msg : Bytes} {c : Client} (hc : c.Sound)
    (hafter : ∀ c', c.Like c' → Settles server (c'.afterSend request) log) (sended : Nat) :
    Settles server (c.sendRest request msg sended) log := by
  -- by induction on the outcomes that are left: each part of a send takes at least one
  generalize hlen : c.io.sends.length = len
  induction len using Nat.strong_induction_on generalizing c sended with
  | _ len ih =>
    obtain ⟨bytes, sends', hwrite, herror, hshorter⟩ :=
      connectionWrite_ok (msg.length - sended) hc.sends
    have hlike : c.Like { c with io.sends := sends' } := ⟨rfl, rfl, rfl, herror, hc.ctls⟩
    rw [Client.sendRest, hwrite]
    simp only
    split
    case isTrue hpart =>
      refine Settles.resume (ih sends'.length ?_ hlike.sound (fun c' hc' => ?_) _ rfl)
      · rcases hshorter with hlt | ⟨-, hall⟩ <;> omega
      · exact hafter c' (hlike.trans hc')
    · exact hafter _ hlike

/-- The handler answers every request with a status that `send` knows. -/
def Server.Answers (server : Server) : Prop :=
  ∀ history request, ∃ response, server.onRequest history request = .ok response ∧
    (statusInfo response.statusCode).isSome

theorem settles_respond (hserver : server.Answers) {request : HttpRequest} {c : Client}
    (hc : c.Sound)
    (hafter : ∀ c' : Client, c'.Sound → c'.info.buffer = [] → c'.io.recvs = c.io.recvs →
      c'.io.served = c.io.served ++ [⟨request, c.info.buffer⟩] →
        Settles server (c'.afterSend request) log) :
    Settles server (c.respond server request) log := by
  obtain ⟨response, hresponse, hstatus⟩ := hserver c.io.served request
  obtain ⟨info, hinfo⟩ := Option.isSome_iff_exists.mp hstatus
  have hsound : Client.Sound { c with
      info.buffer := [], io.served := c.io.served ++ [⟨request, c.info.buffer⟩] } :=
    ⟨hc.sends, hc.ctls⟩
  obtain ⟨c', hchange, hlike⟩ := Client.changeEvent_like hsound .epollout
  rw [Client.respond]
  simp only [hresponse, hchange, HttpResponse.message, hinfo, Option.map_some]
  refine settles_sendRest hlike.sound (fun c'' hlike' => ?_) 0
  have hboth := hlike.trans hlike'
  exact hafter c'' hboth.sound hboth.buffer hboth.recvs hboth.served

theorem settles_afterSend {request : HttpRequest} {c : Client} (hc : c.Sound)
    (hserved : ∀ c', c.Like c' → request.keepAlive = true →
      Settles server (.yield .served, c') log)
    (hclose : request.keepAlive = false → log = c.io.served) :
    Settles server (c.afterSend request) log := by
  rw [Client.afterSend]
  split
  case isTrue halive =>
    obtain ⟨c', hchange, hlike⟩ := Client.changeEvent_like hc .epollin
    rw [hchange]
    exact hserved c' hlike halive
  case isFalse halive =>
    rw [hclose (Bool.eq_false_iff.mpr halive)]
    exact settles_ended (fun pc h => by cases h) c

/-! ## Receiving -/

def Client.Reads (c : Client) (reads : List ReadResult) : Prop :=
  c.io.recvs.map RecvOutcome.read = reads.map .ok

theorem Client.read_cons {c : Client} {r : ReadResult} {reads : List ReadResult}
    (h : c.Reads (r :: reads)) (hc : c.Sound) :
    ∃ c', c.read = (.ok r.count, c') ∧ c'.Sound ∧ c'.Reads reads ∧
      c'.info.buffer = c.info.buffer ++ r.appended ∧ c'.io.served = c.io.served := by
  rcases hrecvs : c.io.recvs with _ | ⟨recv, recvs⟩
  · rw [Client.Reads, hrecvs] at h
    cases h
  · rw [Client.Reads, hrecvs, List.map_cons, List.map_cons, List.cons.injEq] at h
    exact ⟨{ c with info.buffer := c.info.buffer ++ r.appended, io.recvs := recvs },
      by simp only [Client.read, hrecvs, h.1], ⟨hc.sends, hc.ctls⟩, h.2, rfl, rfl⟩

def Client.turnLast (server : Server) (pc : ReceiverPc) (c : Client) : RoutineSeg × Client :=
  c.turn server (fun pc c => (.yield (.receiving pc), c)) pc

theorem settles_returned (reads : List ReadResult) :
    ∀ {pc : ReceiverPc} {c : Client} {request : HttpRequest} {buf : Bytes}
      {rest : List ReadResult}, c.Sound → c.Reads reads →
      receive pc c.info.buffer reads = .returned request buf rest →
      (∀ c' : Client, c'.Sound → c'.Reads rest → c'.info.buffer = buf →
        c'.io.served = c.io.served → Settles server (c'.respond server request) log) →
      Settles server (c.receive server pc) log ∧ Settles server (c.turnLast server pc) log := by
  -- by induction on the reads, for both loops at once
  induction reads with
  | nil =>
    intro pc c request buf rest _ _ hrun
    cases hrun
  | cons r reads ih =>
    intro pc c request buf rest hc hreads hrun hrespond
    obtain ⟨c', hread, hc', hreads', hbuffer, hserved⟩ := c.read_cons hreads hc
    rw [receive_cons, ← hbuffer] at hrun
    rw [Client.receive, Client.turnLast, Client.turn, Client.turn, hread]
    simp only
    have hrespond' : ∀ c'' : Client, c''.Sound → c''.Reads rest → c''.info.buffer = buf →
        c''.io.served = c'.io.served → Settles server (c''.respond server request) log :=
      fun c'' hsound hrest hbuf hlog => hrespond c'' hsound hrest hbuf (hlog.trans hserved)
    rcases hstep : receiveStep c'.info.buffer r.count pc with pc' | pc' | request' | e
    · rw [hstep] at hrun
      obtain ⟨hfirst, hlast⟩ := ih hc' hreads' hrun hrespond'
      exact ⟨hlast, Settles.resume hfirst⟩
    · rw [hstep] at hrun
      obtain ⟨hfirst, -⟩ := ih hc' hreads' hrun hrespond'
      exact ⟨Settles.resume hfirst, Settles.resume hfirst⟩
    · rw [hstep] at hrun
      obtain ⟨rfl, rfl, rfl⟩ := Received.returned.inj hrun
      exact ⟨hrespond' c' hc' hreads' rfl rfl, hrespond' c' hc' hreads' rfl rfl⟩
    · rw [hstep] at hrun
      cases hrun

/-- The search for the head is never behind the end of the buffer. -/
def ReceiverPc.Ready (buffer : Bytes) : ReceiverPc → Prop
  | .head pos => buffer.length ≤ pos
  | .body _ _ _ _ _ => True

theorem ReceiverPc.Ready.step {pc pc' : ReceiverPc} {buffer appended : Bytes} {count : Nat}
    (h : pc.Ready buffer) (hcount : appended.length ≤ count)
    (hstep : receiveStep (buffer ++ appended) count pc = .again pc' ∨
      receiveStep (buffer ++ appended) count pc = .yield pc') : pc'.Ready (buffer ++ appended) := by
  cases pc with
  | head pos =>
    rcases hfind : Lib.find headersEnd (buffer ++ appended) pos with _ | p
    · rw [receiveStep_head_of_none count hfind] at hstep
      rcases hstep with hstep | hstep <;> cases hstep
      rw [ReceiverPc.Ready, List.length_append]
      exact Nat.add_le_add h hcount
    · rw [receiveStep_head_of_some count hfind] at hstep
      obtain ⟨f, hs, s, l, w, hhead⟩ | ⟨request, hhead⟩ | ⟨e, hhead⟩ := receiveHead_cases
        (buffer ++ appended) p
      · rw [hhead] at hstep
        rcases hstep with hstep | hstep <;> cases hstep
        trivial
      · rw [hhead] at hstep
        rcases hstep with hstep | hstep <;> cases hstep
      · rw [hhead] at hstep
        rcases hstep with hstep | hstep <;> cases hstep
  | body f hs s l w =>
    obtain hbody | ⟨request, hbody⟩ | ⟨e, hbody⟩ :=
      receiveStep_body_cases (buffer ++ appended) count f hs s l w
    · rw [hbody] at hstep
      rcases hstep with hstep | hstep <;> cases hstep
      trivial
    · rw [hbody] at hstep
      rcases hstep with hstep | hstep <;> cases hstep
    · rw [hbody] at hstep
      rcases hstep with hstep | hstep <;> cases hstep

theorem ReceiverPc.Ready.still {pc pc' : ReceiverPc} {buffer : Bytes} (h : pc.Ready buffer)
    (hstep : receiveStep buffer 0 pc = .again pc' ∨ receiveStep buffer 0 pc = .yield pc') :
    receiveStep buffer 0 pc = .yield pc ∧ pc' = pc := by
  cases pc with
  | head pos =>
    have hmiss : Lib.find headersEnd buffer pos = none := by
      rw [Lib.find, List.drop_of_length_le h]
      rfl
    rw [receiveStep_head_of_none 0 hmiss] at hstep ⊢
    rcases hstep with hstep | hstep <;> cases hstep
    exact ⟨rfl, rfl⟩
  | body f hs s l w =>
    obtain hbody | ⟨request, hbody⟩ | ⟨e, hbody⟩ := receiveStep_body_cases buffer 0 f hs s l w
    · rw [hbody] at hstep
      rcases hstep with hstep | hstep <;> cases hstep
      exact ⟨hbody, rfl⟩
    · rw [hbody] at hstep
      rcases hstep with hstep | hstep <;> cases hstep
    · rw [hbody] at hstep
      rcases hstep with hstep | hstep <;> cases hstep

theorem RoutineSeg.ofStd_ne_yield (e : StdError) (pc : RoutinePc) : ofStd e ≠ .yield pc := by
  cases e <;> simp [ofStd]

/-- Reads of which the last brings nothing. -/
def Quiet (reads : List ReadResult) : Prop :=
  (∀ r ∈ reads, r.appended.length ≤ r.count) ∧ ∀ r ∈ reads.getLast?, r = ⟨[], 0⟩

theorem Quiet.tail {r : ReadResult} {reads : List ReadResult} (h : Quiet (r :: reads)) :
    Quiet reads := by
  refine ⟨fun x hx => h.1 x (List.mem_cons_of_mem r hx), fun x hx => h.2 x ?_⟩
  rw [List.getLast?_cons, Option.mem_def.mp hx, Option.getD_some]
  rfl

theorem Quiet.head {r : ReadResult} (h : Quiet [r]) : r = ⟨[], 0⟩ := h.2 r rfl

theorem settles_not_returned (reads : List ReadResult) :
    ∀ {pc : ReceiverPc} {c : Client}, c.Sound → c.Reads reads → pc.Ready c.info.buffer →
      Quiet reads → (reads = [] → receiveStep c.info.buffer 0 pc = .yield pc) →
      (∀ request buf rest, receive pc c.info.buffer reads ≠ .returned request buf rest) →
      Settles server (c.receive server pc) c.io.served ∧
        Settles server (c.turnLast server pc) c.io.served := by
  -- by induction on the reads; behind the last one nothing changes any more
  induction reads with
  | nil =>
    intro pc c hc hreads _ _ hstill _
    have hrecvs : c.io.recvs = [] := List.map_eq_nil_iff.mp hreads
    have hread : c.read = (.ok 0, c) := by simp only [Client.read, hrecvs]
    have hreceive : c.receive server pc = (.yield (.receiving pc), c) := by
      simp only [Client.receive, Client.turn, hread, hstill rfl]
    have hlast : c.turnLast server pc = (.yield (.receiving pc), c) := by
      simp only [Client.turnLast, Client.turn, hread, hstill rfl]
    rw [hlast, hreceive]
    exact ⟨settles_loop hreceive, settles_loop hreceive⟩
  | cons r reads ih =>
    intro pc c hc hreads hready hquiet _ hrun
    obtain ⟨c', hread, hc', hreads', hbuffer, hserved⟩ := c.read_cons hreads hc
    have hnext : ∀ pc', (receiveStep c'.info.buffer r.count pc = .again pc' ∨
        receiveStep c'.info.buffer r.count pc = .yield pc') →
        (∀ request buf rest, receive pc' c'.info.buffer reads ≠ .returned request buf rest) →
        Settles server (c'.receive server pc') c.io.served ∧
          Settles server (c'.turnLast server pc') c.io.served := by
      intro pc' hstep hnot
      rw [hbuffer] at hstep
      rw [← hserved]
      refine ih hc' hreads' ?_ hquiet.tail ?_ hnot
      · rw [hbuffer]
        exact hready.step (hquiet.1 r List.mem_cons_self) hstep
      · rintro rfl
        obtain rfl := hquiet.head
        simp only [List.append_nil] at hbuffer hstep
        obtain ⟨hstill, rfl⟩ := hready.still hstep
        rw [hbuffer]
        exact hstill
    simp only [receive_cons, ← hbuffer] at hrun
    rw [Client.receive, Client.turnLast, Client.turn, Client.turn, hread]
    simp only
    rcases hstep : receiveStep c'.info.buffer r.count pc with pc' | pc' | request' | e
    · rw [hstep] at hrun
      obtain ⟨hfirst, hlast⟩ := hnext pc' (.inl hstep) hrun
      exact ⟨hlast, Settles.resume hfirst⟩
    · rw [hstep] at hrun
      obtain ⟨hfirst, -⟩ := hnext pc' (.inr hstep) hrun
      exact ⟨Settles.resume hfirst, Settles.resume hfirst⟩
    · rw [hstep] at hrun
      exact absurd rfl (hrun _ _ _)
    · rw [← hserved]
      exact ⟨settles_ended (RoutineSeg.ofStd_ne_yield e) c',
        settles_ended (RoutineSeg.ofStd_ne_yield e) c'⟩

/-! ## The requests that are handed on -/

/-- The handler's calls for the reads of a connection whose buffer is empty. -/
inductive Handed : List ReadResult → List Served → Prop
  | stop {reads : List ReadResult}
    (h : ∀ request buf rest, receive (.head 0) [] reads ≠ .returned request buf rest) :
    Handed reads []
  | close {reads rest : List ReadResult} {request : HttpRequest} {buf : Bytes}
    (h : receive (.head 0) [] reads = .returned request buf rest)
    (hclose : request.keepAlive = false) : Handed reads [⟨request, buf⟩]
  | next {reads rest : List ReadResult} {request : HttpRequest} {buf : Bytes} {log : List Served}
    (h : receive (.head 0) [] reads = .returned request buf rest)
    (halive : request.keepAlive = true) (hrest : Handed rest log) :
    Handed reads (⟨request, buf⟩ :: log)

theorem receive_returned_suffix {pc : ReceiverPc} {buffer : Bytes} {reads : List ReadResult}
    {request : HttpRequest} {buf : Bytes} {rest : List ReadResult}
    (h : receive pc buffer reads = .returned request buf rest) :
    ∃ r front, reads = r :: front ++ rest := by
  induction reads generalizing pc buffer with
  | nil => cases h
  | cons r reads ih =>
    rw [receive_cons] at h
    split at h
    · obtain ⟨r', front, rfl⟩ := ih h
      exact ⟨r, r' :: front, rfl⟩
    · obtain ⟨r', front, rfl⟩ := ih h
      exact ⟨r, r' :: front, rfl⟩
    · obtain ⟨-, -, rfl⟩ := Received.returned.inj h
      exact ⟨r, [], rfl⟩
    · cases h

theorem Quiet.suffix {front rest : List ReadResult} (h : Quiet (front ++ rest)) : Quiet rest := by
  induction front with
  | nil => exact h
  | cons r front ih => exact ih h.tail

theorem exists_handed (reads : List ReadResult) : ∃ log, Handed reads log := by
  generalize hlen : reads.length = len
  induction len using Nat.strong_induction_on generalizing reads with
  | _ len ih =>
    rcases hrun : receive (.head 0) [] reads with ⟨pc, buf⟩ | ⟨request, buf, rest⟩ | ⟨e, buf, rest⟩
    · exact ⟨[], .stop fun _ _ _ h => by rw [hrun] at h; cases h⟩
    · by_cases halive : request.keepAlive = true
      · obtain ⟨r, front, hreads⟩ := receive_returned_suffix hrun
        have hshorter : rest.length < len := by
          rw [← hlen, hreads, List.length_append, List.length_cons]
          omega
        obtain ⟨log, hlog⟩ := ih _ hshorter rest rfl
        exact ⟨_, .next hrun halive hlog⟩
      · exact ⟨_, .close hrun (Bool.eq_false_iff.mpr halive)⟩
    · exact ⟨[], .stop fun _ _ _ h => by rw [hrun] at h; cases h⟩

theorem settles_handed (hserver : server.Answers) {reads : List ReadResult} {log : List Served}
    (hlog : Handed reads log) : ∀ {c : Client}, c.Sound → c.Reads reads → Quiet reads →
      c.info.buffer = [] → Settles server (.yield .served, c) (c.io.served ++ log) := by
  induction hlog with
  | stop h =>
    intro c hc hreads hquiet hbuffer
    rw [List.append_nil]
    refine Settles.resume (settles_not_returned _ hc hreads ?_ hquiet ?_ ?_).1
    · rw [hbuffer]
      exact Nat.le_refl 0
    · intro _
      rw [hbuffer]
      rfl
    · rwa [hbuffer]
  | close h hclose =>
    intro c hc hreads hquiet hbuffer
    rw [← hbuffer] at h
    refine Settles.resume (settles_returned _ hc hreads h fun c' hc' _ hbuf hserved => ?_).1
    refine settles_respond hserver hc' fun c'' hc'' _ _ hserved'' => ?_
    refine settles_afterSend hc'' (fun _ _ halive => ?_) fun _ => ?_
    · rw [hclose] at halive
      cases halive
    · rw [hserved'', hserved, hbuf]
  | next h halive hrest ih =>
    intro c hc hreads hquiet hbuffer
    rw [← hbuffer] at h
    obtain ⟨r, front, hsplit⟩ := receive_returned_suffix h
    refine Settles.resume (settles_returned _ hc hreads h fun c' hc' hreads' hbuf hserved => ?_).1
    refine settles_respond hserver hc' fun c'' hc'' hbuffer'' hrecvs'' hserved'' => ?_
    refine settles_afterSend hc'' (fun c₃ hlike _ => ?_) fun hclose => ?_
    · have hgoal := ih hlike.sound (c := c₃) ?_ (hsplit ▸ hquiet).suffix
        (hlike.buffer.trans hbuffer'')
      · rwa [hlike.served, hserved'', hserved, hbuf, List.append_assoc] at hgoal
      · rw [Client.Reads, hlike.recvs, hrecvs'']
        exact hreads'
    · rw [halive] at hclose
      cases hclose

end AdvCppTP.Http
