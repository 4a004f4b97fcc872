import AdvCppTP.Http.ClientRoutine

/-! `HttpResponse::send` call by call: the ranges that it passes to `::send`, what the socket
accepts of them, and its suspensions in between. -/

namespace AdvCppTP.Http

/-- What `::send` does: it accepts some of the bytes, or returns -1; `wouldBlock` is `EAGAIN` and
`error` another `errno`. -/
inductive SendResult
  | accepted (bytes : Nat)
  | eintr
  | wouldBlock
  | error
  deriving DecidableEq, Repr

/-- Where `HttpResponse::send` is: in `::send(fd, msg.data() + data, size, ..)` or in `yield`, or
how it ended. -/
inductive SendPc
  | write (data size : Nat)
  | yield
  | returned
  | thrown (e : Exn)
  deriving DecidableEq, Repr

/-- The variables of `HttpResponse::send`, and the bytes that the socket accepted from it. -/
structure Sending where
  msg : Bytes
  sended : Nat
  pc : SendPc
  accepted : Bytes
  deriving DecidableEq, Repr

inductive SendEvent
  | answer (r : SendResult)
  | resumed
  | raised (e : Exn)
  deriving DecidableEq, Repr

/-- `connection.write(msg.data() + sended, msg.size() - sended)` up to its `::send`. -/
def Sending.write (s : Sending) : Sending :=
  { s with pc := .write s.sended (s.msg.length - s.sended) }

/-- `HttpResponse::send` up to its first `::send`. -/
def HttpResponse.send (hash : HashOrder) (response : HttpResponse) : Sending :=
  match response.message hash with
  | none => { msg := [], sended := 0, pc := .thrown .outOfRange, accepted := [] }
  | some msg => Sending.write { msg, sended := 0, pc := .yield, accepted := [] }

/-- The loop of `HttpResponse::send` behind a `write` that returned `bytes`. -/
def Sending.wrote (s : Sending) (bytes : Nat) : Sending :=
  let sended := s.sended + bytes
  { s with sended, pc := if sended < s.msg.length then .yield else .returned }

def Sending.throw (s : Sending) (e : Exn) : Sending := { s with pc := .thrown e }

/-- `Connection::write(data, size)` behind its `::send`. The error is an answer that `::send`
does not give. -/
def Sending.answered (s : Sending) (data size : Nat) : SendResult → Except SendEvent Sending
  | .accepted bytes =>
    if 1 ≤ bytes ∧ bytes ≤ size then
      .ok (Sending.wrote { s with accepted := s.accepted ++ (s.msg.drop data).take bytes } bytes)
    else .error (.answer (.accepted bytes))
  | .eintr => .ok { s with pc := .write data size }
  | .wouldBlock => .ok (s.throw (.user (.tcpError "Error to write")))
  | .error => .ok (s.throw (.user (.tcpError "Error to write")))

/-- The error is an event that does not happen there. -/
def Sending.step (s : Sending) : SendEvent → Except SendEvent Sending
  | .answer r =>
    match s.pc with
    | .write data size => s.answered data size r
    | _ => .error (.answer r)
  | .resumed =>
    match s.pc with
    | .yield => .ok s.write
    | _ => .error .resumed
  | .raised e =>
    match s.pc with
    | .yield => .ok (s.throw e)
    | _ => .error (.raised e)

/-! ## Within `clientRoutine` -/

def SendResult.outcome : SendResult → SendOutcome
  | .accepted bytes => .accepted bytes
  | .eintr => .eintr
  | .wouldBlock => .error
  | .error => .error

/-- How `clientRoutine` goes on where `HttpResponse::send` is left. -/
def Sending.leave (s : Sending) (c : Client) (request : HttpRequest) : RoutineSeg × Client :=
  match s.pc with
  | .thrown e => (.throw e, c)
  | .yield => (.yield (.sending request s.msg s.sended), c)
  | _ => c.afterSend request

theorem Sending.step_answer {s : Sending} {data size : Nat} (h : s.pc = .write data size)
    (r : SendResult) : s.step (.answer r) = s.answered data size r := by
  simp only [Sending.step, h]

theorem Sending.answers_stop {s s' : Sending} (hs : ∀ data size, s.pc ≠ .write data size)
    {answers : List SendResult} (h : (answers.map .answer).foldlM Sending.step s = .ok s') :
    answers = [] ∧ s' = s := by
  cases answers with
  | nil => exact ⟨rfl, (Except.ok.inj h).symm⟩
  | cons r answers =>
    rw [List.map_cons] at h
    obtain ⟨s₁, hstep, -⟩ := Lib.foldlM_cons_eq_ok.mp h
    simp only [Sending.step] at hstep
    cases hstep

theorem Sending.wrote_pc (s : Sending) (bytes data size : Nat) :
    (s.wrote bytes).pc ≠ .write data size := by
  unfold Sending.wrote
  simp only
  split <;> simp

/-- `Client.sendRest` is the loop of `HttpResponse::send` up to where the routine is left. -/
theorem Sending.sendRest_eq {s s' : Sending} (hs : s.pc = .write s.sended (s.msg.length - s.sended))
    (answers : List SendResult) (hrun : (answers.map .answer).foldlM Sending.step s = .ok s')
    (hend : ∀ data size, s'.pc ≠ .write data size) (c : Client) (request : HttpRequest)
    (sends : List SendOutcome) (hsends : c.io.sends = answers.map SendResult.outcome ++ sends) :
    c.sendRest request s.msg s.sended = s'.leave { c with io.sends := sends } request := by
  -- by induction on the answers: an interrupted call is made again, any other one leaves the loop
  induction answers generalizing c with
  | nil =>
    obtain rfl : s = s' := Except.ok.inj hrun
    exact absurd hs (hend _ _)
  | cons r answers ih =>
    rw [List.map_cons] at hrun
    obtain ⟨s₁, hstep, hrest⟩ := Lib.foldlM_cons_eq_ok.mp hrun
    rw [Sending.step_answer hs] at hstep
    have hthrow : Except.ok (ε := SendEvent) (s.throw (.user (.tcpError "Error to write"))) = .ok s₁ →
        r.outcome = .error →
        c.sendRest request s.msg s.sended = s'.leave { c with io.sends := sends } request := by
      intro hthrown hr
      obtain rfl := Except.ok.inj hthrown
      obtain ⟨rfl, rfl⟩ := Sending.answers_stop (by simp [Sending.throw]) hrest
      rw [List.map_cons, List.map_nil, List.singleton_append, hr] at hsends
      simp only [Client.sendRest, hsends, connectionWrite, Sending.leave, Sending.throw]
    cases r with
    | accepted bytes =>
      rw [Sending.answered] at hstep
      split at hstep
      · rename_i hbytes
        obtain rfl := Except.ok.inj hstep
        obtain ⟨rfl, rfl⟩ := Sending.answers_stop (Sending.wrote_pc _ _) hrest
        rw [List.map_cons, List.map_nil, List.singleton_append, SendResult.outcome] at hsends
        simp only [Client.sendRest, hsends, connectionWrite, min_eq_left hbytes.2, Sending.leave,
          Sending.wrote]
        split <;> rfl
      · cases hstep
    | eintr =>
      rw [Sending.answered, ← hs] at hstep
      obtain rfl := Except.ok.inj hstep
      have hsame : c.sendRest request s.msg s.sended =
          Client.sendRest { c with io.sends := answers.map SendResult.outcome ++ sends } request
            s.msg s.sended := by
        simp only [Client.sendRest, hsends, List.map_cons, List.cons_append, SendResult.outcome,
          connectionWrite]
      rw [hsame]
      exact ih hrest { c with io.sends := answers.map SendResult.outcome ++ sends } rfl
    | wouldBlock => exact hthrow hstep rfl
    | error => exact hthrow hstep rfl

/-! ## What the socket has accepted -/

/-- How far the message is sent at each place of `HttpResponse::send`. -/
def SendPc.Place (length sended : Nat) : SendPc → Prop
  | .write data size => data = sended ∧ data + size = length ∧ sended < length
  | .yield => sended < length
  | .returned => sended = length
  | .thrown _ => sended ≤ length

structure Sending.InOrder (msg : Bytes) (s : Sending) : Prop where
  whole : s.msg = msg
  accepted : s.accepted = msg.take s.sended
  place : s.pc.Place msg.length s.sended

theorem HttpResponse.message_pos {hash : HashOrder} {response : HttpResponse} {msg : Bytes}
    (h : response.message hash = some msg) : 0 < msg.length := by
  obtain ⟨info, -, rfl⟩ := Option.map_eq_some_iff.mp h
  rw [List.length_append]
  exact Nat.add_pos_right _ (by decide)

theorem HttpResponse.message_isSome {response : HttpResponse}
    (h : statusInfo response.statusCode ≠ none) (hash : HashOrder) :
    ∃ msg, response.message hash = some msg := by
  obtain ⟨info, hinfo⟩ := Option.ne_none_iff_exists'.mp h
  exact ⟨_, by rw [HttpResponse.message, hinfo, Option.map_some]⟩

theorem HttpResponse.send_eq {hash : HashOrder} {response : HttpResponse} {msg : Bytes}
    (h : response.message hash = some msg) :
    response.send hash =
      { msg, sended := 0, pc := .write 0 msg.length, accepted := [] } := by
  rw [HttpResponse.send, h]
  rfl

theorem HttpResponse.send_inOrder {hash : HashOrder} {response : HttpResponse} {msg : Bytes}
    (h : response.message hash = some msg) : (response.send hash).InOrder msg := by
  rw [HttpResponse.send_eq h]
  have hpos := HttpResponse.message_pos h
  exact ⟨rfl, rfl, rfl, Nat.zero_add _, hpos⟩

section

variable {msg : Bytes} {s s' : Sending}

theorem Sending.InOrder.place_of (h : s.InOrder msg) {pc : SendPc} (hpc : s.pc = pc) :
    pc.Place msg.length s.sended :=
  hpc ▸ h.place

theorem Sending.InOrder.sended_le (h : s.InOrder msg) : s.sended ≤ msg.length := by
  rcases hpc : s.pc with ⟨data, size⟩ | _ | _ | e
  · exact Nat.le_of_lt (h.place_of hpc).2.2
  · exact Nat.le_of_lt (h.place_of hpc)
  · exact Nat.le_of_eq (h.place_of hpc)
  · exact h.place_of hpc

theorem Sending.InOrder.write (h : s.InOrder msg) (hlt : s.sended < msg.length) :
    s.write.InOrder msg := by
  refine ⟨h.whole, h.accepted, rfl, ?_, hlt⟩
  rw [h.whole]
  exact Nat.add_sub_cancel' hlt.le

theorem Sending.InOrder.throw (h : s.InOrder msg) (e : Exn) : (s.throw e).InOrder msg :=
  ⟨h.whole, h.accepted, h.sended_le⟩

theorem Sending.InOrder.wrote (h : s.InOrder msg) {bytes : Nat}
    (hle : s.sended + bytes ≤ msg.length) :
    (Sending.wrote { s with accepted := s.accepted ++ (s.msg.drop s.sended).take bytes }
      bytes).InOrder msg := by
  refine ⟨h.whole, ?_, ?_⟩
  · simp only [Sending.wrote, h.whole, h.accepted]
    exact List.take_add.symm
  · simp only [Sending.wrote, h.whole]
    split
    · assumption
    · rename_i hnot
      exact le_antisymm hle (not_lt.mp hnot)

theorem Sending.InOrder.answered (h : s.InOrder msg) {data size : Nat}
    (hpc : s.pc = .write data size) {r : SendResult} (hstep : s.answered data size r = .ok s') :
    s'.InOrder msg := by
  obtain ⟨rfl, hsize, hlt⟩ := h.place_of hpc
  cases r with
  | accepted bytes =>
    rw [Sending.answered] at hstep
    split at hstep
    · rename_i hbytes
      have hle : s.sended + bytes ≤ msg.length := hsize ▸ Nat.add_le_add_left hbytes.2 _
      exact Except.ok.inj hstep ▸ h.wrote hle
    · cases hstep
  | eintr =>
    rw [Sending.answered, ← hpc] at hstep
    exact Except.ok.inj hstep ▸ h
  | wouldBlock => exact Except.ok.inj hstep ▸ h.throw _
  | error => exact Except.ok.inj hstep ▸ h.throw _

theorem Sending.InOrder.step (h : s.InOrder msg) {e : SendEvent} (hstep : s.step e = .ok s') :
    s'.InOrder msg := by
  cases e with
  | answer r =>
    simp only [Sending.step] at hstep
    split at hstep
    · exact h.answered ‹_› hstep
    · cases hstep
  | resumed =>
    simp only [Sending.step] at hstep
    split at hstep
    case h_1 hpc =>
      have hlt : s.sended < msg.length := h.place_of hpc
      exact Except.ok.inj hstep ▸ h.write hlt
    · cases hstep
  | raised e =>
    simp only [Sending.step] at hstep
    split at hstep
    · exact Except.ok.inj hstep ▸ h.throw e
    · cases hstep

theorem Sending.InOrder.length_accepted (h : s.InOrder msg) : s.accepted.length = s.sended := by
  rw [h.accepted, List.length_take, min_eq_left h.sended_le]

end

/-- A response is sent once and in order. Whatever `::send` answers, and wherever the routine is
killed, the socket has accepted a part of the message from its start, `send` returns with the
whole message accepted, and each range given to `::send` starts behind what is accepted and stays
within the message. -/
theorem send_transmits_in_order (hash : HashOrder) (response : HttpResponse)
    (hstatus : statusInfo response.statusCode ≠ none) :
    ∃ msg, response.message hash = some msg ∧ ∀ (events : List SendEvent) (s : Sending),
      events.foldlM Sending.step (response.send hash) = .ok s →
      s.accepted <+: msg ∧ (s.pc = .returned → s.accepted = msg) ∧
        ∀ data size, s.pc = .write data size →
          data = s.accepted.length ∧ data + size ≤ msg.length := by
  obtain ⟨msg, hmsg⟩ := HttpResponse.message_isSome hstatus hash
  refine ⟨msg, hmsg, fun events s hrun => ?_⟩
  have h : s.InOrder msg :=
    Lib.foldlM_invariant (fun _ _ _ h hstep => h.step hstep) (HttpResponse.send_inOrder hmsg) hrun
  refine ⟨?_, fun hpc => ?_, fun data size hpc => ?_⟩
  · rw [h.accepted]
    exact List.take_prefix _ _
  · have hend : s.sended = msg.length := h.place_of hpc
    rw [h.accepted, hend, List.take_length]
  · obtain ⟨hdata, hsize, -⟩ := h.place_of hpc
    exact ⟨hdata.trans h.length_accepted.symm, hsize.le⟩

theorem send_transmits_in_order_two_parts :
    ∃ msg, (HttpResponse.new .v1_1 200).message HashOrder.stored = some msg ∧ ∀ s,
      [.answer (.accepted 9), .resumed, .answer .eintr].foldlM Sending.step
        ((HttpResponse.new .v1_1 200).send HashOrder.stored) = .ok s → s.accepted <+: msg := by
  obtain ⟨msg, hmsg, h⟩ :=
    send_transmits_in_order HashOrder.stored (HttpResponse.new .v1_1 200) (by decide)
  exact ⟨msg, hmsg, fun s hrun => (h _ s hrun).1⟩

/-! ## A socket whose buffer is full -/

/-- The next answer of `::send`, for which a suspended routine is resumed; a response that is
ended asks for none. -/
def Sending.feed (s : Sending) (r : SendResult) : Except SendEvent Sending :=
  match s.pc with
  | .write _ _ => s.step (.answer r)
  | .yield => s.write.step (.answer r)
  | _ => .ok s

def SendResult.bytes : SendResult → Nat
  | .accepted bytes => bytes
  | _ => 0

def taken : List SendResult → Nat
  | [] => 0
  | r :: results => r.bytes + taken results

/-- A full buffer suspends the response: no exception leaves `send`, an answer that would block
leaves it in `yield` with nothing more sent, and it is complete when its bytes are taken. -/
def HttpResponse.Suspends (hash : HashOrder) (response : HttpResponse)
    (results : List SendResult) : Prop :=
  ∀ before after s, results = before ++ after →
    before.foldlM Sending.feed (response.send hash) = .ok s →
    (∀ e, s.pc ≠ .thrown e) ∧
      (∀ rest s', after = .wouldBlock :: rest → s.pc ≠ .returned → s.feed .wouldBlock = .ok s' →
        s' = { s with pc := .yield }) ∧
      ∀ msg, response.message hash = some msg → msg.length ≤ taken before →
        s.pc = .returned ∧ s.accepted = msg

theorem taken_concat (results : List SendResult) (r : SendResult) :
    taken (results ++ [r]) = taken results + r.bytes := by
  induction results with
  | nil => exact Nat.add_comm _ _
  | cons first results ih => rw [List.cons_append, taken, taken, ih, Nat.add_assoc]

/-- Where `send` is after the results, or the result that it could not go on from. -/
structure Sending.Fed (msg : Bytes) (results : List SendResult) (s : Sending) : Prop where
  inOrder : s.InOrder msg
  going : s.pc ≠ .returned → (∀ e, s.pc ≠ .thrown e) → s.sended = taken results
  returned : s.pc = .returned → msg.length ≤ taken results
  thrown : ∀ e, s.pc = .thrown e → ∃ before r after, results = before ++ r :: after ∧
    (r = .wouldBlock ∨ r = .error) ∧ taken before < msg.length

theorem Sending.InOrder.feed_eq {msg : Bytes} {s : Sending} (h : s.InOrder msg)
    (hreturned : s.pc ≠ .returned) (hthrown : ∀ e, s.pc ≠ .thrown e) (r : SendResult) :
    s.sended < msg.length ∧ s.feed r = s.write.step (.answer r) := by
  rcases hpc : s.pc with ⟨data, size⟩ | _ | _ | e
  · obtain ⟨rfl, hsize, hlt⟩ := h.place_of hpc
    have hleft : s.msg.length - s.sended = size := by
      rw [h.whole, ← hsize, Nat.add_sub_cancel_left]
    have hsame : s.write = s := by
      rw [Sending.write, hleft, ← hpc]
    refine ⟨hlt, ?_⟩
    rw [hsame]
    simp only [Sending.feed, hpc]
  · refine ⟨h.place_of hpc, ?_⟩
    simp only [Sending.feed, hpc]
  · exact absurd hpc hreturned
  · exact absurd hpc (hthrown e)

theorem Sending.Fed.step {msg : Bytes} {results : List SendResult} {s s' : Sending}
    {r : SendResult} (h : s.Fed msg results) (hstep : s.feed r = .ok s') :
    s'.Fed msg (results ++ [r]) := by
  -- a `send` that is over stays as it is, and the results it has had only get more
  by_cases hreturned : s.pc = .returned
  · simp only [Sending.feed, hreturned] at hstep
    obtain rfl := Except.ok.inj hstep
    have htaken : taken results ≤ taken (results ++ [r]) := by
      rw [taken_concat]
      exact Nat.le_add_right _ _
    exact ⟨h.inOrder, fun hne => absurd hreturned hne, fun _ => (h.returned hreturned).trans htaken,
      fun e he => absurd (hreturned.symm.trans he) (by simp)⟩
  by_cases hthrown : ∃ e, s.pc = .thrown e
  · obtain ⟨e, he⟩ := hthrown
    simp only [Sending.feed, he] at hstep
    obtain rfl := Except.ok.inj hstep
    obtain ⟨before, r', after, rfl, hr', hlt⟩ := h.thrown e he
    refine ⟨h.inOrder, fun _ hne => absurd he (hne e), fun hret => absurd hret hreturned,
      fun _ _ => ?_⟩
    exact ⟨before, r', after ++ [r], by rw [List.append_assoc, List.cons_append], hr', hlt⟩
  · have hgoes : ∀ e, s.pc ≠ .thrown e := fun e he => hthrown ⟨e, he⟩
    have hsended := h.going hreturned hgoes
    obtain ⟨hlt, hfeed⟩ := h.inOrder.feed_eq hreturned hgoes r
    rw [hfeed] at hstep
    have hin := (h.inOrder.write hlt).step hstep
    have hfail : Except.ok (ε := SendEvent)
        (s.write.throw (.user (.tcpError "Error to write"))) = .ok s' →
        (r = .wouldBlock ∨ r = .error) → s'.Fed msg (results ++ [r]) := by
      intro heq hr
      obtain rfl := Except.ok.inj heq
      refine ⟨hin, fun _ hne => absurd rfl (hne _), fun hret => ?_,
        fun _ _ => ⟨results, r, [], rfl, hr, hsended ▸ hlt⟩⟩
      cases hret
    rw [Sending.step_answer rfl] at hstep
    cases r with
    | accepted bytes =>
      rw [Sending.answered] at hstep
      split at hstep
      · obtain rfl := Except.ok.inj hstep
        have hend := taken_concat results (.accepted bytes)
        rw [← hsended] at hend
        refine ⟨hin, fun _ _ => hend.symm, fun hret => ?_, fun e he => ?_⟩
        · have hall : s.sended + bytes = msg.length := hin.place_of hret
          exact (hend.trans hall).ge
        · simp only [Sending.wrote] at he
          split at he <;> cases he
      · cases hstep
    | eintr =>
      obtain rfl := Except.ok.inj hstep
      refine ⟨hin, fun _ _ => ?_, fun hret => ?_, fun e he => ?_⟩
      · rw [taken_concat]
        exact hsended
      · cases hret
      · cases he
    | wouldBlock => exact hfail hstep (Or.inl rfl)
    | error => exact hfail hstep (Or.inr rfl)

theorem HttpResponse.send_fed {hash : HashOrder} {response : HttpResponse} {msg : Bytes}
    (h : response.message hash = some msg) {results : List SendResult} {s : Sending}
    (hrun : results.foldlM Sending.feed (response.send hash) = .ok s) : s.Fed msg results := by
  induction results using List.reverseRecOn generalizing s with
  | nil =>
    obtain rfl := Except.ok.inj hrun
    have hstart := HttpResponse.send_inOrder h
    rw [HttpResponse.send_eq h] at hstart ⊢
    refine ⟨hstart, fun _ _ => rfl, fun hret => ?_, fun e he => ?_⟩
    · cases hret
    · cases he
  | append_singleton results r ih =>
    obtain ⟨s₁, hfirst, hlast⟩ := Lib.foldlM_append_eq_ok.mp hrun
    obtain ⟨s₂, hstep, hnil⟩ := Lib.foldlM_cons_eq_ok.mp hlast
    obtain rfl := Except.ok.inj hnil
    exact (ih hfirst).step hstep

theorem feed_wouldBlock {msg : Bytes} {results : List SendResult} {s : Sending}
    (h : s.Fed msg results) (hreturned : s.pc ≠ .returned) (hthrown : ∀ e, s.pc ≠ .thrown e) :
    s.feed .wouldBlock = .ok (s.write.throw (.user (.tcpError "Error to write"))) := by
  rw [(h.inOrder.feed_eq hreturned hthrown _).2, Sending.step_answer rfl]
  rfl

/-- A full buffer suspends the response exactly when it has a status line and `::send` would not
block before the whole message is taken: `write` takes `EAGAIN` for a failure. -/
theorem send_suspends_iff (hash : HashOrder) (response : HttpResponse) (results : List SendResult)
    (hresults : SendResult.error ∉ results) {s : Sending}
    (hrun : results.foldlM Sending.feed (response.send hash) = .ok s) :
    response.Suspends hash results ↔ ∃ msg, response.message hash = some msg ∧
      ∀ before after, results = before ++ .wouldBlock :: after → msg.length ≤ taken before := by
  constructor
  · intro h
    rcases hmsg : response.message hash with _ | msg
    · obtain ⟨hthrown, -, -⟩ := h [] results (response.send hash) rfl rfl
      refine absurd ?_ (hthrown .outOfRange)
      rw [HttpResponse.send, hmsg]
    · refine ⟨msg, rfl, fun before after hsplit => ?_⟩
      rw [hsplit] at hrun
      obtain ⟨s₁, hbefore, hrest⟩ := Lib.foldlM_append_eq_ok.mp hrun
      have hfed := HttpResponse.send_fed hmsg hbefore
      obtain ⟨hthrown, -, -⟩ := h before _ s₁ hsplit hbefore
      by_contra hlt
      have hreturned : s₁.pc ≠ .returned := fun hret => hlt (hfed.returned hret)
      -- the answer that would block is thrown, which the result after it shows
      have hstep := feed_wouldBlock hfed hreturned hthrown
      have hafter : (before ++ [SendResult.wouldBlock]).foldlM Sending.feed (response.send hash) =
          .ok (s₁.write.throw (.user (.tcpError "Error to write"))) :=
        Lib.foldlM_append_eq_ok.mpr ⟨s₁, hbefore, Lib.foldlM_cons_eq_ok.mpr ⟨_, hstep, rfl⟩⟩
      obtain ⟨hthrown', -, -⟩ := h (before ++ [.wouldBlock]) after _
        (by rw [hsplit, List.append_assoc, List.singleton_append]) hafter
      exact hthrown' _ rfl
  · rintro ⟨msg, hmsg, hblock⟩ before after s₁ hsplit hbefore
    have hfed := HttpResponse.send_fed hmsg hbefore
    have hthrown : ∀ e, s₁.pc ≠ .thrown e := by
      intro e he
      obtain ⟨first, r, last, hfirst, hr, hlt⟩ := hfed.thrown e he
      have hall : results = first ++ r :: (last ++ after) := by
        rw [hsplit, hfirst, List.append_assoc, List.cons_append]
      rcases hr with rfl | rfl
      · exact absurd (hblock first _ hall) (not_le.mpr hlt)
      · exact hresults (hall ▸ List.mem_append_right _ List.mem_cons_self)
    refine ⟨hthrown, fun rest s' hafter hreturned _ => ?_, fun msg' hmsg' hall => ?_⟩
    · obtain ⟨hlt, -⟩ := hfed.inOrder.feed_eq hreturned hthrown .wouldBlock
      have hle := hblock before rest (hafter ▸ hsplit)
      rw [← hfed.going hreturned hthrown] at hle
      exact absurd hlt (not_lt.mpr hle)
    · obtain rfl := Option.some.inj (hmsg.symm.trans hmsg')
      have hreturned : s₁.pc = .returned := by
        by_contra hne
        obtain ⟨hlt, -⟩ := hfed.inOrder.feed_eq hne hthrown .wouldBlock
        rw [hfed.going hne hthrown] at hlt
        exact absurd hlt (not_lt.mpr hall)
      have hend : s₁.sended = msg.length := hfed.inOrder.place_of hreturned
      exact ⟨hreturned, by rw [hfed.inOrder.accepted, hend, List.take_length]⟩

theorem send_suspends_when_room :
    (HttpResponse.new .v1_1 200).Suspends HashOrder.stored
      [.accepted 9, .eintr, .accepted 14, .wouldBlock] := by
  refine (send_suspends_iff HashOrder.stored (HttpResponse.new .v1_1 200)
    [.accepted 9, .eintr, .accepted 14, .wouldBlock] (by decide) rfl).mpr ⟨_, rfl, ?_⟩
  intro before after hsplit
  exact Lib.forall_split_cons (P := fun before r _ => r = .wouldBlock → 23 ≤ taken before)
    (fun h => absurd h (by decide)) (Lib.forall_split_cons (fun h => absurd h (by decide))
      (Lib.forall_split_cons (fun h => absurd h (by decide))
        (Lib.forall_split_cons (fun _ => by decide) Lib.forall_split_nil)))
    before .wouldBlock after hsplit rfl

theorem send_aborts_on_full_buffer :
    ¬ ∀ (hash : HashOrder) (response : HttpResponse) (results : List SendResult),
      SendResult.error ∉ results →
      (∃ s, results.foldlM Sending.feed (response.send hash) = .ok s) →
      response.Suspends hash results := by
  intro h
  obtain ⟨hthrown, -, -⟩ := h HashOrder.stored (HttpResponse.new .v1_1 200) [.wouldBlock]
    (by decide) ⟨_, rfl⟩ [.wouldBlock] [] _ rfl rfl
  exact hthrown _ rfl

end AdvCppTP.Http
