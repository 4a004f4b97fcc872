import AdvCppTP.Http.ClientRoutine
import AdvCppTP.Http.Requests

/-! The first segment of `clientRoutine`: when it ends the routine instead of suspending it. -/

namespace AdvCppTP.Http

def RoutineSeg.Ends : RoutineSeg → Prop
  | .ret => True
  | .throw _ => True
  | _ => False

/-! ## Sending -/

theorem Client.changeEvent_eq (c : Client) (newEvent : EpollEvent) :
    c.changeEvent newEvent =
      ((ctlError c.io.ctls).map fun errno => .user (.epollError ("Epoll mod error: " ++ errno)),
        { c with info.currentEvent := newEvent, io.ctls := c.io.ctls.tail }) := by
  obtain ⟨info, recvs, sends, ctls, served⟩ := c
  rcases ctls with _ | ⟨_ | errno, ctls⟩ <;> rfl

/-- Unless something fails, one `send` takes the whole response, and the request is the last. -/
def Client.RespondsAtOnce (server : Server) (c : Client) (request : HttpRequest) : Prop :=
  ∀ response, server.onRequest c.io.served request = .ok response →
    ctlError c.io.ctls = none →
      ∀ msg, response.message server.hash = some msg →
        ∀ bytes, (connectionWrite msg.length c.io.sends).1 = .ok bytes →
          msg.length ≤ bytes ∧ (request.keepAlive = true → ctlError c.io.ctls.tail ≠ none)

theorem Client.afterSend_ends_iff (c : Client) (request : HttpRequest) :
    (c.afterSend request).1.Ends ↔ (request.keepAlive = true → ctlError c.io.ctls ≠ none) := by
  rw [Client.afterSend, Client.changeEvent_eq]
  by_cases halive : request.keepAlive = true
  · rw [if_pos halive]
    rcases ctlError c.io.ctls with _ | errno
    · exact ⟨fun h => h.elim, fun h => absurd rfl (h halive)⟩
    · exact ⟨fun _ _ => Option.some_ne_none errno, fun _ => trivial⟩
  · rw [if_neg halive]
    exact ⟨fun _ h => absurd h halive, fun _ => trivial⟩

theorem Client.sendRest_ends_iff (c : Client) (request : HttpRequest) (msg : Bytes) :
    (c.sendRest request msg 0).1.Ends ↔
      ∀ bytes, (connectionWrite msg.length c.io.sends).1 = .ok bytes →
        msg.length ≤ bytes ∧ (request.keepAlive = true → ctlError c.io.ctls ≠ none) := by
  rw [Client.sendRest, Nat.sub_zero]
  rcases connectionWrite msg.length c.io.sends with ⟨e | bytes, sends⟩
  · exact ⟨fun _ _ h => absurd h (by simp), fun _ => trivial⟩
  · simp only [Nat.zero_add, Except.ok.injEq, forall_eq']
    split
    case isTrue hpart => exact ⟨fun h => h.elim, fun h => absurd h.1 (Nat.not_le.mpr hpart)⟩
    case isFalse hwhole =>
      rw [Client.afterSend_ends_iff]
      exact ⟨fun h => ⟨Nat.not_lt.mp hwhole, h⟩, fun h => h.2⟩

theorem Client.respond_ends_iff (server : Server) (c : Client) (request : HttpRequest) :
    (c.respond server request).1.Ends ↔ c.RespondsAtOnce server request := by
  rw [Client.respond, Client.RespondsAtOnce]
  rcases server.onRequest c.io.served request with e | response
  · exact ⟨fun _ _ h => absurd h (by simp), fun _ => trivial⟩
  · simp only [Client.changeEvent_eq, Except.ok.injEq, forall_eq']
    rcases ctlError c.io.ctls with _ | errno
    · simp only [Option.map_none, true_imp_iff]
      rcases response.message server.hash with _ | msg
      · exact ⟨fun _ _ h => absurd h (by simp), fun _ => trivial⟩
      · simp only [Option.some.injEq, forall_eq']
        exact Client.sendRest_ends_iff _ request msg
    · exact ⟨fun _ h => absurd h (Option.some_ne_none errno), fun _ => trivial⟩

theorem Client.respond_defined (server : Server) (c : Client) (request : HttpRequest) :
    (c.respond server request).1 ≠ .undefined := by
  have hafter : ∀ c : Client, (c.afterSend request).1 ≠ .undefined := fun c => by
    rw [Client.afterSend, Client.changeEvent_eq]
    rcases ctlError c.io.ctls with _ | errno <;> split <;> simp
  rw [Client.respond]
  rcases server.onRequest c.io.served request with e | response
  · simp
  · simp only [Client.changeEvent_eq]
    rcases ctlError c.io.ctls with _ | errno
    case some => simp
    case none =>
      simp only [Option.map_none]
      rcases response.message server.hash with _ | msg
      · simp
      · simp only [Client.sendRest]
        split
        · simp
        · split
          · simp
          · exact hafter _

/-! ## Parsing -/

theorem HeadersMap.parse_defined (view : Bytes) :
    HeadersMap.parse view ≠ .error .undefined := by
  rw [HeadersMap.parse_eq]
  split <;> simp

theorem stoull_defined (str : Bytes) : stoull str ≠ .error .undefined := by
  rw [stoull]
  rcases readSign (str.dropWhile isSpace) with ⟨minus, s⟩
  simp only
  split
  · simp
  · split <;> simp

theorem ReceiveStep.ofExcept_make (firstLine : QueryLine) (headers : StringMap) (body : Bytes) :
    ∃ request, ReceiveStep.ofExcept (HttpRequest.make firstLine headers body) = .done request := by
  obtain ⟨request, h⟩ := HttpRequest.make_ok firstLine headers body
  exact ⟨request, by rw [h]; rfl⟩

theorem receiveHead_defined {buffer : Bytes} {p : Nat} (h : Lib.find headersEnd buffer 0 = some p)
    (headersEndPos : Nat) : receiveHead buffer headersEndPos ≠ .throw .undefined := by
  obtain ⟨⟨firstLineView, headersView⟩, hsplit⟩ := splitUntilBody_ok h
  obtain ⟨firstLine, hline⟩ := QueryLine.parse_ok firstLineView
  have hparse := HeadersMap.parse_defined headersView
  rw [receiveHead, hsplit]
  simp only [hline]
  rcases hheaders : HeadersMap.parse headersView with e | headers
  · rintro ⟨⟩
    exact hparse hheaders
  simp only
  split
  · obtain ⟨request, hmake⟩ := ReceiveStep.ofExcept_make firstLine headers []
    rw [hmake]
    simp
  case h_2 value hvalue =>
    have hlength := stoull_defined value
    rcases hbodyLen : stoull value with e | bodyLen
    · rintro ⟨⟩
      exact hlength hbodyLen
    · simp

theorem receiveStep_body_whole {wasRead count bodyLen : Nat} (h : ¬ wasRead + count < bodyLen)
    (buffer : Bytes) (firstLine : QueryLine) (headers : StringMap) (startPos : Nat) :
    (∃ request, receiveStep buffer count (.body firstLine headers startPos bodyLen wasRead) =
        .done request) ∨
      receiveStep buffer count (.body firstLine headers startPos bodyLen wasRead) =
        .throw .outOfRange := by
  simp only [receiveStep, if_neg h, substrFrom]
  by_cases hstart : startPos ≤ buffer.length
  · rw [if_pos hstart]
    exact .inl (ReceiveStep.ofExcept_make firstLine headers ((buffer.drop startPos).take bodyLen))
  · rw [if_neg hstart]
    exact .inr rfl

theorem RoutineSeg.ofStd_ends {e : StdError} (h : e ≠ .undefined) : (ofStd e).Ends := by
  cases e with
  | outOfRange => trivial
  | invalidArgument => trivial
  | undefined => exact absurd rfl h

/-! ## Receiving -/

section

variable (server : Server) (next : ReceiverPc → Client → RoutineSeg × Client)

theorem Client.turn_body (c : Client) (firstLine : QueryLine) (headers : StringMap)
    (startPos bodyLen wasRead : Nat) :
    ((c.turn server next (.body firstLine headers startPos bodyLen wasRead)).1.Ends ↔
      ∀ count c', c.read = (.ok count, c') →
        bodyLen ≤ wasRead + count ∧
          ∀ request, receiveStep c'.info.buffer count
              (.body firstLine headers startPos bodyLen wasRead) = .done request →
            c'.RespondsAtOnce server request) ∧
      (c.turn server next (.body firstLine headers startPos bodyLen wasRead)).1 ≠ .undefined := by
  rw [Client.turn]
  rcases c.read with ⟨e | count, c'⟩
  · exact ⟨⟨fun _ _ _ h => absurd h (by simp), fun _ => trivial⟩, by simp⟩
  simp only [Prod.mk.injEq, Except.ok.injEq, and_imp, forall_eq', forall_apply_eq_imp_iff]
  by_cases hpart : wasRead + count < bodyLen
  · rw [receiveStep_body_part hpart]
    exact ⟨⟨fun h => h.elim, fun h => absurd h.1 (Nat.not_le.mpr hpart)⟩, by simp⟩
  have hwhole : bodyLen ≤ wasRead + count := Nat.not_lt.mp hpart
  obtain ⟨request, hstep⟩ | hstep := receiveStep_body_whole hpart c'.info.buffer firstLine headers
    startPos
  · rw [hstep]
    refine ⟨?_, c'.respond_defined server request⟩
    simp only [Client.respond_ends_iff, hwhole, true_and, ReceiveStep.done.injEq, forall_eq']
  · rw [hstep]
    exact ⟨⟨fun _ => ⟨hwhole, fun _ h => absurd h (by simp)⟩, fun _ => trivial⟩,
      by simp [RoutineSeg.ofStd]⟩

end

/-- Unless something fails, the first read brings the end of the head, the second the end of the
body that the head announces, and the response goes out at once. -/
def Client.AtOnce (server : Server) (c : Client) : Prop :=
  ∀ count c₁, c.read = (.ok count, c₁) →
    (Lib.find headersEnd c₁.info.buffer 0).isSome ∧
      (∀ request, receiveStep c₁.info.buffer count (.head 0) = .done request →
        c₁.RespondsAtOnce server request) ∧
      ∀ firstLine headers startPos bodyLen wasRead,
        receiveStep c₁.info.buffer count (.head 0) =
            .again (.body firstLine headers startPos bodyLen wasRead) →
          ∀ count' c₂, c₁.read = (.ok count', c₂) →
            bodyLen ≤ wasRead + count' ∧
              ∀ request, receiveStep c₂.info.buffer count'
                  (.body firstLine headers startPos bodyLen wasRead) = .done request →
                c₂.RespondsAtOnce server request

theorem Client.start_ends_iff (server : Server) (c : Client) :
    ((c.resume server .served).1.Ends ↔ c.AtOnce server) ∧
      (c.resume server .served).1 ≠ .undefined := by
  rw [Client.resume, Client.receive, Client.turn, Client.AtOnce]
  rcases c.read with ⟨e | count, c₁⟩
  · exact ⟨⟨fun _ _ _ h => absurd h (by simp), fun _ => trivial⟩, by simp⟩
  simp only [Prod.mk.injEq, Except.ok.injEq, and_imp, forall_eq', forall_apply_eq_imp_iff]
  rcases hfind : Lib.find headersEnd c₁.info.buffer 0 with _ | p
  · rw [receiveStep_head_of_none count hfind]
    exact ⟨⟨fun h => h.elim, fun h => absurd h.1 (by simp)⟩, by simp⟩
  have hdefined := receiveHead_defined hfind p
  rw [receiveStep_head_of_some count hfind]
  obtain ⟨firstLine, headers, startPos, bodyLen, wasRead, hhead⟩ | ⟨request, hhead⟩ | ⟨e, hhead⟩ :=
    receiveHead_cases c₁.info.buffer p
  · obtain ⟨hends, hbody⟩ := c₁.turn_body server (fun pc c => (.yield (.receiving pc), c)) firstLine
      headers startPos bodyLen wasRead
    rw [hhead]
    refine ⟨hends.trans ⟨fun h => ⟨rfl, fun _ hdone => absurd hdone (by simp), ?_⟩,
      fun h => h.2.2 _ _ _ _ _ rfl⟩, hbody⟩
    rintro _ _ _ _ _ ⟨⟩
    exact h
  · rw [hhead]
    refine ⟨?_, c₁.respond_defined server request⟩
    simp [Client.respond_ends_iff]
  · rw [hhead] at hdefined ⊢
    have he : (RoutineSeg.ofStd e).Ends := RoutineSeg.ofStd_ends fun h => hdefined (h ▸ rfl)
    refine ⟨⟨fun _ => by simp, fun _ => he⟩, fun h => ?_⟩
    rw [show RoutineSeg.ofStd e = .undefined from h] at he
    exact he

end AdvCppTP.Http
