import AdvCppTP.Pipe.Programs

/-! The scenes of a dialogue: what the two programs and their pipes look like as a whole, between
any two calls of the kernel. -/

namespace AdvCppTP.Protocol

namespace Dialogue

/-! ## What the dialogue is -/

section

variable (rep : SizeRep) (toupper : UInt8 → UInt8)

/-- The lines that end in a newline; what is behind the last one is not sent. -/
def completeLines (input : Bytes) : List Bytes := (input.splitOn newline).dropLast

def transcript (lines : List Bytes) : List Line :=
  lines.flatMap fun line => [.send line, .got (upper toupper line)]

/-- What may be on the parent's output while it talks about `lines`: the exchanges that are over,
and then perhaps one that is not, or that has failed. -/
def Said (lines : List Bytes) (output : List Line) : Prop :=
  ∃ past rest, lines = past ++ rest ∧
    (output = transcript toupper past ∨
      ∃ line rest', rest = line :: rest' ∧
        ∃ tail ∈ [[Line.send line], [.send line, .writeError], [.send line, .readError]],
          output = transcript toupper past ++ tail)

/-- How far an exchange is: `w` bytes of a frame have been written, and `k` of them read. -/
inductive Phase
  | idle
  | asking (line : Bytes) (w k : Nat)
  | waiting (line : Bytes) (k : Nat)
  | answering (line : Bytes) (w k : Nat)
  | hearing (line : Bytes) (k : Nat)
  deriving DecidableEq, Repr

def Phase.lines : Phase → List Bytes
  | .idle => []
  | .asking line _ _ => [line]
  | .waiting line _ => [line]
  | .answering line _ _ => [line]
  | .hearing line _ => [line]

def Phase.Ok : Phase → Prop
  | .idle => True
  | .asking line w k => k ≤ w ∧ w < 8 + line.length
  | .waiting line k => k < 8 + line.length
  | .answering line w k => k ≤ w ∧ w < 8 + line.length
  | .hearing line k => k < 8 + line.length

/-- How many calls of the kernel are left in the exchange, at most. -/
def Phase.cost : Phase → Nat
  | .idle => 0
  | .asking line w k => (8 + line.length - w) + (8 + line.length - k) + 2 * (8 + line.length)
  | .waiting line k => (8 + line.length - k) + 2 * (8 + line.length)
  | .answering line w k => (8 + line.length - w) + (8 + line.length - k)
  | .hearing line k => 8 + line.length - k

def lineCost (line : Bytes) : Nat := 1 + 4 * (8 + line.length)

/-- The dialogue as a whole: the exchanges behind it, the one it is in, and the input before it;
`alive` tells whether the child is still there. -/
structure Scene where
  alive : Bool
  past : List Bytes
  phase : Phase
  input : Bytes
  deriving DecidableEq, Repr

def Scene.lines (sc : Scene) : List Bytes := sc.past ++ (sc.phase.lines ++ completeLines sc.input)

structure Scene.Ok (sc : Scene) : Prop where
  phase : sc.phase.Ok
  fits : ∀ line ∈ sc.lines, line.length < 2 ^ 64

def Scene.cost (sc : Scene) : Nat :=
  1 + sc.alive.toNat + sc.phase.cost + ((completeLines sc.input).map lineCost).sum

def Scene.child (sc : Scene) (child : ChildAt) : ChildAt := if sc.alive then child else .left

/-- The state of the two programs and of the pipes in a scene. -/
def Scene.state (sc : Scene) : State :=
  let said := transcript toupper sc.past
  match sc.phase with
  | .idle => ⟨sc.input, .top, [], [], sc.child (.reading (.start rep [])), said⟩
  | .asking line w k =>
    ⟨sc.input, .writing line (.sending (encode rep line) w), ((encode rep line).take w).drop k, [],
      sc.child (.reading (.after rep [] line k)), said ++ [.send line]⟩
  | .waiting line k =>
    ⟨sc.input, .reading (.after rep line (upper toupper line) 0), (encode rep line).drop k, [],
      sc.child (.reading (.after rep [] line k)), said ++ [.send line]⟩
  | .answering line w k =>
    let answer := encode rep (upper toupper line)
    ⟨sc.input, .reading (.after rep line (upper toupper line) k), [], (answer.take w).drop k,
      sc.child (.writing (.sending answer w)), said ++ [.send line]⟩
  | .hearing line k =>
    let answer := encode rep (upper toupper line)
    ⟨sc.input, .reading (.after rep line (upper toupper line) k), [], answer.drop k,
      sc.child (.reading (.start rep [])), said ++ [.send line]⟩

end

/-! ## Single calls -/

theorem getline_eq (input : Bytes) :
    (∃ line rest, getline input = (line, rest, false) ∧
      completeLines input = line :: completeLines rest) ∨
    (∃ line, getline input = (line, [], true) ∧ completeLines input = []) := by
  obtain ⟨line, rest, hgetline, hclean, hinput⟩ | ⟨line, hgetline, hclean, hinput⟩ :=
    getline_split input
  · refine .inl ⟨line, rest, hgetline, ?_⟩
    rw [completeLines, hinput, List.splitOn_append_cons_self_of_not_mem hclean rest,
      List.dropLast_cons_of_ne_nil (List.splitOn_ne_nil _ _)]
    rfl
  · refine .inr ⟨line, hgetline, ?_⟩
    rw [completeLines, hinput, List.splitOn_eq_singleton hclean]
    rfl

/-- The end of the input ends `Protocol::read`, and so does a failure in its first loop. -/
theorem Reading.turn_fails (rep : SizeRep) {r : Reading} (hr : 0 < r.requested) (pipe : Bytes)
    {o : Outcome} (ho : o = .eof ∨ o = .error ∧ inPayload r = false) :
    ∃ buffer, r.turn rep pipe o = (.back (-1) buffer, pipe) := by
  rcases r with ⟨buffer, size, wasRead⟩ | ⟨buffer, wasRead⟩ | ⟨ret, buffer⟩
  · rcases ho with rfl | ⟨rfl, -⟩
    · exact ⟨buffer, rfl⟩
    · exact ⟨buffer, rfl⟩
  · rcases ho with rfl | ⟨-, hpayload⟩
    · exact ⟨overwrite buffer wasRead [], rfl⟩
    · cases hpayload
  · exact absurd hr (Nat.lt_irrefl 0)

theorem Reading.requested_after (rep : SizeRep) (buffer : Bytes) {message : Bytes} {k : Nat}
    (hk : k < 8 + message.length) : 0 < (Reading.after rep buffer message k).requested := by
  have h8 := rep.length_bytes message.length
  rcases Nat.lt_or_ge k 8 with hlt | hge
  · rw [Reading.after, if_pos hlt, Reading.requested, length_zeroed (by omega)]
    omega
  · rw [Reading.after, if_neg (Nat.not_lt.mpr hge), if_pos hk, Reading.requested,
      length_zeroed (by omega)]
    omega

/-- What a `::read` in the midst of a frame may come back with. -/
theorem Reading.after_cases {rep : SizeRep} {buffer message : Bytes} {w k : Nat} {writer : Bool}
    {o : Outcome} (hfits : message.length < 2 ^ 64) (hk : k < 8 + message.length)
    (hpayload : o = .error → inPayload (.after rep buffer message k) = false)
    (hmay : mayRead (Reading.after rep buffer message k).requested
      (((encode rep message).take w).drop k) writer o = true) :
    (∃ i, o = .moved i ∧ 1 ≤ i ∧ k + i ≤ w ∧ k + i ≤ 8 + message.length ∧
      (Reading.after rep buffer message k).turn rep (((encode rep message).take w).drop k) o =
        (.after rep buffer message (k + i), ((encode rep message).take w).drop (k + i))) ∨
    (o = .eof ∧ writer = false ∨ o = .error) ∧ ∃ found,
      (Reading.after rep buffer message k).turn rep (((encode rep message).take w).drop k) o =
        (.back (-1) found, ((encode rep message).take w).drop k) := by
  have hasks := Reading.requested_after rep buffer hk
  rcases o with i | _ | _
  · refine .inl ⟨i, rfl, ?_⟩
    obtain ⟨hi, hasked, hthere⟩ := of_decide_eq_true hmay
    have hlen := hthere
    rw [List.length_drop, List.length_take, length_encode] at hlen
    have hpipe : ((encode rep message).take w).drop k <+: (encode rep message).drop k :=
      (List.take_prefix w _).drop k
    refine ⟨hi, by omega, by omega, ?_⟩
    rw [Reading.turn_after buffer hfits hk hi hasked hthere hpipe, List.drop_drop]
  · obtain ⟨-, hwriter⟩ := of_decide_eq_true hmay
    exact .inr ⟨.inl ⟨rfl, Bool.eq_false_iff.mpr hwriter⟩,
      Reading.turn_fails rep hasks _ (.inl rfl)⟩
  · exact .inr ⟨.inr rfl, Reading.turn_fails rep hasks _ (.inr ⟨rfl, hpayload rfl⟩)⟩

/-- What a `::write` in the midst of a frame may come back with. -/
theorem Writing.sending_cases {kernel : Kernel} {buffer : Bytes} {w k : Nat} {o : Outcome}
    (hk : k ≤ w) (hmay : mayWrite kernel (Writing.sending buffer w).requested
      ((buffer.take w).drop k) o = true) :
    (∃ i, o = .moved i ∧ 1 ≤ i ∧ w + i ≤ buffer.length ∧
      (Writing.sending buffer w).turn ((buffer.take w).drop k) o =
        (.send buffer (w + i), (buffer.take (w + i)).drop k)) ∨
    o = .error ∧ (Writing.sending buffer w).turn ((buffer.take w).drop k) o =
      (.back (-1), (buffer.take w).drop k) := by
  rcases o with i | _ | _
  · obtain ⟨hi, hasked, -⟩ := of_decide_eq_true hmay
    rw [Writing.requested] at hasked
    have hroom : w + i ≤ buffer.length := by omega
    exact .inl ⟨i, rfl, hi, hroom, Writing.turn_sending hi hroom hk⟩
  · cases hmay
  · refine .inr ⟨rfl, ?_⟩
    simp only [Writing.turn, sysWrite, List.append_nil]
    rfl

/-! ## Single steps of the dialogue -/

section Steps

variable {kernel : Kernel} {rep : SizeRep} {toupper : UInt8 → UInt8}

@[simp] theorem length_upper (str : Bytes) : (upper toupper str).length = str.length :=
  List.length_map _

/-- What a step of the dialogue as a whole leads to. -/
structure Scene.Next (sc sc' : Scene) : Prop where
  ok : sc'.Ok
  lines : sc'.lines = sc.lines
  cost : sc'.cost < sc.cost

/-- What the parent leaves when it has reached the end of its input. -/
def Scene.closed (rep : SizeRep) (toupper : UInt8 → UInt8) (sc : Scene) : State :=
  { sc.state rep toupper with input := [], parent := .left }

@[simp] theorem parentAfterWrite_zero (buffer : Bytes) :
    parentAfterWrite rep buffer (.back 0) = (.reading (.start rep buffer), []) := rfl

@[simp] theorem parentAfterWrite_failed (buffer : Bytes) :
    parentAfterWrite rep buffer (.back (-1)) = (.left, [.writeError]) := rfl

@[simp] theorem parentAfterRead_zero (buffer : Bytes) :
    parentAfterRead (.back 0 buffer) = (.top, [.got buffer]) := rfl

@[simp] theorem parentAfterRead_failed (buffer : Bytes) :
    parentAfterRead (.back (-1) buffer) = (.left, [.readError]) := rfl

@[simp] theorem childAfterRead_zero (buffer : Bytes) :
    childAfterRead rep toupper (.back 0 buffer) =
      .writing (.start rep (upper toupper buffer)) := rfl

@[simp] theorem childAfterRead_failed (buffer : Bytes) :
    childAfterRead rep toupper (.back (-1) buffer) = .left := rfl

@[simp] theorem childAfterWrite_zero :
    childAfterWrite rep (.back 0) = .reading (.start rep []) := rfl

@[simp] theorem childAfterWrite_failed : childAfterWrite rep (.back (-1)) = .left := rfl

theorem said_idle {lines past rest : List Bytes} (h : lines = past ++ rest) :
    Said toupper lines (transcript toupper past) :=
  ⟨past, rest, h, .inl rfl⟩

theorem said_within {lines past rest : List Bytes} {line : Bytes} {tail : List Line}
    (h : lines = past ++ line :: rest)
    (htail : tail ∈ [[Line.send line], [.send line, .writeError], [.send line, .readError]]) :
    Said toupper lines (transcript toupper past ++ tail) :=
  ⟨past, line :: rest, h, .inr ⟨line, rest, rfl, tail, htail, rfl⟩⟩

theorem transcript_snoc (past : List Bytes) (line : Bytes) :
    transcript toupper (past ++ [line]) =
      transcript toupper past ++ [.send line] ++ [.got (upper toupper line)] := by
  rw [transcript, transcript, List.flatMap_append, List.append_assoc]
  rfl

/-- The parent takes its next line, or is through. -/
theorem stepLine_scene {sc : Scene} (hok : sc.Ok) {s' : State}
    (hstep : stepLine rep (sc.state rep toupper) = some s') :
    (∃ sc', sc.Next sc' ∧ sc'.alive = sc.alive ∧ s' = sc'.state rep toupper) ∨
      sc.lines = sc.past ∧ sc.phase = .idle ∧ s' = sc.closed rep toupper := by
  obtain ⟨alive, past, phase, input⟩ := sc
  cases phase with
  | idle =>
    simp only [stepLine, Scene.state] at hstep
    rcases getline_eq input with ⟨line, rest, hline, hlines⟩ | ⟨line, hline, hlines⟩
    · simp only [hline, Bool.false_eq_true, if_false, Option.some.injEq] at hstep
      obtain rfl := hstep
      have hsame : Scene.lines ⟨alive, past, .asking line 0 0, rest⟩ =
          Scene.lines ⟨alive, past, .idle, input⟩ := by
        simp only [Scene.lines, Phase.lines, hlines, List.nil_append, List.singleton_append]
      refine .inl ⟨⟨alive, past, .asking line 0 0, rest⟩, ⟨⟨?_, ?_⟩, hsame, ?_⟩, rfl, ?_⟩
      · exact ⟨Nat.le_refl 0, by omega⟩
      · exact hsame ▸ hok.fits
      · simp only [Scene.cost, Phase.cost, hlines, List.map_cons, List.sum_cons, lineCost]
        omega
      · simp only [Scene.state, Writing.start_eq, Reading.after_zero, List.take_zero,
          List.drop_nil]
        rfl
    · simp only [hline, if_true, Option.some.injEq] at hstep
      obtain rfl := hstep
      refine .inr ⟨?_, rfl, rfl⟩
      simp only [Scene.lines, Phase.lines, hlines, List.append_nil]
  | asking line w k => cases hstep
  | waiting line k => cases hstep
  | answering line w k => cases hstep
  | hearing line k => cases hstep

theorem Scene.Ok.next {sc : Scene} (hok : sc.Ok) (phase : Phase) (hphase : phase.Ok)
    (hlines : phase.lines = sc.phase.lines) (hcost : phase.cost < sc.phase.cost) :
    sc.Next { sc with phase } where
  ok := ⟨hphase, fun line hline => hok.fits line (by rwa [Scene.lines, ← hlines])⟩
  lines := by rw [Scene.lines, Scene.lines, hlines]
  cost := by
    unfold Scene.cost
    exact Nat.add_lt_add_right (Nat.add_lt_add_left hcost _) _

theorem stepParent_writing {s s' : State} {buffer : Bytes} {w : Writing} {o : Outcome}
    (hat : s.parent = .writing buffer w) (hstep : stepParent kernel rep o s = some s') :
    s.child.open = true ∧ mayWrite kernel w.requested s.toChild o = true ∧
      s' = { s with
        parent := (parentAfterWrite rep buffer (w.turn s.toChild o).1).1
        toChild := (w.turn s.toChild o).2
        output := s.output ++ (parentAfterWrite rep buffer (w.turn s.toChild o).1).2 } := by
  simp only [stepParent, hat, Option.ite_none_right_eq_some, Option.some.injEq] at hstep
  exact ⟨hstep.1.1, hstep.1.2, hstep.2.symm⟩

theorem stepParent_reading {s s' : State} {r : Reading} {o : Outcome}
    (hat : s.parent = .reading r) (hstep : stepParent kernel rep o s = some s') :
    mayRead r.requested s.toParent s.child.open o = true ∧
      s' = { s with
        parent := (parentAfterRead (r.turn rep s.toParent o).1).1
        toParent := (r.turn rep s.toParent o).2
        output := s.output ++ (parentAfterRead (r.turn rep s.toParent o).1).2 } := by
  simp only [stepParent, hat, Option.ite_none_right_eq_some, Option.some.injEq] at hstep
  exact ⟨hstep.1, hstep.2.symm⟩

theorem stepChild_reading {s s' : State} {r : Reading} {o : Outcome}
    (hat : s.child = .reading r) (hstep : stepChild kernel rep toupper o s = some s') :
    mayRead r.requested s.toChild s.parent.open o = true ∧
      s' = { s with
        child := childAfterRead rep toupper (r.turn rep s.toChild o).1
        toChild := (r.turn rep s.toChild o).2 } := by
  simp only [stepChild, hat, Option.ite_none_right_eq_some, Option.some.injEq] at hstep
  exact ⟨hstep.1, hstep.2.symm⟩

theorem stepChild_writing {s s' : State} {w : Writing} {o : Outcome}
    (hat : s.child = .writing w) (hstep : stepChild kernel rep toupper o s = some s') :
    s.parent.open = true ∧ mayWrite kernel w.requested s.toParent o = true ∧
      s' = { s with
        child := childAfterWrite rep (w.turn s.toParent o).1
        toParent := (w.turn s.toParent o).2 } := by
  simp only [stepChild, hat, Option.ite_none_right_eq_some, Option.some.injEq] at hstep
  exact ⟨hstep.1.1, hstep.1.2, hstep.2.symm⟩

theorem Reading.after_within (rep : SizeRep) (buffer : Bytes) {message : Bytes} {k : Nat}
    (hk : k < 8 + message.length) :
    (∃ size i, Reading.after rep buffer message k = .sizing buffer size i) ∨
      ∃ filled i, Reading.after rep buffer message k = .filling filled i := by
  rcases Nat.lt_or_ge k 8 with hlt | hge
  · exact .inl ⟨_, _, if_pos hlt⟩
  · exact .inr ⟨_, _, by rw [Reading.after, if_neg (Nat.not_lt.mpr hge), if_pos hk]⟩

theorem Reading.after_end (buffer message : Bytes) :
    Reading.after rep buffer message (8 + message.length) = .back 0 message := by
  rw [Reading.after, if_neg (by omega), if_neg (Nat.lt_irrefl _)]

theorem parentAfterRead_within {buffer message : Bytes} {k : Nat}
    (hk : k < 8 + message.length) :
    parentAfterRead (.after rep buffer message k) =
      (.reading (.after rep buffer message k), []) := by
  rcases Reading.after_within rep buffer hk with ⟨size, i, h⟩ | ⟨filled, i, h⟩
  · rw [h, parentAfterRead]
    exact fun _ _ h => by cases h
  · rw [h, parentAfterRead]
    exact fun _ _ h => by cases h

theorem childAfterRead_within {buffer message : Bytes} {k : Nat} (hk : k < 8 + message.length) :
    childAfterRead rep toupper (.after rep buffer message k) =
      .reading (.after rep buffer message k) := by
  rcases Reading.after_within rep buffer hk with ⟨size, i, h⟩ | ⟨filled, i, h⟩
  · rw [h, childAfterRead]
    exact fun _ _ h => by cases h
  · rw [h, childAfterRead]
    exact fun _ _ h => by cases h

theorem open_child {sc : Scene} {child : ChildAt} (hchild : child.open = true) :
    (sc.child child).open = sc.alive := by
  unfold Scene.child
  split
  case isTrue h => rw [hchild, h]
  case isFalse h => exact (Bool.not_eq_true _ ▸ h).symm

theorem fits_of_ok {sc : Scene} (hok : sc.Ok) {line : Bytes} (hline : line ∈ sc.phase.lines) :
    line.length < 2 ^ 64 :=
  hok.fits line (List.mem_append_right _ (List.mem_append_left _ hline))

/-- A `::read` by the parent in the midst of an answer. -/
theorem parent_hears (w : Nat) {line : Bytes} {k : Nat} {o : Outcome} {s s' : State}
    (hfits : line.length < 2 ^ 64) (hk : k < 8 + line.length)
    (hat : s.parent = .reading (.after rep line (upper toupper line) k))
    (hpipe : s.toParent = ((encode rep (upper toupper line)).take w).drop k)
    (hpayload : failsInPayload s (.parent o) = false)
    (hstep : stepParent kernel rep o s = some s') :
    (∃ i, 1 ≤ i ∧ k + i ≤ w ∧ k + i ≤ 8 + line.length ∧ s' = { s with
      parent := (parentAfterRead (.after rep line (upper toupper line) (k + i))).1
      toParent := ((encode rep (upper toupper line)).take w).drop (k + i)
      output := s.output ++
        (parentAfterRead (.after rep line (upper toupper line) (k + i))).2 }) ∨
    (o = .error ∨ s.child.open = false) ∧ s'.parent = .left ∧
      s'.output = s.output ++ [.readError] := by
  obtain ⟨hmay, rfl⟩ := stepParent_reading hat hstep
  rw [hpipe] at hmay
  have hpayload' : o = .error →
      inPayload (.after rep line (upper toupper line) k) = false := by
    rintro rfl
    rwa [failsInPayload, hat] at hpayload
  rcases Reading.after_cases (by rwa [length_upper]) (by rwa [length_upper]) hpayload' hmay with
    ⟨i, rfl, hi, hiw, hroom, hturn⟩ | ⟨hwhy, found, hturn⟩
  · refine .inl ⟨i, hi, hiw, by rwa [length_upper] at hroom, ?_⟩
    rw [hpipe, hturn]
  · refine .inr ⟨?_, ?_, ?_⟩
    · exact hwhy.elim (fun h => .inr h.2) .inl
    · rw [hpipe, hturn, parentAfterRead_failed]
    · rw [hpipe, hturn, parentAfterRead_failed]

/-- What a call of the kernel by the parent leads to: a further scene, or the end of its loop. -/
def Scene.ParentGoes (rep : SizeRep) (toupper : UInt8 → UInt8) (sc : Scene) (o : Outcome)
    (s' : State) : Prop :=
  (∃ sc', sc.Next sc' ∧ sc'.alive = sc.alive ∧ s' = sc'.state rep toupper) ∨
    (o = .error ∨ sc.alive = false) ∧ s'.parent = .left ∧ Said toupper sc.lines s'.output

theorem Scene.ParentGoes.failed {sc : Scene} {line : Bytes} {what : Line} {o : Outcome}
    {s' : State} (hline : sc.phase.lines = [line])
    (hwhat : what ∈ [Line.writeError, .readError]) (hwhy : o = .error ∨ sc.alive = false)
    (hleft : s'.parent = .left)
    (hsaid : s'.output = transcript toupper sc.past ++ [.send line] ++ [what]) :
    sc.ParentGoes rep toupper o s' := by
  refine .inr ⟨hwhy, hleft, ?_⟩
  rw [hsaid, List.append_assoc, Scene.lines, hline]
  apply said_within rfl
  simpa using hwhat

/-- The parent in the midst of its message. -/
theorem parent_asks {alive : Bool} {past : List Bytes} {line : Bytes} {w k : Nat} {input : Bytes}
    (hok : Scene.Ok ⟨alive, past, .asking line w k, input⟩) {o : Outcome} {s' : State}
    (hstep : stepParent kernel rep o
      (Scene.state rep toupper ⟨alive, past, .asking line w k, input⟩) = some s') :
    Scene.ParentGoes rep toupper ⟨alive, past, .asking line w k, input⟩ o s' := by
  obtain ⟨hkw, hw⟩ := hok.phase
  obtain ⟨-, hmay, rfl⟩ := stepParent_writing rfl hstep
  rcases Writing.sending_cases hkw hmay with ⟨i, rfl, hi, hroom, hturn⟩ | ⟨rfl, hturn⟩
  · rw [length_encode] at hroom
    left
    rcases Nat.lt_or_ge (w + i) (8 + line.length) with hmore | hdone
    · refine ⟨_, hok.next (.asking line (w + i) k) ⟨by omega, hmore⟩ rfl ?_, rfl, ?_⟩
      · simp only [Phase.cost]
        omega
      · simp only [Scene.state, hturn, Writing.send, length_encode, if_pos hmore,
          parentAfterWrite, List.append_nil]
        rfl
    · -- the message is written, and the answer comes next
      have hall : w + i = (encode rep line).length := by
        rw [length_encode]
        omega
      refine ⟨_, hok.next (.waiting line k) (Nat.lt_of_le_of_lt hkw hw) rfl ?_, rfl, ?_⟩
      · simp only [Phase.cost]
        omega
      · simp only [Scene.state, hturn, hall, Writing.send, Nat.lt_irrefl, if_false,
          parentAfterWrite_zero, List.append_nil, List.take_length, Reading.after_zero]
        rfl
  · apply Scene.ParentGoes.failed rfl List.mem_cons_self (.inl rfl)
    · simp only [Scene.state, hturn, parentAfterWrite_failed]
    · simp only [Scene.state, hturn, parentAfterWrite_failed]

/-- The parent while the child is in the midst of its answer. -/
theorem parent_follows {alive : Bool} {past : List Bytes} {line : Bytes} {w k : Nat}
    {input : Bytes} (hok : Scene.Ok ⟨alive, past, .answering line w k, input⟩) {o : Outcome}
    {s' : State}
    (hpayload : failsInPayload
      (Scene.state rep toupper ⟨alive, past, .answering line w k, input⟩) (.parent o) = false)
    (hstep : stepParent kernel rep o
      (Scene.state rep toupper ⟨alive, past, .answering line w k, input⟩) = some s') :
    Scene.ParentGoes rep toupper ⟨alive, past, .answering line w k, input⟩ o s' := by
  obtain ⟨hkw, hw⟩ := hok.phase
  have hfits := fits_of_ok hok List.mem_cons_self
  rcases parent_hears w hfits (by omega) rfl rfl hpayload hstep with
    ⟨i, hi, hiw, -, rfl⟩ | ⟨hwhy, hleft, hsaid⟩
  · refine .inl ⟨_, hok.next (.answering line w (k + i)) ⟨hiw, hw⟩ rfl ?_, rfl, ?_⟩
    · simp only [Phase.cost]
      omega
    · have hmore : k + i < 8 + (upper toupper line).length := by
        rw [length_upper]
        omega
      simp only [Scene.state, parentAfterRead_within hmore, List.append_nil]
      rfl
  · exact .failed rfl (by simp) (hwhy.imp_right (open_child rfl).symm.trans) hleft hsaid

theorem Scene.next_over {alive : Bool} {past : List Bytes} {line : Bytes} {k : Nat}
    {input : Bytes} (hok : Scene.Ok ⟨alive, past, .hearing line k, input⟩) :
    Scene.Next ⟨alive, past, .hearing line k, input⟩ ⟨alive, past ++ [line], .idle, input⟩ := by
  have hsame : Scene.lines ⟨alive, past ++ [line], .idle, input⟩ =
      Scene.lines ⟨alive, past, .hearing line k, input⟩ := by
    simp only [Scene.lines, Phase.lines, List.append_assoc, List.nil_append]
  have hk : k < 8 + line.length := hok.phase
  refine ⟨⟨trivial, hsame ▸ hok.fits⟩, hsame, ?_⟩
  simp only [Scene.cost, Phase.cost]
  omega

/-- The parent before the rest of an answer that is all in the pipe. -/
theorem parent_finishes {alive : Bool} {past : List Bytes} {line : Bytes} {k : Nat}
    {input : Bytes} (hok : Scene.Ok ⟨alive, past, .hearing line k, input⟩) {o : Outcome}
    {s' : State}
    (hpayload : failsInPayload
      (Scene.state rep toupper ⟨alive, past, .hearing line k, input⟩) (.parent o) = false)
    (hstep : stepParent kernel rep o
      (Scene.state rep toupper ⟨alive, past, .hearing line k, input⟩) = some s') :
    Scene.ParentGoes rep toupper ⟨alive, past, .hearing line k, input⟩ o s' := by
  have hk : k < 8 + line.length := hok.phase
  have hfits := fits_of_ok hok List.mem_cons_self
  have hall : (encode rep (upper toupper line)).take (8 + line.length) =
      encode rep (upper toupper line) :=
    List.take_of_length_le (by rw [length_encode, length_upper])
  rcases parent_hears (8 + line.length) hfits hk rfl (by rw [hall]; rfl) hpayload hstep with
    ⟨i, hi, -, hroom, rfl⟩ | ⟨hwhy, hleft, hsaid⟩
  · left
    rcases Nat.lt_or_ge (k + i) (8 + line.length) with hmore | hdone
    · refine ⟨_, hok.next (.hearing line (k + i)) hmore rfl ?_, rfl, ?_⟩
      · simp only [Phase.cost]
        omega
      · have hmore' : k + i < 8 + (upper toupper line).length := by rwa [length_upper]
        simp only [Scene.state, parentAfterRead_within hmore', List.append_nil, hall]
        rfl
    · -- the answer is there, and the exchange is over
      have hend : k + i = 8 + (upper toupper line).length := by
        rw [length_upper]
        omega
      have hread : Reading.after rep line (upper toupper line) (k + i) =
          .back 0 (upper toupper line) := by
        rw [hend, Reading.after_end]
      have hempty : (encode rep (upper toupper line)).drop (k + i) = [] :=
        List.drop_of_length_le (by rw [length_encode, hend])
      refine ⟨_, Scene.next_over hok, rfl, ?_⟩
      simp only [Scene.state, hread, parentAfterRead_zero, hall, hempty, transcript_snoc]
      rfl
  · exact .failed rfl (by simp) (hwhy.imp_right (open_child rfl).symm.trans) hleft hsaid

/-- A call of the kernel by the parent takes the exchange on, or ends the parent's loop. -/
theorem stepParent_scene {sc : Scene} (hok : sc.Ok) {o : Outcome} {s' : State}
    (hpayload : failsInPayload (sc.state rep toupper) (.parent o) = false)
    (hstep : stepParent kernel rep o (sc.state rep toupper) = some s') :
    sc.ParentGoes rep toupper o s' := by
  obtain ⟨alive, past, phase, input⟩ := sc
  cases phase with
  | idle => cases hstep
  | asking line w k => exact parent_asks hok hstep
  | waiting line k =>
    -- there is no answer yet
    have hfits := fits_of_ok hok List.mem_cons_self
    rcases parent_hears 0 hfits (by omega) rfl rfl hpayload hstep with
      ⟨i, hi, hiw, -⟩ | ⟨hwhy, hleft, hsaid⟩
    · omega
    · exact .failed rfl (by simp) (hwhy.imp_right (open_child rfl).symm.trans) hleft hsaid
  | answering line w k => exact parent_follows hok hpayload hstep
  | hearing line k => exact parent_finishes hok hpayload hstep

/-- A `::read` by the child in the midst of a message. -/
theorem child_hears (message : Bytes) (w : Nat) {k : Nat} {o : Outcome} {s s' : State}
    (hfits : message.length < 2 ^ 64) (hk : k < 8 + message.length)
    (hat : s.child = .reading (.after rep [] message k))
    (hpipe : s.toChild = ((encode rep message).take w).drop k) (hopen : s.parent.open = true)
    (hpayload : failsInPayload s (.child o) = false)
    (hstep : stepChild kernel rep toupper o s = some s') :
    (∃ i, 1 ≤ i ∧ k + i ≤ w ∧ k + i ≤ 8 + message.length ∧ s' = { s with
      child := childAfterRead rep toupper (.after rep [] message (k + i))
      toChild := ((encode rep message).take w).drop (k + i) }) ∨
    o = .error ∧ s' = { s with child := .left } := by
  obtain ⟨hmay, rfl⟩ := stepChild_reading hat hstep
  rw [hpipe, hopen] at hmay
  have hpayload' : o = .error → inPayload (.after rep [] message k) = false := by
    rintro rfl
    rwa [failsInPayload, hat] at hpayload
  rcases Reading.after_cases hfits hk hpayload' hmay with
    ⟨i, rfl, hi, hiw, hroom, hturn⟩ | ⟨hwhy, found, hturn⟩
  · refine .inl ⟨i, hi, hiw, hroom, ?_⟩
    rw [hpipe, hturn]
  · refine .inr ⟨hwhy.resolve_left fun h => Bool.noConfusion h.2, ?_⟩
    rw [hpipe, hturn, childAfterRead_failed, ← hpipe]

theorem Scene.state_dead (sc : Scene) :
    Scene.state rep toupper { sc with alive := false } =
      { sc.state rep toupper with child := .left } := by
  obtain ⟨alive, past, phase, input⟩ := sc
  cases phase <;> rfl

theorem Scene.Ok.dies {sc : Scene} (hok : sc.Ok) (halive : sc.alive = true) :
    sc.Next { sc with alive := false } where
  ok := ⟨hok.phase, hok.fits⟩
  lines := rfl
  cost := by
    simp only [Scene.cost, halive, Bool.toNat_true, Bool.toNat_false]
    omega

/-- Between two messages there is nothing for the child to read. -/
theorem child_idles {o : Outcome} {s s' : State} (hat : s.child = .reading (.start rep []))
    (hpipe : s.toChild = []) (hopen : s.parent.open = true)
    (hpayload : failsInPayload s (.child o) = false)
    (hstep : stepChild kernel rep toupper o s = some s') :
    o = .error ∧ s' = { s with child := .left } := by
  rw [← Reading.after_zero rep [] []] at hat
  rcases child_hears [] 0 (by decide) (by decide) hat hpipe hopen hpayload
    hstep with ⟨i, hi, hiw, -⟩ | hgone
  · omega
  · exact hgone

/-- What a call of the kernel by the child leads to: a further scene, which it may have left. -/
def Scene.ChildGoes (rep : SizeRep) (toupper : UInt8 → UInt8) (sc : Scene) (o : Outcome)
    (s' : State) : Prop :=
  ∃ sc', sc.Next sc' ∧ (sc'.alive = sc.alive ∨ o = .error) ∧ s' = sc'.state rep toupper

theorem Scene.ChildGoes.gone {sc : Scene} (hok : sc.Ok) (halive : sc.alive = true) {o : Outcome}
    {s' : State} (h : o = .error ∧ s' = { sc.state rep toupper with child := .left }) :
    sc.ChildGoes rep toupper o s' :=
  ⟨_, hok.dies halive, .inr h.1, h.2.trans sc.state_dead.symm⟩

/-- The child while the parent is in the midst of its message. -/
theorem child_follows {past : List Bytes} {line : Bytes} {w k : Nat} {input : Bytes}
    (hok : Scene.Ok ⟨true, past, .asking line w k, input⟩) {o : Outcome} {s' : State}
    (hpayload : failsInPayload
      (Scene.state rep toupper ⟨true, past, .asking line w k, input⟩) (.child o) = false)
    (hstep : stepChild kernel rep toupper o
      (Scene.state rep toupper ⟨true, past, .asking line w k, input⟩) = some s') :
    Scene.ChildGoes rep toupper ⟨true, past, .asking line w k, input⟩ o s' := by
  obtain ⟨hkw, hw⟩ := hok.phase
  have hfits := fits_of_ok hok List.mem_cons_self
  rcases child_hears line w hfits (by omega) rfl rfl rfl hpayload hstep with
    ⟨i, hi, hiw, -, rfl⟩ | hgone
  · have hmore : k + i < 8 + line.length := by omega
    refine ⟨_, hok.next (.asking line w (k + i)) ⟨hiw, hw⟩ rfl ?_, .inl rfl, ?_⟩
    · simp only [Phase.cost]
      omega
    · simp only [Scene.state, childAfterRead_within hmore]
      rfl
  · exact .gone hok rfl hgone

/-- The child before the rest of a message that is all in the pipe. -/
theorem child_finishes {past : List Bytes} {line : Bytes} {k : Nat} {input : Bytes}
    (hok : Scene.Ok ⟨true, past, .waiting line k, input⟩) {o : Outcome} {s' : State}
    (hpayload : failsInPayload
      (Scene.state rep toupper ⟨true, past, .waiting line k, input⟩) (.child o) = false)
    (hstep : stepChild kernel rep toupper o
      (Scene.state rep toupper ⟨true, past, .waiting line k, input⟩) = some s') :
    Scene.ChildGoes rep toupper ⟨true, past, .waiting line k, input⟩ o s' := by
  have hk : k < 8 + line.length := hok.phase
  have hfits := fits_of_ok hok List.mem_cons_self
  have hall : (encode rep line).take (8 + line.length) = encode rep line :=
    List.take_of_length_le (by rw [length_encode])
  rcases child_hears line (8 + line.length) hfits hk rfl (by rw [hall]; rfl) rfl hpayload
    hstep with ⟨i, hi, -, hroom, rfl⟩ | hgone
  · rcases Nat.lt_or_ge (k + i) (8 + line.length) with hmore | hdone
    · refine ⟨_, hok.next (.waiting line (k + i)) hmore rfl ?_, .inl rfl, ?_⟩
      · simp only [Phase.cost]
        omega
      · simp only [Scene.state, childAfterRead_within hmore, hall]
        rfl
    · -- the message is there, and the child turns to its answer
      have hend : k + i = 8 + line.length := by omega
      have hempty : (encode rep line).drop (8 + line.length) = [] :=
        List.drop_of_length_le (by rw [length_encode])
      refine ⟨_, hok.next (.answering line 0 0) ⟨Nat.le_refl 0, by omega⟩ rfl ?_,
        .inl rfl, ?_⟩
      · simp only [Phase.cost]
        omega
      · simp only [Scene.state, hend, Reading.after_end, childAfterRead_zero, hall, hempty,
          Writing.start_eq, List.take_zero, List.drop_nil]
        rfl
  · exact .gone hok rfl hgone

/-- The child in the midst of its answer. -/
theorem child_answers {past : List Bytes} {line : Bytes} {w k : Nat} {input : Bytes}
    (hok : Scene.Ok ⟨true, past, .answering line w k, input⟩) {o : Outcome} {s' : State}
    (hstep : stepChild kernel rep toupper o
      (Scene.state rep toupper ⟨true, past, .answering line w k, input⟩) = some s') :
    Scene.ChildGoes rep toupper ⟨true, past, .answering line w k, input⟩ o s' := by
  obtain ⟨hkw, hw⟩ := hok.phase
  obtain ⟨-, hmay, rfl⟩ := stepChild_writing rfl hstep
  rcases Writing.sending_cases hkw hmay with ⟨i, rfl, hi, hroom, hturn⟩ | ⟨rfl, hturn⟩
  · rw [length_encode, length_upper] at hroom
    rcases Nat.lt_or_ge (w + i) (8 + line.length) with hmore | hdone
    · refine ⟨_, hok.next (.answering line (w + i) k) ⟨by omega, hmore⟩ rfl ?_, .inl rfl, ?_⟩
      · simp only [Phase.cost]
        omega
      · simp only [Scene.state, hturn, Writing.send, length_encode, length_upper, if_pos hmore]
        rfl
    · -- the answer is written, and the child waits for the next message
      have hall : w + i = (encode rep (upper toupper line)).length := by
        rw [length_encode, length_upper]
        omega
      refine ⟨_, hok.next (.hearing line k) (Nat.lt_of_le_of_lt hkw hw) rfl ?_, .inl rfl, ?_⟩
      · simp only [Phase.cost]
        omega
      · simp only [Scene.state, hturn, hall, Writing.send, Nat.lt_irrefl, if_false,
          childAfterWrite_zero, List.take_length]
        rfl
  · refine .gone hok rfl ⟨rfl, ?_⟩
    simp only [Scene.state, hturn, childAfterWrite_failed]

/-- A call of the kernel by the child takes the exchange on, or the child is gone. -/
theorem stepChild_scene {sc : Scene} (hok : sc.Ok) {o : Outcome} {s' : State}
    (hpayload : failsInPayload (sc.state rep toupper) (.child o) = false)
    (hstep : stepChild kernel rep toupper o (sc.state rep toupper) = some s') :
    sc.ChildGoes rep toupper o s' := by
  obtain ⟨alive, past, phase, input⟩ := sc
  cases alive with
  | false => cases phase <;> cases hstep
  | true =>
    cases phase with
    | idle => exact .gone hok rfl (child_idles rfl rfl rfl hpayload hstep)
    | asking line w k => exact child_follows hok hpayload hstep
    | waiting line k => exact child_finishes hok hpayload hstep
    | answering line w k => exact child_answers hok hstep
    | hearing line k => exact .gone hok rfl (child_idles rfl rfl rfl hpayload hstep)

/-- Every step of the programs is one of the dialogue, or ends it. -/
theorem step_scene {sc : Scene} (hok : sc.Ok) {e : Event} {s' : State}
    (hpayload : failsInPayload (sc.state rep toupper) e = false)
    (hstep : step kernel rep toupper (sc.state rep toupper) e = some s') :
    (∃ sc', sc.Next sc' ∧ (sc'.alive = sc.alive ∨ e.fails = true) ∧
      s' = sc'.state rep toupper) ∨
    s'.parent.open = false ∧ Said toupper sc.lines s'.output ∧
      (e.fails = true ∨ sc.alive = false ∨
        sc.lines = sc.past ∧ sc.phase = .idle ∧ s' = sc.closed rep toupper) := by
  cases e with
  | line =>
    rcases stepLine_scene hok hstep with ⟨sc', hnext, halive, rfl⟩ | ⟨hall, hidle, rfl⟩
    · exact .inl ⟨sc', hnext, .inl halive, rfl⟩
    · refine .inr ⟨rfl, ?_, .inr (.inr ⟨hall, hidle, rfl⟩)⟩
      obtain ⟨alive, past, phase, input⟩ := sc
      obtain rfl : phase = .idle := hidle
      exact said_idle rfl
  | parent o =>
    rcases stepParent_scene hok hpayload hstep with ⟨sc', hnext, halive, rfl⟩ | ⟨hwhy, hleft, hsaid⟩
    · exact .inl ⟨sc', hnext, .inl halive, rfl⟩
    · refine .inr ⟨by rw [hleft]; rfl, hsaid, ?_⟩
      rcases hwhy with rfl | halive
      · exact .inl rfl
      · exact .inr (.inl halive)
  | child o =>
    obtain ⟨sc', hnext, halive, rfl⟩ := stepChild_scene hok hpayload hstep
    refine .inl ⟨sc', hnext, halive.imp_right ?_, rfl⟩
    rintro rfl
    rfl
  | parentKilled =>
    obtain ⟨alive, past, phase, input⟩ := sc
    cases phase with
    | idle => cases hstep
    | asking line w k =>
      cases alive with
      | true => cases hstep
      | false =>
        obtain rfl := Option.some.inj hstep
        exact .inr ⟨rfl, said_within rfl (by simp), .inr (.inl rfl)⟩
    | waiting line k => cases hstep
    | answering line w k => cases hstep
    | hearing line k => cases hstep
  | childKilled =>
    obtain ⟨alive, past, phase, input⟩ := sc
    cases alive <;> cases phase <;> cases hstep
  | sigterm =>
    obtain ⟨alive, past, phase, input⟩ := sc
    cases phase <;> cases hstep

theorem stepChild_frame {s s' : State} {o : Outcome}
    (hstep : stepChild kernel rep toupper o s = some s') :
    s'.parent = s.parent ∧ s'.output = s.output := by
  rcases hat : s.child with r | w | _
  · obtain ⟨-, rfl⟩ := stepChild_reading hat hstep
    exact ⟨rfl, rfl⟩
  · obtain ⟨-, -, rfl⟩ := stepChild_writing hat hstep
    exact ⟨rfl, rfl⟩
  · rw [stepChild, hat] at hstep
    cases hstep

/-- Once the parent is through, only the child has steps, and it may be killed. -/
theorem step_of_closed {s s' : State} {e : Event} (hclosed : s.parent.open = false)
    (hstep : step kernel rep toupper s e = some s') :
    (∃ o, e = .child o ∧ stepChild kernel rep toupper o s = some s') ∨
      s.child.open = true ∧ s' = { s with child := .left } := by
  have hparent : s.parent = .left ∨ s.parent = .killed := by
    rcases hat : s.parent with _ | _ | _ | _ | _ <;> rw [hat] at hclosed
    · cases hclosed
    · cases hclosed
    · cases hclosed
    · exact .inl rfl
    · exact .inr rfl
  cases e with
  | line => rcases hparent with h | h <;> rw [step, stepLine, h] at hstep <;> cases hstep
  | parent o => rcases hparent with h | h <;> rw [step, stepParent, h] at hstep <;> cases hstep
  | child o => exact .inl ⟨o, rfl, hstep⟩
  | parentKilled => rcases hparent with h | h <;> rw [step, h] at hstep <;> cases hstep
  | childKilled =>
    rcases hat : s.child with r | w | _ <;> rw [step, hat] at hstep
    · cases hstep
    · rw [hclosed] at hstep
      exact .inr ⟨rfl, (Option.some.inj hstep).symm⟩
    · cases hstep
  | sigterm =>
    simp only [step, Option.ite_none_right_eq_some, Option.some.injEq] at hstep
    exact .inr ⟨hstep.1.2, hstep.2.symm⟩

end Steps

end Dialogue

end AdvCppTP.Protocol
