import AdvCppTP.Pipe.Scenes

/-! Whole dialogues: what is printed is in order, and where nothing fails everything is answered. -/

namespace AdvCppTP.Protocol

namespace Dialogue

/-! ## Whole runs -/

section Runs

variable (kernel : Kernel) (rep : SizeRep) (toupper : UInt8 → UInt8)

def State.InDialogue (lines : List Bytes) (s : State) : Prop :=
  (∃ sc : Scene, sc.Ok ∧ sc.lines = lines ∧ s = sc.state rep toupper) ∨
    s.parent.open = false ∧ Said toupper lines s.output

theorem init_eq (input : Bytes) :
    State.init rep input = Scene.state rep toupper ⟨true, [], .idle, input⟩ := rfl

theorem Scene.said (sc : Scene) : Said toupper sc.lines (sc.state rep toupper).output := by
  obtain ⟨alive, past, phase, input⟩ := sc
  cases phase with
  | idle => exact said_idle rfl
  | asking line w k => exact said_within rfl List.mem_cons_self
  | waiting line k => exact said_within rfl List.mem_cons_self
  | answering line w k => exact said_within rfl List.mem_cons_self
  | hearing line k => exact said_within rfl List.mem_cons_self

/-- Whatever the order of the calls of the two programs, however little each call moves, and
whichever of them fails outside of a payload: what the parent has printed is one line of its input
and its answer after the other, and then at most one exchange that is not over or has failed. -/
theorem dialogue_in_order (input : Bytes)
    (hfits : ∀ line ∈ completeLines input, line.length < 2 ^ 64) {es : List Event} {s : State}
    (hrun : Lib.steps (Lib.guarded (fun s e => failsInPayload s e = false)
      (step kernel rep toupper)) (.init rep input) es = some s) :
    Said toupper (completeLines input) s.output := by
  have hin : s.InDialogue rep toupper (completeLines input) := by
    refine Lib.steps_invariant (fun s e s' hs hstep => ?_)
      (.inl ⟨⟨true, [], .idle, input⟩, ⟨trivial, hfits⟩, rfl, init_eq rep toupper input⟩) hrun
    obtain ⟨hpayload, hstep⟩ := Lib.guarded_eq_some.mp hstep
    rcases hs with ⟨sc, hok, hlines, rfl⟩ | ⟨hclosed, hsaid⟩
    · rcases step_scene hok hpayload hstep with ⟨sc', hnext, -, rfl⟩ | ⟨hclosed, hsaid, -⟩
      · exact .inl ⟨sc', hnext.ok, hnext.lines.trans hlines, rfl⟩
      · exact .inr ⟨hclosed, hlines ▸ hsaid⟩
    · rcases step_of_closed hclosed hstep with ⟨o, -, hchild⟩ | ⟨-, rfl⟩
      · obtain ⟨hsame, hsame'⟩ := stepChild_frame hchild
        exact .inr ⟨by rw [hsame, hclosed], hsame' ▸ hsaid⟩
      · exact .inr ⟨hclosed, hsaid⟩
  rcases hin with ⟨sc, -, hlines, rfl⟩ | ⟨-, hsaid⟩
  · exact hlines ▸ sc.said rep toupper
  · exact hsaid

end Runs

/-- `toupper` in the C locale. -/
def toupperC (c : UInt8) : UInt8 := if 97 ≤ c ∧ c ≤ 122 then c - 32 else c

def linuxPipe : Kernel := ⟨65536, 4096, by decide, by decide⟩

/-- A `::read` of the child fails in the midst of the length: the child leaves, and the parent finds
the end of its pipe. -/
theorem dialogue_in_order_example :
    Said toupperC (completeLines [111, 107, 10]) [.send [111, 107], .readError] := by
  have hrun : Lib.steps (Lib.guarded (fun s e => failsInPayload s e = false)
      (step linuxPipe .littleEndian toupperC)) (.init .littleEndian [111, 107, 10])
      [.line, .parent (.moved 10), .child (.moved 4), .child .error, .parent .eof] =
        some ⟨[], .left, [0, 0, 0, 0, 111, 107], [], .left, [.send [111, 107], .readError]⟩ := by
    decide +kernel
  exact dialogue_in_order linuxPipe .littleEndian toupperC [111, 107, 10] (by decide +kernel) hrun

section Runs

variable (kernel : Kernel) (rep : SizeRep) (toupper : UInt8 → UInt8)

/-- The parent is through, and so is the child. -/
def State.over (s : State) : Prop := s.parent = .left ∧ s.child = .left

/-- Where no call fails: the dialogue with at most `n` steps before it, or its end. -/
def State.Heading (lines : List Bytes) (n : ℕ) (s : State) : Prop :=
  (∃ sc : Scene, sc.Ok ∧ sc.lines = lines ∧ sc.alive = true ∧ n = sc.cost ∧
    s = sc.state rep toupper) ∨
  s.parent = .left ∧ s.output = transcript toupper lines ∧
    (n = 1 ∧ s.toChild = [] ∧ s.child = .reading (.start rep []) ∨ n = 0 ∧ s.child = .left)

section Ends

variable {kernel rep toupper}

theorem Heading.step {lines : List Bytes} {n : ℕ} {s s' : State} {e : Event}
    (hs : s.Heading rep toupper lines n) (hgood : e.fails = false)
    (hstep : Dialogue.step kernel rep toupper s e = some s') :
    ∃ n' < n, s'.Heading rep toupper lines n' := by
  have hpayload : failsInPayload s e = false := by
    rcases e with _ | o | o | _ | _ | _ <;> first | rfl | (rcases o with _ | _ | _ <;>
      first | rfl | cases hgood)
  rcases hs with ⟨sc, hok, hlines, halive, rfl, rfl⟩ | ⟨hleft, hsaid, hchild⟩
  · rcases step_scene hok hpayload hstep with ⟨sc', hnext, halive', rfl⟩ | ⟨-, -, hwhy⟩
    · refine ⟨sc'.cost, hnext.cost, .inl ⟨sc', hnext.ok, hnext.lines.trans hlines, ?_, rfl, rfl⟩⟩
      rcases halive' with h | h
      · rw [h, halive]
      · rw [hgood] at h
        cases h
    · rcases hwhy with h | h | ⟨hall, hidle, rfl⟩
      · rw [hgood] at h
        cases h
      · rw [halive] at h
        cases h
      · obtain ⟨alive, past, phase, input⟩ := sc
        obtain rfl : phase = .idle := hidle
        obtain rfl : alive = true := halive
        refine ⟨1, ?_, .inr ⟨rfl, ?_, .inl ⟨rfl, rfl, rfl⟩⟩⟩
        · simp only [Scene.cost, Bool.toNat_true]
          omega
        · rw [← hlines, hall]
          rfl
  · -- only the child has something left to do
    have hclosed : s.parent.open = false := by rw [hleft]; rfl
    rcases hchild with ⟨rfl, hempty, hreads⟩ | ⟨rfl, hgone⟩
    · refine ⟨0, Nat.zero_lt_one, .inr ?_⟩
      rcases step_of_closed hclosed hstep with ⟨o, rfl, hchild⟩ | ⟨-, rfl⟩
      · obtain ⟨hmay, rfl⟩ := stepChild_reading hreads hchild
        rw [hempty] at hmay
        rcases o with i | _ | _
        · obtain ⟨hi, -, hthere⟩ := of_decide_eq_true hmay
          rw [List.length_nil] at hthere
          omega
        · have hasks : 0 < (Reading.start rep []).requested := by
            rw [← Reading.after_zero rep [] []]
            exact Reading.requested_after rep [] (by decide)
          obtain ⟨found, hturn⟩ := Reading.turn_fails rep hasks s.toChild (.inl rfl)
          refine ⟨hleft, hsaid, .inr ⟨rfl, ?_⟩⟩
          rw [hturn, childAfterRead_failed]
        · cases hgood
      · exact ⟨hleft, hsaid, .inr ⟨rfl, rfl⟩⟩
    · rcases step_of_closed hclosed hstep with ⟨o, -, hchild⟩ | ⟨hopen, -⟩
      · rw [stepChild, hgone] at hchild
        cases hchild
      · rw [hgone] at hopen
        cases hopen

theorem mayRead_one (rep : SizeRep) (buffer : Bytes) {message : Bytes} {w k : Nat}
    (hk : k < 8 + message.length) (hkw : k < w) (writer : Bool) :
    mayRead (Reading.after rep buffer message k).requested
      (((encode rep message).take w).drop k) writer (.moved 1) = true := by
  refine decide_eq_true ⟨Nat.le_refl 1, Reading.requested_after rep buffer hk, ?_⟩
  rw [List.length_drop, List.length_take, length_encode]
  omega

theorem mayWrite_some (kernel : Kernel) {buffer : Bytes} {w : Nat} (hw : w < buffer.length) :
    ∃ i, mayWrite kernel (Writing.sending buffer w).requested [] (.moved i) = true := by
  have hpos := kernel.pos
  have hle := kernel.le_capacity
  by_cases hsmall : buffer.length - w ≤ kernel.pipeBuf
  · refine ⟨buffer.length - w, decide_eq_true ⟨by omega, Nat.le_refl _, ?_, fun _ => rfl⟩⟩
    rw [List.length_nil]
    omega
  · refine ⟨1, decide_eq_true ⟨Nat.le_refl 1, ?_, ?_, fun h => absurd h hsmall⟩⟩
    · rw [Writing.requested]
      omega
    · rw [List.length_nil]
      omega

/-- Wherever the dialogue is, one of the two programs can go on. -/
theorem Scene.goes_on (kernel : Kernel) {sc : Scene} (hok : sc.Ok) (halive : sc.alive = true) :
    ∃ e s', e.fails = false ∧
      Dialogue.step kernel rep toupper (sc.state rep toupper) e = some s' := by
  obtain ⟨alive, past, phase, input⟩ := sc
  obtain rfl : alive = true := halive
  cases phase with
  | idle =>
    refine ⟨.line, ?_⟩
    rcases getline_eq input with ⟨line, rest, h, -⟩ | ⟨line, h, -⟩
    · simp only [Dialogue.step, stepLine, Scene.state, h, Bool.false_eq_true, if_false]
      exact ⟨_, rfl, rfl⟩
    · simp only [Dialogue.step, stepLine, Scene.state, h, if_true]
      exact ⟨_, rfl, rfl⟩
  | asking line w k =>
    obtain ⟨hkw, hw⟩ := hok.phase
    rcases Nat.lt_or_ge k w with hlt | hge
    · have hmay := mayRead_one rep [] (by omega : k < 8 + line.length) hlt true
      exact ⟨.child (.moved 1), _, rfl, if_pos hmay⟩
    · -- the child has read all that is written
      obtain rfl := Nat.le_antisymm hkw hge
      obtain ⟨i, hmay⟩ := mayWrite_some kernel (by rwa [length_encode] :
        k < (encode rep line).length)
      have hempty : ((encode rep line).take k).drop k = [] :=
        List.drop_of_length_le (List.length_take_le _ _)
      rw [← hempty] at hmay
      exact ⟨.parent (.moved i), _, rfl, if_pos ⟨rfl, hmay⟩⟩
  | waiting line k =>
    have hk : k < 8 + line.length := hok.phase
    have hall : (encode rep line).take (8 + line.length) = encode rep line :=
      List.take_of_length_le (by rw [length_encode])
    have hmay := mayRead_one rep [] hk hk true
    rw [hall] at hmay
    exact ⟨.child (.moved 1), _, rfl, if_pos hmay⟩
  | answering line w k =>
    obtain ⟨hkw, hw⟩ := hok.phase
    rcases Nat.lt_or_ge k w with hlt | hge
    · have hmore : k < 8 + (upper toupper line).length := by
        rw [length_upper]
        omega
      have hmay := mayRead_one rep line hmore hlt true
      exact ⟨.parent (.moved 1), _, rfl, if_pos hmay⟩
    · -- the parent has read all that is written
      obtain rfl := Nat.le_antisymm hkw hge
      obtain ⟨i, hmay⟩ := mayWrite_some kernel
        (by rwa [length_encode, length_upper] : k < (encode rep (upper toupper line)).length)
      have hempty : ((encode rep (upper toupper line)).take k).drop k = [] :=
        List.drop_of_length_le (List.length_take_le _ _)
      rw [← hempty] at hmay
      exact ⟨.child (.moved i), _, rfl, if_pos ⟨rfl, hmay⟩⟩
  | hearing line k =>
    have hk : k < 8 + (upper toupper line).length := by
      rw [length_upper]
      exact hok.phase
    have hall : (encode rep (upper toupper line)).take (8 + (upper toupper line).length) =
        encode rep (upper toupper line) :=
      List.take_of_length_le (by rw [length_encode])
    have hmay := mayRead_one rep line hk hk true
    rw [hall] at hmay
    exact ⟨.parent (.moved 1), _, rfl, if_pos hmay⟩

theorem Heading.goes_on (kernel : Kernel) {lines : List Bytes} {n : ℕ} {s : State}
    (hs : s.Heading rep toupper lines n) (hnot : ¬ s.over) :
    ∃ e s', e.fails = false ∧ Dialogue.step kernel rep toupper s e = some s' := by
  rcases hs with ⟨sc, hok, -, halive, -, rfl⟩ | ⟨hleft, -, ⟨-, hempty, hreads⟩ | ⟨-, hgone⟩⟩
  · exact Scene.goes_on kernel hok halive
  · exact ⟨.sigterm, _, rfl, if_pos ⟨hleft, by rw [hreads]; rfl⟩⟩
  · exact absurd ⟨hleft, hgone⟩ hnot

end Ends

/-- Where no call fails, the two programs never wait for each other, whatever the pipes hold and
however the calls are cut and mixed: they come to an end within a number of calls that the input
tells, and then every line has been answered. -/
theorem dialogue_completes (input : Bytes)
    (hfits : ∀ line ∈ completeLines input, line.length < 2 ^ 64) {es : List Event} {s : State}
    (hrun : Lib.steps (Lib.guarded (fun _ e => e.fails = false) (step kernel rep toupper))
      (.init rep input) es = some s) :
    es.length ≤ 2 + ((completeLines input).map lineCost).sum ∧
    (s.over → s.output = transcript toupper (completeLines input)) ∧
    (¬ s.over → ∃ e s', e.fails = false ∧ step kernel rep toupper s e = some s') ∧
    ∃ es' s', Lib.steps (Lib.guarded (fun _ e => e.fails = false) (step kernel rep toupper))
      s es' = some s' ∧ s'.over := by
  have hkeep : ∀ n s e s', s.Heading rep toupper (completeLines input) n →
      Lib.guarded (fun _ e => e.fails = false) (step kernel rep toupper) s e = some s' →
      ∃ n' < n, s'.Heading rep toupper (completeLines input) n' := by
    intro n s e s' hs hstep
    obtain ⟨hgood, hstep⟩ := Lib.guarded_eq_some.mp hstep
    exact Heading.step hs hgood hstep
  have hinit : (State.init rep input).Heading rep toupper (completeLines input)
      (Scene.cost ⟨true, [], .idle, input⟩) :=
    .inl ⟨⟨true, [], .idle, input⟩, ⟨trivial, hfits⟩, rfl, rfl, rfl, rfl⟩
  obtain ⟨n, hlen, hs⟩ := Lib.length_steps_le hkeep hinit hrun
  refine ⟨Nat.le_of_add_right_le hlen, ?_, Heading.goes_on kernel hs, ?_⟩
  · rintro ⟨hleft, -⟩
    rcases hs with ⟨sc, hok, -, -, -, rfl⟩ | ⟨-, hsaid, -⟩
    · obtain ⟨alive, past, phase, input⟩ := sc
      cases phase <;> cases hleft
    · exact hsaid
  · refine Lib.exists_steps_to_final hkeep (fun n s hs hnot => ?_) hs
    obtain ⟨e, s', hgood, hstep⟩ := Heading.goes_on kernel hs hnot
    exact ⟨e, s', Lib.guarded_eq_some.mpr ⟨hgood, hstep⟩⟩

end Runs

/-- The line `ok` goes to the child and comes back in pieces; `no` has no newline behind it. -/
theorem dialogue_completes_example :
    [Line.send [111, 107], .got [79, 75]] =
      transcript toupperC (completeLines [111, 107, 10, 110, 111]) := by
  have hrun : Lib.steps (Lib.guarded (fun _ e => e.fails = false)
      (step linuxPipe .littleEndian toupperC)) (.init .littleEndian [111, 107, 10, 110, 111])
      [.line, .parent (.moved 10), .child (.moved 8), .child (.moved 1), .child (.moved 1),
        .child (.moved 10), .parent (.moved 3), .parent (.moved 5), .parent (.moved 2), .line,
        .child .eof] =
        some ⟨[], .left, [], [], .left, [.send [111, 107], .got [79, 75]]⟩ := by
    decide +kernel
  exact (dialogue_completes linuxPipe .littleEndian toupperC [111, 107, 10, 110, 111]
    (by decide +kernel) hrun).2.1 ⟨rfl, rfl⟩

end Dialogue

end AdvCppTP.Protocol
