import AdvCppTP.Pipe.RoundTrip
import Mathlib.Data.Fintype.BigOperators
import Mathlib.Data.Fintype.EquivFin

/-! When `Protocol::read` passes a failed `::read` on to its caller. The second loop counts the
bytes in a `size_t`: there -1 takes one byte off the offset, and at offset 0 it ends the loop. -/

namespace AdvCppTP.Protocol

def Outcome.Moved : Outcome → Prop
  | .moved _ => True
  | _ => False

instance : DecidablePred Outcome.Moved
  | .moved _ => .isTrue trivial
  | .eof => .isFalse id
  | .error => .isFalse id

def Outcome.count : Outcome → Nat
  | .moved k => k
  | _ => 0

/-- Outcomes as the kernel gives them: a successful `::read` moves at least one byte, and the pipe
holds what is moved. -/
structure Delivers (pipe : Bytes) (os : List Outcome) : Prop where
  pos : ∀ k, .moved k ∈ os → 1 ≤ k
  enough : (os.map Outcome.count).sum ≤ pipe.length

theorem Delivers.tail {pipe : Bytes} {o : Outcome} {os : List Outcome} {c : Nat}
    (h : Delivers pipe (o :: os)) (hc : c ≤ o.count) : Delivers (pipe.drop c) os := by
  have henough := h.enough
  rw [List.map_cons, List.sum_cons] at henough
  refine ⟨fun k hk => h.pos k (List.mem_cons_of_mem o hk), ?_⟩
  rw [List.length_drop]
  omega

theorem Delivers.moved {pipe : Bytes} {k : Nat} {os : List Outcome}
    (h : Delivers pipe (.moved k :: os)) : 1 ≤ k ∧ k ≤ pipe.length := by
  have henough := h.enough
  rw [List.map_cons, List.sum_cons, Outcome.count] at henough
  exact ⟨h.pos k List.mem_cons_self, by omega⟩

/-! ## Single passes of a read loop -/

section Pass

variable (T : CountType) {mem pipe : Bytes} {off k : Nat} {os : List Outcome}

theorem sysRead_delivered {requested : Nat} (hk : k ≤ pipe.length) :
    sysRead requested pipe (.moved k) =
      (((min k requested : Nat) : Int), pipe.take (min k requested),
        pipe.drop (min k requested)) := by
  have hlen : (pipe.take (min k requested)).length = min k requested := by
    rw [List.length_take]
    omega
  simp only [sysRead, hlen]

theorem fillLoop_delivered (hoff : off < mem.length) (hsize : mem.length < 2 ^ 64) (hk : 1 ≤ k)
    (hpipe : k ≤ pipe.length) :
    fillLoop T mem off pipe (.moved k :: os) =
      fillLoop T (overwrite mem off (pipe.take (min k (mem.length - off))))
        (off + min k (mem.length - off)) (pipe.drop (min k (mem.length - off))) os := by
  have hcount : min k (mem.length - off) < 2 ^ 64 := by omega
  rw [fillLoop_cons T _ _ _ hoff, sysRead_delivered hpipe]
  simp only [T.conv_natCast hcount, Int.toNat_natCast]
  rw [if_neg (by omega), Nat.mod_eq_of_lt (by omega)]

theorem overwrite_nil (mem : Bytes) (off : Nat) : overwrite mem off [] = mem := by
  rw [overwrite, List.append_nil, List.length_nil, Nat.add_zero, List.take_append_drop]

theorem fillLoop_eof (hoff : off < mem.length) :
    fillLoop T mem off pipe (.eof :: os) = .failed mem pipe os := by
  have hzero : T.conv 0 ≤ 0 := by cases T <;> decide
  rw [fillLoop_cons T _ _ _ hoff]
  simp only [sysRead, hzero, if_true, overwrite_nil]

theorem fillLoop_error_ssize (hoff : off < mem.length) :
    fillLoop .ssize mem off pipe (.error :: os) = .failed mem pipe os := by
  rw [fillLoop_cons _ _ _ _ hoff]
  simp only [sysRead, CountType.conv, overwrite_nil]
  rfl

/-- -1 as a `size_t` is the largest one: added to the offset, it goes one back. -/
theorem fillLoop_error_size (hoff : off < mem.length) :
    fillLoop .size mem off pipe (.error :: os) =
      fillLoop .size mem ((off + (2 ^ 64 - 1)) % 2 ^ 64) pipe os := by
  rw [fillLoop_cons _ _ _ _ hoff]
  simp only [sysRead, CountType.conv, overwrite_nil]
  rfl

theorem fillLoop_error_first (hmem : 0 < mem.length) (hsize : mem.length < 2 ^ 64) :
    fillLoop .size mem 0 pipe (.error :: os) = .full mem pipe os := by
  rw [fillLoop_error_size hmem, fillLoop_of_full _ _ _ (by omega)]

theorem fillLoop_error_back (hpos : 0 < off) (hoff : off < mem.length)
    (hsize : mem.length < 2 ^ 64) :
    fillLoop .size mem off pipe (.error :: os) = fillLoop .size mem (off - 1) pipe os := by
  have hback : (off + (2 ^ 64 - 1)) % 2 ^ 64 = off - 1 := by omega
  rw [fillLoop_error_size hoff, hback]

theorem length_overwrite_take (pipe : Bytes) (hoff : off < mem.length) (k : Nat) :
    (overwrite mem off (pipe.take (min k (mem.length - off)))).length = mem.length := by
  refine length_overwrite ?_
  have := List.length_take_le (min k (mem.length - off)) pipe
  omega

/-- After a successful read the loop goes on with `c` bytes more, which were in the pipe. -/
theorem fillLoop_goes_on (hoff : off < mem.length) (hsize : mem.length < 2 ^ 64)
    (h : Delivers pipe (.moved k :: os)) :
    ∃ c, (overwrite mem off (pipe.take c)).length = mem.length ∧ off + c ≤ mem.length ∧
      c ≤ pipe.length ∧ mem.length - (off + c) = mem.length - off - k ∧
      Delivers (pipe.drop c) os ∧
      fillLoop T mem off pipe (.moved k :: os) =
        fillLoop T (overwrite mem off (pipe.take c)) (off + c) (pipe.drop c) os := by
  obtain ⟨hk, hpipe⟩ := h.moved
  exact ⟨min k (mem.length - off), length_overwrite_take pipe hoff k, by omega, by omega, by omega,
    h.tail (Nat.min_le_left k (mem.length - off)), fillLoop_delivered T hoff hsize hk hpipe⟩

end Pass

/-! ## Whole loops -/

/-- What is left of the outcomes when `missing` bytes have come without a failure. -/
def awaited : Nat → List Outcome → Option (List Outcome)
  | 0, os => some os
  | missing + 1, .moved k :: os => awaited (missing + 1 - k) os
  | _ + 1, _ => none

/-- After an error the loop over a payload of `n` bytes still ends with -1: the end of file comes
before the count is complete, and no error comes at offset 0. -/
def EofFirst (n : Nat) : Nat → List Outcome → Prop
  | _, [] => False
  | missing, .moved k :: os => missing ≠ 0 ∧ EofFirst n (missing - k) os
  | missing, .eof :: _ => missing ≠ 0
  | missing, .error :: os => missing ≠ 0 ∧ missing < n ∧ EofFirst n (missing + 1) os

/-- No error comes while the payload of `n` bytes is read, or the first one comes behind its first
byte and is followed by the end of file in time. -/
def Heard (n : Nat) : Nat → List Outcome → Prop
  | _, [] => True
  | missing, .moved k :: os => missing = 0 ∨ Heard n (missing - k) os
  | _, .eof :: _ => True
  | missing, .error :: os => missing = 0 ∨ (missing < n ∧ EofFirst n (missing + 1) os)

/-- A loop that filled its memory did so with successful reads and the next bytes of the pipe, and
one that waits has met no failure. -/
def Filled.Sound (mem : Bytes) (off : Nat) (pipe : Bytes) (os : List Outcome) : Filled → Prop
  | .full mem' pipe' os' => ∃ used data, os = used ++ os' ∧ (∀ o ∈ used, o.Moved) ∧
      pipe = data ++ pipe' ∧ off + data.length = mem.length ∧ mem' = mem.take off ++ data ∧
      Delivers pipe' os'
  | .failed _ _ _ => True
  | .blocked => ∀ o ∈ os, o.Moved

/-- A loop that goes on or ends well whatever it has met before `os`. -/
def Filled.GoesOn (os : List Outcome) : Filled → Prop
  | .full _ _ os' => os' <:+ os
  | .failed _ _ _ => False
  | .blocked => True

/-- A loop that passes over a failure. -/
def Filled.Deaf (os : List Outcome) : Filled → Prop
  | .full _ _ os' => ∃ used, os = used ++ os' ∧ ∃ o ∈ used, ¬ o.Moved
  | .failed _ _ _ => False
  | .blocked => ∃ o ∈ os, ¬ o.Moved

theorem Filled.GoesOn.cons {os : List Outcome} (o : Outcome) {r : Filled} (h : r.GoesOn os) :
    r.GoesOn (o :: os) := by
  cases r with
  | full mem pipe os' => exact List.IsSuffix.trans h (List.suffix_cons o os)
  | failed mem pipe os' => exact h
  | blocked => trivial

theorem Filled.GoesOn.deaf {os : List Outcome} {o : Outcome} (ho : ¬ o.Moved) {r : Filled}
    (h : r.GoesOn os) : r.Deaf (o :: os) := by
  cases r with
  | full mem pipe os' =>
    obtain ⟨used, hused⟩ := h
    exact ⟨o :: used, by rw [List.cons_append, hused], o, List.mem_cons_self, ho⟩
  | failed mem pipe os' => exact h
  | blocked => exact ⟨o, List.mem_cons_self, ho⟩

theorem Filled.Deaf.cons {os : List Outcome} (o : Outcome) {r : Filled} (h : r.Deaf os) :
    r.Deaf (o :: os) := by
  cases r with
  | full mem pipe os' =>
    obtain ⟨used, hused, o', ho', hfail⟩ := h
    exact ⟨o :: used, by rw [hused, List.cons_append], o', List.mem_cons_of_mem o ho', hfail⟩
  | failed mem pipe os' => exact h
  | blocked =>
    obtain ⟨o', ho', hfail⟩ := h
    exact ⟨o', List.mem_cons_of_mem o ho', hfail⟩

theorem Filled.Sound.full {mem pipe : Bytes} {off : Nat} {os : List Outcome}
    (hfull : off = mem.length) (h : Delivers pipe os) :
    (Filled.full mem pipe os).Sound mem off pipe os := by
  refine ⟨[], [], rfl, fun o ho => absurd ho List.not_mem_nil, rfl, hfull, ?_, h⟩
  rw [List.append_nil, hfull, List.take_length]

theorem Filled.Sound.moved {mem pipe : Bytes} {off k c : Nat} {os : List Outcome} {r : Filled}
    (hfit : off + c ≤ mem.length) (hc : c ≤ pipe.length)
    (h : r.Sound (overwrite mem off (pipe.take c)) (off + c) (pipe.drop c) os) :
    r.Sound mem off pipe (.moved k :: os) := by
  have hcount : (pipe.take c).length = c := by
    rw [List.length_take]
    omega
  cases r with
  | full mem' pipe' os' =>
    obtain ⟨used, data, hos, hused, hpipe, hlen, hmem, hleft⟩ := h
    have hfit' : off + (pipe.take c).length ≤ mem.length := by
      rw [hcount]
      exact hfit
    have htake := take_overwrite hfit'
    rw [hcount] at htake
    rw [length_overwrite hfit'] at hlen
    refine ⟨.moved k :: used, pipe.take c ++ data, by rw [hos, List.cons_append], ?_, ?_, ?_, ?_,
      hleft⟩
    · rintro o ho
      rcases List.mem_cons.mp ho with rfl | ho
      · trivial
      · exact hused o ho
    · rw [List.append_assoc, ← hpipe, List.take_append_drop]
    · rw [List.length_append, hcount]
      omega
    · rw [hmem, htake, List.append_assoc]
  | failed mem' pipe' os' => trivial
  | blocked =>
    intro o ho
    rcases List.mem_cons.mp ho with rfl | ho
    · trivial
    · exact h o ho

section Loop

variable {mem pipe : Bytes} {off : Nat}

theorem fillLoop_ssize (os : List Outcome) (hsize : mem.length < 2 ^ 64) (hoff : off ≤ mem.length)
    (h : Delivers pipe os) :
    (fillLoop .ssize mem off pipe os).Sound mem off pipe os ∧
      match fillLoop .ssize mem off pipe os with
      | .full _ _ os' => awaited (mem.length - off) os = some os'
      | _ => awaited (mem.length - off) os = none := by
  -- by induction on the outcomes; each takes what it moved from what is missing
  induction os generalizing mem pipe off with
  | nil =>
    rcases Nat.eq_or_lt_of_le hoff with hfull | hlt
    · rw [fillLoop_of_full _ _ _ hfull.ge, hfull, Nat.sub_self]
      exact ⟨.full rfl h, awaited.eq_1 []⟩
    · obtain ⟨missing, hmissing⟩ : ∃ missing, mem.length - off = missing + 1 :=
        ⟨mem.length - off - 1, by omega⟩
      rw [fillLoop.eq_def, if_pos hlt, hmissing]
      exact ⟨fun o ho => absurd ho List.not_mem_nil, rfl⟩
  | cons o os ih =>
    rcases Nat.eq_or_lt_of_le hoff with hfull | hlt
    · rw [fillLoop_of_full _ _ _ hfull.ge, hfull, Nat.sub_self]
      exact ⟨.full rfl h, awaited.eq_1 _⟩
    obtain ⟨missing, hmissing⟩ : ∃ missing, mem.length - off = missing + 1 :=
      ⟨mem.length - off - 1, by omega⟩
    cases o with
    | moved k =>
      obtain ⟨c, hlen, hroom, hpipe, hleft, hrest, hloop⟩ := fillLoop_goes_on .ssize hlt hsize h
      have hwalk : awaited (mem.length - off) (.moved k :: os) = awaited (missing + 1 - k) os := by
        rw [hmissing, awaited]
      obtain ⟨hsound, hawaited⟩ := ih (by rwa [hlen]) (hroom.trans hlen.ge) hrest
      rw [hlen, hleft, hmissing] at hawaited
      rw [hloop, hwalk]
      exact ⟨hsound.moved hroom hpipe, hawaited⟩
    | eof =>
      rw [fillLoop_eof _ hlt, hmissing]
      exact ⟨trivial, rfl⟩
    | error =>
      rw [fillLoop_error_ssize hlt, hmissing]
      exact ⟨trivial, rfl⟩

theorem not_eofFirst_full (size : Nat) (o : Outcome) (os : List Outcome) :
    ¬ EofFirst size 0 (o :: os) := by
  intro hwalk
  cases o with
  | moved k => exact hwalk.1 rfl
  | eof => exact hwalk rfl
  | error => exact hwalk.1 rfl

theorem heard_full (size : Nat) (o : Outcome) (os : List Outcome) : Heard size 0 (o :: os) := by
  cases o with
  | moved k => exact .inl rfl
  | eof => trivial
  | error => exact .inl rfl

/-- The second loop from any offset: `EofFirst` decides whether it ends with -1. -/
theorem fillLoop_eofFirst (os : List Outcome) (hsize : mem.length < 2 ^ 64)
    (hoff : off ≤ mem.length) (h : Delivers pipe os) :
    (EofFirst mem.length (mem.length - off) os →
        ∃ mem' pipe' os', fillLoop .size mem off pipe os = .failed mem' pipe' os') ∧
      (¬ EofFirst mem.length (mem.length - off) os →
        (fillLoop .size mem off pipe os).GoesOn os) := by
  -- by induction on the outcomes; a failure moves the offset one back
  induction os generalizing mem pipe off with
  | nil =>
    refine ⟨fun hfalse => hfalse.elim, fun _ => ?_⟩
    rw [fillLoop.eq_def]
    split
    · trivial
    · exact List.suffix_rfl
  | cons o os ih =>
    rcases Nat.eq_or_lt_of_le hoff with hfull | hlt
    · rw [fillLoop_of_full _ _ _ hfull.ge, hfull, Nat.sub_self]
      exact ⟨fun hwalk => absurd hwalk (not_eofFirst_full _ o os), fun _ => List.suffix_rfl⟩
    have hmissing : mem.length - off ≠ 0 := by omega
    cases o with
    | moved k =>
      obtain ⟨c, hlen, hroom, -, hleft, hrest, hloop⟩ := fillLoop_goes_on .size hlt hsize h
      obtain ⟨hends, hgoes⟩ := ih (by rwa [hlen]) (hroom.trans hlen.ge) hrest
      rw [hlen, hleft] at hends hgoes
      rw [hloop, EofFirst, and_iff_right hmissing]
      exact ⟨hends, fun hwalk => (hgoes hwalk).cons _⟩
    | eof =>
      rw [fillLoop_eof _ hlt]
      exact ⟨fun _ => ⟨mem, pipe, os, rfl⟩, fun hwalk => absurd hmissing hwalk⟩
    | error =>
      rw [EofFirst, and_iff_right hmissing]
      rcases Nat.eq_zero_or_pos off with rfl | hpos
      · -- the offset becomes the largest `size_t`, and the loop ends
        rw [fillLoop_error_first hlt hsize]
        exact ⟨fun hwalk => absurd hwalk.1 (by omega), fun _ => List.suffix_cons _ _⟩
      · have hleft : mem.length - (off - 1) = mem.length - off + 1 := by omega
        obtain ⟨hends, hgoes⟩ := ih hsize (show off - 1 ≤ mem.length by omega)
          (h.tail (Nat.zero_le _))
        rw [hleft] at hends hgoes
        rw [fillLoop_error_back hpos hlt hsize,
          and_iff_right (by omega : mem.length - off < mem.length)]
        exact ⟨hends, fun hwalk => (hgoes hwalk).cons _⟩

/-- The second loop from any offset: `Heard` decides whether a failure gets lost. -/
theorem fillLoop_heard (os : List Outcome) (hsize : mem.length < 2 ^ 64)
    (hoff : off ≤ mem.length) (h : Delivers pipe os) :
    (Heard mem.length (mem.length - off) os →
        (fillLoop .size mem off pipe os).Sound mem off pipe os) ∧
      (¬ Heard mem.length (mem.length - off) os → (fillLoop .size mem off pipe os).Deaf os) := by
  induction os generalizing mem pipe off with
  | nil =>
    refine ⟨fun _ => ?_, fun hwalk => absurd trivial hwalk⟩
    rcases Nat.eq_or_lt_of_le hoff with hfull | hlt
    · rw [fillLoop_of_full _ _ _ hfull.ge]
      exact .full hfull h
    · rw [fillLoop.eq_def, if_pos hlt]
      exact fun o ho => absurd ho List.not_mem_nil
  | cons o os ih =>
    rcases Nat.eq_or_lt_of_le hoff with hfull | hlt
    · rw [fillLoop_of_full _ _ _ hfull.ge, hfull, Nat.sub_self]
      exact ⟨fun _ => .full rfl h, fun hwalk => absurd (heard_full _ o os) hwalk⟩
    have hmissing : mem.length - off ≠ 0 := by omega
    cases o with
    | moved k =>
      obtain ⟨c, hlen, hroom, hpipe, hleft, hrest, hloop⟩ := fillLoop_goes_on .size hlt hsize h
      obtain ⟨hsound, hdeaf⟩ := ih (by rwa [hlen]) (hroom.trans hlen.ge) hrest
      rw [hlen, hleft] at hsound hdeaf
      rw [hloop, Heard, or_iff_right hmissing]
      exact ⟨fun hwalk => (hsound hwalk).moved hroom hpipe, fun hwalk => (hdeaf hwalk).cons _⟩
    | eof =>
      rw [fillLoop_eof _ hlt]
      exact ⟨fun _ => trivial, fun hwalk => absurd trivial hwalk⟩
    | error =>
      have hfailed : ¬ Outcome.error.Moved := id
      rw [Heard, or_iff_right hmissing]
      rcases Nat.eq_zero_or_pos off with rfl | hpos
      · rw [fillLoop_error_first hlt hsize]
        exact ⟨fun hwalk => absurd hwalk.1 (by omega),
          fun _ => ⟨[.error], rfl, .error, List.mem_cons_self, hfailed⟩⟩
      · -- it is reported only if the pipe ends before the buffer is full
        have hleft : mem.length - (off - 1) = mem.length - off + 1 := by omega
        obtain ⟨hends, hgoes⟩ := fillLoop_eofFirst os hsize
          (show off - 1 ≤ mem.length by omega) (h.tail (Nat.zero_le _))
        rw [List.drop_zero, hleft] at hends hgoes
        rw [fillLoop_error_back hpos hlt hsize,
          and_iff_right (by omega : mem.length - off < mem.length)]
        refine ⟨fun hwalk => ?_, fun hwalk => (hgoes hwalk).deaf hfailed⟩
        obtain ⟨mem', pipe', os', hend⟩ := hends hwalk
        rw [hend]
        trivial

end Loop

/-! ## The protocol's `read` -/

theorem leValue_lt (bs : Bytes) : leValue bs < 256 ^ bs.length := by
  induction bs with
  | nil => exact Nat.one_pos
  | cons b bs ih =>
    have hb : b.toNat < 256 := b.toNat_lt
    rw [leValue, List.length_cons, pow_succ']
    omega

theorem leBytes_leValue (bs : Bytes) : leBytes bs.length (leValue bs) = bs := by
  induction bs with
  | nil => rfl
  | cons b bs ih =>
    have hb : b.toNat < 256 := b.toNat_lt
    have hdiv : (b.toNat + 256 * leValue bs) / 256 = leValue bs := by omega
    have hlow : UInt8.ofNat (b.toNat + 256 * leValue bs) = b := by
      refine UInt8.toNat_inj.mp ?_
      rw [UInt8.toNat_ofNat']
      omega
    rw [leValue, List.length_cons, leBytes, hdiv, ih, hlow]

/-- Every eight bytes are the layout of a number: there are as many of the ones as of the other. -/
theorem SizeRep.value_lt (rep : SizeRep) {bs : Bytes} (h : bs.length = 8) :
    rep.value bs < 2 ^ 64 := by
  have hrange : ∀ bs' : Bytes, bs'.length = 8 → leValue bs' < 2 ^ 64 := fun bs' hbs' => by
    have := leValue_lt bs'
    rwa [hbs', show 256 ^ 8 = 2 ^ 64 by norm_num] at this
  let recode : Fin (2 ^ 64) → Fin (2 ^ 64) :=
    fun n => ⟨leValue (rep.bytes n), hrange _ (rep.length_bytes n)⟩
  have hback : ∀ m : Nat, ∀ bs' : Bytes, bs'.length = 8 →
      leValue (rep.bytes m) = leValue bs' → rep.bytes m = bs' := fun m bs' hbs' hval => by
    rw [← leBytes_leValue (rep.bytes m), ← leBytes_leValue bs', hval, hbs', rep.length_bytes]
  have hinj : Function.Injective recode := fun m n hmn => by
    have hbytes := hback m (rep.bytes n) (rep.length_bytes n) (congrArg Fin.val hmn)
    refine Fin.ext ?_
    rw [← rep.value_bytes m m.isLt, hbytes, rep.value_bytes n n.isLt]
  obtain ⟨n, hn⟩ := Finite.injective_iff_surjective.mp hinj ⟨leValue bs, hrange bs h⟩
  rw [← hback n bs h (congrArg Fin.val hn), rep.value_bytes n n.isLt]
  exact n.isLt

/-- What the caller learns from `read`: 0 only when every `::read` succeeded and the buffer holds
what the length announced, and -1 as soon as one did not. -/
structure ReportsFailures (rep : SizeRep) (buffer pipe : Bytes) (os : List Outcome) : Prop where
  success : ∀ d, read rep buffer pipe os = some d → d.ret = 0 →
    ∃ used size, os = used ++ d.os ∧ (∀ o ∈ used, o.Moved) ∧ pipe = size ++ d.buffer ++ d.pipe ∧
      size.length = 8 ∧ d.buffer.length = rep.value size
  failure : ∀ d used, read rep buffer pipe os = some d → os = used ++ d.os →
    (∃ o ∈ used, ¬ o.Moved) → d.ret = -1
  waiting : read rep buffer pipe os = none → ∀ o ∈ os, o.Moved

theorem read_of_filled {rep : SizeRep} {buffer pipe size : Bytes} {os used : List Outcome}
    {d : Done} (hread : read rep buffer pipe os = some d) (hsplit : os = used ++ d.os)
    (hmoved : ∀ o ∈ used, o.Moved) (hpipe : pipe = size ++ d.buffer ++ d.pipe)
    (hsize : size.length = 8) (hlen : d.buffer.length = rep.value size) :
    ReportsFailures rep buffer pipe os where
  success d' hd' _ := by
    obtain rfl := Option.some.inj (hread.symm.trans hd')
    exact ⟨used, size, hsplit, hmoved, hpipe, hsize, hlen⟩
  failure d' used' hd' hos' hfailed := by
    obtain rfl := Option.some.inj (hread.symm.trans hd')
    obtain rfl := List.append_cancel_right (hsplit.symm.trans hos')
    obtain ⟨o, ho, hnot⟩ := hfailed
    exact absurd (hmoved o ho) hnot
  waiting hnone := absurd (hread.symm.trans hnone) (by simp)

theorem read_of_failed {rep : SizeRep} {buffer pipe : Bytes} {os : List Outcome}
    {d : Done} (hread : read rep buffer pipe os = some d) (hret : d.ret = -1) :
    ReportsFailures rep buffer pipe os where
  success d' hd' hzero := by
    obtain rfl := Option.some.inj (hread.symm.trans hd')
    rw [hret] at hzero
    exact absurd hzero (by decide)
  failure d' _ hd' _ _ := by
    obtain rfl := Option.some.inj (hread.symm.trans hd')
    exact hret
  waiting hnone := absurd (hread.symm.trans hnone) (by simp)

theorem read_of_blocked {rep : SizeRep} {buffer pipe : Bytes} {os : List Outcome}
    (hread : read rep buffer pipe os = none) (hmoved : ∀ o ∈ os, o.Moved) :
    ReportsFailures rep buffer pipe os where
  success d hd _ := absurd (hread.symm.trans hd) (by simp)
  failure d _ hd _ _ := absurd (hread.symm.trans hd) (by simp)
  waiting _ := hmoved

/-- `read` with its length prefix in place: the second loop decides. -/
theorem read_payload_iff {rep : SizeRep} {buffer pipe size rest : Bytes}
    {os used os' : List Outcome}
    (hfill : fillLoop .ssize (List.replicate 8 0) 0 pipe os = .full size rest os')
    (hos : os = used ++ os') (hused : ∀ o ∈ used, o.Moved) (hpipe : pipe = size ++ rest)
    (hsize : size.length = 8) (h : Delivers rest os') :
    ReportsFailures rep buffer pipe os ↔ Heard (rep.value size) (rep.value size) os' := by
  obtain ⟨hsound, hdeaf⟩ := fillLoop_heard os'
    (show (List.replicate (rep.value size) 0).length < 2 ^ 64 by simpa using rep.value_lt hsize)
    (Nat.zero_le _) h
  rw [List.length_replicate, Nat.sub_zero] at hsound hdeaf
  constructor
  · intro hreports
    by_contra hnot
    -- a second loop that is deaf makes `read` succeed, or wait, in spite of a failure
    have hlost := hdeaf hnot
    rcases hsecond : fillLoop .size (List.replicate (rep.value size) 0) 0 rest os' with
      ⟨payload, rest', os''⟩ | ⟨payload, rest', os''⟩ | _
    · have hread : read rep buffer pipe os = some ⟨0, payload, rest', os''⟩ := by
        simp only [read, hfill, hsecond]
      rw [hsecond] at hlost
      obtain ⟨used', hos', o, ho, hfailed⟩ := hlost
      have hsplit : os = (used ++ used') ++ os'' := by rw [hos, hos', List.append_assoc]
      have hret := hreports.failure _ _ hread hsplit ⟨o, List.mem_append_right used ho, hfailed⟩
      exact absurd hret (by simp)
    · rw [hsecond] at hlost
      exact hlost
    · have hread : read rep buffer pipe os = none := by simp only [read, hfill, hsecond]
      rw [hsecond] at hlost
      obtain ⟨o, ho, hfailed⟩ := hlost
      exact hfailed (hreports.waiting hread o (hos ▸ List.mem_append_right used ho))
  · intro hheard
    have hwell := hsound hheard
    rcases hsecond : fillLoop .size (List.replicate (rep.value size) 0) 0 rest os' with
      ⟨payload, rest', os''⟩ | ⟨payload, rest', os''⟩ | _
    · have hread : read rep buffer pipe os = some ⟨0, payload, rest', os''⟩ := by
        simp only [read, hfill, hsecond]
      rw [hsecond] at hwell
      obtain ⟨used', data, hos', hused', hrest, hlen, hmem, -⟩ := hwell
      rw [List.take_zero, List.nil_append] at hmem
      rw [Nat.zero_add, List.length_replicate] at hlen
      have hall : ∀ o ∈ used ++ used', o.Moved := fun o ho =>
        (List.mem_append.mp ho).elim (hused o) (hused' o)
      have hsplit : os = (used ++ used') ++ os'' := by rw [hos, hos', List.append_assoc]
      refine read_of_filled hread hsplit hall ?_ hsize ?_
      · rw [hpipe, hrest, hmem, List.append_assoc]
      · rw [hmem, hlen]
    · refine read_of_failed (d := ⟨-1, payload, rest', os''⟩) ?_ rfl
      simp only [read, hfill, hsecond]
    · rw [hsecond] at hwell
      refine read_of_blocked (by simp only [read, hfill, hsecond]) fun o ho => ?_
      rw [hos] at ho
      exact (List.mem_append.mp ho).elim (hused o) (hwell o)

/-- `read` reports every failure exactly when no `::read` of the payload gives -1, or the first to
do so is followed by the end of file before the payload is complete, and never comes at offset 0. -/
theorem read_reports_iff (rep : SizeRep) (buffer pipe : Bytes) (os : List Outcome)
    (h : Delivers pipe os) :
    ReportsFailures rep buffer pipe os ↔
      ∀ os', awaited 8 os = some os' →
        Heard (rep.value (pipe.take 8)) (rep.value (pipe.take 8)) os' := by
  obtain ⟨hsound, hawaited⟩ := fillLoop_ssize os (show (List.replicate 8 0).length < 2 ^ 64 by simp)
    (Nat.zero_le _) h
  rw [List.length_replicate, Nat.sub_zero] at hawaited
  rcases hfill : fillLoop .ssize (List.replicate 8 0) 0 pipe os with
    ⟨size, rest, os'⟩ | ⟨size, rest, os'⟩ | _
  · rw [hfill] at hsound hawaited
    obtain ⟨used, data, hos, hused, hpipe, hlen, hmem, hleft⟩ := hsound
    rw [List.take_zero, List.nil_append] at hmem
    subst hmem
    rw [Nat.zero_add, List.length_replicate] at hlen
    have htake : pipe.take 8 = size := by rw [hpipe, ← hlen, List.take_left]
    rw [hawaited, htake, read_payload_iff hfill hos hused hpipe hlen hleft]
    simp only [Option.some.injEq, forall_eq']
  · rw [hfill] at hawaited
    refine ⟨fun _ os'' hos'' => absurd (hawaited.symm.trans hos'') (by simp), fun _ => ?_⟩
    refine read_of_failed (d := ⟨-1, buffer, rest, os'⟩) ?_ rfl
    simp only [read, hfill]
  · rw [hfill] at hsound hawaited
    refine ⟨fun _ os'' hos'' => absurd (hawaited.symm.trans hos'') (by simp), fun _ => ?_⟩
    exact read_of_blocked (by simp only [read, hfill]) hsound

theorem late_error_reported :
    ReportsFailures .littleEndian [] [2, 0, 0, 0, 0, 0, 0, 0, 65]
      [.moved 8, .moved 1, .error, .eof] := by
  refine (read_reports_iff .littleEndian [] [2, 0, 0, 0, 0, 0, 0, 0, 65]
    [.moved 8, .moved 1, .error, .eof] ⟨by simp, by decide⟩).mpr fun os' hos' => ?_
  obtain rfl := Option.some.inj hos'
  exact .inr (.inr ⟨by decide, by simp [EofFirst]⟩)

theorem payload_error_unreported :
    ¬ ∀ (rep : SizeRep) (buffer pipe : Bytes) (os : List Outcome), Delivers pipe os →
      ReportsFailures rep buffer pipe os := by
  intro h
  have hreports := h .littleEndian [] [1, 0, 0, 0, 0, 0, 0, 0, 65] [.moved 8, .error]
    ⟨by simp, by decide⟩
  have hread : read .littleEndian [] [1, 0, 0, 0, 0, 0, 0, 0, 65] [.moved 8, .error] =
      some ⟨0, [0], [65], []⟩ := by decide
  have hret := hreports.failure _ [.moved 8, .error] hread rfl ⟨.error, by simp, id⟩
  exact absurd hret (by decide)

end AdvCppTP.Protocol
