import AdvCppTP.Http.ClientRoutine
import Mathlib.Data.UInt

/-! `Connection::read` with its local array: what a sequence of reads leaves in `buffer_`, and the
indices at which the array is written. -/

namespace AdvCppTP.Http

def maxBytesRead : UInt64 := 512

/-- The `size` of the call of `::recv`; the default argument is -1. -/
def readSize (size : UInt64) : UInt64 := if size = -1 then maxBytesRead else size

def RecvOutcome.bytes : RecvOutcome → Int
  | .received data => data.length
  | .wouldBlock => -1
  | .error _ => -1

def RecvOutcome.data : RecvOutcome → Bytes
  | .received data => data
  | .wouldBlock => []
  | .error _ => []

/-- A call of `read` and what `::recv` does in it. -/
structure RecvCall where
  size : UInt64
  outcome : RecvOutcome
  fits : outcome.data.length ≤ (readSize size).toNat

/-- What a call returns, the `buffer_` that it leaves, and the indices of `char buffer[size + 1]`
that `::recv` and `buffer[bytes] = '\0'` write. -/
structure ReadDone where
  ret : Except Exn Nat
  buffer : Bytes
  array : Nat
  indices : List Int

def RecvCall.read (buffer : Bytes) (call : RecvCall) : ReadDone :=
  let array := (readSize call.size + 1).toNat
  let indices := (List.range call.outcome.data.length).map (Nat.cast : Nat → Int) ++
    [call.outcome.bytes]
  match call.outcome.read with
  | .ok r => ⟨.ok r.count, buffer ++ r.appended, array, indices⟩
  | .error e => ⟨.error e, buffer, array, indices⟩

theorem Client.read_eq {c : Client} {call : RecvCall} {recvs : List RecvOutcome}
    (h : c.io.recvs = call.outcome :: recvs) :
    c.read = ((call.read c.info.buffer).ret,
      { c with info.buffer := (call.read c.info.buffer).buffer, io.recvs := recvs }) := by
  rw [Client.read, h, RecvCall.read]
  cases call.outcome with
  | received data => rfl
  | wouldBlock => rfl
  | error errno => rfl

/-! ## Sequences of reads -/

/-- `buffer_`, and all bytes received so far. -/
structure Accumulated where
  buffer : Bytes
  received : Bytes

def Accumulated.step (s : Accumulated) (call : RecvCall) : Accumulated × Except Exn Nat :=
  (⟨(call.read s.buffer).buffer, s.received ++ call.outcome.data⟩, (call.read s.buffer).ret)

/-- What a reader of `buffer_` relies on in a call. -/
structure Accumulated.Faithful (s : Accumulated) (call : RecvCall) : Prop where
  content : (call.read s.buffer).buffer = s.received ++ call.outcome.data
  growth : ∀ n, (call.read s.buffer).ret = .ok n →
    (call.read s.buffer).buffer.length = s.buffer.length + n
  unchanged : call.outcome.bytes = -1 → (call.read s.buffer).buffer = s.buffer
  bounds : ∀ i ∈ (call.read s.buffer).indices, 0 ≤ i ∧ i < (call.read s.buffer).array

/-- `::recv` succeeds, and no byte that it received is NUL. -/
def RecvCall.Plain (call : RecvCall) : Prop :=
  ∃ data, call.outcome = .received data ∧ 0 ∉ data

theorem toNat_readSize_succ (size : UInt64) :
    (readSize size + 1).toNat = (readSize size).toNat + 1 := by
  have hne : readSize size ≠ -1 := by
    rw [readSize]
    split
    · decide
    · assumption
  have hlt : (readSize size).toNat ≠ 2 ^ 64 - 1 := fun h => hne (UInt64.toNat_inj.mp h)
  have hbound := (readSize size).toNat_lt
  rw [UInt64.toNat_add, show (1 : UInt64).toNat = 1 from rfl, Nat.mod_eq_of_lt (by omega)]

theorem Accumulated.faithful_iff {s : Accumulated} (hs : s.buffer = s.received)
    (call : RecvCall) : s.Faithful call ↔ call.Plain := by
  obtain ⟨size, outcome, fits⟩ := call
  constructor
  · intro h
    cases outcome with
    | received data =>
      refine ⟨data, rfl, Lib.cString_eq_self_iff.mp ?_⟩
      have hcontent : s.buffer ++ Lib.cString data = s.received ++ data := h.content
      rw [hs] at hcontent
      exact List.append_cancel_left hcontent
    | wouldBlock => exact absurd (h.bounds (-1) List.mem_cons_self).1 (by decide)
    | error errno => exact absurd (h.bounds (-1) List.mem_cons_self).1 (by decide)
  · rintro ⟨data, rfl, hplain⟩
    have happended : Lib.cString data = data := Lib.cString_eq_self_iff.mpr hplain
    have hcall : (RecvCall.read s.buffer ⟨size, .received data, fits⟩).buffer = s.buffer ++ data :=
      congrArg (s.buffer ++ ·) happended
    refine ⟨by rw [hcall, hs]; rfl, fun n hn => ?_, fun hfail => ?_, fun i hi => ?_⟩
    · obtain rfl : data.length = n := Except.ok.inj hn
      rw [hcall, List.length_append]
    · exact absurd hfail (show ((data.length : Nat) : Int) ≠ -1 by omega)
    · have harray : (RecvCall.read s.buffer ⟨size, .received data, fits⟩).array =
          (readSize size).toNat + 1 := toNat_readSize_succ size
      have hfits : data.length ≤ (readSize size).toNat := fits
      rw [harray]
      rcases List.mem_append.mp hi with hi | hi
      · obtain ⟨k, hk, rfl⟩ := List.mem_map.mp hi
        have hk' : k < data.length := List.mem_range.mp hk
        omega
      · obtain rfl : i = data.length := List.mem_singleton.mp hi
        omega

/-- Reads from an empty buffer accumulate the stream exactly as long as every `::recv` succeeds and
brings no NUL. -/
theorem reads_faithful_iff (calls : List RecvCall) :
    Lib.Along Accumulated.step Accumulated.Faithful ⟨[], []⟩ calls ↔
      ∀ call ∈ calls, call.Plain := by
  rw [← Lib.along_events Accumulated.step RecvCall.Plain ⟨[], []⟩]
  refine Lib.along_congr (I := fun s => s.buffer = s.received)
    (fun s call hs => Accumulated.faithful_iff hs call) (fun s call hs hplain => ?_) rfl calls
  exact ((Accumulated.faithful_iff hs call).mpr hplain).content

theorem nul_cuts_read_off :
    ¬ ∀ calls : List RecvCall,
      Lib.Along Accumulated.step Accumulated.Faithful ⟨[], []⟩ calls := by
  intro h
  obtain ⟨hfaithful, -⟩ := h [⟨-1, .received [65, 0, 66], by decide⟩]
  exact absurd hfaithful.content (by decide)

end AdvCppTP.Http
