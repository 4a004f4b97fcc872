import AdvCppTP.Pipe.Protocol
import Mathlib.Data.List.Infix

/-! Successive reads return the messages that were written, whatever the partial counts. -/

namespace AdvCppTP.Protocol

def frame (rep : SizeRep) (m : StdString) : Bytes := rep.bytes m.bytes.length ++ m.bytes

def stream (rep : SizeRep) (ms : List StdString) : Bytes := (ms.map (frame rep)).flatten

@[simp] theorem stream_nil (rep : SizeRep) : stream rep [] = [] := rfl

@[simp] theorem stream_cons (rep : SizeRep) (m : StdString) (ms : List StdString) :
    stream rep (m :: ms) = frame rep m ++ stream rep ms := rfl

@[simp] theorem length_frame (rep : SizeRep) (m : StdString) :
    (frame rep m).length = 8 + m.bytes.length := by
  simp [frame, rep.length_bytes]

def receipts (rep : SizeRep) : List StdString → List (Int × Bytes × Bytes)
  | [] => []
  | m :: ms => (0, m.bytes, stream rep ms) :: receipts rep ms

theorem length_overwrite {mem data : Bytes} {off : Nat} (h : off + data.length ≤ mem.length) :
    (overwrite mem off data).length = mem.length := by
  simp only [overwrite, List.length_append, List.length_take, List.length_drop]
  omega

theorem take_overwrite {mem data : Bytes} {off : Nat} (h : off + data.length ≤ mem.length) :
    (overwrite mem off data).take (off + data.length) = mem.take off ++ data := by
  have hlen : (mem.take off ++ data).length = off + data.length := by
    simp only [List.length_append, List.length_take]
    omega
  rw [overwrite, ← hlen, List.take_left]

theorem CountType.conv_natCast (T : CountType) {n : Nat} (h : n < 2 ^ 64) :
    T.conv (n : Int) = n := by
  cases T <;> simp only [CountType.conv]
  omega

theorem sysRead_moved {need : Bytes} (rest : Bytes) (k : Nat) :
    sysRead need.length (need ++ rest) (.moved k) =
      (((need.take k).length : Int), need.take k, need.drop k ++ rest) := by
  have htake : (need ++ rest).take (min k need.length) = need.take k := by
    rw [List.take_append_of_le_length (min_le_right k need.length), ← List.take_eq_take_min]
  have hdrop : (need ++ rest).drop (need.take k).length = need.drop k ++ rest := by
    have hsplit : need ++ rest = need.take k ++ (need.drop k ++ rest) := by
      rw [← List.append_assoc, List.take_append_drop]
    rw [hsplit, List.drop_left]
  simp only [sysRead, htake, hdrop]

theorem fillLoop_moved (T : CountType) {mem need rest : Bytes} {off k : Nat} {os : List Outcome}
    (hmem : mem.length = off + need.length) (hsize : mem.length < 2 ^ 64)
    (hneed : need ≠ []) (hk : 1 ≤ k) :
    fillLoop T mem off (need ++ rest) (.moved k :: os) =
      fillLoop T (overwrite mem off (need.take k)) (off + (need.take k).length)
        (need.drop k ++ rest) os := by
  have hpos : 0 < need.length := List.length_pos_iff.mpr hneed
  have hcount : (need.take k).length = min k need.length := List.length_take
  have hread : sysRead (mem.length - off) (need ++ rest) (.moved k) =
      (((need.take k).length : Int), need.take k, need.drop k ++ rest) := by
    rw [hmem, Nat.add_sub_cancel_left, sysRead_moved]
  rw [fillLoop_cons T _ _ _ (by omega), hread]
  simp only [T.conv_natCast (show (need.take k).length < 2 ^ 64 by omega), Int.toNat_natCast]
  rw [if_neg (by omega), Nat.mod_eq_of_lt (by omega)]

/-- A read loop that meets only positive counts fills its memory with the next bytes of the
pipe: after every pass, what is in place is what the pipe has handed over. -/
theorem fillLoop_full (T : CountType) (ks : List Nat) (hks : ∀ k ∈ ks, 1 ≤ k)
    (mem need rest : Bytes) (off : Nat) (hmem : mem.length = off + need.length)
    (hsize : mem.length < 2 ^ 64) (henough : need.length ≤ ks.length) :
    ∃ ks', ks' <:+ ks ∧ ks.length ≤ ks'.length + need.length ∧
      fillLoop T mem off (need ++ rest) (ks.map .moved) =
        .full (mem.take off ++ need) rest (ks'.map .moved) := by
  induction ks generalizing mem need off with
  | nil =>
    obtain rfl : need = [] := List.eq_nil_of_length_eq_zero (by simpa using henough)
    have hfull : mem.length ≤ off := by simp [hmem]
    refine ⟨[], List.suffix_rfl, by simp, ?_⟩
    rw [fillLoop_of_full T _ _ hfull, List.take_of_length_le hfull, List.append_nil,
      List.nil_append]
  | cons k ks ih =>
    rcases eq_or_ne need [] with rfl | hneed
    · have hfull : mem.length ≤ off := by simp [hmem]
      refine ⟨k :: ks, List.suffix_rfl, by simp, ?_⟩
      rw [fillLoop_of_full T _ _ hfull, List.take_of_length_le hfull, List.append_nil,
        List.nil_append]
    · have hk : 1 ≤ k := hks k List.mem_cons_self
      have hpos : 0 < need.length := List.length_pos_iff.mpr hneed
      have hcount : (need.take k).length = min k need.length := List.length_take
      have hleft : (need.drop k).length = need.length - k := List.length_drop
      have hfit : off + (need.take k).length ≤ mem.length := by omega
      simp only [List.length_cons] at henough
      obtain ⟨ks', hsuf, hused, hrun⟩ := ih (fun j hj => hks j (List.mem_cons_of_mem k hj))
        (overwrite mem off (need.take k)) (need.drop k) (off + (need.take k).length)
        (by rw [length_overwrite hfit]; omega) (by rw [length_overwrite hfit]; exact hsize)
        (by omega)
      refine ⟨ks', hsuf.trans (List.suffix_cons k ks), by simp only [List.length_cons]; omega, ?_⟩
      rw [List.map_cons, fillLoop_moved T hmem hsize hneed hk, hrun, take_overwrite hfit,
        List.append_assoc, List.take_append_drop]

theorem fillLoop_fresh (T : CountType) (ks : List Nat) (hks : ∀ k ∈ ks, 1 ≤ k)
    (need rest : Bytes) (hsize : need.length < 2 ^ 64) (henough : need.length ≤ ks.length) :
    ∃ ks', ks' <:+ ks ∧ ks.length ≤ ks'.length + need.length ∧
      fillLoop T (List.replicate need.length 0) 0 (need ++ rest) (ks.map .moved) =
        .full need rest (ks'.map .moved) := by
  -- nothing is in place yet
  simpa using fillLoop_full T ks hks (List.replicate need.length 0) need rest 0
    (by simp) (by simpa using hsize) henough

theorem read_frame (rep : SizeRep) (m : StdString) (buffer rest : Bytes) (ks : List Nat)
    (hks : ∀ k ∈ ks, 1 ≤ k) (henough : (frame rep m).length ≤ ks.length) :
    ∃ ks', ks' <:+ ks ∧ ks.length ≤ ks'.length + (frame rep m).length ∧
      read rep buffer (frame rep m ++ rest) (ks.map .moved) =
        some ⟨0, m.bytes, rest, ks'.map .moved⟩ := by
  have h8 : (rep.bytes m.bytes.length).length = 8 := rep.length_bytes _
  rw [length_frame] at henough
  obtain ⟨ks₁, hsuf₁, hused₁, hrun₁⟩ := fillLoop_fresh .ssize ks hks
    (rep.bytes m.bytes.length) (m.bytes ++ rest) (by omega) (by omega)
  obtain ⟨ks₂, hsuf₂, hused₂, hrun₂⟩ := fillLoop_fresh .size ks₁
    (fun k hk => hks k (hsuf₁.subset hk)) m.bytes rest m.size_lt (by omega)
  refine ⟨ks₂, hsuf₂.trans hsuf₁, by rw [length_frame]; omega, ?_⟩
  rw [h8] at hrun₁
  rw [read, frame, List.append_assoc, hrun₁]
  simp only [rep.value_bytes _ m.size_lt, hrun₂]

theorem writeLoop_done (buffer : Bytes) (ks : List Nat) (hks : ∀ k ∈ ks, 1 ≤ k)
    (wasWritten : Nat) (pipe : Bytes) (henough : buffer.length - wasWritten ≤ ks.length) :
    ∃ ks', ks' <:+ ks ∧ ks.length ≤ ks'.length + (buffer.length - wasWritten) ∧
      writeLoop buffer wasWritten pipe (ks.map .moved) =
        some ⟨0, buffer, pipe ++ buffer.drop wasWritten, ks'.map .moved⟩ := by
  induction ks generalizing wasWritten pipe with
  | nil =>
    have hdone : buffer.length ≤ wasWritten := Nat.sub_eq_zero_iff_le.mp (Nat.le_zero.mp henough)
    refine ⟨[], List.suffix_rfl, by simp, ?_⟩
    rw [writeLoop_of_done _ _ hdone, List.drop_of_length_le hdone, List.append_nil]
  | cons k ks ih =>
    by_cases hlt : wasWritten < buffer.length
    · have hk : 1 ≤ k := hks k List.mem_cons_self
      have hcount : ((buffer.drop wasWritten).take k).length =
          min k (buffer.length - wasWritten) := by
        rw [List.length_take, List.length_drop]
      simp only [List.length_cons] at henough
      obtain ⟨ks', hsuf, hused, hrun⟩ := ih (fun j hj => hks j (List.mem_cons_of_mem k hj))
        (wasWritten + ((buffer.drop wasWritten).take k).length)
        (pipe ++ (buffer.drop wasWritten).take k) (by omega)
      refine ⟨ks', hsuf.trans (List.suffix_cons k ks), by simp only [List.length_cons]; omega, ?_⟩
      have hnext : (buffer.drop wasWritten).take k ++
          buffer.drop (wasWritten + ((buffer.drop wasWritten).take k).length) =
            buffer.drop wasWritten := by
        rw [← List.drop_drop, ← List.prefix_iff_eq_append]
        exact List.take_prefix k _
      have hmoved : ¬ (((buffer.drop wasWritten).take k).length : Int) ≤ 0 := by omega
      rw [List.map_cons, writeLoop_cons _ _ _ hlt]
      simp only [sysWrite, if_neg hmoved, Int.toNat_natCast, hrun, List.append_assoc, hnext]
    · refine ⟨k :: ks, List.suffix_rfl, by simp, ?_⟩
      rw [writeLoop_of_done _ _ (by omega), List.drop_of_length_le (by omega), List.append_nil]

theorem writeAll_stream (rep : SizeRep) (ms : List StdString) (ks : List Nat)
    (hks : ∀ k ∈ ks, 1 ≤ k) (pipe : Bytes) (henough : (stream rep ms).length ≤ ks.length) :
    writeAll rep ms pipe (ks.map .moved) = some (pipe ++ stream rep ms) := by
  induction ms generalizing ks pipe with
  | nil => simp [writeAll]
  | cons m ms ih =>
    rw [stream_cons, List.length_append] at henough
    obtain ⟨ks', hsuf, hused, hrun⟩ := writeLoop_done (frame rep m) ks hks 0 pipe (by omega)
    rw [Nat.sub_zero] at hused
    rw [writeAll, write, ← frame, hrun]
    simp only [if_true, List.drop_zero]
    rw [ih ks' (fun k hk => hks k (hsuf.subset hk)) _ (by omega), stream_cons, List.append_assoc]

theorem readAll_stream (rep : SizeRep) (ms : List StdString) (ks : List Nat)
    (hks : ∀ k ∈ ks, 1 ≤ k) (buffer : Bytes) (henough : (stream rep ms).length ≤ ks.length) :
    readAll rep ms.length buffer (stream rep ms) (ks.map .moved) = some (receipts rep ms) := by
  induction ms generalizing ks buffer with
  | nil => rfl
  | cons m ms ih =>
    rw [stream_cons, List.length_append] at henough
    obtain ⟨ks', hsuf, hused, hrun⟩ := read_frame rep m buffer (stream rep ms) ks hks (by omega)
    rw [List.length_cons, readAll, stream_cons, hrun]
    simp only [ih ks' (fun k hk => hks k (hsuf.subset hk)) m.bytes (by omega), Option.map_some,
      receipts]

/-- `Protocol::read` undoes `Protocol::write`: the counts `ws` accepted by `::write` and `rs`
returned by `::read` are arbitrary and independent of each other. -/
theorem read_undoes_write (rep : SizeRep) (ms : List StdString) (ws rs : List Nat)
    (hws : ∀ k ∈ ws, 1 ≤ k) (hrs : ∀ k ∈ rs, 1 ≤ k)
    (hwsLen : (stream rep ms).length ≤ ws.length) (hrsLen : (stream rep ms).length ≤ rs.length)
    (buffer : Bytes) :
    ∃ pipe, writeAll rep ms [] (ws.map .moved) = some pipe ∧
      readAll rep ms.length buffer pipe (rs.map .moved) = some (receipts rep ms) := by
  refine ⟨stream rep ms, ?_, readAll_stream rep ms rs hrs buffer hrsLen⟩
  simpa using writeAll_stream rep ms ws hws [] hwsLen

theorem read_undoes_write_example :
    ∃ pipe, writeAll .littleEndian [⟨[], by decide⟩, ⟨[104, 0, 105], by decide⟩] []
        ((List.replicate 19 3).map .moved) = some pipe ∧
      readAll .littleEndian 2 [] pipe ((List.replicate 19 5).map .moved) =
        some (receipts .littleEndian [⟨[], by decide⟩, ⟨[104, 0, 105], by decide⟩]) :=
  read_undoes_write .littleEndian [⟨[], by decide⟩, ⟨[104, 0, 105], by decide⟩]
    (List.replicate 19 3) (List.replicate 19 5) (by decide) (by decide) (by decide) (by decide) []

end AdvCppTP.Protocol
