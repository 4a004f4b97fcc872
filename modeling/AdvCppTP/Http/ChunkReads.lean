import AdvCppTP.Http.Chunking
import AdvCppTP.Http.ClientRoutine

/-! Reads as `Connection::read` makes them of what `::recv` receives: a chunk is appended as a C
string and counted whole. The loop of `read_body` on any chunks. -/

namespace AdvCppTP.Http

/-- `Connection::read()` when `::recv` receives `d`; with nothing received it also stands for a
call that would block. -/
def chunkRead (data : Bytes) : ReadResult := ⟨Lib.cString data, data.length⟩

theorem chunkRead_eq_exact {d : Bytes} (h : (0 : UInt8) ∉ d) : chunkRead d = .exact d := by
  rw [chunkRead, Lib.cString_eq_self h, ReadResult.exact]

/-- The loop of `read_body` on chunks: it goes by what the reads count, and returns what they
appended. -/
theorem receive_body_chunks (firstLine : QueryLine) (headers : StringMap) {start : Nat} (len : Nat)
    {buffer : Bytes} (hstart : start ≤ buffer.length) (wasRead : Nat) (ds : List Bytes) :
    (∃ pc buf, receive (.body firstLine headers start len wasRead) buffer (ds.map chunkRead) =
        .waiting pc buf ∧ (ds = [] ∨ wasRead + ds.flatten.length < len)) ∨
      ∃ pre post request, ds = pre ++ post ∧ pre ≠ [] ∧ len ≤ wasRead + pre.flatten.length ∧
        receive (.body firstLine headers start len wasRead) buffer (ds.map chunkRead) =
          .returned request (buffer ++ pre.flatMap Lib.cString) (post.map chunkRead) ∧
        request.body = ((buffer ++ pre.flatMap Lib.cString).drop start).take len := by
  induction ds generalizing buffer wasRead with
  | nil => exact .inl ⟨_, _, rfl, .inl rfl⟩
  | cons d ds ih =>
    have hstart' : start ≤ (buffer ++ Lib.cString d).length := by
      rw [List.length_append]
      exact Nat.le_add_right_of_le hstart
    rw [List.map_cons, receive_cons, show (chunkRead d).appended = Lib.cString d from rfl,
      show (chunkRead d).count = d.length from rfl]
    -- what is counted decides, not what was appended
    by_cases hwait : wasRead + d.length < len
    · rw [receiveStep_body_part hwait]
      rcases ih hstart' (wasRead + d.length) with
        ⟨pc, buf, hrun, hshort⟩ | ⟨pre, post, request, rfl, hne, henough, hrun, hbody⟩
      · refine .inl ⟨pc, buf, hrun, .inr ?_⟩
        rw [List.flatten_cons, List.length_append]
        rcases hshort with rfl | hshort
        · exact hwait
        · omega
      · have hbuffer : buffer ++ (d :: pre).flatMap Lib.cString =
            buffer ++ Lib.cString d ++ pre.flatMap Lib.cString := by
          rw [List.flatMap_cons, List.append_assoc]
        refine .inr ⟨d :: pre, post, request, rfl, List.cons_ne_nil d pre, ?_, ?_, ?_⟩
        · rw [List.flatten_cons, List.length_append]
          omega
        · rw [hbuffer]
          exact hrun
        · rw [hbuffer]
          exact hbody
    · obtain ⟨request, hrequest⟩ := HttpRequest.make_ok firstLine headers
        (((buffer ++ Lib.cString d).drop start).take len)
      rw [receiveStep_body_done hwait hstart', hrequest]
      refine .inr ⟨[d], ds, request, rfl, List.cons_ne_nil d [], ?_, ?_, ?_⟩
      · rw [List.flatten_singleton]
        exact Nat.not_lt.mp hwait
      · rw [List.flatMap_cons, List.flatMap_nil, List.append_nil]
        rfl
      · rw [List.flatMap_cons, List.flatMap_nil, List.append_nil]
        exact HttpRequest.make_body hrequest

end AdvCppTP.Http
