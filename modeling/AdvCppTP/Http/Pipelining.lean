import AdvCppTP.Http.KeepAlive
import AdvCppTP.Http.ChunkReads

/-! When no byte is lost between requests: `clear_buffer` discards all of `buffer_`, so a read that
brings the end of one request must not bring the beginning of the next. -/

namespace AdvCppTP.Http

def RecvOutcome.chunk (data : Bytes) : RecvOutcome :=
  if data = [] then .wouldBlock else .received data

theorem RecvOutcome.read_chunk (data : Bytes) :
    (chunk data).read = .ok ⟨Lib.cString data, data.length⟩ := by
  by_cases h : data = []
  · rw [chunk, if_pos h, h]
    rfl
  · rw [chunk, if_neg h]
    rfl

theorem map_chunkRead_eq_exact {ds : List Bytes} (h : 0 ∉ ds.flatten) :
    ds.map chunkRead = ds.map .exact := by
  refine List.map_congr_left fun d hd => chunkRead_eq_exact fun h0 => h ?_
  exact List.mem_flatten.mpr ⟨d, hd, h0⟩

theorem quiet_chunkReads (ds : List Bytes) : Quiet ((ds ++ [[]]).map chunkRead) := by
  constructor
  · intro r hr
    obtain ⟨d, -, rfl⟩ := List.mem_map.mp hr
    exact Lib.length_cString_le d
  · intro r hr
    rw [List.map_append, List.map_singleton, List.getLast?_concat, Option.mem_some_iff] at hr
    exact hr.symm

theorem receive_noNul {reads : List ReadResult} (hreads : ∀ r ∈ reads, 0 ∉ r.appended)
    {pc : ReceiverPc} {buffer : Bytes} (hbuffer : 0 ∉ buffer) {request : HttpRequest} {buf : Bytes}
    {rest : List ReadResult} (h : receive pc buffer reads = .returned request buf rest) :
    0 ∉ buf := by
  induction reads generalizing pc buffer with
  | nil => cases h
  | cons r reads ih =>
    have htail : ∀ x ∈ reads, 0 ∉ x.appended := fun x hx => hreads x (List.mem_cons_of_mem r hx)
    have hnext : 0 ∉ buffer ++ r.appended := fun h0 =>
      (List.mem_append.mp h0).elim hbuffer (hreads r List.mem_cons_self)
    rw [receive_cons] at h
    split at h
    · exact ih htail hnext h
    · exact ih htail hnext h
    · obtain ⟨-, rfl, -⟩ := Received.returned.inj h
      exact hnext
    · cases h

theorem Handed.noNul {reads : List ReadResult} {log : List Served} (h : Handed reads log)
    (hreads : ∀ r ∈ reads, 0 ∉ r.appended) : ∀ s ∈ log, 0 ∉ s.discarded := by
  induction h with
  | stop h => exact fun s hs => absurd hs List.not_mem_nil
  | close h hclose =>
    intro s hs
    rw [List.mem_singleton.mp hs]
    exact receive_noNul hreads List.not_mem_nil h
  | next h halive hrest ih =>
    obtain ⟨r, front, rfl⟩ := receive_returned_suffix h
    intro s hs
    rcases List.mem_cons.mp hs with rfl | hs
    · exact receive_noNul hreads List.not_mem_nil h
    · exact ih (fun x hx => hreads x (List.mem_append_right _ hx)) s hs

/-! ## Deliveries aligned with the requests -/

/-- Each request ends with a read, and none of the reads cuts the end of its head. -/
def Aligned : List RawRequest → List Bytes → Prop
  | [], _ => True
  | r :: rs, xs => ∃ pre d post ys, xs = pre ++ d :: (post ++ ys) ∧ r.Cut pre d post ∧ Aligned rs ys

def RawRequest.keepAlive (r : RawRequest) : Bool :=
  (storeFields r.fields ∅).lookup (ascii "connection") = some (ascii "Keep-Alive")

theorem RawRequest.keepAlive_parsed (r : RawRequest) {request : HttpRequest}
    (h : r.parsed = .ok request) : request.keepAlive = r.keepAlive := by
  obtain ⟨firstLine, hline⟩ := QueryLine.parse_ok r.line
  obtain ⟨params, hparams⟩ := makeParams_ok firstLine
  rw [r.parsed_eq hline, HttpRequest.make, hparams] at h
  obtain rfl := Except.ok.inj h
  rfl

/-- What the handler should be called with, and what `clear_buffer` should discard. -/
def expected (rs : List RawRequest) : List (Except StdError HttpRequest × Bytes) :=
  rs.map fun r => (r.parsed, r.bytes)

def calls (log : List Served) : List (Except StdError HttpRequest × Bytes) :=
  log.map fun s => (.ok s.request, s.discarded)

theorem rest_eq_map_exact {xs : List Bytes} {r : ReadResult} {front rest : List ReadResult}
    (h : xs.map ReadResult.exact = r :: front ++ rest) :
    ∃ ys : List Bytes, rest = ys.map .exact := by
  obtain ⟨zs, ys, rfl, -, hys⟩ := List.map_eq_append_iff.mp h
  exact ⟨ys, hys.symm⟩

theorem handed_nil {xs : List Bytes} (h : xs.flatten = []) {log : List Served}
    (hlog : Handed (xs.map .exact) log) : log = [] := by
  have hnone : terminatorSeen xs = none := by
    rcases hseen : terminatorSeen xs with _ | q
    · rfl
    · obtain ⟨pre, d, post, i, rfl, -, hi, -⟩ := terminatorSeen_eq_some hseen
      have hd : d = [] := List.flatten_eq_nil_iff.mp h d (by simp)
      rw [hd] at hi
      cases hi
  have hwait := receive_not_found hnone
  cases hlog with
  | stop h => rfl
  | close h hclose =>
    rw [hwait] at h
    cases h
  | next h halive hrest =>
    rw [hwait] at h
    cases h

theorem RawRequest.exists_cut (r : RawRequest) {xs : List Bytes} (h : r.bytes <+: xs.flatten)
    {request : HttpRequest} {rest : List ReadResult}
    (hrun : receive (.head 0) [] (xs.map .exact) = .returned request r.bytes rest) :
    ∃ pre d post ys, rest = List.map .exact ys ∧ xs = pre ++ d :: (post ++ ys) ∧
      r.Cut pre d post := by
  obtain ⟨x, front, hsuffix⟩ := receive_returned_suffix hrun
  obtain ⟨ys, rfl⟩ := rest_eq_map_exact hsuffix
  obtain ⟨pre, d, post, hxs, hcut⟩ := r.cut_of_returned h hrun
  exact ⟨pre, d, post, ys, rfl, hxs, hcut⟩

theorem RawRequest.Cut.flatten_rest {r : RawRequest} {pre post : List Bytes} {d : Bytes}
    (hcut : r.Cut pre d post) {ys : List Bytes} {rest : Bytes}
    (h : (pre ++ d :: (post ++ ys)).flatten = r.bytes ++ rest) : ys.flatten = rest := by
  have hsplit : (pre ++ d :: (post ++ ys)).flatten = (pre ++ d :: post).flatten ++ ys.flatten := by
    rw [← List.flatten_append, List.append_assoc, List.cons_append]
  rw [hsplit, hcut.ends] at h
  exact List.append_cancel_left h

theorem calls_eq_expected_iff (rs : List RawRequest) : ∀ {xs : List Bytes} {log : List Served},
    xs.flatten = rs.flatMap RawRequest.bytes →
    (∀ r ∈ rs.dropLast, r.keepAlive = true) → Handed (xs.map .exact) log →
    (calls log = expected rs ↔ Aligned rs xs) := by
  -- by induction on the requests: each has to be cut out of the reads before the next one
  induction rs with
  | nil =>
    intro xs log hstream _ hlog
    rw [handed_nil hstream hlog]
    exact ⟨fun _ => trivial, fun _ => rfl⟩
  | cons r rs ih =>
    intro xs log hstream halive hlog
    rw [List.flatMap_cons] at hstream
    have hprefix : r.bytes <+: xs.flatten := by
      rw [hstream]
      exact List.prefix_append _ _
    have hkeep : rs ≠ [] → r.keepAlive = true := by
      intro hne
      refine halive r ?_
      rw [List.dropLast_cons_of_ne_nil hne]
      exact List.mem_cons_self
    have htail : ∀ x ∈ rs.dropLast, x.keepAlive = true := by
      intro x hx
      refine halive x ?_
      rw [List.dropLast_cons_of_ne_nil (by rintro rfl; exact List.not_mem_nil hx)]
      exact List.mem_cons_of_mem r hx
    constructor
    · intro hcalls
      cases hlog with
      | stop h => cases hcalls
      | close h hclose =>
        obtain ⟨hhead, hnil⟩ := List.cons.inj hcalls
        obtain ⟨hparsed, rfl⟩ := Prod.mk.inj hhead
        obtain rfl := List.map_eq_nil_iff.mp hnil.symm
        obtain ⟨pre, d, post, ys, -, hxs, hcut⟩ := r.exists_cut hprefix h
        exact ⟨pre, d, post, ys, hxs, hcut, trivial⟩
      | next h hnext hlog' =>
        obtain ⟨hhead, hcalls'⟩ := List.cons.inj hcalls
        obtain ⟨hparsed, rfl⟩ := Prod.mk.inj hhead
        obtain ⟨pre, d, post, ys, rfl, rfl, hcut⟩ := r.exists_cut hprefix h
        have hrest := (ih (hcut.flatten_rest hstream) htail hlog').mp hcalls'
        exact ⟨pre, d, post, ys, rfl, hcut, hrest⟩
    · rintro ⟨pre, d, post, ys, rfl, hcut, haligned⟩
      obtain ⟨request, hparsed, hrun⟩ := r.returned_of_cut hprefix hcut
      have halive' := r.keepAlive_parsed hparsed
      cases hlog with
      | stop h => exact absurd hrun (h _ _ _)
      | close h hclose =>
        obtain ⟨rfl, rfl, -⟩ := Received.returned.inj (h.symm.trans hrun)
        have hnil : rs = [] := by
          by_contra hne
          rw [halive', hkeep hne] at hclose
          cases hclose
        rw [hnil, calls, expected, List.map_singleton, List.map_singleton, hparsed]
      | next h hnext hlog' =>
        obtain ⟨rfl, rfl, rfl⟩ := Received.returned.inj (h.symm.trans hrun)
        have hcalls' := (ih (hcut.flatten_rest hstream) htail hlog').mpr haligned
        rw [calls, List.map_cons, ← calls, hcalls', expected, expected, List.map_cons, hparsed]

theorem noNul_of_calls {ds : List Bytes} {log : List Served} {rs : List RawRequest}
    (hlog : Handed (ds.map chunkRead) log) (h : calls log = expected rs) :
    0 ∉ rs.flatMap RawRequest.bytes := by
  -- a NUL that was sent would be among the bytes discarded, but no read appends one
  have hdiscarded : log.map Served.discarded = rs.map RawRequest.bytes := by
    have hsnd := congrArg (List.map Prod.snd) h
    rwa [calls, expected, List.map_map, List.map_map] at hsnd
  have hclean : ∀ s ∈ log, 0 ∉ s.discarded := hlog.noNul fun r hr => by
    obtain ⟨d, -, rfl⟩ := List.mem_map.mp hr
    exact Lib.zero_notMem_cString d
  rw [List.mem_flatMap]
  rintro ⟨r, hr, h0⟩
  have hmem : r.bytes ∈ log.map Served.discarded := by
    rw [hdiscarded]
    exact List.mem_map_of_mem hr
  obtain ⟨s, hs, hbytes⟩ := List.mem_map.mp hmem
  exact hclean s hs (hbytes ▸ h0)

/-- On a connection that asks to be kept alive the handler is called with exactly the requests
sent, and `clear_buffer` discards exactly their bytes, precisely when no NUL is sent and the
delivery, at whose end nothing more arrives, is aligned with the requests. -/
theorem pipelined_requests_iff {server : Server} (hserver : server.Answers) {rs : List RawRequest}
    {ds : List Bytes} (hstream : ds.flatten = rs.flatMap RawRequest.bytes)
    (halive : ∀ r ∈ rs.dropLast, r.keepAlive = true) {c : Client} (hc : c.Sound)
    (hbuffer : c.info.buffer = []) (hserved : c.io.served = [])
    (hrecvs : c.io.recvs = (ds ++ [[]]).map .chunk) :
    (∃ N, ∀ n ≥ N, calls (serve server n (.yield .served, c)).io.served = expected rs) ↔
      0 ∉ ds.flatten ∧ Aligned rs (ds ++ [[]]) := by
  have hreads : c.Reads ((ds ++ [[]]).map chunkRead) := by
    rw [Client.Reads, hrecvs, List.map_map, List.map_map]
    exact List.map_congr_left fun d _ => RecvOutcome.read_chunk d
  obtain ⟨log, hlog⟩ := exists_handed ((ds ++ [[]]).map chunkRead)
  obtain ⟨N, hN⟩ := settles_handed hserver hlog hc hreads (quiet_chunkReads ds) hbuffer
  rw [hserved, List.nil_append] at hN
  have hcalls : (∃ N, ∀ n ≥ N, calls (serve server n (.yield .served, c)).io.served =
      expected rs) ↔ calls log = expected rs := by
    constructor
    · rintro ⟨N', hN'⟩
      rw [← hN _ (Nat.le_max_left N N')]
      exact hN' _ (Nat.le_max_right N N')
    · intro h
      exact ⟨N, fun n hn => by rw [hN n hn, h]⟩
  have hflat : (ds ++ [[]]).flatten = ds.flatten := by
    rw [List.flatten_append, List.flatten_singleton, List.append_nil]
  rw [hcalls]
  by_cases hnul : 0 ∈ ds.flatten
  · refine ⟨fun h => absurd hnul ?_, fun h => absurd hnul h.1⟩
    rw [hstream]
    exact noNul_of_calls hlog h
  · rw [map_chunkRead_eq_exact (by rwa [hflat])] at hlog
    rw [calls_eq_expected_iff rs (hflat.trans hstream) halive hlog]
    exact ⟨fun h => ⟨hnul, h⟩, fun h => h.2⟩

def keepAliveRequest : RawRequest :=
  { getRequest with
    fields := [⟨ascii "Connection", ascii " Keep-Alive", by decide, by decide, by decide⟩]
    fields_ne_nil := by simp
    framed := rfl }

def okServer : Server where
  onRequest := fun _ _ => .ok (.new .v1_1 200)
  hash := .stored
  readTimeout := 5
  writeTimeout := 5

theorem okServer_answers : okServer.Answers := fun _ _ => ⟨_, rfl, rfl⟩

def newClient (ds : List Bytes) : Client where
  info := { node := 0, fd := 5, buffer := [], currentEvent := .epollin, timeout := 0 }
  io := { recvs := (ds ++ [[]]).map .chunk, sends := [], ctls := [], served := [] }

theorem newClient_sound (ds : List Bytes) : (newClient ds).Sound :=
  ⟨List.not_mem_nil, fun _ => List.not_mem_nil⟩

theorem pipelined_requests_iff_example :
    (∃ N, ∀ n ≥ N, calls (serve okServer n (.yield .served,
        newClient [keepAliveRequest.bytes, keepAliveRequest.bytes])).io.served =
          expected [keepAliveRequest, keepAliveRequest]) ↔
      0 ∉ [keepAliveRequest.bytes, keepAliveRequest.bytes].flatten ∧
        Aligned [keepAliveRequest, keepAliveRequest]
          ([keepAliveRequest.bytes, keepAliveRequest.bytes] ++ [[]]) :=
  pipelined_requests_iff okServer_answers (by simp) (by simp; decide) (newClient_sound _) rfl rfl rfl

theorem pipelined_request_lost :
    ¬ ∀ (server : Server) (rs : List RawRequest) (ds : List Bytes) (c : Client),
      server.Answers → ds.flatten = rs.flatMap RawRequest.bytes →
      (∀ r ∈ rs.dropLast, r.keepAlive = true) → c.Sound → c.info.buffer = [] →
      c.io.served = [] → c.io.recvs = (ds ++ [[]]).map .chunk →
      ∃ N, ∀ n ≥ N, calls (serve server n (.yield .served, c)).io.served = expected rs := by
  intro h
  obtain ⟨N, hN⟩ := h okServer [keepAliveRequest, keepAliveRequest]
    [keepAliveRequest.bytes ++ keepAliveRequest.bytes]
    (newClient [keepAliveRequest.bytes ++ keepAliveRequest.bytes]) okServer_answers (by simp)
    (by simp; decide) (newClient_sound _) rfl rfl rfl
  obtain ⟨request, hrun, halive⟩ : ∃ request, receive (.head 0) []
      [.exact (keepAliveRequest.bytes ++ keepAliveRequest.bytes), .exact []] =
        .returned request (keepAliveRequest.bytes ++ keepAliveRequest.bytes) [.exact []] ∧
      request.keepAlive = true := ⟨_, rfl, rfl⟩
  have hlog : Handed [.exact (keepAliveRequest.bytes ++ keepAliveRequest.bytes), .exact []]
      [⟨request, keepAliveRequest.bytes ++ keepAliveRequest.bytes⟩] :=
    .next hrun halive (.stop fun _ _ _ hnone => by cases hnone)
  obtain ⟨M, hM⟩ := settles_handed okServer_answers hlog (newClient_sound
    [keepAliveRequest.bytes ++ keepAliveRequest.bytes]) rfl
      (quiet_chunkReads [keepAliveRequest.bytes ++ keepAliveRequest.bytes]) rfl
  have hlost := hN _ (Nat.le_max_left N M)
  rw [hM _ (Nat.le_max_right N M)] at hlost
  have hlength := congrArg List.length hlost
  simp [calls, expected, newClient] at hlength

end AdvCppTP.Http
