import AdvCppTP.Http.Framing

/-! `Content-Length` in `HttpResponse::headers_` over histories of setter calls. Both `setHeader`
and `setBody` insert it only where it is absent. -/

namespace AdvCppTP.Http

/-- What a call inserts under `Content-Length`, unless something is there. -/
def SetCall.contentLength? : SetCall → Option Bytes
  | .setStatus _ => none
  | .setHeader header value => if header = ascii "Content-Length" then some value else none
  | .setBody body => some (toDecimal body.length)

theorem lookup_setHeader (r : HttpResponse) (header value k : Bytes) :
    (r.setHeader header value).1.headers.lookup k =
      (r.headers.lookup k).or (if header = k then some value else none) := by
  rw [HttpResponse.setHeader]
  by_cases hk : header = k
  · subst hk
    rw [Lib.lookup_emplace_self, if_pos rfl]
    cases r.headers.lookup header <;> rfl
  · rw [Lib.lookup_emplace_ne _ _ fun heq => hk heq.symm, if_neg hk]
    cases r.headers.lookup k <;> rfl

theorem lookup_apply (r : HttpResponse) (call : SetCall) :
    (r.apply call).headers.lookup (ascii "Content-Length") =
      (r.headers.lookup (ascii "Content-Length")).or call.contentLength? := by
  cases call with
  | setStatus statusCode => exact Option.or_none.symm
  | setHeader header value => exact lookup_setHeader r header value _
  | setBody body =>
    refine (lookup_setHeader { r with body } _ _ _).trans ?_
    rw [if_pos rfl]
    rfl

/-- The first call that has something to insert is the one that counts. -/
theorem lookup_foldl_apply (calls : List SetCall) (r : HttpResponse) :
    (calls.foldl HttpResponse.apply r).headers.lookup (ascii "Content-Length") =
      (r.headers.lookup (ascii "Content-Length")).or (calls.findSome? SetCall.contentLength?) := by
  induction calls generalizing r with
  | nil => exact Option.or_none.symm
  | cons call calls ih =>
    rw [List.foldl_cons, ih, lookup_apply, List.findSome?_cons]
    cases r.headers.lookup (ascii "Content-Length") <;> cases call.contentLength? <;> rfl

/-- After at least one `setBody`, `Content-Length` describes the body exactly if the first call
that inserts it gives the size of the last body. -/
theorem contentLength_describes_body_iff (version : HttpVersion) (statusCode : Nat)
    {calls : List SetCall} (hbody : ∃ body, .setBody body ∈ calls) :
    (calls.foldl HttpResponse.apply (.new version statusCode)).headers.lookup
          (ascii "Content-Length") =
        some (toDecimal
          (calls.foldl HttpResponse.apply (.new version statusCode)).body.length) ↔
      calls.findSome? SetCall.contentLength? =
        (calls.filterMap SetCall.body?).getLast?.map fun body => toDecimal body.length := by
  obtain ⟨body, hbody⟩ := hbody
  have hmem : body ∈ calls.filterMap SetCall.body? := List.mem_filterMap.mpr ⟨_, hbody, rfl⟩
  have hlast := List.getLast?_eq_some_getLast (List.ne_nil_of_mem hmem)
  rw [lookup_foldl_apply, body_foldl_apply, hlast, Option.getD_some, Option.map_some]
  exact Iff.rfl

/-- A second body of the same size, and a header that comes too late. -/
def sameSizes : List SetCall :=
  [.setBody (ascii "ab"), .setHeader (ascii "Content-Length") (ascii "7"), .setBody (ascii "cd")]

theorem contentLength_describes_body_iff_sameSizes :
    (sameSizes.foldl HttpResponse.apply (.new .v1_1 200)).headers.lookup
          (ascii "Content-Length") =
        some (toDecimal (sameSizes.foldl HttpResponse.apply (.new .v1_1 200)).body.length) ↔
      sameSizes.findSome? SetCall.contentLength? =
        (sameSizes.filterMap SetCall.body?).getLast?.map fun body => toDecimal body.length :=
  contentLength_describes_body_iff .v1_1 200 ⟨_, List.mem_cons_self⟩

theorem second_body_keeps_first_length :
    ¬ ∀ (version : HttpVersion) (statusCode : Nat) (calls : List SetCall),
      (∃ body, .setBody body ∈ calls) →
        (calls.foldl HttpResponse.apply (.new version statusCode)).headers.lookup
            (ascii "Content-Length") =
          some (toDecimal
            (calls.foldl HttpResponse.apply (.new version statusCode)).body.length) := by
  intro h
  have hlength := h .v1_1 200 [.setBody [], .setBody (ascii "a")] ⟨[], List.mem_cons_self⟩
  exact absurd hlength (by decide)

end AdvCppTP.Http
