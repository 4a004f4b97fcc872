import AdvCppTP.Http.Requests

/-! `Receiver::split_until_body` on heads with any number of header lines. The blank line of a
head without header lines belongs to a CRLF CRLF that begins before the view that is searched. -/

namespace AdvCppTP.Http

theorem splitUntilBody_no_lines {line : Bytes} (hline : ¬ endline <:+: line) (body : Bytes) :
    ∃ c headers, splitUntilBody (headBytes line [] ++ body) = .ok (line, c :: headers) := by
  have hshape : headBytes line [] ++ body = line ++ endline ++ (13 :: 10 :: body) := by
    simp only [headBytes, List.flatMap_nil, List.append_assoc, List.nil_append]
    rfl
  rw [hshape, splitUntilBody_of_firstOcc hline]
  rcases Lib.find headersEnd (13 :: 10 :: body) 0 with _ | i
  · exact ⟨13, [], rfl⟩
  · exact ⟨13, (10 :: body).take (i + 1), rfl⟩

/-- The head is split exactly where it has a header line. -/
theorem splitUntilBody_exact_iff {line : Bytes} {lines : List Bytes}
    (hline : ¬ endline <:+: line) (hlines : ∀ l ∈ lines, l ≠ [] ∧ ¬ endline <:+: l)
    (body : Bytes) :
    splitUntilBody (headBytes line lines ++ body) =
        .ok (line, lines.flatMap fun l => l ++ endline) ↔ lines ≠ [] := by
  refine ⟨?_, fun hne => splitUntilBody_headBytes hline hne hlines body⟩
  rintro hsplit rfl
  obtain ⟨c, headers, hwrong⟩ := splitUntilBody_no_lines hline body
  rw [hwrong, Except.ok.injEq, Prod.mk.injEq] at hsplit
  exact List.cons_ne_nil c headers hsplit.2

theorem splitUntilBody_exact_iff_get :
    splitUntilBody (headBytes (ascii "GET / HTTP/1.1") [ascii "Host: a"] ++ headersEnd) =
        .ok (ascii "GET / HTTP/1.1", [ascii "Host: a"].flatMap fun l => l ++ endline) ↔
      [ascii "Host: a"] ≠ [] :=
  splitUntilBody_exact_iff (by decide) (by decide) headersEnd

theorem blank_line_is_header :
    ¬ ∀ (line : Bytes) (lines : List Bytes) (body : Bytes),
      (∀ c ∈ line, c ≠ 13 ∧ c ≠ 10) → (∀ l ∈ lines, l ≠ [] ∧ ∀ c ∈ l, c ≠ 13 ∧ c ≠ 10) →
        splitUntilBody (headBytes line lines ++ body) =
          .ok (line, lines.flatMap fun l => l ++ endline) := by
  intro h
  have hsplit := h (ascii "GET / HTTP/1.0") [] [] (forall_mem_of_all rfl) (List.forall_mem_nil _)
  exact absurd hsplit (by decide)

end AdvCppTP.Http
