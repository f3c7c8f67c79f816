/-!
# The longest start of a list in a class

`takeWhile` and `dropWhile` cut a list where its first element outside of a class stands.

* `takeWhile_span`, `dropWhile_span`   the cut is where the class is left
* `span_inj`                           there is one such cut
* `exists_span`                        every list can be cut so
-/

namespace TinyScript

variable {α : Type} {p : α → Bool} {body rest : List α}

theorem takeWhile_span (hbody : ∀ c ∈ body, p c = true) (hrest : ∀ c ∈ rest.head?, p c = false) :
    (body ++ rest).takeWhile p = body := by
  rw [List.takeWhile_append_of_pos hbody]
  cases rest with
  | nil => exact List.append_nil body
  | cons c rest => rw [List.takeWhile_cons_of_neg (by simp [hrest c rfl]), List.append_nil]

theorem dropWhile_span (hbody : ∀ c ∈ body, p c = true) (hrest : ∀ c ∈ rest.head?, p c = false) :
    (body ++ rest).dropWhile p = rest := by
  rw [List.dropWhile_append_of_pos hbody]
  cases rest with
  | nil => rfl
  | cons c rest => exact List.dropWhile_cons_of_neg (by simp [hrest c rfl])

/-- all elements of a list differ from one that is not in it -/
theorem bne_of_not_mem [BEq α] [LawfulBEq α] {a : α} (h : a ∉ body) : ∀ c ∈ body, (c != a) = true :=
  fun _ hc => bne_iff_ne.mpr fun heq => h (heq ▸ hc)

/-- Two lists that are cut so are the same only if their parts are. -/
theorem span_inj {body' rest' : List α} (hbody : ∀ c ∈ body, p c = true)
    (hrest : ∀ c ∈ rest.head?, p c = false) (hbody' : ∀ c ∈ body', p c = true)
    (hrest' : ∀ c ∈ rest'.head?, p c = false) (h : body ++ rest = body' ++ rest') :
    body = body' ∧ rest = rest' := by
  have htake := takeWhile_span hbody hrest
  have hdrop := dropWhile_span hbody hrest
  rw [h, takeWhile_span hbody' hrest'] at htake
  rw [h, dropWhile_span hbody' hrest'] at hdrop
  exact ⟨htake.symm, hdrop.symm⟩

theorem exists_span (p : α → Bool) (l : List α) :
    ∃ body rest, l = body ++ rest ∧ (∀ c ∈ body, p c = true) ∧ ∀ c ∈ rest.head?, p c = false := by
  induction l with
  | nil => exact ⟨[], [], rfl, List.forall_mem_nil _, fun _ h => nomatch h⟩
  | cons a l ih =>
    by_cases ha : p a = true
    · obtain ⟨body, rest, rfl, hbody, hrest⟩ := ih
      exact ⟨a :: body, rest, rfl, List.forall_mem_cons.mpr ⟨ha, hbody⟩, hrest⟩
    · refine ⟨[], a :: l, rfl, List.forall_mem_nil _, fun c hc => ?_⟩
      rw [← Option.some.inj hc]
      exact Bool.eq_false_iff.mpr ha

end TinyScript
