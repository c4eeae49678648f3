import Mathlib.Algebra.Order.Ring.Int
import Mathlib.Data.Stream.Init
import Mathlib.Order.Bounds.Defs

/-!
# Bounded delimited prefixes of a stream

`chunk d n s` is what a reader takes from the stream `s` that stops after `n` items, or right after
the first item equal to the delimiter `d`, whichever comes first.  It is the shortest prefix of `s`
that has `n` items or ends with a delimiter (`isLeast_length_chunk`), and it can only contain a
delimiter as its last item (`chunk_filter`).
-/

namespace Streams

variable {α : Type} [DecidableEq α]

/-- The items taken from `s` by a reader that stops after `n` items or after the first `d`. -/
def chunk (d : α) : ℕ → Stream' α → List α
  | 0, _ => []
  | n + 1, s => if s.head = d then [d] else s.head :: chunk d n s.tail

variable {d : α} {n : ℕ} {s : Stream' α}

@[simp] lemma chunk_zero : chunk d 0 s = [] := rfl

lemma chunk_succ_eq (h : s.head = d) : chunk d (n + 1) s = [d] := by simp [chunk, h]

lemma chunk_succ_ne (h : s.head ≠ d) : chunk d (n + 1) s = s.head :: chunk d n s.tail := by
  simp [chunk, h]

/-- A chunk has at most `n` items. -/
lemma length_chunk_le : (chunk d n s).length ≤ n := by
  induction n generalizing s with
  | zero => simp
  | succ n ih =>
    rcases eq_or_ne s.head d with h | h
    · simp [chunk_succ_eq h]
    · simpa [chunk_succ_ne h] using ih

/-- A chunk is a prefix of the stream. -/
lemma chunk_eq_take : chunk d n s = s.take (chunk d n s).length := by
  induction n generalizing s with
  | zero => simp
  | succ n ih =>
    rcases eq_or_ne s.head d with h | h
    · rw [chunk_succ_eq h, List.length_singleton, Stream'.take_succ, Stream'.take_zero, h]
    · rw [chunk_succ_ne h, List.length_cons, Stream'.take_succ, ← ih]

/-- A chunk is the shortest prefix that has `n` items or ends with the delimiter. -/
theorem isLeast_length_chunk :
    IsLeast {k | k = n ∨ ∃ j, k = j + 1 ∧ s.get j = d} (chunk d n s).length := by
  induction n generalizing s with
  | zero => exact ⟨Or.inl (by simp), fun k _ => by simp⟩
  | succ n ih =>
    rcases eq_or_ne s.head d with h | h
    · rw [chunk_succ_eq h, List.length_singleton]
      refine ⟨Or.inr ⟨0, rfl, h⟩, ?_⟩
      rintro k (rfl | ⟨j, rfl, _⟩) <;> omega
    · rw [chunk_succ_ne h, List.length_cons]
      obtain ⟨hmem, hleast⟩ := ih (s := s.tail)
      constructor
      · rcases hmem with hlen | ⟨j, hlen, hj⟩
        · exact Or.inl (by rw [hlen])
        · exact Or.inr ⟨j + 1, by rw [hlen], by rwa [Stream'.get_tail] at hj⟩
      · rintro k (rfl | ⟨j, rfl, hj⟩)
        · exact Nat.succ_le_succ (hleast (Or.inl rfl))
        · cases j with
          | zero => exact absurd hj h
          | succ j => exact Nat.succ_le_succ (hleast (Or.inr ⟨j, rfl, by rwa [Stream'.get_tail]⟩))

/-- Without its delimiters a chunk is itself, less the delimiter it may end with. -/
lemma chunk_filter : (chunk d n s).filter (· ≠ d) =
    (chunk d n s).take ((chunk d n s).filter (· ≠ d)).length := by
  induction n generalizing s with
  | zero => simp
  | succ n ih =>
    rcases eq_or_ne s.head d with h | h
    · simp [chunk_succ_eq h]
    · rw [chunk_succ_ne h, List.filter_cons_of_pos (by simpa using h), List.length_cons,
        List.take_succ_cons, ← ih]

/-- Without its delimiters a chunk is empty exactly when the stream starts with a delimiter. -/
lemma chunk_filter_length_eq_zero (hn : 0 < n) :
    ((chunk d n s).filter (· ≠ d)).length = 0 ↔ s.head = d := by
  obtain ⟨k, rfl⟩ := Nat.exists_eq_succ_of_ne_zero (Nat.ne_of_gt hn)
  rcases eq_or_ne s.head d with h | h
  · simp [chunk_succ_eq h, h]
  · simp [chunk_succ_ne h, h]

/-- A reader that meets no delimiter among the next `n` items takes exactly these. -/
lemma chunk_eq_take_of_forall_ne (h : ∀ j < n, s.get j ≠ d) : chunk d n s = s.take n := by
  induction n generalizing s with
  | zero => simp
  | succ n ih =>
    have hhead : s.head ≠ d := h 0 (Nat.succ_pos n)
    have htail : ∀ j < n, s.tail.get j ≠ d := fun j hj => h (j + 1) (Nat.succ_lt_succ hj)
    rw [chunk_succ_ne hhead, ih htail, Stream'.take_succ]

/-- A reader that meets a delimiter among the next `n` items takes it. -/
lemma mem_chunk_of_get_eq {j : ℕ} (hj : j < n) (h : s.get j = d) : d ∈ chunk d n s := by
  induction n generalizing s j with
  | zero => omega
  | succ n ih =>
    rcases eq_or_ne s.head d with hhead | hhead
    · simp [chunk_succ_eq hhead]
    · rw [chunk_succ_ne hhead]
      cases j with
      | zero => exact absurd h hhead
      | succ j => exact List.mem_cons_of_mem _ (ih (Nat.lt_of_succ_lt_succ hj) h)

/-! ## Sequences of chunks -/

/-- What a sequence of readers with the bounds `ns` takes, one after another. -/
def chunks (d : α) : List ℕ → Stream' α → List α
  | [], _ => []
  | n :: ns, s => chunk d n s ++ chunks d ns (s.drop (chunk d n s).length)

/-- The readers meet a delimiter exactly when there is one among as many items as they ask for
together: a reader that is cut short has met one itself. -/
theorem mem_chunks_iff (ns : List ℕ) : d ∈ chunks d ns s ↔ ∃ j < ns.sum, s.get j = d := by
  induction ns generalizing s with
  | nil => simp [chunks]
  | cons n ns ih =>
    rw [chunks, List.mem_append, List.sum_cons]
    by_cases h : ∃ j < n, s.get j = d
    · obtain ⟨j, hj, hget⟩ := h
      have hmem : d ∈ chunk d n s := mem_chunk_of_get_eq hj hget
      exact iff_of_true (Or.inl hmem) ⟨j, by omega, hget⟩
    · have hne : ∀ j < n, s.get j ≠ d := fun j hj hget => h ⟨j, hj, hget⟩
      have htake : chunk d n s = s.take n := chunk_eq_take_of_forall_ne hne
      have hnot : d ∉ s.take n := by
        intro hmem
        obtain ⟨j, hj, hget⟩ := List.getElem_of_mem hmem
        rw [Stream'.take_get] at hget
        exact hne j (by simpa using hj) hget
      rw [htake, Stream'.length_take, ih]
      constructor
      · rintro (hmem | ⟨j, hj, hget⟩)
        · exact absurd hmem hnot
        · exact ⟨n + j, by omega, by rwa [Stream'.get_drop] at hget⟩
      · rintro ⟨j, hj, hget⟩
        have hnj : n ≤ j := by
          by_contra hlt
          exact hne j (by omega) hget
        refine Or.inr ⟨j - n, by omega, ?_⟩
        rw [Stream'.get_drop, Nat.add_sub_cancel' hnj]
        exact hget

end Streams
