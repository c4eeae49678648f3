import Mathlib.Algebra.Order.Ring.Int
import Mathlib.Data.List.TakeWhile

/-!
# Words of a line, with quotes

A line is split at blanks.  A word that begins with a quote extends to the next such quote, which is
taken away together with the first, and may contain blanks; a word that begins otherwise extends to
the next blank, and quotes in it are ordinary characters.  A word that the line does not end extends
to the end of the line.

Exactly the lists of writable words can be obtained in this way (`exists_words_eq_iff`), where a
word is writable when some quote does not occur in it, or when it is not empty, begins neither with
a blank nor with a quote and contains no blank.
-/

namespace Streams

/-- The characters with a meaning in a line. -/
structure Quoting (α : Type) where
  blank : α
  quotes : List α
  /-- A blank is no quote. -/
  blank_notMem : blank ∉ quotes

variable {α : Type} [DecidableEq α]

/-- What comes before the first `d`. -/
def upTo (d : α) (line : List α) : List α := line.takeWhile (· ≠ d)

/-- What comes behind the first `d`. -/
def behind (d : α) (line : List α) : List α := (line.dropWhile (· ≠ d)).tail

section Cut

variable {d : α} {line w : List α}

lemma notMem_upTo : d ∉ upTo d line := by
  intro h
  have := List.mem_takeWhile_imp h
  simp at this

lemma mem_of_mem_upTo {c : α} (h : c ∈ upTo d line) : c ∈ line :=
  (List.takeWhile_prefix _).subset h

lemma mem_of_mem_behind {c : α} (h : c ∈ behind d line) : c ∈ line :=
  (List.dropWhile_suffix _).subset (List.mem_of_mem_tail h)

lemma length_behind_le : (behind d line).length ≤ line.length := by
  unfold behind
  rw [List.length_tail]
  exact Nat.le_trans (Nat.sub_le _ _) (List.dropWhile_suffix _).length_le

/-- Behind what comes before the first `d` the line has ended, or there is that `d` and the rest. -/
lemma exists_tail (d : α) (line : List α) : ∃ tail, line = upTo d line ++ tail ∧
    ((tail = [] ∧ behind d line = []) ∨ tail = d :: behind d line) := by
  have hsplit : line = upTo d line ++ line.dropWhile (· ≠ d) :=
    (List.takeWhile_append_dropWhile).symm
  refine ⟨_, hsplit, ?_⟩
  unfold behind
  rcases hdrop : line.dropWhile (· ≠ d) with _ | ⟨c, cs⟩
  · exact Or.inl ⟨rfl, rfl⟩
  · right
    have hc : c = d := by
      have := List.head?_dropWhile_not (· ≠ d) line
      rw [hdrop] at this
      simpa using this
    rw [hc, List.tail_cons]

lemma upTo_append_cons (hw : d ∉ w) : upTo d (w ++ d :: line) = w := by
  induction w with
  | nil => simp [upTo]
  | cons c w ih =>
    rw [List.mem_cons, not_or] at hw
    have hc : c ≠ d := fun h => hw.1 h.symm
    have ih' : List.takeWhile (fun x => !decide (x = d)) (w ++ d :: line) = w := by
      simpa [upTo] using ih hw.2
    simp [upTo, hc, ih']

lemma behind_append_cons (hw : d ∉ w) : behind d (w ++ d :: line) = line := by
  induction w with
  | nil => simp [behind]
  | cons c w ih =>
    rw [List.mem_cons, not_or] at hw
    have hc : c ≠ d := fun h => hw.1 h.symm
    simpa [behind, hc] using ih hw.2

end Cut

variable (Q : Quoting α)

/-- The words of a line. -/
def words : List α → List (List α)
  | [] => []
  | c :: cs =>
    if c = Q.blank then words cs
    else if c ∈ Q.quotes then upTo c cs :: words (behind c cs)
    else (c :: upTo Q.blank cs) :: words (behind Q.blank cs)
  termination_by line => line.length
  decreasing_by
    · simp
    · exact Nat.lt_succ_of_le length_behind_le
    · exact Nat.lt_succ_of_le length_behind_le

variable {Q} {c : α} {cs line w : List α}

@[simp] lemma words_nil : words Q [] = [] := by simp [words]

lemma words_blank (h : c = Q.blank) : words Q (c :: cs) = words Q cs := by
  rw [words, if_pos h]

lemma words_quote (h : c ∈ Q.quotes) :
    words Q (c :: cs) = upTo c cs :: words Q (behind c cs) := by
  have hb : c ≠ Q.blank := by
    rintro rfl
    exact Q.blank_notMem h
  rw [words, if_neg hb, if_pos h]

lemma words_plain (hb : c ≠ Q.blank) (hq : c ∉ Q.quotes) :
    words Q (c :: cs) = (c :: upTo Q.blank cs) :: words Q (behind Q.blank cs) := by
  rw [words, if_neg hb, if_neg hq]

/-- The characters of a word are in the line. -/
lemma mem_of_mem_words {c : α} (hw : w ∈ words Q line) (hc : c ∈ w) : c ∈ line := by
  induction line using words.induct Q with
  | case1 => simp at hw
  | case2 cs ih =>
    rw [words_blank rfl] at hw
    exact List.mem_cons_of_mem _ (ih hw)
  | case3 d cs hb hq ih =>
    rw [words_quote hq, List.mem_cons] at hw
    rcases hw with rfl | hw
    · exact List.mem_cons_of_mem _ (mem_of_mem_upTo hc)
    · exact List.mem_cons_of_mem _ (mem_of_mem_behind (ih hw))
  | case4 d cs hb hq ih =>
    rw [words_plain hb hq, List.mem_cons] at hw
    rcases hw with rfl | hw
    · rw [List.mem_cons] at hc ⊢
      exact hc.imp_right mem_of_mem_upTo
    · exact List.mem_cons_of_mem _ (mem_of_mem_behind (ih hw))

/-! ## Writable words -/

variable (Q) in
/-- The word can be written in a line. -/
def Writable (w : List α) : Prop :=
  (∃ d ∈ Q.quotes, d ∉ w) ∨ ∃ c cs, w = c :: cs ∧ c ∉ Q.quotes ∧ Q.blank ∉ w

/-- Only writable words are found in a line. -/
lemma writable_of_mem_words (h : w ∈ words Q line) : Writable Q w := by
  induction line using words.induct Q with
  | case1 => simp at h
  | case2 cs ih =>
    rw [words_blank rfl] at h
    exact ih h
  | case3 c cs hb hq ih =>
    rw [words_quote hq, List.mem_cons] at h
    rcases h with rfl | h
    · exact Or.inl ⟨c, hq, notMem_upTo⟩
    · exact ih h
  | case4 c cs hb hq ih =>
    rw [words_plain hb hq, List.mem_cons] at h
    rcases h with rfl | h
    · refine Or.inr ⟨c, _, rfl, hq, ?_⟩
      rw [List.mem_cons, not_or]
      exact ⟨Ne.symm hb, notMem_upTo⟩
    · exact ih h

/-- A writable word can be put before the words of a line, with a quote or a blank behind it. -/
lemma Writable.exists_line (hw : Writable Q w) (line : List α) :
    ∃ line', words Q line' = w :: words Q line ∧ line'.length ≤ w.length + 2 + line.length ∧
      ∀ c ∈ line', c ∈ w ∨ c ∈ line ∨ c = Q.blank ∨ c ∈ Q.quotes := by
  rcases hw with ⟨d, hd, hdw⟩ | ⟨c, cs, rfl, hc, hb⟩
  · refine ⟨d :: (w ++ d :: line), ?_, by simp; omega, ?_⟩
    · rw [words_quote hd, upTo_append_cons hdw, behind_append_cons hdw]
    · intro c hmem
      rw [List.mem_cons, List.mem_append, List.mem_cons] at hmem
      rcases hmem with rfl | hmem | rfl | hmem
      · exact Or.inr (Or.inr (Or.inr hd))
      · exact Or.inl hmem
      · exact Or.inr (Or.inr (Or.inr hd))
      · exact Or.inr (Or.inl hmem)
  · rw [List.mem_cons, not_or] at hb
    refine ⟨c :: (cs ++ Q.blank :: line), ?_, by simp; omega, ?_⟩
    · rw [words_plain (Ne.symm hb.1) hc, upTo_append_cons hb.2, behind_append_cons hb.2]
    · intro x hmem
      rw [List.mem_cons, List.mem_append, List.mem_cons] at hmem
      rcases hmem with rfl | hmem | rfl | hmem
      · exact Or.inl (List.mem_cons_self ..)
      · exact Or.inl (List.mem_cons_of_mem _ hmem)
      · exact Or.inr (Or.inr (Or.inl rfl))
      · exact Or.inr (Or.inl hmem)

/-- **What can be written.**  A list of words is obtained from some line exactly when each of its
words is writable, and then from a line that spends two characters on a word at most and contains
only quotes, blanks and their characters. -/
theorem exists_words_eq_iff (ws : List (List α)) :
    (∃ line, words Q line = ws ∧ line.length ≤ (ws.map fun w => w.length + 2).sum ∧
      ∀ c ∈ line, (∃ w ∈ ws, c ∈ w) ∨ c = Q.blank ∨ c ∈ Q.quotes) ↔ ∀ w ∈ ws, Writable Q w := by
  constructor
  · rintro ⟨line, rfl, -⟩ w hw
    exact writable_of_mem_words hw
  · intro h
    induction ws with
    | nil => exact ⟨[], words_nil, by simp, by simp⟩
    | cons w ws ih =>
      rw [List.forall_mem_cons] at h
      obtain ⟨line, hline, hlen, hchars⟩ := ih h.2
      obtain ⟨line', hline', hlen', hchars'⟩ := h.1.exists_line line
      refine ⟨line', by rw [hline', hline], ?_, ?_⟩
      · rw [List.map_cons, List.sum_cons]
        omega
      · intro c hc
        rcases hchars' c hc with hcw | hcl | hcq
        · exact Or.inl ⟨w, List.mem_cons_self .., hcw⟩
        · rcases hchars c hcl with ⟨v, hv, hcv⟩ | hcq
          · exact Or.inl ⟨v, List.mem_cons_of_mem _ hv, hcv⟩
          · exact Or.inr hcq
        · exact Or.inr hcq

end Streams
