import Mathlib.Data.List.Infix

/-!
The words of a text: its longest runs without a breaking character.
-/
namespace Words

variable {α : Type*} {breaks : α → Bool} {front back text word : List α}

def words (breaks : α → Bool) (text : List α) : List (List α) :=
  (text.splitOnP breaks).filter (fun word => !word.isEmpty)

theorem words_append_break {c : α} (isBreak : breaks c = true) (front back : List α) :
    words breaks (front ++ c :: back) = words breaks front ++ words breaks back := by
  rw [words, List.splitOnP_append_cons front back isBreak, List.filter_append]
  rfl

theorem words_unbroken (filled : word ≠ []) (unbroken : ∀ c ∈ word, breaks c = false) :
    words breaks word = [word] := by
  rw [words, List.splitOnP_eq_singleton unbroken]
  simp [filled]

theorem mem_words_of_split (filled : word ≠ []) (unbroken : ∀ c ∈ word, breaks c = false)
    (left : front = [] ∨ ∃ before c, front = before ++ [c] ∧ breaks c = true)
    (right : back = [] ∨ ∃ c after, back = c :: after ∧ breaks c = true) :
    word ∈ words breaks (front ++ (word ++ back)) := by
  have first : word ∈ words breaks (word ++ back) := by
    rcases right with rfl | ⟨c, after, rfl, isBreak⟩
    · rw [List.append_nil, words_unbroken filled unbroken]
      exact List.mem_singleton_self word
    · rw [words_append_break isBreak, words_unbroken filled unbroken]
      exact List.mem_append_left _ (List.mem_singleton_self word)
  rcases left with rfl | ⟨before, c, rfl, isBreak⟩
  · exact first
  · rw [List.append_assoc, List.singleton_append, words_append_break isBreak]
    exact List.mem_append_right _ first

end Words
