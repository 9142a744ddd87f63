import Mathlib.Data.List.Flatten
import LabelPlacement.Label.Request

/-!
# Words and lines

How many lines a label has. A text joined from parts has the words of its parts
(`wordsOf_intercalate`), and words put on several lines fill exactly as many, unless there are too
few of them (`Words.length_balance`). So a label with more words never has fewer lines, and it has
something to be seen as long as one level of its lines, or one symbol, is not hidden
(`Request.hasVisibleContent_iff`).
-/

namespace LabelPlacement

variable {α : Type}

/-! ### The words of a text -/

namespace Text

theorem wordsFrom_append_blank {blank : Char} (hblank : isBlank blank = true)
    (unfinished text rest : List Char) :
    wordsFrom unfinished (text ++ blank :: rest) = wordsFrom unfinished text ++ words rest := by
  induction text generalizing unfinished with
  | nil =>
    simp only [List.nil_append, wordsFrom, hblank, if_true, words]
    split <;> rfl
  | cons character text ih =>
    rw [List.cons_append, wordsFrom, wordsFrom]
    split
    · split
      · exact ih []
      · rw [ih, List.cons_append]
    · exact ih _

theorem ne_nil_of_mem_wordsFrom {word unfinished text : List Char}
    (hmem : word ∈ wordsFrom unfinished text) : word ≠ [] := by
  induction text generalizing unfinished with
  | nil =>
    rw [wordsFrom] at hmem
    split at hmem
    · cases hmem
    · rename_i hunfinished
      rw [List.mem_singleton.mp hmem]
      simpa using hunfinished
  | cons character text ih =>
    rw [wordsFrom] at hmem
    split at hmem
    · split at hmem
      · exact ih hmem
      · rename_i hunfinished
        obtain rfl | hrest := List.mem_cons.mp hmem
        · simpa using hunfinished
        · exact ih hrest
    · exact ih hmem

end Text

theorem ne_empty_of_mem_wordsOf {word text : String} (hmem : word ∈ wordsOf text) : word ≠ "" := by
  obtain ⟨characters, hcharacters, rfl⟩ := List.mem_map.mp hmem
  intro hempty
  exact Text.ne_nil_of_mem_wordsFrom hcharacters (by simpa using hempty)

theorem wordsOf_append_space (text rest : String) :
    wordsOf (text ++ " " ++ rest) = wordsOf text ++ wordsOf rest := by
  have hwords := Text.wordsFrom_append_blank (show Text.isBlank ' ' = true by decide) []
    text.toList rest.toList
  rw [wordsOf, wordsOf, wordsOf, ← List.map_append, ← Text.words, ← Text.words] at *
  rw [← hwords]
  simp [String.toList_append]

/-- A text joined from parts has the words of its parts. -/
theorem wordsOf_intercalate (texts : List String) :
    wordsOf (" ".intercalate texts) = texts.flatMap wordsOf := by
  induction texts with
  | nil => rfl
  | cons text rest ih =>
    cases rest with
    | nil => simp
    | cons next rest =>
      rw [String.intercalate_cons_cons, wordsOf_append_space, ih]
      rfl

/-! ### Words on several lines -/

namespace Words

theorem append_ne_empty (line : String) {word : String} (hword : word ≠ "") :
    append line word ≠ "" := by
  rw [append]
  split
  · exact hword
  · simp

/-- Behind a line that is begun, all lines that are still allowed are filled. -/
theorem length_fill {target opening : Nat} {line : String} {words : List String}
    (hline : line ≠ "") (hwords : ∀ word ∈ words, word ≠ "") (hopening : opening ≤ words.length) :
    (fill target opening line words).length = opening + 1 := by
  induction words generalizing opening line with
  | nil =>
    rw [Nat.le_zero.mp hopening]
    rfl
  | cons word rest ih =>
    have hword := hwords word List.mem_cons_self
    have hrest : ∀ other ∈ rest, other ≠ "" :=
      fun other hother => hwords other (List.mem_cons_of_mem _ hother)
    rw [List.length_cons] at hopening
    cases opening with
    | zero => exact ih (append_ne_empty line hword) hrest (Nat.zero_le _)
    | succ opening =>
      rw [fill]
      split
      · rw [List.length_cons, ih hword hrest (by omega)]
      · rename_i hgoesOn
        refine ih (append_ne_empty line hword) hrest ?_
        have hmany : ¬ rest.length + 1 ≤ opening + 1 := fun hfew => hgoesOn (by simp [hline, hfew])
        omega

/-- Enough words fill all lines, too few of them a single one. -/
theorem length_balance {words : List String} {lines : Nat} (hwords : ∀ word ∈ words, word ≠ "")
    (hlines : 0 < lines) :
    (balance words lines).length = if words.length < lines then min 1 words.length else lines := by
  rw [balance]
  cases words with
  | nil => simp [hlines]
  | cons word rest =>
    by_cases hfew : lines ≤ 1 ∨ (word :: rest).length < lines
    · rw [if_pos (by simpa using hfew)]
      simp only [List.isEmpty_cons, Bool.false_eq_true, if_false, List.length_cons,
        List.length_nil] at hfew ⊢
      split <;> omega
    · obtain ⟨opening, rfl⟩ : ∃ opening, lines = opening + 2 := ⟨lines - 2, by omega⟩
      rw [if_neg (by simpa using hfew)]
      have hfirst : ∀ target, fill target (opening + 1) "" (word :: rest) =
          fill target (opening + 1) word rest := fun target => by
        rw [fill]
        simp [append]
      rw [show opening + 2 - 1 = opening + 1 by omega, hfirst,
        length_fill (hwords word List.mem_cons_self)
          (fun other hother => hwords other (List.mem_cons_of_mem _ hother))
          (by simp at hfew; omega),
        if_neg (by omega)]

end Words

/-! ### What is left to be seen -/

namespace Request

theorem ne_empty_of_mem_words {request : Request α} {word : String} (hmem : word ∈ request.words) :
    word ≠ "" := by
  obtain ⟨text, _, hword⟩ := List.mem_flatMap.mp hmem
  exact ne_empty_of_mem_wordsOf hword

theorem length_baseLines (request : Request α) :
    request.baseLines.length =
      if 1 < request.working.stackLines then
        if request.words.length < request.working.stackLines then min 1 request.words.length
        else request.working.stackLines
      else request.content.visibleTexts.length := by
  rw [baseLines]
  split
  · exact Words.length_balance (fun _ => ne_empty_of_mem_words) (by omega)
  · rfl

theorem visibleLevels_ne_nil_iff {hiddenLevels : List Nat} {first : Nat} {lines : List String} :
    visibleLevels hiddenLevels first lines ≠ [] ↔
      ∃ level, first ≤ level ∧ level < first + lines.length ∧ level ∉ hiddenLevels := by
  induction lines generalizing first with
  | nil =>
    simp only [visibleLevels, ne_eq, not_true_eq_false, List.length_nil, false_iff]
    rintro ⟨level, habove, hbelow, _⟩
    omega
  | cons line rest ih =>
    rw [visibleLevels]
    split
    · rename_i hhidden
      rw [ih, List.length_cons]
      constructor
      · rintro ⟨level, habove, hbelow, hshown⟩
        exact ⟨level, by omega, by omega, hshown⟩
      · rintro ⟨level, habove, hbelow, hshown⟩
        have hother : level ≠ first := by
          rintro rfl
          exact hshown (by simpa using hhidden)
        exact ⟨level, by omega, by omega, hshown⟩
    · rename_i hshown
      refine iff_of_true (by simp) ⟨first, Nat.le_refl _, ?_, by simpa using hshown⟩
      rw [List.length_cons]
      omega

/-- Something is to be seen as long as one level of the lines or one symbol is not hidden. -/
theorem hasVisibleContent_iff {request : Request α} :
    request.hasVisibleContent = true ↔
      (∃ level, 1 ≤ level ∧ level ≤ request.baseLines.length ∧
        level ∉ request.working.hiddenLevels) ∨
      ∃ symbol ∈ request.content.symbols, symbol.hidden = false := by
  have hlines : request.lines ≠ [] ↔ ∃ level, 1 ≤ level ∧ level ≤ request.baseLines.length ∧
      level ∉ request.working.hiddenLevels := by
    rw [lines, visibleLevels_ne_nil_iff]
    refine exists_congr fun level => and_congr_right fun _ => and_congr_left' ?_
    omega
  have hsymbols : request.visibleSymbols ≠ [] ↔
      ∃ symbol ∈ request.content.symbols, symbol.hidden = false := by
    simp [visibleSymbols, Content.visibleSymbols]
  rw [← hlines, ← hsymbols, hasVisibleContent, Bool.or_eq_true]
  simp

end Request

end LabelPlacement
