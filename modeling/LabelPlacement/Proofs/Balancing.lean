import Mathlib.Data.Rat.Floor
import LabelPlacement.Proofs.Exact
import LabelPlacement.Proofs.Lines

/-!
# Balanced lines

Words are put on lines in order, a line being closed where the next word would make it too long or
where the words left are just enough for the lines left. Each line is a block of consecutive words
(`Words.exists_blocks_fill`), and there are as many lines as were asked for: the lines finished, the
present one and those still to be opened always add up to that number, so the number still to be
opened is never taken below zero (`Words.exists_distribute?`).

A label that is stacked on some number of lines therefore shows all of its words, in order, on just
that many lines.
-/

namespace LabelPlacement

/-! ### The words of a word -/

namespace Text

theorem isBlank_of_mem_wordsFrom {word unfinished text : List Char}
    (hunfinished : ∀ character ∈ unfinished, isBlank character = false)
    (hmem : word ∈ wordsFrom unfinished text) : ∀ character ∈ word, isBlank character = false := by
  induction text generalizing unfinished with
  | nil =>
    rw [wordsFrom] at hmem
    split at hmem
    · cases hmem
    · rw [List.mem_singleton.mp hmem]
      exact fun character hin => hunfinished character (List.mem_reverse.mp hin)
  | cons first text ih =>
    rw [wordsFrom] at hmem
    split at hmem
    · split at hmem
      · exact ih (by simp) hmem
      · obtain rfl | hrest := List.mem_cons.mp hmem
        · exact fun character hin => hunfinished character (List.mem_reverse.mp hin)
        · exact ih (by simp) hrest
    · rename_i hfirst
      refine ih (fun character hin => ?_) hmem
      obtain rfl | hin := List.mem_cons.mp hin
      · simpa using hfirst
      · exact hunfinished character hin

theorem wordsFrom_of_forall {unfinished text : List Char}
    (htext : ∀ character ∈ text, isBlank character = false)
    (hsome : unfinished.reverse ++ text ≠ []) :
    wordsFrom unfinished text = [unfinished.reverse ++ text] := by
  induction text generalizing unfinished with
  | nil =>
    have hunfinished : unfinished ≠ [] := by simpa using hsome
    simp [wordsFrom, hunfinished]
  | cons first text ih =>
    rw [List.forall_mem_cons] at htext
    rw [wordsFrom, if_neg (by simp [htext.1]), ih htext.2 (by simp)]
    simp

end Text

/-- A word is its own only word. -/
theorem wordsOf_of_mem {word text : String} (hmem : word ∈ wordsOf text) :
    wordsOf word = [word] := by
  obtain ⟨characters, hcharacters, rfl⟩ := List.mem_map.mp hmem
  have hwords : Text.words characters = [characters] := Text.wordsFrom_of_forall
    (Text.isBlank_of_mem_wordsFrom (by simp) hcharacters) (Text.ne_nil_of_mem_wordsFrom hcharacters)
  rw [wordsOf, String.toList_ofList, hwords]
  rfl

namespace Words

/-! ### Lengths -/

theorem join_cons_cons (word next : String) (rest : List String) :
    join (word :: next :: rest) = word ++ " " ++ join (next :: rest) :=
  String.intercalate_cons_cons

theorem joinedLength_cons_cons (word next : String) (rest : List String) :
    joinedLength (word :: next :: rest) = word.length + 1 + joinedLength (next :: rest) := by
  rw [joinedLength]
  simp

/-- All characters of the words, and a space between each two. -/
theorem joinedLength_eq (words : List String) :
    joinedLength words = (words.map String.length).sum + (words.length - 1) := by
  induction words with
  | nil => rfl
  | cons word rest ih =>
    cases rest with
    | nil => simp [joinedLength]
    | cons next rest =>
      rw [joinedLength_cons_cons, ih]
      simp only [List.map_cons, List.sum_cons, List.length_cons]
      omega

theorem ceil_share (total : Nat) {lines : Nat} (hlines : 0 < lines) :
    ⌈(total : ℚ) / lines⌉₊ = (total + lines - 1) / lines := by
  refine eq_of_forall_ge_iff fun bound => ?_
  have hpos : (0 : ℚ) < lines := by exact_mod_cast hlines
  rw [Nat.ceil_le, div_le_iff₀ hpos, Nat.div_le_iff_le_mul_add_pred hlines]
  norm_cast
  rw [Nat.mul_comm]
  omega

/-! ### Blocks of words -/

theorem join_ne_empty {words : List String} (hwords : ∀ word ∈ words, word ≠ "")
    (hsome : words ≠ []) : join words ≠ "" := by
  cases words with
  | nil => exact absurd rfl hsome
  | cons word rest =>
    cases rest with
    | nil =>
      rw [join, String.intercalate_singleton]
      exact hwords word List.mem_cons_self
    | cons next rest =>
      rw [join_cons_cons]
      simp

theorem append_join {words : List String} (hwords : ∀ word ∈ words, word ≠ "")
    (hsome : words ≠ []) (word : String) : append (join words) word = join (words ++ [word]) := by
  rw [append, if_neg (by simpa using join_ne_empty hwords hsome)]
  clear hwords
  induction words with
  | nil => exact absurd rfl hsome
  | cons first rest ih =>
    cases rest with
    | nil => simp [join]
    | cons next rest =>
      rw [join_cons_cons, List.cons_append, List.cons_append, join_cons_cons,
        ← List.cons_append, ← ih (by simp)]
      simp [String.append_assoc]

/-- A block of words fits a line, unless it is a single word. -/
def Fits (target : Nat) (block : List String) : Prop :=
  (join block).length ≤ target ∨ block.length = 1

/-- The lines are the blocks of words joined, in order, and all but the last block fit. -/
structure Divided (target : Nat) (words : List String) (blocks : List (List String))
    (lines : List String) : Prop where
  lines : lines = blocks.map join
  words : blocks.flatten = words
  nonempty : ∀ block ∈ blocks, block ≠ []
  fits : ∀ block ∈ blocks.dropLast, Fits target block

theorem Divided.single {target : Nat} {block : List String} (hblock : block ≠ []) :
    Divided target block [block] [join block] where
  lines := rfl
  words := List.append_nil block
  nonempty other hmem := by rwa [List.mem_singleton.mp hmem]
  fits other hmem := absurd hmem List.not_mem_nil

theorem Divided.cons {target : Nat} {words block : List String} {blocks : List (List String)}
    {lines : List String} (hdivided : Divided target words blocks lines) (hblock : block ≠ [])
    (hfits : Fits target block) :
    Divided target (block ++ words) (block :: blocks) (join block :: lines) where
  lines := by rw [hdivided.lines, List.map_cons]
  words := by rw [List.flatten_cons, hdivided.words]
  nonempty := List.forall_mem_cons.mpr ⟨hblock, hdivided.nonempty⟩
  fits other hmem := by
    cases blocks with
    | nil => exact absurd hmem List.not_mem_nil
    | cons next rest =>
      obtain rfl | hmem := List.mem_cons.mp hmem
      · exact hfits
      · exact hdivided.fits other hmem

/-- Words behind a line that is begun are divided into blocks, the line begun being the first part
of the first one. -/
theorem exists_blocks_fill {target : Nat} (opening : Nat) {begun words : List String}
    (hbegun : begun ≠ [])
    (hfits : Fits target begun ∨ opening = 0) (hwords : ∀ word ∈ begun ++ words, word ≠ "") :
    ∃ blocks,
      Divided target (begun ++ words) blocks (fill target opening (join begun) words) := by
  induction words generalizing opening begun with
  | nil =>
    refine ⟨[begun], ?_⟩
    rw [List.append_nil, fill]
    exact .single hbegun
  | cons word rest ih =>
    have hbefore : ∀ other ∈ begun, other ≠ "" :=
      fun other hmem => hwords other (List.mem_append_left _ hmem)
    have hline : join begun ≠ "" := join_ne_empty hbefore hbegun
    have hlonger : begun ++ word :: rest = (begun ++ [word]) ++ rest := by simp
    cases opening with
    | zero =>
      rw [fill, append_join hbefore hbegun, hlonger]
      exact ih 0 (by simp) (Or.inr rfl) (hlonger ▸ hwords)
    | succ opening =>
      rw [fill]
      split
      · obtain ⟨blocks, hdivided⟩ := ih opening (List.cons_ne_nil word []) (Or.inl (Or.inr rfl))
          fun other hmem => hwords other (List.mem_append_right _ hmem)
        have hword : join [word] = word := String.intercalate_singleton
        rw [hword] at hdivided
        exact ⟨begun :: blocks, hdivided.cons hbegun (hfits.resolve_right (by simp))⟩
      · rename_i hgoesOn
        rw [append_join hbefore hbegun, hlonger]
        refine ih (opening + 1) (by simp) (Or.inl (Or.inl ?_)) (hlonger ▸ hwords)
        have hspace : " ".length = 1 := rfl
        rw [← append_join hbefore hbegun, append, if_neg (by simpa using hline),
          String.length_append, String.length_append, hspace]
        exact Nat.not_lt.mp fun hlong => hgoesOn (by simp [hline, hlong])

/-- The first word begins the first line. -/
theorem balance_cons {word : String} {rest : List String} {lines : Nat} (hlines : 2 ≤ lines)
    (hmany : lines ≤ (word :: rest).length) :
    balance (word :: rest) lines =
      fill ((joinedLength (word :: rest) + lines - 1) / lines) (lines - 1) word rest := by
  obtain ⟨opening, hopening⟩ : ∃ opening, lines - 1 = opening + 1 := ⟨lines - 2, by omega⟩
  rw [balance, if_neg (by simp at hmany ⊢; omega), hopening, fill]
  simp [append]

/-- Enough words are divided into blocks, one for each line, within the length that all lines would
have if they were equally long. -/
theorem exists_blocks_balance {words : List String} {lines : Nat}
    (hwords : ∀ word ∈ words, word ≠ "") (hlines : 2 ≤ lines) (hmany : lines ≤ words.length) :
    ∃ blocks,
      Divided ((joinedLength words + lines - 1) / lines) words blocks (balance words lines) := by
  cases words with
  | nil => simp at hmany; omega
  | cons word rest =>
    have hfirst : join [word] = word := String.intercalate_singleton
    obtain ⟨blocks, hdivided⟩ := exists_blocks_fill
      (lines - 1) (List.cons_ne_nil word []) (Or.inl (Or.inr rfl)) hwords
    refine ⟨blocks, ?_⟩
    rw [balance_cons hlines hmany]
    rwa [hfirst] at hdivided

theorem Divided.ne_empty {target : Nat} {words lines : List String} {blocks : List (List String)}
    (hdivided : Divided target words blocks lines) (hwords : ∀ word ∈ words, word ≠ "") :
    ∀ line ∈ lines, line ≠ "" := by
  intro line hline
  rw [hdivided.lines] at hline
  obtain ⟨block, hblock, rfl⟩ := List.mem_map.mp hline
  refine join_ne_empty (fun word hword => hwords word ?_) (hdivided.nonempty block hblock)
  rw [← hdivided.words]
  exact List.mem_flatten.mpr ⟨block, hblock, hword⟩

/-- The words of the lines, in order, are the words that were divided. -/
theorem Divided.flatMap_wordsOf {target : Nat} {words lines : List String}
    {blocks : List (List String)} (hdivided : Divided target words blocks lines)
    (hwords : ∀ word ∈ words, wordsOf word = [word]) : lines.flatMap wordsOf = words := by
  have hown : words.flatMap wordsOf = words := by
    rw [List.flatMap_def, List.map_congr_left hwords, ← List.flatMap_def, List.flatMap_singleton']
  calc lines.flatMap wordsOf = blocks.flatMap fun block => block.flatMap wordsOf := by
        rw [hdivided.lines, List.flatMap_map]
        exact congrArg (List.flatMap · blocks) (funext wordsOf_intercalate)
    _ = blocks.flatten.flatMap wordsOf := by rw [List.flatten_eq_flatMap, List.flatMap_assoc]; rfl
    _ = words := by rw [hdivided.words, hown]

/-! ### Lines still to be opened -/

/-- A distribution under way: the lines that are finished, and the one that is being filled. -/
structure Distribution where
  finished : List String
  line : String

/-- Puts the next of `left` words on the present line or on a new one.  The number of lines still to
be opened is what is left of all lines without the finished ones and the present one; nothing comes
of it when there are more than that. -/
def Distribution.next? (target lines left : Nat) (distribution : Distribution) (word : String) :
    Option Distribution :=
  let ⟨finished, line⟩ := distribution
  if finished.length + 1 ≤ lines then
    let opening := lines - finished.length - 1
    let mustBreak := left ≤ opening
    let tooLong := target < line.length + 1 + word.length
    if !line.isEmpty && 0 < opening && (mustBreak || tooLong) then some ⟨finished ++ [line], word⟩
    else some ⟨finished, append line word⟩
  else none

/-- Puts all words on lines. -/
def distribute? (target lines : Nat) : Distribution → List String → Option Distribution
  | distribution, [] => some distribution
  | distribution, word :: rest =>
    (distribution.next? target lines (rest.length + 1) word).bind (distribute? target lines · rest)

/-- The lines finished, the present one and those to be opened stay as many as were asked for. -/
theorem exists_distribute? {target opening lines : Nat} {words : List String}
    (finished : List String) (line : String) (hlines : finished.length + 1 + opening = lines) :
    ∃ last, distribute? target lines ⟨finished, line⟩ words = some last ∧
      last.finished ++ [last.line] = finished ++ fill target opening line words := by
  induction words generalizing opening finished line with
  | nil => exact ⟨⟨finished, line⟩, rfl, rfl⟩
  | cons word rest ih =>
    have hopening : lines - finished.length - 1 = opening := by omega
    rw [distribute?, Distribution.next?, if_pos (by omega), hopening]
    cases opening with
    | zero =>
      simp only [Nat.lt_irrefl, decide_false, Bool.and_false, Bool.false_and, Bool.false_eq_true,
        if_false, Option.bind_some]
      exact ih finished (append line word) hlines
    | succ opening =>
      simp only [Nat.zero_lt_succ, decide_true, Bool.and_true, fill]
      split
      · obtain ⟨last, hlast, hfinal⟩ := ih (finished ++ [line]) word
          (by rw [List.length_append, List.length_singleton]; omega : _ + 1 + opening = lines)
        refine ⟨last, hlast, hfinal.trans ?_⟩
        rw [List.append_assoc, List.singleton_append]
      · exact ih finished (append line word) hlines

end Words

namespace Request

variable {α : Type}

/-! ### Stacking -/

theorem visibleLevels_nil (first : Nat) (lines : List String) :
    visibleLevels [] first lines = lines := by
  induction lines generalizing first with
  | nil => rfl
  | cons line rest ih => rw [visibleLevels, if_neg (by simp), ih]

theorem lines_of_hiddenLevels_eq_nil {request : Request α}
    (hshown : request.working.hiddenLevels = []) : request.lines = request.baseLines := by
  rw [lines, hshown, visibleLevels_nil]

theorem stack?_eq {request : Request α} {lines : Nat} (hlines : 0 < lines) :
    request.stack? lines =
      if lines ≤ request.words.length then some (request.withStackLines lines) else none := by
  by_cases hmany : lines ≤ request.words.length
  · rw [stack?, if_pos hmany, if_neg (by simp; omega)]
  · rw [stack?, if_neg hmany, if_pos (by simp; omega)]

theorem wordsOf_of_mem_words {request : Request α} {word : String} (hmem : word ∈ request.words) :
    wordsOf word = [word] := by
  obtain ⟨text, -, hword⟩ := List.mem_flatMap.mp hmem
  exact wordsOf_of_mem hword

end Request

/-- **Balanced lines.** Enough words are put on just as many lines as are asked for, each with a
block of consecutive words. All lines but the last are no longer than the rounded up share of a line
in all characters and spaces, or have a single word. The number of lines still to be opened is never
taken below zero on the way. So a label can be stacked on two or more lines just when it has as many
words, and otherwise there is only the request at hand to go on with. The lines of a stacked label
are as many and have all its words in order, which the lines of a label that is not stacked have as
well. -/
theorem balanced_lines_have_all_words {α : Type} :
    (∀ (words : List String) (lines : Nat), (∀ word ∈ words, word ≠ "") → 2 ≤ lines →
      lines ≤ words.length →
      let total := (words.map String.length).sum + (words.length - 1)
      let target := ⌈(total : ℚ) / lines⌉₊
      (Words.balance words lines).length = lines ∧
      (∀ line ∈ Words.balance words lines, line ≠ "") ∧
      (∃ blocks, Words.Divided target words blocks (Words.balance words lines)) ∧
      ∃ last, Words.distribute? target lines ⟨[], ""⟩ words = some last ∧
        last.finished ++ [last.line] = Words.balance words lines) ∧
    (∀ (request : Request α) (lines : Nat), 2 ≤ lines →
      ((request.stack? lines).isSome = true ↔ lines ≤ request.words.length) ∧
      (request.words.length < lines → (request.stack? lines).getD request = request) ∧
      ∀ stacked, request.stack? lines = some stacked →
        stacked.words = request.words ∧ stacked.lines.length = lines ∧
        stacked.lines.flatMap wordsOf = request.words) ∧
    ∀ request : Request α, request.working.stackLines = 1 → request.working.hiddenLevels = [] →
      request.lines.flatMap wordsOf = request.words := by
  refine ⟨fun words lines hwords hlines hmany => ?_, fun request lines hlines => ?_,
    fun request hone hshown => ?_⟩
  · intro total target
    have htarget : target = (Words.joinedLength words + lines - 1) / lines := by
      rw [Words.joinedLength_eq]
      exact Words.ceil_share total (by omega)
    obtain ⟨blocks, hdivided⟩ := Words.exists_blocks_balance hwords hlines hmany
    rw [htarget]
    refine ⟨?_, hdivided.ne_empty hwords, ⟨blocks, hdivided⟩, ?_⟩
    · rw [Words.length_balance hwords (by omega), if_neg (by omega)]
    · rw [Words.balance, if_neg (by simp; omega)]
      exact Words.exists_distribute? [] "" (by simp; omega)
  · rw [Request.stack?_eq (by omega)]
    split
    · rename_i hmany
      refine ⟨by simpa using hmany, fun hfew => absurd hmany (by omega), ?_⟩
      rintro stacked ⟨⟩
      have hlevels : (request.withStackLines lines).working.hiddenLevels = [] := rfl
      have hbase : (request.withStackLines lines).baseLines =
          Words.balance request.words lines := if_pos hlines
      rw [Request.lines_of_hiddenLevels_eq_nil hlevels, hbase]
      obtain ⟨blocks, hdivided⟩ :=
        Words.exists_blocks_balance (fun _ => Request.ne_empty_of_mem_words) hlines hmany
      refine ⟨rfl, ?_, hdivided.flatMap_wordsOf fun _ => Request.wordsOf_of_mem_words⟩
      rw [Words.length_balance (fun _ => Request.ne_empty_of_mem_words) (by omega),
        if_neg (by omega)]
    · rename_i hfew
      exact ⟨by simpa using hfew, fun _ => rfl, fun stacked hnone => absurd hnone (by simp)⟩
  · rw [Request.lines_of_hiddenLevels_eq_nil hshown, Request.baseLines, if_neg (by omega)]
    rfl

/-- The first of three lines has a word that is longer than its share, and the second one is closed
so that a word is left for the third. -/
theorem long_name_fills_three_lines :
    let words := ["Neustadt", "an", "der", "Aisch"]
    let request : Request Rat :=
      .create 1 1 "town" (.point ⟨0, 0⟩) (.single "Neustadt an  der Aisch") ⟨10, ⟨1, 1⟩⟩
    (∀ word ∈ words, word ≠ "") ∧ 3 ≤ words.length ∧
      Words.balance words 3 = ["Neustadt", "an der", "Aisch"] ∧
      (Words.balance words 3).length = 3 ∧
      ∃ stacked, request.stack? 3 = some stacked ∧ stacked.lines.length = 3 ∧
        stacked.lines.flatMap wordsOf = words := by
  intro words request
  have hwords : ∀ word ∈ words, word ≠ "" := by decide
  have hmany : 3 ≤ words.length := by decide
  obtain ⟨hbalance, hstack, -⟩ := balanced_lines_have_all_words (α := Rat)
  obtain ⟨hlength, -⟩ := hbalance words 3 hwords (by decide) hmany
  obtain ⟨hsome, -, hstacked⟩ := hstack request 3 (by decide)
  have hrequest : request.words = words := by decide +kernel
  obtain ⟨stacked, hfound⟩ := Option.isSome_iff_exists.mp (hsome.mpr (hrequest ▸ hmany))
  obtain ⟨-, hlines, hall⟩ := hstacked stacked hfound
  exact ⟨hwords, hmany, by decide +kernel, hlength, stacked, hfound, hlines, hall.trans hrequest⟩

end LabelPlacement
