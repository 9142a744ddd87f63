import Mathlib
import LabelPlacement.Hide.Grammar

/-!
# The grammar of hide attempts

What a text of hide attempts stands for is given here by a grammar that does not know of a reader:
parts with separators between them, down to the letters of a keyword, the digits of a level and the
blanks around every token. Reading a text and deriving it come to the same
(`HideText.parse_eq_ok_iff_derives`). The reader goes from left to right and never back, so both
directions are stated for a text with more text behind it: what has been read is a part of the
grammar, and a part of the grammar in front is what is read.
-/

namespace LabelPlacement.HideText

/-! ### The grammar -/

/-- Nothing but blanks. -/
def Blanks (text : List Char) : Prop := ∀ character ∈ text, Text.isBlank character = true

/-- A name as it may stand in a group: no character of the text separates, and between blanks there
is the name, which begins and ends with other characters. -/
structure NameText (name text : List Char) : Prop where
  padded : ∃ before after, Blanks before ∧ Blanks after ∧ text = before ++ name ++ after
  ne_nil : name ≠ []
  first : ∀ character ∈ name.head?, Text.isBlank character = false
  last : ∀ character ∈ name.getLast?, Text.isBlank character = false
  characters : ∀ character ∈ text, character ∉ [',', '(', ')', '&']

/-- A number in decimal digits, zeros in front of it allowed, and a plus sign in front of these. -/
def Numeral (value : Nat) (text : List Char) : Prop :=
  ∃ digits, (text = digits ∨ text = '+' :: digits) ∧ digits ≠ [] ∧
    (∀ digit ∈ digits, digit.isDigit = true) ∧ Nat.ofDigitChars 10 digits 0 = value

/-- An element in a group of a kind: a name, or in a group of levels a number from 1 on that has 32
bits. -/
inductive ItemText : ElementKind → Element → List Char → Prop
  | textComponent {name text : List Char} (hname : NameText name text) :
      ItemText .textComponent (.textComponent (String.ofList name)) text
  | symbolComponent {name text : List Char} (hname : NameText name text) :
      ItemText .symbolComponent (.symbolComponent (String.ofList name)) text
  | textObject {name text : List Char} (hname : NameText name text) :
      ItemText .textObject (.textObject (String.ofList name)) text
  | stackLevel {name text : List Char} {level : Nat} (hname : NameText name text)
      (hnumeral : Numeral level name) (hpositive : 1 ≤ level) (hlevel : level < 2 ^ 32) :
      ItemText .stackLevel (.stackLevel level) text

/-- One or more parts, with a separator between any two of them. -/
inductive Parts {ι : Type} (separator : Char) (part : ι → List Char → Prop) :
    List ι → List Char → Prop
  | one {element : ι} {text : List Char} (hpart : part element text) :
      Parts separator part [element] text
  | cons {element : ι} {elements : List ι} {text rest : List Char} (hpart : part element text)
      (hrest : Parts separator part elements rest) :
      Parts separator part (element :: elements) (text ++ separator :: rest)

/-- The keyword of a kind, each letter in upper or lower case. -/
def KeywordText (kind : ElementKind) (text : List Char) : Prop :=
  List.Forall₂ (fun upper letter => letter = upper ∨ letter = upper.toLower) kind.keyword text

/-- A keyword and elements in parentheses, with blanks around every token. -/
inductive GroupText : HideGroup → List Char → Prop
  | intro {kind : ElementKind} {targets : List Element}
      {before keyword between inner after : List Char}
      (hbefore : Blanks before) (hkeyword : KeywordText kind keyword) (hbetween : Blanks between)
      (htargets : Parts ',' (ItemText kind) targets inner) (hafter : Blanks after) :
      GroupText ⟨kind, targets⟩ (before ++ keyword ++ between ++ '(' :: inner ++ ')' :: after)

/-- Groups with ampersands between them. -/
def AttemptText (attempt : HideAttempt) (text : List Char) : Prop :=
  Parts '&' GroupText attempt.groups text

/-- The attempts are derived from a text: it has them in order, with commas between them. -/
def Derives (attempts : List HideAttempt) (text : List Char) : Prop :=
  Parts ',' AttemptText attempts text

/-! ### Runs of characters -/

/-- A text does not go on with an accepted character. -/
def Stops (accepts : Char → Bool) (text : List Char) : Prop :=
  ∀ character ∈ text.head?, accepts character = false

theorem takeWhile_append_of_stops {accepts : Char → Bool} {front rest : List Char}
    (hfront : ∀ character ∈ front, accepts character = true) (hstops : Stops accepts rest) :
    (front ++ rest).takeWhile accepts = front := by
  rw [List.takeWhile_append_of_pos hfront]
  cases rest with
  | nil => simp
  | cons first rest => simp [hstops first rfl]

theorem dropWhile_append_of_stops {accepts : Char → Bool} {front rest : List Char}
    (hfront : ∀ character ∈ front, accepts character = true) (hstops : Stops accepts rest) :
    (front ++ rest).dropWhile accepts = rest := by
  rw [List.dropWhile_append_of_pos hfront]
  cases rest with
  | nil => rfl
  | cons first rest => simp [hstops first rfl]

theorem stops_dropWhile (accepts : Char → Bool) (text : List Char) :
    Stops accepts (text.dropWhile accepts) := by
  intro character hmem
  have hhead := List.head?_dropWhile_not accepts text
  rwa [Option.mem_def.mp hmem] at hhead

/-! ### Names and levels -/

theorem isNameCharacter_iff {character : Char} :
    isNameCharacter character = true ↔ character ∉ [',', '(', ')', '&'] := by
  simp only [isNameCharacter, Bool.and_eq_true, bne_iff_ne, List.mem_cons, List.not_mem_nil]
  tauto

theorem NameText.trim_eq {name text : List Char} (hname : NameText name text) :
    Text.trim text = name := by
  obtain ⟨⟨before, after, hbefore, hafter, rfl⟩, hne, hfirst, hlast, _⟩ := hname
  have hleft : Stops Text.isBlank (name ++ after) := by
    intro character hmem
    refine hfirst character ?_
    rwa [List.head?_append_of_ne_nil _ hne] at hmem
  have hright : Stops Text.isBlank name.reverse := by
    intro character hmem
    exact hlast character (by rwa [List.head?_reverse] at hmem)
  rw [Text.trim, Text.trimLeft, List.append_assoc, dropWhile_append_of_stops hbefore hleft,
    Text.trimRight, List.reverse_append, dropWhile_append_of_stops _ hright, List.reverse_reverse]
  exact fun character hmem => hafter character (List.mem_reverse.mp hmem)

/-- What trimming leaves of a text stands in it between blanks. -/
theorem nameText_trim {text : List Char} (hne : Text.trim text ≠ [])
    (hcharacters : ∀ character ∈ text, isNameCharacter character = true) :
    NameText (Text.trim text) text := by
  have hleft : text = text.takeWhile Text.isBlank ++ Text.trimLeft text :=
    List.takeWhile_append_dropWhile.symm
  have hright : Text.trimLeft text = Text.trim text ++
      ((Text.trimLeft text).reverse.takeWhile Text.isBlank).reverse := by
    rw [Text.trim, Text.trimRight, ← List.reverse_append, List.takeWhile_append_dropWhile,
      List.reverse_reverse]
  refine ⟨⟨text.takeWhile Text.isBlank,
    ((Text.trimLeft text).reverse.takeWhile Text.isBlank).reverse, ?_, ?_, ?_⟩, hne, ?_, ?_, ?_⟩
  · exact fun character hmem => List.mem_takeWhile_imp hmem
  · exact fun character hmem => List.mem_takeWhile_imp (List.mem_reverse.mp hmem)
  · rw [List.append_assoc, ← hright, ← hleft]
  · intro character hmem
    refine stops_dropWhile Text.isBlank text character ?_
    rw [← Text.trimLeft, hright, List.head?_append_of_ne_nil _ hne]
    exact hmem
  · intro character hmem
    rw [Text.trim, Text.trimRight, List.getLast?_reverse] at hmem
    exact stops_dropWhile Text.isBlank _ character hmem
  · exact fun character hmem => isNameCharacter_iff.mp (hcharacters character hmem)

theorem decimalValue_eq (digits : List Char) :
    Text.decimalValue digits = Nat.ofDigitChars 10 digits 0 := by
  rw [Text.decimalValue, Nat.ofDigitChars_eq_foldl]
  rfl

/-- The digits of a numeral are what follows its sign, if there is one. -/
theorem numeral_iff {value : Nat} {text : List Char} :
    Numeral value text ↔
      let digits := if text.head? = some '+' then text.tail else text
      digits ≠ [] ∧ (∀ digit ∈ digits, digit.isDigit = true) ∧
        Text.decimalValue digits = value := by
  constructor
  · rintro ⟨digits, hsign, hne, hdigits, hvalue⟩
    have hunsigned : (if text.head? = some '+' then text.tail else text) = digits := by
      obtain rfl | rfl := hsign
      · refine if_neg fun hhead => ?_
        exact absurd (hdigits '+' (List.mem_of_head? hhead)) (by decide)
      · rfl
    rw [hunsigned]
    exact ⟨hne, hdigits, (decimalValue_eq digits).trans hvalue⟩
  · rintro ⟨hne, hdigits, hvalue⟩
    refine ⟨_, ?_, hne, hdigits, (decimalValue_eq _).symm.trans hvalue⟩
    split
    · rename_i hhead
      exact Or.inr (List.eq_cons_of_mem_head? hhead)
    · exact Or.inl rfl

theorem level?_eq_some_iff {name : List Char} {level : Nat} :
    level? name = some level ↔ Numeral level name ∧ 1 ≤ level ∧ level < 2 ^ 32 := by
  rw [numeral_iff, level?]
  generalize (if name.head? = some '+' then name.tail else name) = digits
  by_cases hdigits : digits ≠ [] ∧ ∀ digit ∈ digits, digit.isDigit = true
  · have hread : (digits.isEmpty || !digits.all Char.isDigit) = false := by
      simpa using hdigits
    simp only [hread, Bool.false_eq_true, if_false]
    constructor
    · intro hlevel
      split at hlevel
      · rename_i hbounds
        cases hlevel
        exact ⟨⟨hdigits.1, hdigits.2, rfl⟩, hbounds⟩
      · cases hlevel
    · rintro ⟨⟨-, -, rfl⟩, hbounds⟩
      exact if_pos hbounds
  · have hrefused : (digits.isEmpty || !digits.all Char.isDigit) = true := by
      rw [← Bool.not_eq_false]
      simpa using hdigits
    simp only [hrefused, if_true]
    exact ⟨nofun, fun hnumeral => absurd ⟨hnumeral.1.1, hnumeral.1.2.1⟩ hdigits⟩

/-! ### Keywords -/

theorem toUpper_eq_iff {upper letter : Char} (hupper : upper.isUpper = true) :
    letter.toUpper = upper ↔ letter = upper ∨ letter = upper.toLower := by
  constructor
  · rintro rfl
    by_cases hlower : letter.isLower = true
    · have hkept := Char.toLower_eq_of_not_isUpper (Char.not_isUpper_of_isLower hlower)
      exact Or.inr (by rw [Char.toLower_toUpper_eq_toLower, hkept])
    · exact Or.inl (Char.toUpper_eq_of_not_isLower hlower).symm
  · have hkept := Char.toUpper_eq_of_not_isLower (Char.not_isLower_of_isUpper hupper)
    rintro (rfl | rfl)
    · exact hkept
    · rw [Char.toUpper_toLower_eq_toUpper, hkept]

theorem forall₂_eitherCase_iff {uppers letters : List Char}
    (huppers : ∀ upper ∈ uppers, upper.isUpper = true) :
    List.Forall₂ (fun upper letter => letter = upper ∨ letter = upper.toLower) uppers letters ↔
      letters.map Char.toUpper = uppers := by
  induction uppers generalizing letters with
  | nil => simp
  | cons upper uppers ih =>
    rw [List.forall_mem_cons] at huppers
    cases letters with
    | nil => simp
    | cons letter letters =>
      rw [List.forall₂_cons, ih huppers.2, List.map_cons, List.cons.injEq,
        toUpper_eq_iff huppers.1]

theorem isUpper_of_mem_keyword {kind : ElementKind} :
    ∀ letter ∈ kind.keyword, letter.isUpper = true := by
  apply List.all_eq_true.mp
  cases kind <;> rfl

theorem keywordText_iff {kind : ElementKind} {text : List Char} :
    KeywordText kind text ↔ text.map Char.toUpper = kind.keyword :=
  forall₂_eitherCase_iff isUpper_of_mem_keyword

theorem ofKeyword?_eq_some_iff {text : List Char} {kind : ElementKind} :
    ElementKind.ofKeyword? text = some kind ↔ KeywordText kind text := by
  rw [keywordText_iff, ElementKind.ofKeyword?]
  generalize text.map Char.toUpper = upper
  split_ifs with htext hsymbol hobject hlevel
  all_goals cases kind <;> simp_all [ElementKind.keyword]

theorem KeywordText.ne_nil {kind : ElementKind} {text : List Char}
    (hkeyword : KeywordText kind text) : text ≠ [] := by
  rintro rfl
  have hempty := keywordText_iff.mp hkeyword
  cases kind <;> cases hempty

theorem KeywordText.isAlpha {kind : ElementKind} {text : List Char}
    (hkeyword : KeywordText kind text) : ∀ letter ∈ text, letter.isAlpha = true := by
  intro letter hmem
  have hupper : letter.toUpper ∈ kind.keyword :=
    keywordText_iff.mp hkeyword ▸ List.mem_map_of_mem hmem
  have hletters : kind.keyword.all Char.isAlpha = true := by cases kind <;> rfl
  rw [← Char.isAlpha_toUpper_eq_isAlpha]
  exact List.all_eq_true.mp hletters _ hupper

theorem isBlank_eq_false {character : Char}
    (hcode : 0x20 < character.toNat ∧ character.toNat < 0x7F) : Text.isBlank character = false := by
  simp only [Text.isBlank, Text.blankRanges, List.any_cons, List.any_nil, Bool.or_eq_false_iff,
    Bool.and_eq_false_iff, decide_eq_false_iff_not, and_true]
  omega

theorem isBlank_of_isAlpha {letter : Char} (halpha : letter.isAlpha = true) :
    Text.isBlank letter = false := by
  apply isBlank_eq_false
  simp only [Char.isAlpha, Char.isUpper, Char.isLower, Bool.or_eq_true, decide_eq_true_eq,
    UInt32.le_iff_toNat_le] at halpha
  change 32 < letter.val.toNat ∧ letter.val.toNat < 127
  grind

/-! ### Elements -/

theorem itemText_iff {kind : ElementKind} {found : Element} {text : List Char}
    (hcharacters : ∀ character ∈ text, isNameCharacter character = true) :
    ItemText kind found text ↔
      Text.trim text ≠ [] ∧ element kind (Text.trim text) = .ok found := by
  constructor
  · intro hitem
    cases hitem with
    | textComponent hname | symbolComponent hname | textObject hname =>
      rw [hname.trim_eq]
      exact ⟨hname.ne_nil, rfl⟩
    | stackLevel hname hnumeral hpositive hlevel =>
      rw [hname.trim_eq, element, level?_eq_some_iff.mpr ⟨hnumeral, hpositive, hlevel⟩]
      exact ⟨hname.ne_nil, rfl⟩
  · rintro ⟨hne, hfound⟩
    have hname := nameText_trim hne hcharacters
    cases kind with
    | textComponent => cases hfound; exact .textComponent hname
    | symbolComponent => cases hfound; exact .symbolComponent hname
    | textObject => cases hfound; exact .textObject hname
    | stackLevel =>
      rw [element] at hfound
      split at hfound
      · rename_i level hlevel
        cases hfound
        obtain ⟨hnumeral, hpositive, hbound⟩ := level?_eq_some_iff.mp hlevel
        exact .stackLevel hname hnumeral hpositive hbound
      · cases hfound

theorem ItemText.forall_isNameCharacter {kind : ElementKind} {found : Element} {text : List Char}
    (hitem : ItemText kind found text) :
    ∀ character ∈ text, isNameCharacter character = true := by
  intro character hmem
  cases hitem with
  | textComponent hname | symbolComponent hname | textObject hname | stackLevel hname =>
    exact isNameCharacter_iff.mpr (hname.characters character hmem)

theorem item_eq_ok_iff {kind : ElementKind} {start : Cursor} {text : List Char} {found : Element}
    (hcharacters : ∀ character ∈ text, isNameCharacter character = true) :
    item kind start text = .ok found ↔ ItemText kind found text := by
  rw [itemText_iff hcharacters, item]
  by_cases hempty : Text.trim text = []
  · simp [hempty, Cursor.fail]
  · simp only [List.isEmpty_iff, hempty, if_false, ne_eq, not_false_eq_true, true_and]
    cases element kind (Text.trim text) <;> simp [Cursor.fail]

/-! ### Places in a text -/

theorem Cursor.rest_skip {start : Cursor} {accepts : Char → Bool} {front rest : List Char}
    (hstart : start.rest = front ++ rest)
    (hfront : ∀ character ∈ front, accepts character = true) (hstops : Stops accepts rest) :
    (start.skip accepts).rest = rest := by
  rw [skip, hstart, dropWhile_append_of_stops hfront hstops]

theorem Cursor.rest_eq_append_skip (start : Cursor) (accepts : Char → Bool) :
    start.rest = start.rest.takeWhile accepts ++ (start.skip accepts).rest :=
  List.takeWhile_append_dropWhile.symm

theorem Cursor.blanks_takeWhile (start : Cursor) : Blanks (start.rest.takeWhile Text.isBlank) :=
  fun _ => List.mem_takeWhile_imp

theorem Cursor.rest_advance {start : Cursor} {character : Char} {rest : List Char}
    (hstart : start.rest = character :: rest) : start.advance.rest = rest := by
  rw [advance, hstart, List.drop_one, List.tail_cons]

theorem Cursor.rest_eq_cons_advance {start : Cursor} {character : Char}
    (hhead : start.rest.head? = some character) :
    start.rest = character :: start.advance.rest := by
  rw [advance, List.drop_one]
  exact List.eq_cons_of_mem_head? hhead

theorem stops_cons {accepts : Char → Bool} {character : Char} {rest : List Char}
    (hcharacter : accepts character = false) : Stops accepts (character :: rest) := by
  rintro other hother
  cases hother
  exact hcharacter

/-! ### Groups -/

/-- What is read of a group up to its end is derived. -/
theorem parts_of_items {kind : ElementKind} {start finish : Cursor} {elements : List Element}
    (hread : items kind start = .ok (elements, finish)) :
    ∃ text, start.rest = text ++ ')' :: finish.rest ∧ Parts ',' (ItemText kind) elements text := by
  have hcharacters : ∀ start : Cursor, ∀ character ∈ start.rest.takeWhile isNameCharacter,
      isNameCharacter character = true := fun _ _ => List.mem_takeWhile_imp
  fun_induction items kind start generalizing elements finish with
  | case1 | case2 | case3 | case5 | case7 => simp_all [Cursor.fail]
  | case4 =>
    rename_i start _ _ element hitem others last htail hstops ih
    cases hread
    obtain ⟨text, hrest, hparts⟩ := ih htail
    rw [Cursor.rest_advance hstops] at hrest
    refine ⟨_ ++ ',' :: text, ?_, .cons ((item_eq_ok_iff (hcharacters start)).mp hitem) hparts⟩
    rw [List.append_assoc, List.cons_append, ← hrest, ← hstops]
    exact start.rest_eq_append_skip _
  | case6 =>
    rename_i start _ _ element hitem hstops _
    cases hread
    refine ⟨_, ?_, .one ((item_eq_ok_iff (hcharacters start)).mp hitem)⟩
    rw [Cursor.rest_advance hstops, ← hstops]
    exact start.rest_eq_append_skip _

/-- An element that is derived is read, up to the separator behind it. -/
theorem ItemText.stop_and_item {kind : ElementKind} {found : Element} {text rest : List Char}
    (hitem : ItemText kind found text) {separator : Char}
    (hseparator : isNameCharacter separator = false) {start : Cursor}
    (hstart : start.rest = text ++ separator :: rest) :
    (start.skip isNameCharacter).rest = separator :: rest ∧
      item kind start (start.rest.takeWhile isNameCharacter) = .ok found := by
  have hstops : Stops isNameCharacter (separator :: rest) := stops_cons hseparator
  refine ⟨Cursor.rest_skip hstart hitem.forall_isNameCharacter hstops, ?_⟩
  rw [hstart, takeWhile_append_of_stops hitem.forall_isNameCharacter hstops]
  exact (item_eq_ok_iff hitem.forall_isNameCharacter).mpr hitem

/-- The elements of a group that are derived are read, up to the end of the group. -/
theorem Parts.exists_items {kind : ElementKind} {elements : List Element} {text : List Char}
    (hparts : Parts ',' (ItemText kind) elements text) {start : Cursor} {rest : List Char}
    (hstart : start.rest = text ++ ')' :: rest) :
    ∃ finish, items kind start = .ok (elements, finish) ∧ finish.rest = rest := by
  induction hparts generalizing start with
  | one hitem =>
    obtain ⟨hstop, hread⟩ := hitem.stop_and_item (by decide) hstart
    rw [items]
    split
    · rename_i hnil
      cases hstop.symm.trans hnil
    · rename_i hcons
      cases hstop.symm.trans hcons
      rw [hread]
      exact ⟨_, rfl, Cursor.rest_advance hstop⟩
  | cons hitem hrest ih =>
    rw [List.append_assoc, List.cons_append] at hstart
    obtain ⟨hstop, hread⟩ := hitem.stop_and_item (by decide) hstart
    obtain ⟨finish, hothers, hfinish⟩ := ih (Cursor.rest_advance hstop)
    rw [items]
    split
    · rename_i hnil
      cases hstop.symm.trans hnil
    · rename_i hcons
      cases hstop.symm.trans hcons
      rw [hread, hothers]
      exact ⟨_, rfl, hfinish⟩

theorem GroupText.append_blanks {found : HideGroup} {text blanks : List Char}
    (hgroup : GroupText found text) (hblanks : Blanks blanks) :
    GroupText found (text ++ blanks) := by
  obtain ⟨hbefore, hkeyword, hbetween, htargets, hafter⟩ := hgroup
  have hboth : Blanks (_ ++ blanks) := fun character hmem =>
    (List.mem_append.mp hmem).elim (hafter character) (hblanks character)
  simpa only [List.append_assoc, List.cons_append] using
    GroupText.intro hbefore hkeyword hbetween htargets hboth

/-- What is read of a group up to its closing parenthesis is derived. -/
theorem groupText_of_group {start finish : Cursor} {found : HideGroup}
    (hread : group start = .ok (found, finish)) :
    ∃ text, start.rest = text ++ finish.rest ∧ GroupText found text := by
  unfold group at hread
  simp only at hread
  split at hread
  · cases hread
  split at hread
  · cases hread
  rename_i hkind
  split at hread
  · rename_i hopening
    split at hread
    · cases hread
    · rename_i targets last htargets
      cases hread
      obtain ⟨inner, hinner, hparts⟩ := parts_of_items htargets
      refine ⟨_, ?_, .intro start.blanks_takeWhile (ofKeyword?_eq_some_iff.mp hkind)
        ((start.skip Text.isBlank).skip Char.isAlpha).blanks_takeWhile hparts
        (List.forall_mem_nil _)⟩
      -- On the left only: what has been skipped is itself written with the text it was skipped in.
      conv_lhs =>
        rw [start.rest_eq_append_skip Text.isBlank,
          (start.skip Text.isBlank).rest_eq_append_skip Char.isAlpha,
          ((start.skip Text.isBlank).skip Char.isAlpha).rest_eq_append_skip Text.isBlank,
          Cursor.rest_eq_cons_advance hopening, hinner]
      simp only [List.append_assoc, List.cons_append, List.nil_append]
  · cases hread

/-- A group that is derived is read, up to the blanks behind it. -/
theorem GroupText.exists_group {found : HideGroup} {text : List Char}
    (hgroup : GroupText found text) {start : Cursor} {rest : List Char}
    (hstart : start.rest = text ++ rest) :
    ∃ finish after, group start = .ok (found, finish) ∧ Blanks after ∧
      finish.rest = after ++ rest := by
  obtain ⟨hbefore, hkeyword, hbetween, htargets, hafter⟩ := hgroup
  rename_i kind targets before keyword between inner after
  have hstopsKeyword : Stops Text.isBlank
      (keyword ++ (between ++ '(' :: (inner ++ ')' :: (after ++ rest)))) := by
    obtain ⟨letter, letters, rfl⟩ := List.exists_cons_of_ne_nil hkeyword.ne_nil
    exact stops_cons (isBlank_of_isAlpha (hkeyword.isAlpha letter List.mem_cons_self))
  have hstopsBetween : Stops Char.isAlpha
      (between ++ '(' :: (inner ++ ')' :: (after ++ rest))) := by
    cases between with
    | nil => exact stops_cons rfl
    | cons blank between =>
      refine stops_cons ?_
      by_contra halpha
      have hblank := hbetween blank List.mem_cons_self
      rw [isBlank_of_isAlpha (by simpa using halpha)] at hblank
      cases hblank
  simp only [List.append_assoc, List.cons_append] at hstart
  have hfirst := Cursor.rest_skip hstart hbefore hstopsKeyword
  have hbehind := Cursor.rest_skip hfirst hkeyword.isAlpha hstopsBetween
  have hopening := Cursor.rest_skip hbehind hbetween (stops_cons (by decide))
  obtain ⟨finish, hitems, hfinish⟩ := htargets.exists_items (Cursor.rest_advance hopening)
  refine ⟨finish, after, ?_, hafter, hfinish⟩
  simp only [group]
  rw [hopening, hfirst, takeWhile_append_of_stops hkeyword.isAlpha hstopsBetween,
    if_neg (by simpa using hkeyword.ne_nil), ofKeyword?_eq_some_iff.mpr hkeyword]
  simp only [List.head?_cons, if_true, hitems]

/-! ### Attempts -/

/-- What is read of an attempt is derived. -/
theorem parts_of_groups {start finish : Cursor} {found : List HideGroup}
    (hread : groups start = .ok (found, finish)) :
    ∃ text, start.rest = text ++ finish.rest ∧ Parts '&' GroupText found text := by
  fun_induction groups start generalizing found finish with
  | case1 | case2 => cases hread
  | case3 =>
    rename_i start found behind hgroup next hampersand others last hothers ih
    cases hread
    obtain ⟨front, hfront, hfound⟩ := groupText_of_group hgroup
    obtain ⟨text, htext, hparts⟩ := ih hothers
    have hseparator := Cursor.rest_eq_cons_advance hampersand
    rw [htext] at hseparator
    -- The blanks behind a group are read after it and belong to its text.
    refine ⟨_, ?_, .cons (hfound.append_blanks behind.blanks_takeWhile) hparts⟩
    rw [hfront, List.append_assoc, List.cons_append, List.append_assoc, ← hseparator]
    exact congrArg (front ++ ·) (behind.rest_eq_append_skip Text.isBlank)
  | case4 =>
    rename_i start found behind hgroup next hampersand
    cases hread
    obtain ⟨front, hfront, hfound⟩ := groupText_of_group hgroup
    refine ⟨_, ?_, .one (hfound.append_blanks behind.blanks_takeWhile)⟩
    rw [hfront, List.append_assoc]
    exact congrArg (front ++ ·) (behind.rest_eq_append_skip Text.isBlank)

/-- An attempt that is derived is read, where the text does not go on with a blank or with another
group. -/
theorem Parts.exists_groups {found : List HideGroup} {text : List Char}
    (hparts : Parts '&' GroupText found text) {start : Cursor} {rest : List Char}
    (hstart : start.rest = text ++ rest) (hstops : Stops Text.isBlank rest)
    (hlast : rest.head? ≠ some '&') :
    ∃ finish, groups start = .ok (found, finish) ∧ finish.rest = rest := by
  induction hparts generalizing start with
  | one hgroup =>
    obtain ⟨behind, after, hread, hafter, hbehind⟩ := hgroup.exists_group hstart
    have hnext := Cursor.rest_skip hbehind hafter hstops
    refine ⟨behind.skip Text.isBlank, ?_, hnext⟩
    rw [groups]
    split
    · rename_i herror
      cases hread.symm.trans herror
    · rename_i hok
      cases hread.symm.trans hok
      exact if_neg (hnext ▸ hlast)
  | cons hgroup hothers ih =>
    rw [List.append_assoc, List.cons_append] at hstart
    obtain ⟨behind, after, hread, hafter, hbehind⟩ := hgroup.exists_group hstart
    have hnext := Cursor.rest_skip hbehind hafter (stops_cons (by decide))
    obtain ⟨finish, hgroups, hfinish⟩ := ih (Cursor.rest_advance hnext)
    refine ⟨finish, ?_, hfinish⟩
    rw [groups]
    split
    · rename_i herror
      cases hread.symm.trans herror
    · rename_i hok
      cases hread.symm.trans hok
      simp only [hnext, List.head?_cons, if_true, hgroups]

theorem derives_of_attempts {start : Cursor} {found : List HideAttempt}
    (hread : attempts start = .ok found) : Derives found start.rest := by
  fun_induction attempts start generalizing found with
  | case1 | case3 | case5 => simp_all [Cursor.fail]
  | case2 =>
    rename_i start found finish hgroups hend
    cases hread
    obtain ⟨text, htext, hparts⟩ := parts_of_groups hgroups
    rw [htext, hend, List.append_nil]
    exact .one hparts
  | case4 =>
    rename_i start found finish hgroups rest others hothers hend ih
    cases hread
    obtain ⟨text, htext, hparts⟩ := parts_of_groups hgroups
    have hrest := ih hothers
    rw [Cursor.rest_advance hend] at hrest
    rw [htext, hend]
    exact .cons hparts hrest

theorem attempts_of_derives {found : List HideAttempt} {text : List Char}
    (hderives : Derives found text) {start : Cursor} (hstart : start.rest = text) :
    attempts start = .ok found := by
  induction hderives generalizing start with
  | one hattempt =>
    obtain ⟨finish, hgroups, hfinish⟩ :=
      hattempt.exists_groups (hstart.trans (List.append_nil _).symm) nofun nofun
    rw [attempts]
    split
    · rename_i herror
      cases hgroups.symm.trans herror
    · rename_i hok
      cases hgroups.symm.trans hok
      simp only [hfinish]
  | cons hattempt hothers ih =>
    obtain ⟨finish, hgroups, hfinish⟩ :=
      hattempt.exists_groups hstart (stops_cons (by decide)) (by simp)
    have hread := ih (Cursor.rest_advance hfinish)
    rw [attempts]
    split
    · rename_i herror
      cases hgroups.symm.trans herror
    · rename_i hok
      cases hgroups.symm.trans hok
      simp only [hfinish, if_true, hread]

theorem derives_iff_parse {found : List HideAttempt} {text : String} :
    parse text = .ok found ↔ Derives found text.toList :=
  ⟨derives_of_attempts, fun hderives => attempts_of_derives hderives rfl⟩

/-- A text is read as the attempts that the grammar derives from it, and refused where it derives
none. -/
theorem parse_eq_ok_iff_derives :
    (∀ text found, parse text = .ok found ↔ Derives found text.toList) ∧
    ∀ text, (∃ error, parse text = .error error) ↔ ¬ ∃ found, Derives found text.toList := by
  refine ⟨fun _ _ => derives_iff_parse, fun text => ?_⟩
  constructor
  · rintro ⟨error, herror⟩ ⟨found, hderives⟩
    cases herror.symm.trans (derives_iff_parse.mpr hderives)
  · intro hnone
    cases hread : parse text with
    | error error => exact ⟨error, rfl⟩
    | ok found => exact absurd ⟨found, derives_iff_parse.mp hread⟩ hnone

end LabelPlacement.HideText
