import LabelPlacement.Proofs.Grammar

/-!
# The written form of hide attempts

Attempts are written without blanks, with keywords in upper case and levels in the fewest digits.
What a text derives is also derived from its written form, rule by rule of the grammar, so that
writing attempts that have been read and reading them again changes nothing.
-/

namespace LabelPlacement.HideText

theorem separated_cons (separator : Char) (text : List Char) {texts : List (List Char)}
    (hne : texts ≠ []) :
    separated separator (text :: texts) = text ++ separator :: separated separator texts := by
  obtain ⟨next, rest, rfl⟩ := List.exists_cons_of_ne_nil hne
  rfl

section Parts

variable {ι : Type} {separator : Char} {part : ι → List Char → Prop} {elements : List ι}
  {text : List Char}

theorem Parts.ne_nil (hparts : Parts separator part elements text) : elements ≠ [] := by
  cases hparts <;> exact List.cons_ne_nil _ _

/-- Parts that have a form of their own may each be put in it. -/
theorem Parts.written (hparts : Parts separator part elements text) (form : ι → List Char)
    (hform : ∀ element text, part element text → part element (form element)) :
    Parts separator part elements (separated separator (elements.map form)) := by
  induction hparts with
  | one hpart => exact .one (hform _ _ hpart)
  | cons hpart hrest ih =>
    rw [List.map_cons, separated_cons _ _ (by simpa using hrest.ne_nil)]
    exact .cons (hform _ _ hpart) ih

end Parts

/-! ### Elements -/

theorem NameText.alone {name text : List Char} (hname : NameText name text) :
    NameText name name := by
  refine ⟨⟨[], [], nofun, nofun, (List.append_nil name).symm⟩, hname.ne_nil, hname.first,
    hname.last, ?_⟩
  obtain ⟨before, after, -, -, rfl⟩ := hname.padded
  intro character hmem
  exact hname.characters character (List.mem_append_left _ (List.mem_append_right _ hmem))

theorem isDigit_of_mem_toDigits {level : Nat} {digit : Char}
    (hmem : digit ∈ Nat.toDigits 10 level) : digit.isDigit = true :=
  Nat.isDigit_of_mem_toDigits (by decide) (by decide) hmem

theorem numeral_toDigits (level : Nat) : Numeral level (Nat.toDigits 10 level) :=
  ⟨_, .inl rfl, Nat.toDigits_ne_nil, fun _ => isDigit_of_mem_toDigits,
    Nat.ofDigitChars_ten_toDigits⟩

theorem isBlank_of_isDigit {digit : Char} (hdigit : digit.isDigit = true) :
    Text.isBlank digit = false := by
  apply isBlank_eq_false
  simp only [Char.isDigit, Bool.and_eq_true, decide_eq_true_eq, UInt32.le_iff_toNat_le] at hdigit
  change 32 < digit.val.toNat ∧ digit.val.toNat < 127
  grind

theorem nameText_toDigits (level : Nat) :
    NameText (Nat.toDigits 10 level) (Nat.toDigits 10 level) := by
  refine ⟨⟨[], [], nofun, nofun, (List.append_nil _).symm⟩, Nat.toDigits_ne_nil, ?_, ?_, ?_⟩
  · intro digit hdigit
    exact isBlank_of_isDigit (isDigit_of_mem_toDigits (List.mem_of_head? hdigit))
  · intro digit hdigit
    exact isBlank_of_isDigit (isDigit_of_mem_toDigits (List.mem_of_getLast? hdigit))
  · intro digit hdigit hseparator
    have hisDigit := isDigit_of_mem_toDigits hdigit
    have hnone : [',', '(', ')', '&'].all (!·.isDigit) = true := rfl
    have hnotDigit := List.all_eq_true.mp hnone digit hseparator
    rw [hisDigit] at hnotDigit
    cases hnotDigit

theorem ItemText.written {kind : ElementKind} {element : Element} {text : List Char}
    (hitem : ItemText kind element text) : ItemText kind element (ofElement element) := by
  cases hitem with
  | textComponent hname =>
    rw [ofElement, String.toList_ofList]
    exact .textComponent hname.alone
  | symbolComponent hname =>
    rw [ofElement, String.toList_ofList]
    exact .symbolComponent hname.alone
  | textObject hname =>
    rw [ofElement, String.toList_ofList]
    exact .textObject hname.alone
  | stackLevel _ _ hpositive hlevel =>
    exact .stackLevel (nameText_toDigits _) (numeral_toDigits _) hpositive hlevel

/-! ### Groups and attempts -/

theorem keywordText_keyword (kind : ElementKind) : KeywordText kind kind.keyword :=
  List.forall₂_same.mpr fun _ _ => .inl rfl

theorem GroupText.written {group : HideGroup} {text : List Char} (hgroup : GroupText group text) :
    GroupText group (ofGroup group) := by
  obtain ⟨-, -, -, htargets, -⟩ := hgroup
  rename_i kind targets _ _ _ _ _
  have hwritten := htargets.written ofElement fun _ _ => ItemText.written
  have hgroup : GroupText ⟨kind, targets⟩
      ([] ++ kind.keyword ++ [] ++ '(' :: separated ',' (targets.map ofElement) ++ ')' :: []) :=
    .intro nofun (keywordText_keyword kind) nofun hwritten nofun
  simpa only [ofGroup, List.nil_append, List.append_nil, List.append_assoc, List.cons_append]
    using hgroup

theorem Derives.written {attempts : List HideAttempt} {text : List Char}
    (hderives : Derives attempts text) : Derives attempts (ofAttempts attempts) :=
  Parts.written hderives ofAttempt fun _ _ hattempt =>
    Parts.written hattempt ofGroup fun _ _ => GroupText.written

/-- Attempts that have been read from a text are read again from their written form. -/
theorem parse_render {text : String} {attempts : List HideAttempt}
    (hread : parse text = .ok attempts) : parse (render attempts) = .ok attempts := by
  rw [derives_iff_parse] at hread ⊢
  rw [render, String.toList_ofList]
  exact hread.written

theorem parse_render_mixed_case :
    let text := " to(Sub Title) , l(+02, 3)&Tc(x) "
    let attempts := [⟨[⟨.textObject, [.textObject "Sub Title"]⟩]⟩,
      ⟨[⟨.stackLevel, [.stackLevel 2, .stackLevel 3]⟩, ⟨.textComponent, [.textComponent "x"]⟩]⟩]
    parse text = .ok attempts ∧ render attempts = "TO(Sub Title),L(2,3)&TC(x)" ∧
      parse (render attempts) = .ok attempts := by
  intro text attempts
  have hread : parse text = .ok attempts := by decide +kernel
  exact ⟨hread, by decide +kernel, parse_render hread⟩

end LabelPlacement.HideText
