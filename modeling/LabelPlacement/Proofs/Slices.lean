import Mathlib
import LabelPlacement.Hide.Grammar

/-!
# Slices of a text

A text of which only numbers of bytes are known: `divide?`, `slice?` and `peek?` find the parts in
front of a number, between two numbers and the first character from a number on.  They find nothing
where a number is out of range or splits a character.  The places at which they do find something
are the valid positions of the string (`isSome_divide?_iff`).

`BehindSeparators` compares two places by the separators in front of them.
-/

namespace LabelPlacement.HideText

theorem byteLength_append (front rest : List Char) :
    byteLength (front ++ rest) = byteLength front + byteLength rest := by
  induction front with
  | nil => simp [byteLength]
  | cons character front ih => simp [byteLength, ih, Nat.add_assoc]

theorem byteLength_eq_zero_iff {text : List Char} : byteLength text = 0 ↔ text = [] := by
  cases text with
  | nil => simp [byteLength]
  | cons character rest => simp [byteLength, character.utf8Size_pos.ne']

theorem byteLength_sub_trimLeft (raw : List Char) :
    byteLength raw - byteLength (Text.trimLeft raw) = byteLength (raw.takeWhile Text.isBlank) := by
  have hlength := byteLength_append (raw.takeWhile Text.isBlank) (raw.dropWhile Text.isBlank)
  rw [List.takeWhile_append_dropWhile] at hlength
  rw [hlength, Text.trimLeft, Nat.add_sub_cancel]

theorem byteLength_toList (text : String) : byteLength text.toList = text.utf8ByteSize := by
  have hlength (characters : List Char) : byteLength characters = String.utf8Len characters := by
    induction characters with
    | nil => rfl
    | cons character characters ih => rw [byteLength, ih, String.utf8Len_cons, Nat.add_comm]
  rw [hlength, ← String.utf8ByteSize_ofList, String.ofList_toList]

/-! ### Dividing -/

/-- The text in front of a number of bytes and the text behind it.  There are none where the text
has fewer bytes or one of its characters is split. -/
def divide? : List Char → Nat → Option (List Char × List Char)
  | text, 0 => some ([], text)
  | [], _ + 1 => none
  | character :: rest, offset + 1 =>
    if character.utf8Size ≤ offset + 1 then
      (divide? rest (offset + 1 - character.utf8Size)).map fun parts =>
        (character :: parts.1, parts.2)
    else none

theorem divide?_eq_some_iff {text front rest : List Char} {offset : Nat} :
    divide? text offset = some (front, rest) ↔
      front ++ rest = text ∧ byteLength front = offset := by
  fun_induction divide? text offset generalizing front with
  | case1 text =>
    rw [byteLength_eq_zero_iff, Option.some.injEq, Prod.mk.injEq]
    constructor
    · rintro ⟨rfl, rfl⟩
      exact ⟨rfl, rfl⟩
    · rintro ⟨rfl, rfl⟩
      exact ⟨rfl, rfl⟩
  | case2 offset =>
    simp only [reduceCtorEq, List.append_eq_nil_iff, false_iff, not_and]
    rintro ⟨rfl, -⟩
    exact nofun
  | case3 character text offset hfits ih =>
    cases front with
    | nil => simp [byteLength]
    | cons first front =>
      simp only [Option.map_eq_some_iff, Prod.exists, Prod.mk.injEq, List.cons.injEq,
        List.cons_append, byteLength]
      constructor
      · rintro ⟨front, rest, hdivide, ⟨rfl, rfl⟩, rfl⟩
        obtain ⟨rfl, hlength⟩ := ih.mp hdivide
        exact ⟨⟨rfl, rfl⟩, by omega⟩
      · rintro ⟨⟨rfl, rfl⟩, hlength⟩
        exact ⟨front, rest, ih.mpr ⟨rfl, by omega⟩, ⟨rfl, rfl⟩, rfl⟩
  | case4 character text offset hsplit =>
    simp only [reduceCtorEq, false_iff, not_and]
    intro htext hlength
    cases front with
    | nil => cases hlength
    | cons first front =>
      obtain ⟨rfl, -⟩ := List.cons.inj htext
      rw [byteLength] at hlength
      omega

/-- The places where a text can be divided are those between its characters. -/
theorem isSome_divide?_iff {text : String} {offset : Nat} :
    (divide? text.toList offset).isSome = true ↔ (String.Pos.Raw.mk offset).IsValid text := by
  simp only [Option.isSome_iff_exists, Prod.exists, divide?_eq_some_iff,
    String.Pos.Raw.isValid_iff_exists_append]
  constructor
  · rintro ⟨front, rest, htext, rfl⟩
    refine ⟨String.ofList front, String.ofList rest, ?_, ?_⟩
    · rw [← String.ofList_append, htext, String.ofList_toList]
    · rw [← String.toList_ofList (l := front), byteLength_toList, String.toList_ofList]
      rfl
  · rintro ⟨front, rest, rfl, hoffset⟩
    refine ⟨front.toList, rest.toList, String.toList_append.symm, ?_⟩
    rw [byteLength_toList]
    exact (congrArg String.Pos.Raw.byteIdx hoffset).symm

theorem isSome_divide?_append (front rest : List Char) :
    (divide? (front ++ rest) (byteLength front)).isSome = true := by
  rw [divide?_eq_some_iff.mpr ⟨rfl, rfl⟩]
  rfl

theorem divide?_past {text front rest : List Char} {offset : Nat} {character : Char}
    (hdivide : divide? text offset = some (front, character :: rest)) :
    divide? text (offset + character.utf8Size) = some (front ++ [character], rest) := by
  obtain ⟨rfl, rfl⟩ := divide?_eq_some_iff.mp hdivide
  simp [divide?_eq_some_iff, byteLength_append, byteLength]

/-! ### Slicing -/

/-- The slice between two numbers of bytes. -/
def slice? (text : List Char) (start stop : Nat) : Option (List Char) :=
  (divide? text stop).bind fun parts => (divide? parts.1 start).map Prod.snd

theorem slice?_eq_some_iff {text part : List Char} {start stop : Nat} :
    slice? text start stop = some part ↔
      ∃ front rest, divide? text stop = some (front ++ part, rest) ∧ byteLength front = start := by
  simp only [slice?, Option.bind_eq_some_iff, Option.map_eq_some_iff, Prod.exists,
    exists_eq_right]
  constructor
  · rintro ⟨both, rest, hdivide, front, hstart⟩
    obtain ⟨rfl, rfl⟩ := divide?_eq_some_iff.mp hstart
    exact ⟨front, rest, hdivide, rfl⟩
  · rintro ⟨front, rest, hdivide, rfl⟩
    exact ⟨front ++ part, rest, hdivide, front, divide?_eq_some_iff.mpr ⟨rfl, rfl⟩⟩

/-- An ideographic space has three bytes, and no slice ends within them. -/
example : slice? ['L', '(', '\u3000', '0', ')'] 2 5 = some ['\u3000'] ∧
    slice? ['L', '(', '\u3000', '0', ')'] 2 4 = none := by
  decide

theorem slice?_self {text : List Char} {offset : Nat}
    (hplace : (divide? text offset).isSome = true) : slice? text offset offset = some [] := by
  obtain ⟨⟨front, rest⟩, hdivide⟩ := Option.isSome_iff_exists.mp hplace
  refine slice?_eq_some_iff.mpr ⟨front, rest, ?_, (divide?_eq_some_iff.mp hdivide).2⟩
  rw [List.append_nil, hdivide]

/-- The first character from a number of bytes on, if the text goes on there. -/
def peek? (text : List Char) (offset : Nat) : Option (Option Char) :=
  (divide? text offset).map fun parts => parts.2.head?

theorem divide?_of_peek? {text : List Char} {offset : Nat} {character : Char}
    (hpeek : peek? text offset = some (some character)) :
    ∃ front rest, divide? text offset = some (front, character :: rest) := by
  simp only [peek?, Option.map_eq_some_iff, Prod.exists] at hpeek
  obtain ⟨front, rest, hdivide, hhead⟩ := hpeek
  exact ⟨front, rest.tail, by rw [hdivide, List.eq_cons_of_mem_head? hhead]; rfl⟩

theorem isSome_divide?_past {text : List Char} {offset : Nat} {character : Char}
    (hpeek : peek? text offset = some (some character)) :
    (divide? text (offset + character.utf8Size)).isSome = true := by
  obtain ⟨front, rest, hdivide⟩ := divide?_of_peek? hpeek
  rw [divide?_past hdivide]
  rfl

theorem slice?_past {text part : List Char} {start stop : Nat} {character : Char}
    (hslice : slice? text start stop = some part)
    (hpeek : peek? text stop = some (some character)) :
    slice? text start (stop + character.utf8Size) = some (part ++ [character]) := by
  obtain ⟨front, rest, hdivide, hstart⟩ := slice?_eq_some_iff.mp hslice
  obtain ⟨both, rest, hnext⟩ := divide?_of_peek? hpeek
  cases hdivide.symm.trans hnext
  refine slice?_eq_some_iff.mpr ⟨front, rest, ?_, hstart⟩
  rw [← List.append_assoc]
  exact divide?_past hnext

/-- In a slice there is a place between two characters behind any first part of it. -/
theorem isSome_divide?_of_slice? {text part rest : List Char} {start stop : Nat}
    (hslice : slice? text start stop = some (part ++ rest)) :
    (divide? text (start + byteLength part)).isSome = true := by
  obtain ⟨front, behind, hdivide, rfl⟩ := slice?_eq_some_iff.mp hslice
  obtain ⟨rfl, -⟩ := divide?_eq_some_iff.mp hdivide
  rw [← byteLength_append, ← List.append_assoc, List.append_assoc]
  exact isSome_divide?_append _ _

/-! ### Separators in front of a place -/

theorem exists_eq_append_of_byteLength_le {front rest before after : List Char}
    (htext : front ++ rest = before ++ after) (hlength : byteLength front ≤ byteLength before) :
    ∃ inner, before = front ++ inner ∧ rest = inner ++ after := by
  obtain hinner | ⟨inner, rfl, rfl⟩ := List.append_eq_append_iff.mp htext
  · exact hinner
  · rw [byteLength_append] at hlength
    obtain rfl := byteLength_eq_zero_iff.mp (by omega : byteLength inner = 0)
    exact ⟨[], by simp, rfl⟩

theorem exists_eq_append_cons_of_byteLength_lt {front rest before after : List Char}
    {character : Char} (htext : front ++ rest = before ++ character :: after)
    (hlength : byteLength before < byteLength front) :
    ∃ inner, front = before ++ character :: inner := by
  obtain ⟨inner, rfl, hinner⟩ := exists_eq_append_of_byteLength_le htext.symm hlength.le
  cases inner with
  | nil => simp at hlength
  | cons first inner =>
    obtain ⟨rfl, -⟩ := List.cons.inj hinner
    exact ⟨inner, rfl⟩

/-- Every separator in front of a number of bytes is in front of a place too. -/
def BehindSeparators (text : List Char) (stop place : Nat) : Prop :=
  ∀ before separator after, text = before ++ separator :: after → separator ∈ [',', '&', '('] →
    byteLength before < stop → byteLength before < place

/-- From the start of a slice without separators on, a place is behind every separator in front of
the slice's end. -/
theorem BehindSeparators.of_slice? {text part : List Char} {start stop place : Nat}
    (hslice : slice? text start stop = some part)
    (hpart : ∀ character ∈ part, character ∉ [',', '&', '(']) (hplace : start ≤ place) :
    BehindSeparators text stop place := by
  intro before separator after htext hseparator hstop
  obtain ⟨front, rest, hdivide, rfl⟩ := slice?_eq_some_iff.mp hslice
  obtain ⟨htext', rfl⟩ := divide?_eq_some_iff.mp hdivide
  obtain ⟨inner, hinner⟩ := exists_eq_append_cons_of_byteLength_lt (htext'.trans htext) hstop
  by_contra hbefore
  obtain ⟨between, -, rfl⟩ := exists_eq_append_of_byteLength_le hinner (by omega)
  exact hpart separator (by simp) hseparator

end LabelPlacement.HideText
