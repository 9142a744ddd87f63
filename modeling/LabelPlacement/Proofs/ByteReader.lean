import Mathlib
import LabelPlacement.Proofs.Grammar
import LabelPlacement.Proofs.Slices

/-!
# A reader of hide attempts by byte offsets

A reader that has the text and a number of bytes, and sees the text through slices only.  It goes
past one character at a time and takes one decision at a time, and it has no next step where a slice
that it looks at is out of range or splits a character.

`Reader.OnCharacters` is what it keeps: it stands between two characters of the text, the keyword or
name that it is in starts between two characters, and an error that it ends with is reported between
two characters, behind every separator that it has gone past.  A reader of which this holds has a
next step, keeps it there, and gets ahead: past a character or on to a later stage
(`Reader.OnCharacters.step`).
-/

namespace LabelPlacement.HideText

/-! ### Characters of a name -/

theorem not_mem_separators_of_isNameCharacter {character : Char}
    (hname : isNameCharacter character = true) : character ∉ [',', '&', '('] := by
  have hmem := isNameCharacter_iff.mp hname
  simp only [List.mem_cons, List.not_mem_nil, or_false, not_or] at hmem ⊢
  exact ⟨hmem.1, hmem.2.2.2, hmem.2.1⟩

theorem isNameCharacter_of_isAlpha {letter : Char} (halpha : letter.isAlpha = true) :
    isNameCharacter letter = true := by
  rw [isNameCharacter_iff]
  rintro hmem
  fin_cases hmem <;> cases halpha

theorem isNameCharacter_of_isBlank {character : Char} (hblank : Text.isBlank character = true) :
    isNameCharacter character = true := by
  rw [isNameCharacter_iff]
  intro hmem
  fin_cases hmem <;> cases hblank

/-! ### The reader -/

/-- What a reader is at. -/
inductive Stage
  /-- The blanks in front of a keyword. -/
  | groupStart
  /-- The letters of a keyword that starts behind a number of bytes. -/
  | keyword (start : Nat)
  /-- The blanks between a keyword and its parenthesis. -/
  | opening (kind : ElementKind)
  /-- The characters of a name that starts behind a number of bytes. -/
  | item (kind : ElementKind) (targets : List Element) (start : Nat)
  /-- The separator behind a name. -/
  | itemEnd (kind : ElementKind) (targets : List Element)
  /-- The blanks behind a group. -/
  | groupEnd
  /-- The blanks behind an attempt. -/
  | attemptEnd
  /-- The end of reading. -/
  | finished (result : Except HideTextError (List HideAttempt))

namespace Stage

/-- The characters that are gone past at a stage without a decision. -/
def accepts : Stage → Char → Bool
  | groupStart | opening _ | groupEnd | attemptEnd => Text.isBlank
  | keyword _ => Char.isAlpha
  | item _ _ _ => isNameCharacter
  | itemEnd _ _ | finished _ => fun _ => false

/-- Where the keyword or name that is being read starts. -/
def start? : Stage → Option Nat
  | keyword start | item _ _ start => some start
  | _ => none

/-- The order in which the stages follow each other where no character is gone past.  An earlier
stage comes again only behind a separator. -/
def rank : Stage → Nat
  | groupStart => 0
  | keyword _ => 1
  | opening _ => 2
  | item _ _ _ => 3
  | itemEnd _ _ => 4
  | groupEnd => 5
  | attemptEnd => 6
  | finished _ => 7

end Stage

/-- A reader: the number of bytes in front of it, the attempts and the groups of the next attempt
that it has read, and what it is at. -/
structure Reader where
  offset : Nat
  attempts : List HideAttempt
  groups : List HideGroup
  stage : Stage

namespace Reader

/-- The reader in front of a text. -/
def start : Reader := { offset := 0, attempts := [], groups := [], stage := .groupStart }

/-- Goes past a character and on to a stage. -/
def past (reader : Reader) (character : Char) (stage : Stage) : Reader :=
  { reader with offset := reader.offset + character.utf8Size, stage }

/-- Goes on to a stage. -/
def onto (reader : Reader) (stage : Stage) : Reader := { reader with stage }

/-- Ends with a fault that is reported behind a number of bytes. -/
def fail (reader : Reader) (offset : Nat) (fault : HideFault) : Reader :=
  reader.onto (.finished (.error ⟨offset, fault⟩))

/-- Goes on behind a keyword. -/
def endKeyword (reader : Reader) (start : Nat) (keyword : List Char) : Reader :=
  if keyword.isEmpty then reader.fail reader.offset .expectedKind
  else
    match ElementKind.ofKeyword? keyword with
    | none => reader.fail start (.unknownKind (String.ofList keyword))
    | some kind => reader.onto (.opening kind)

/-- Goes on behind a name.  A fault in it is reported behind the bytes that trimming takes away in
front of it. -/
def endItem (reader : Reader) (kind : ElementKind) (targets : List Element) (start : Nat)
    (raw : List Char) : Reader :=
  let name := Text.trim raw
  let place := start + (byteLength raw - byteLength (Text.trimLeft raw))
  if name.isEmpty then reader.fail place .emptyName
  else
    match element kind name with
    | .ok element => reader.onto (.itemEnd kind (targets ++ [element]))
    | .error fault => reader.fail place fault

/-- What a reader decides where the next character is not gone past.  There is no decision if it
looks at a slice that the text does not have. -/
def decide? (text : List Char) (reader : Reader) (next : Option Char) : Option Reader :=
  match reader.stage with
  | .groupStart => some (reader.onto (.keyword reader.offset))
  | .keyword start => (slice? text start reader.offset).map (reader.endKeyword start)
  | .opening kind =>
    if next = some '(' then some (reader.past '(' (.item kind [] (reader.offset + '('.utf8Size)))
    else some (reader.fail reader.offset .expectedParenthesis)
  | .item kind targets start =>
    match next with
    | none => some (reader.fail reader.offset .unterminatedGroup)
    | some character =>
      if character = ',' ∨ character = ')' then
        (slice? text start reader.offset).map (reader.endItem kind targets start)
      else some (reader.fail reader.offset (.unexpectedInName character))
  | .itemEnd kind targets =>
    if next = some ',' then
      some (reader.past ',' (.item kind targets (reader.offset + ','.utf8Size)))
    else if next = some ')' then
      some { reader.past ')' .groupEnd with groups := reader.groups ++ [{ kind, targets }] }
    -- Never reported here: a name is only left in front of a comma or a closing parenthesis.
    else some (reader.fail reader.offset .unterminatedGroup)
  | .groupEnd =>
    if next = some '&' then some (reader.past '&' .groupStart)
    else
      some { reader.onto .attemptEnd with
        attempts := reader.attempts ++ [{ groups := reader.groups }], groups := [] }
  | .attemptEnd =>
    match next with
    | none => some (reader.onto (.finished (.ok reader.attempts)))
    | some character =>
      if character = ',' then some (reader.past ',' .groupStart)
      else some (reader.fail reader.offset (.expectedSeparator character))
  | .finished _ => some reader

/-- The next step of a reader.  There is none if it looks at a slice that the text does not have; a
reader that has finished stays as it is. -/
def step? (text : List Char) (reader : Reader) : Option Reader :=
  (peek? text reader.offset).bind fun next =>
    match next.filter reader.stage.accepts with
    | some character => some (reader.past character reader.stage)
    | none => reader.decide? text next

/-- A reader comes to another in any number of steps. -/
def Reaches (text : List Char) : Reader → Reader → Prop :=
  Relation.ReflTransGen fun reader next => reader.step? text = some next

/-- A step gets ahead: past one character or, in the same place, on to a later stage, if not all
has been read. -/
inductive Advances (text : List Char) (reader next : Reader) : Prop
  | past (character : Char) (hpeek : peek? text reader.offset = some (some character))
      (hoffset : next.offset = reader.offset + character.utf8Size)
  | onto (hoffset : next.offset = reader.offset) (hrank : reader.stage.rank < next.stage.rank)
  | finished (result : Except HideTextError (List HideAttempt))
      (hstage : reader.stage = .finished result) (hnext : next = reader)

/-! ### What a reader keeps -/

/-- The reader stands between two characters.  What it has read of a keyword or name is a slice of
the text with accepted characters only.  An error is reported between two characters, behind every
separator that has been gone past. -/
structure OnCharacters (text : List Char) (reader : Reader) : Prop where
  place : (divide? text reader.offset).isSome = true
  token : ∀ start, reader.stage.start? = some start →
    ∃ part, slice? text start reader.offset = some part ∧
      ∀ character ∈ part, reader.stage.accepts character = true
  error : ∀ error, reader.stage = .finished (.error error) →
    (divide? text error.offset).isSome = true ∧
      BehindSeparators text reader.offset error.offset

variable {text : List Char} {reader : Reader}

theorem OnCharacters.of_place (hplace : (divide? text reader.offset).isSome = true)
    (hstart : reader.stage.start? = none)
    (herror : ∀ error, reader.stage ≠ .finished (.error error)) : reader.OnCharacters text where
  place := hplace
  token start hstage := by cases hstart.symm.trans hstage
  error error hstage := absurd hstage (herror error)

/-- A keyword or name of which nothing has been read starts in the reader's place. -/
theorem OnCharacters.of_start (hplace : (divide? text reader.offset).isSome = true)
    (hstart : reader.stage.start? = some reader.offset) : reader.OnCharacters text where
  place := hplace
  token start hstage := by
    cases hstart.symm.trans hstage
    exact ⟨[], slice?_self hplace, List.forall_mem_nil _⟩
  error error hstage := by rw [hstage] at hstart; cases hstart

/-- Ending with a fault gets ahead, as nothing comes behind the end. -/
theorem OnCharacters.fail (hreader : reader.OnCharacters text)
    (hstage : reader.stage.rank < 7) {offset : Nat} (hoffset : (divide? text offset).isSome = true)
    (hbehind : BehindSeparators text reader.offset offset) (fault : HideFault) :
    (reader.fail offset fault).OnCharacters text ∧
      reader.Advances text (reader.fail offset fault) := by
  refine ⟨⟨hreader.place, nofun, ?_⟩, .onto rfl hstage⟩
  rintro error ⟨⟩
  exact ⟨hoffset, hbehind⟩

theorem OnCharacters.fail_here (hreader : reader.OnCharacters text)
    (hstage : reader.stage.rank < 7) (fault : HideFault) :
    (reader.fail reader.offset fault).OnCharacters text ∧
      reader.Advances text (reader.fail reader.offset fault) :=
  hreader.fail hstage hreader.place (fun _ _ _ _ _ hstop => hstop) fault

theorem OnCharacters.past (hreader : reader.OnCharacters text)
    {character : Char} (hpeek : peek? text reader.offset = some (some character))
    (haccepts : reader.stage.accepts character = true) :
    (reader.past character reader.stage).OnCharacters text where
  place := isSome_divide?_past hpeek
  token start hstage := by
    obtain ⟨part, hslice, hpart⟩ := hreader.token start hstage
    refine ⟨part ++ [character], slice?_past hslice hpeek, ?_⟩
    rw [List.forall_mem_append, List.forall_mem_singleton]
    exact ⟨hpart, haccepts⟩
  error error hstage := by
    replace hstage : reader.stage = _ := hstage
    rw [hstage] at haccepts
    cases haccepts

/-- From the start of a keyword or name on, a place is behind every separator in front of the
reader. -/
theorem OnCharacters.behindSeparators (hreader : reader.OnCharacters text) {start place : Nat}
    (hstart : reader.stage.start? = some start) (hplace : start ≤ place) :
    BehindSeparators text reader.offset place := by
  obtain ⟨part, hslice, hpart⟩ := hreader.token start hstart
  refine .of_slice? hslice (fun character hmem => not_mem_separators_of_isNameCharacter ?_) hplace
  have haccepts := hpart character hmem
  cases hstage : reader.stage with
  | keyword => rw [hstage] at haccepts; exact isNameCharacter_of_isAlpha haccepts
  | item => rw [hstage] at haccepts; exact haccepts
  | _ => rw [hstage] at hstart; cases hstart

theorem OnCharacters.endKeyword (hreader : reader.OnCharacters text) {start : Nat}
    (hstage : reader.stage = .keyword start) {keyword : List Char}
    (hslice : slice? text start reader.offset = some keyword) :
    (reader.endKeyword start keyword).OnCharacters text ∧
      reader.Advances text (reader.endKeyword start keyword) := by
  have hstart : (divide? text start).isSome = true := by
    have hfront : slice? text start reader.offset = some ([] ++ keyword) := hslice
    exact isSome_divide?_of_slice? hfront
  have hbehind : BehindSeparators text reader.offset start :=
    hreader.behindSeparators (by rw [hstage]; rfl) le_rfl
  have hrank : reader.stage.rank = 1 := by rw [hstage]; rfl
  unfold Reader.endKeyword
  split
  · exact hreader.fail_here (by omega) _
  split
  · exact hreader.fail (by omega) hstart hbehind _
  · exact ⟨.of_place hreader.place rfl nofun, .onto rfl (hrank ▸ Nat.lt_succ_self 1)⟩

theorem OnCharacters.endItem (hreader : reader.OnCharacters text) {kind : ElementKind}
    {targets : List Element} {start : Nat} (hstage : reader.stage = .item kind targets start)
    {raw : List Char} (hslice : slice? text start reader.offset = some raw) :
    (reader.endItem kind targets start raw).OnCharacters text ∧
      reader.Advances text (reader.endItem kind targets start raw) := by
  have hname : (divide? text (start + byteLength (raw.takeWhile Text.isBlank))).isSome = true := by
    rw [← List.takeWhile_append_dropWhile (p := Text.isBlank) (l := raw)] at hslice
    exact isSome_divide?_of_slice? hslice
  have hbehind : BehindSeparators text reader.offset
      (start + byteLength (raw.takeWhile Text.isBlank)) :=
    hreader.behindSeparators (by rw [hstage]; rfl) (Nat.le_add_right _ _)
  have hrank : reader.stage.rank = 3 := by rw [hstage]; rfl
  simp only [Reader.endItem, byteLength_sub_trimLeft]
  split
  · exact hreader.fail (by omega) hname hbehind _
  split
  · exact ⟨.of_place hreader.place rfl nofun, .onto rfl (hrank ▸ Nat.lt_succ_self 3)⟩
  · exact hreader.fail (by omega) hname hbehind _

/-- A decision is possible in every place that a reader can be in. -/
theorem OnCharacters.decide (hreader : reader.OnCharacters text) {next : Option Char}
    (hpeek : peek? text reader.offset = some next) :
    ∃ after, reader.decide? text next = some after ∧ after.OnCharacters text ∧
      reader.Advances text after := by
  obtain ⟨offset, attempts, groups, stage⟩ := reader
  have hplace := hreader.place
  have hfail (hstage : stage.rank < 7) := hreader.fail_here hstage
  unfold decide?
  cases stage with
  | groupStart => exact ⟨_, rfl, .of_start hplace rfl, .onto rfl (Nat.lt_succ_self 0)⟩
  | keyword start =>
    obtain ⟨part, hslice, -⟩ := hreader.token start rfl
    simp only [hslice, Option.map_some]
    exact ⟨_, rfl, hreader.endKeyword rfl hslice⟩
  | opening kind =>
    dsimp only
    split_ifs with hnext
    · subst hnext
      exact ⟨_, rfl, .of_start (isSome_divide?_past hpeek) rfl, .past '(' hpeek rfl⟩
    · exact ⟨_, rfl, hfail (by simp [Stage.rank]) _⟩
  | item kind targets start =>
    cases next with
    | none => exact ⟨_, rfl, hfail (by simp [Stage.rank]) _⟩
    | some character =>
      obtain ⟨part, hslice, -⟩ := hreader.token start rfl
      simp only [hslice, Option.map_some]
      split_ifs with hcharacter
      · exact ⟨_, rfl, hreader.endItem rfl hslice⟩
      · exact ⟨_, rfl, hfail (by simp [Stage.rank]) _⟩
  | itemEnd kind targets =>
    dsimp only
    split_ifs with hcomma hclosing
    · subst hcomma
      exact ⟨_, rfl, .of_start (isSome_divide?_past hpeek) rfl, .past ',' hpeek rfl⟩
    · subst hclosing
      exact ⟨_, rfl, .of_place (isSome_divide?_past hpeek) rfl nofun, .past ')' hpeek rfl⟩
    · exact ⟨_, rfl, hfail (by simp [Stage.rank]) _⟩
  | groupEnd =>
    dsimp only
    split_ifs with hnext
    · subst hnext
      exact ⟨_, rfl, .of_place (isSome_divide?_past hpeek) rfl nofun, .past '&' hpeek rfl⟩
    · exact ⟨_, rfl, .of_place hplace rfl nofun, .onto rfl (Nat.lt_succ_self 5)⟩
  | attemptEnd =>
    cases next with
    | none => exact ⟨_, rfl, .of_place hplace rfl nofun, .onto rfl (Nat.lt_succ_self 6)⟩
    | some character =>
      dsimp only
      split_ifs with hcharacter
      · subst hcharacter
        exact ⟨_, rfl, .of_place (isSome_divide?_past hpeek) rfl nofun, .past ',' hpeek rfl⟩
      · exact ⟨_, rfl, hfail (by simp [Stage.rank]) _⟩
  | finished result => exact ⟨_, rfl, hreader, .finished result rfl rfl⟩

/-- A reader that stands between characters has a next step, stands between characters behind it,
and has got ahead. -/
theorem OnCharacters.step (hreader : reader.OnCharacters text) :
    ∃ next, reader.step? text = some next ∧ next.OnCharacters text ∧
      reader.Advances text next := by
  obtain ⟨next, hpeek⟩ : ∃ next, peek? text reader.offset = some next := by
    rw [← Option.isSome_iff_exists, peek?, Option.isSome_map]
    exact hreader.place
  rw [step?, hpeek, Option.bind_some]
  split
  · rename_i character hfilter
    obtain ⟨rfl, haccepts⟩ := Option.filter_eq_some_iff.mp hfilter
    exact ⟨_, rfl, hreader.past hpeek haccepts, .past character hpeek rfl⟩
  · exact hreader.decide hpeek

theorem onCharacters_start (text : List Char) : start.OnCharacters text :=
  .of_place (isSome_divide?_append [] text) rfl nofun

theorem OnCharacters.of_reaches {reader last : Reader}
    (hreader : reader.OnCharacters text) (hreaches : Reaches text reader last) :
    last.OnCharacters text := by
  induction hreaches with
  | refl => exact hreader
  | tail _ hstep ih =>
    obtain ⟨next, hnext, hkept, -⟩ := ih.step
    cases hnext.symm.trans hstep
    exact hkept

/-! ### The end of reading -/

theorem eq_of_step?_of_finished {last next : Reader}
    {result : Except HideTextError (List HideAttempt)} (hstage : last.stage = .finished result)
    (hstep : last.step? text = some next) : next = last := by
  obtain ⟨offset, attempts, groups, stage⟩ := last
  obtain rfl : stage = .finished result := hstage
  obtain ⟨character, -, hdecide⟩ := Option.bind_eq_some_iff.mp hstep
  have hfilter : character.filter (Stage.finished result).accepts = none := by
    rw [Option.filter_eq_none_iff]
    exact fun _ _ => Bool.false_ne_true
  rw [hfilter] at hdecide
  exact (Option.some.inj hdecide).symm

theorem Reaches.eq_of_finished {last reader : Reader}
    {result : Except HideTextError (List HideAttempt)} (hstage : last.stage = .finished result)
    (hreaches : Reaches text last reader) : reader = last := by
  induction hreaches with
  | refl => rfl
  | tail _ hstep ih => exact eq_of_step?_of_finished hstage (ih ▸ hstep)

/-- As there is one next step only, a reader on the way comes to the end that its beginning comes
to. -/
theorem Reaches.to_finished {first reader last : Reader}
    {result : Except HideTextError (List HideAttempt)} (hreader : Reaches text first reader)
    (hlast : Reaches text first last) (hstage : last.stage = .finished result) :
    Reaches text reader last := by
  have hunique : Relator.RightUnique fun reader next : Reader => reader.step? text = some next :=
    fun _ _ _ hone hother => Option.some.inj (hone.symm.trans hother)
  obtain hahead | hbehind := Relation.ReflTransGen.total_of_right_unique hunique hreader hlast
  · exact hahead
  · rw [Reaches.eq_of_finished hstage hbehind]
    exact .refl

end Reader

end LabelPlacement.HideText
