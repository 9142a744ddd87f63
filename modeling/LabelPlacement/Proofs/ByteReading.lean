import Mathlib
import LabelPlacement.Proofs.ByteReader

/-!
# Reading by byte offsets

`HideText.parse` goes over the characters of a text and counts their bytes.  A reader that knows its
place only as a number of bytes comes to the same result, in smaller steps: for each part of the
grammar it comes from the front of the part to what is read there (`reads_items`, `reads_group`,
`reads_groups`), by the recursion of the function that reads the part.

So what a reader keeps holds of reading a text from its front to its end
(`reader_stays_between_characters`).
-/

namespace LabelPlacement.HideText

/-! ### Places -/

/-- The rest that a cursor has is what the text has behind the cursor's bytes. -/
def Cursor.Within (text : List Char) (cursor : Cursor) : Prop :=
  ∃ front, divide? text cursor.offset = some (front, cursor.rest)

variable {text : List Char}

theorem Cursor.Within.peek? {cursor : Cursor} (hwithin : cursor.Within text) :
    HideText.peek? text cursor.offset = some cursor.rest.head? := by
  obtain ⟨front, hdivide⟩ := hwithin
  rw [HideText.peek?, hdivide, Option.map_some]

theorem Cursor.divide?_skip {front : List Char} {cursor : Cursor}
    (hdivide : divide? text cursor.offset = some (front, cursor.rest)) (accepts : Char → Bool) :
    divide? text (cursor.skip accepts).offset =
      some (front ++ cursor.rest.takeWhile accepts, (cursor.skip accepts).rest) := by
  obtain ⟨htext, hfront⟩ := divide?_eq_some_iff.mp hdivide
  refine divide?_eq_some_iff.mpr ⟨?_, ?_⟩
  · rw [List.append_assoc, ← cursor.rest_eq_append_skip accepts, htext]
  · rw [byteLength_append, hfront]
    rfl

theorem Cursor.Within.skip {cursor : Cursor} (hwithin : cursor.Within text)
    (accepts : Char → Bool) : (cursor.skip accepts).Within text := by
  obtain ⟨front, hdivide⟩ := hwithin
  exact ⟨_, Cursor.divide?_skip hdivide accepts⟩

theorem Cursor.offset_advance {cursor : Cursor} {character : Char}
    (hhead : cursor.rest.head? = some character) :
    cursor.advance.offset = cursor.offset + character.utf8Size := by
  rw [advance, List.eq_cons_of_mem_head? hhead]
  simp [byteLength]

theorem Cursor.Within.advance {cursor : Cursor} (hwithin : cursor.Within text)
    {character : Char} (hhead : cursor.rest.head? = some character) :
    cursor.advance.Within text := by
  obtain ⟨front, hdivide⟩ := hwithin
  rw [Cursor.rest_eq_cons_advance hhead] at hdivide
  exact ⟨front ++ [character], Cursor.offset_advance hhead ▸ divide?_past hdivide⟩

theorem Cursor.Within.slice? {cursor : Cursor} (hwithin : cursor.Within text)
    (accepts : Char → Bool) :
    HideText.slice? text cursor.offset (cursor.skip accepts).offset =
      some (cursor.rest.takeWhile accepts) := by
  obtain ⟨front, hdivide⟩ := hwithin
  exact slice?_eq_some_iff.mpr ⟨front, _, Cursor.divide?_skip hdivide accepts,
    (divide?_eq_some_iff.mp hdivide).2⟩

namespace Reader

/-! ### Steps from a place -/

/-- A reader goes past what it accepts. -/
theorem reaches_skip {cursor : Cursor} (hwithin : cursor.Within text)
    (attempts : List HideAttempt) (groups : List HideGroup) (stage : Stage) :
    Reaches text ⟨cursor.offset, attempts, groups, stage⟩
      ⟨(cursor.skip stage.accepts).offset, attempts, groups, stage⟩ := by
  induction hrest : cursor.rest generalizing cursor with
  | nil =>
    have hskip : (cursor.skip stage.accepts).offset = cursor.offset := by
      rw [Cursor.skip, hrest]
      rfl
    rw [hskip]
    exact .refl
  | cons character rest ih =>
    have hhead : cursor.rest.head? = some character := by rw [hrest]; rfl
    cases haccepts : stage.accepts character with
    | false =>
      have hskip : (cursor.skip stage.accepts).offset = cursor.offset := by
        rw [Cursor.skip, hrest, List.takeWhile_cons_of_neg (by simp [haccepts])]
        rfl
      rw [hskip]
      exact .refl
    | true =>
      have hskip : (cursor.skip stage.accepts).offset =
          (cursor.advance.skip stage.accepts).offset := by
        simp only [Cursor.skip]
        rw [Cursor.offset_advance hhead, Cursor.rest_advance hrest, hrest,
          List.takeWhile_cons_of_pos haccepts, byteLength, Nat.add_assoc]
      have hstep : step? text ⟨cursor.offset, attempts, groups, stage⟩ =
          some ⟨cursor.advance.offset, attempts, groups, stage⟩ := by
        rw [step?, hwithin.peek?, Option.bind_some, hhead, Option.filter_some_pos haccepts,
          Cursor.offset_advance hhead]
        rfl
      rw [hskip]
      exact .head hstep (ih (hwithin.advance hhead) (Cursor.rest_advance hrest))

/-- Where the text does not go on with an accepted character, the step is a decision. -/
theorem step?_eq_some {cursor : Cursor} (hwithin : cursor.Within text)
    {attempts : List HideAttempt} {groups : List HideGroup} {stage : Stage} {next : Option Char}
    {after : Reader} (hstops : Stops stage.accepts cursor.rest) (hhead : cursor.rest.head? = next)
    (hdecide : decide? text ⟨cursor.offset, attempts, groups, stage⟩ next = some after) :
    step? text ⟨cursor.offset, attempts, groups, stage⟩ = some after := by
  have hfilter : next.filter stage.accepts = none := by
    rw [Option.filter_eq_none_iff, ← hhead]
    intro character hmem
    simpa using hstops character hmem
  rw [step?, hwithin.peek?, hhead, Option.bind_some, hfilter, hdecide]

/-- A reader goes past what it accepts and decides. -/
theorem reaches_decide {cursor : Cursor} (hwithin : cursor.Within text)
    {attempts : List HideAttempt} {groups : List HideGroup} {stage : Stage} {next : Option Char}
    {after : Reader} (hhead : (cursor.skip stage.accepts).rest.head? = next)
    (hdecide : decide? text ⟨(cursor.skip stage.accepts).offset, attempts, groups, stage⟩ next =
      some after) :
    Reaches text ⟨cursor.offset, attempts, groups, stage⟩ after :=
  (reaches_skip hwithin attempts groups stage).tail
    (step?_eq_some (hwithin.skip stage.accepts) (stops_dropWhile _ _) hhead hdecide)

/-! ### Names and groups -/

/-- What a reader comes to where a part of the text is read from a place on: with what is found, the
reader behind it, and with an error the end. -/
def Reads {ι : Type} (text : List Char) (reader : Reader)
    (outcome : Except HideTextError (ι × Cursor)) (behind : ι → Nat → Reader) : Prop :=
  match outcome with
  | .ok (found, finish) => finish.Within text ∧ Reaches text reader (behind found finish.offset)
  | .error error => ∃ last, Reaches text reader last ∧ last.stage = .finished (.error error)

/-- Trimming a name takes away in front of it what is blank from its start on in the whole text. -/
theorem offset_skip_isBlank (start : Cursor) :
    (start.skip Text.isBlank).offset =
      start.offset +
        byteLength ((start.rest.takeWhile isNameCharacter).takeWhile Text.isBlank) := by
  have hboth : (fun character => decide (Text.isBlank character = true ∧
      isNameCharacter character = true)) = Text.isBlank := by
    funext character
    rw [Bool.eq_iff_iff, decide_eq_true_iff]
    exact and_iff_left_of_imp isNameCharacter_of_isBlank
  rw [List.takeWhile_takeWhile, hboth, Cursor.skip]

theorem endItem_eq (reader : Reader) (kind : ElementKind) (targets : List Element)
    (start : Cursor) :
    reader.endItem kind targets start.offset (start.rest.takeWhile isNameCharacter) =
      match item kind start (start.rest.takeWhile isNameCharacter) with
      | .ok element => reader.onto (.itemEnd kind (targets ++ [element]))
      | .error error => reader.onto (.finished (.error error)) := by
  simp only [endItem, byteLength_sub_trimLeft, item, ← offset_skip_isBlank]
  split
  · rfl
  · cases element kind (Text.trim (start.rest.takeWhile isNameCharacter)) <;> rfl

/-- A name is read up to the separator behind it. -/
theorem reaches_endItem {start : Cursor} (hwithin : start.Within text)
    (attempts : List HideAttempt) (groups : List HideGroup) (kind : ElementKind)
    (targets : List Element) {separator : Char}
    (hhead : (start.skip isNameCharacter).rest.head? = some separator)
    (hseparator : separator = ',' ∨ separator = ')') :
    Reaches text ⟨start.offset, attempts, groups, .item kind targets start.offset⟩
      ⟨(start.skip isNameCharacter).offset, attempts, groups,
        match item kind start (start.rest.takeWhile isNameCharacter) with
        | .ok element => .itemEnd kind (targets ++ [element])
        | .error error => .finished (.error error)⟩ := by
  refine reaches_decide hwithin hhead ?_
  simp only [Stage.accepts, decide?, if_pos hseparator, hwithin.slice? isNameCharacter,
    Option.map_some, endItem_eq]
  split <;> rfl

theorem reaches_item {start : Cursor} (hwithin : start.Within text)
    (attempts : List HideAttempt) (groups : List HideGroup) {kind : ElementKind}
    (targets : List Element) {separator : Char}
    (hhead : (start.skip isNameCharacter).rest.head? = some separator)
    (hseparator : separator = ',' ∨ separator = ')') {found : Element}
    (hitem : item kind start (start.rest.takeWhile isNameCharacter) = .ok found) :
    Reaches text ⟨start.offset, attempts, groups, .item kind targets start.offset⟩
      ⟨(start.skip isNameCharacter).offset, attempts, groups,
        .itemEnd kind (targets ++ [found])⟩ := by
  have hreaches := reaches_endItem hwithin attempts groups kind targets hhead hseparator
  rwa [hitem] at hreaches

theorem reads_item_error {ι : Type} {start : Cursor}
    (hwithin : start.Within text) (attempts : List HideAttempt) (groups : List HideGroup)
    {kind : ElementKind} (targets : List Element) {separator : Char}
    (hhead : (start.skip isNameCharacter).rest.head? = some separator)
    (hseparator : separator = ',' ∨ separator = ')') {error : HideTextError}
    (hitem : item kind start (start.rest.takeWhile isNameCharacter) = .error error)
    (behind : ι → Nat → Reader) :
    Reads text ⟨start.offset, attempts, groups, .item kind targets start.offset⟩ (.error error)
      behind := by
  have hreaches := reaches_endItem hwithin attempts groups kind targets hhead hseparator
  rw [hitem] at hreaches
  exact ⟨_, hreaches, rfl⟩

theorem Reads.of_reaches {ι : Type} {reader next : Reader}
    {outcome : Except HideTextError (ι × Cursor)} {behind : ι → Nat → Reader}
    (hreaches : Reaches text reader next) (hreads : Reads text next outcome behind) :
    Reads text reader outcome behind := by
  cases outcome with
  | ok read => exact ⟨hreads.1, hreaches.trans hreads.2⟩
  | error error =>
    obtain ⟨last, hlast, hstage⟩ := hreads
    exact ⟨last, hreaches.trans hlast, hstage⟩

theorem reads_fail {ι : Type} {cursor : Cursor} (hwithin : cursor.Within text)
    {attempts : List HideAttempt} {groups : List HideGroup} {stage : Stage} {next : Option Char}
    {fault : HideFault} {behind : ι → Nat → Reader}
    (hhead : (cursor.skip stage.accepts).rest.head? = next)
    (hdecide : decide? text ⟨(cursor.skip stage.accepts).offset, attempts, groups, stage⟩ next =
      some (fail ⟨(cursor.skip stage.accepts).offset, attempts, groups, stage⟩
        (cursor.skip stage.accepts).offset fault)) :
    Reads text ⟨cursor.offset, attempts, groups, stage⟩ ((cursor.skip stage.accepts).fail fault)
      behind :=
  ⟨_, reaches_decide hwithin hhead hdecide, rfl⟩

/-- Behind the comma there is another name. -/
theorem reaches_next_item {stop : Cursor} (hwithin : stop.Within text)
    (hhead : stop.rest.head? = some ',') (attempts : List HideAttempt) (groups : List HideGroup)
    (kind : ElementKind) (targets : List Element) :
    Reaches text ⟨stop.offset, attempts, groups, .itemEnd kind targets⟩
      ⟨stop.advance.offset, attempts, groups, .item kind targets stop.advance.offset⟩ := by
  refine .single (step?_eq_some hwithin (fun _ _ => rfl) hhead ?_)
  rw [Cursor.offset_advance hhead]
  rfl

/-- The parenthesis ends the group. -/
theorem reaches_groupEnd {stop : Cursor} (hwithin : stop.Within text)
    (hhead : stop.rest.head? = some ')') (attempts : List HideAttempt) (groups : List HideGroup)
    (kind : ElementKind) (targets : List Element) :
    Reaches text ⟨stop.offset, attempts, groups, .itemEnd kind targets⟩
      ⟨stop.advance.offset, attempts, groups ++ [⟨kind, targets⟩], .groupEnd⟩ := by
  refine .single (step?_eq_some hwithin (fun _ _ => rfl) hhead ?_)
  rw [Cursor.offset_advance hhead]
  rfl

/-- Behind the opening parenthesis there is the first name. -/
theorem reaches_first_item {behind : Cursor} (hwithin : behind.Within text)
    (hhead : (behind.skip Text.isBlank).rest.head? = some '(') (attempts : List HideAttempt)
    (groups : List HideGroup) (kind : ElementKind) :
    let inner := (behind.skip Text.isBlank).advance
    Reaches text ⟨behind.offset, attempts, groups, .opening kind⟩
      ⟨inner.offset, attempts, groups, .item kind [] inner.offset⟩ := by
  refine reaches_decide hwithin hhead ?_
  rw [Cursor.offset_advance hhead]
  rfl

theorem reads_items {start : Cursor} (hwithin : start.Within text)
    (attempts : List HideAttempt) (groups : List HideGroup) (kind : ElementKind)
    (targets : List Element) :
    Reads text ⟨start.offset, attempts, groups, .item kind targets start.offset⟩
      (items kind start) fun elements finish =>
        ⟨finish, attempts, groups ++ [{ kind, targets := targets ++ elements }], .groupEnd⟩ := by
  -- By the recursion of the function: every name read makes for one more target.
  fun_induction items kind start generalizing targets with
  | case1 start stop hend =>
    exact reads_fail hwithin (congrArg List.head? hend) rfl
  | case2 start stop rest error hitem hcomma =>
    have hhead : stop.rest.head? = some ',' := congrArg List.head? hcomma
    exact reads_item_error hwithin attempts groups targets hhead (.inl rfl) hitem _
  | case3 start stop rest found hitem error hitems hcomma ih =>
    have hstop : stop.Within text := hwithin.skip isNameCharacter
    have hhead : stop.rest.head? = some ',' := congrArg List.head? hcomma
    have hreaches := reaches_item hwithin attempts groups targets hhead (.inl rfl) hitem
    have hnext := reaches_next_item hstop hhead attempts groups kind (targets ++ [found])
    have hreads := ih (hstop.advance hhead) (targets ++ [found])
    rw [hitems] at hreads
    exact hreads.of_reaches (hreaches.trans hnext)
  | case4 start stop rest found hitem others finish hitems hcomma ih =>
    have hstop : stop.Within text := hwithin.skip isNameCharacter
    have hhead : stop.rest.head? = some ',' := congrArg List.head? hcomma
    have hreaches := reaches_item hwithin attempts groups targets hhead (.inl rfl) hitem
    have hnext := reaches_next_item hstop hhead attempts groups kind (targets ++ [found])
    obtain ⟨hfinish, hothers⟩ : _ ∧ _ := hitems ▸ ih (hstop.advance hhead) (targets ++ [found])
    simp only [List.append_assoc, List.singleton_append] at hothers
    exact ⟨hfinish, (hreaches.trans hnext).trans hothers⟩
  | case5 start stop rest error hitem hclosing =>
    have hhead : stop.rest.head? = some ')' := congrArg List.head? hclosing
    exact reads_item_error hwithin attempts groups targets hhead (.inr rfl) hitem _
  | case6 start stop rest found hitem hclosing =>
    have hstop : stop.Within text := hwithin.skip isNameCharacter
    have hhead : stop.rest.head? = some ')' := congrArg List.head? hclosing
    have hreaches := reaches_item hwithin attempts groups targets hhead (.inr rfl) hitem
    have hend := reaches_groupEnd hstop hhead attempts groups kind (targets ++ [found])
    exact ⟨hstop.advance hhead, hreaches.trans hend⟩
  | case7 start stop separator rest hrest hcomma hclosing =>
    exact reads_fail hwithin (congrArg List.head? hrest) (if_neg (not_or.mpr ⟨hcomma, hclosing⟩))

/-- A keyword is read behind the blanks in front of it. -/
theorem reaches_endKeyword {start : Cursor} (hwithin : start.Within text)
    (attempts : List HideAttempt) (groups : List HideGroup) :
    let first := start.skip Text.isBlank
    Reaches text ⟨start.offset, attempts, groups, .groupStart⟩
      (endKeyword ⟨(first.skip Char.isAlpha).offset, attempts, groups, .keyword first.offset⟩
        first.offset (first.rest.takeWhile Char.isAlpha)) := by
  intro first
  have hfirst : first.Within text := hwithin.skip Text.isBlank
  have hblanks : Reaches text ⟨start.offset, attempts, groups, .groupStart⟩
      ⟨first.offset, attempts, groups, .keyword first.offset⟩ :=
    reaches_decide hwithin rfl rfl
  refine hblanks.trans (reaches_decide hfirst rfl ?_)
  simp only [Stage.accepts, decide?, hfirst.slice? Char.isAlpha, Option.map_some]

theorem reads_group {start : Cursor} (hwithin : start.Within text)
    (attempts : List HideAttempt) (groups : List HideGroup) :
    Reads text ⟨start.offset, attempts, groups, .groupStart⟩ (group start) fun found finish =>
      ⟨finish, attempts, groups ++ [found], .groupEnd⟩ := by
  have hkeyword := reaches_endKeyword hwithin attempts groups
  unfold group
  set first := start.skip Text.isBlank
  have hfirst : first.Within text := hwithin.skip Text.isBlank
  simp only [endKeyword] at hkeyword ⊢
  by_cases hempty : (first.rest.takeWhile Char.isAlpha).isEmpty = true
  · have hskip : (first.skip Char.isAlpha).offset = first.offset := by
      rw [Cursor.skip, List.isEmpty_iff.mp hempty]
      rfl
    rw [if_pos hempty, hskip] at hkeyword
    rw [if_pos hempty]
    exact ⟨_, hkeyword, rfl⟩
  rw [if_neg hempty] at hkeyword ⊢
  cases hkind : ElementKind.ofKeyword? (first.rest.takeWhile Char.isAlpha) with
  | none =>
    rw [hkind] at hkeyword
    exact ⟨_, hkeyword, rfl⟩
  | some kind =>
    rw [hkind] at hkeyword
    have hbehind : (first.skip Char.isAlpha).Within text := hfirst.skip Char.isAlpha
    refine .of_reaches hkeyword ?_
    by_cases hopening : ((first.skip Char.isAlpha).skip Text.isBlank).rest.head? = some '('
    · have hitems := reads_items ((hbehind.skip Text.isBlank).advance hopening) attempts groups
        kind []
      simp only [if_pos hopening]
      refine .of_reaches (reaches_first_item hbehind hopening attempts groups kind) ?_
      cases hread : items kind ((first.skip Char.isAlpha).skip Text.isBlank).advance with
      | error error =>
        rw [hread] at hitems
        exact hitems
      | ok read =>
        rw [hread] at hitems
        exact hitems
    · simp only [if_neg hopening]
      exact reads_fail hbehind rfl (if_neg hopening)

/-! ### Attempts -/

/-- Behind the ampersand there is another group. -/
theorem reaches_next_group {behind : Cursor} (hwithin : behind.Within text)
    (hhead : (behind.skip Text.isBlank).rest.head? = some '&') (attempts : List HideAttempt)
    (groups : List HideGroup) :
    Reaches text ⟨behind.offset, attempts, groups, .groupEnd⟩
      ⟨(behind.skip Text.isBlank).advance.offset, attempts, groups, .groupStart⟩ := by
  refine reaches_decide hwithin hhead ?_
  rw [Cursor.offset_advance hhead]
  rfl

/-- Without an ampersand the attempt ends. -/
theorem reaches_attemptEnd {behind : Cursor} (hwithin : behind.Within text)
    (hhead : (behind.skip Text.isBlank).rest.head? ≠ some '&') (attempts : List HideAttempt)
    (groups : List HideGroup) :
    Reaches text ⟨behind.offset, attempts, groups, .groupEnd⟩
      ⟨(behind.skip Text.isBlank).offset, attempts ++ [⟨groups⟩], [], .attemptEnd⟩ :=
  reaches_decide hwithin rfl (if_neg hhead)

theorem reads_groups {start : Cursor} (hwithin : start.Within text)
    (attempts : List HideAttempt) (groups : List HideGroup) :
    Reads text ⟨start.offset, attempts, groups, .groupStart⟩ (HideText.groups start)
      fun found finish => ⟨finish, attempts ++ [⟨groups ++ found⟩], [], .attemptEnd⟩ := by
  fun_induction HideText.groups start generalizing groups with
  | case1 start error hgroup =>
    have hreads := reads_group hwithin attempts groups
    rw [hgroup] at hreads
    exact hreads
  | case2 start found behind hgroup next hampersand error hothers ih =>
    obtain ⟨hbehind, hreaches⟩ : _ ∧ _ := hgroup ▸ reads_group hwithin attempts groups
    have hnext := reaches_next_group hbehind hampersand attempts (groups ++ [found])
    have hreads := ih ((hbehind.skip Text.isBlank).advance hampersand) (groups ++ [found])
    rw [hothers] at hreads
    exact hreads.of_reaches (hreaches.trans hnext)
  | case3 start found behind hgroup next hampersand others last hothers ih =>
    obtain ⟨hbehind, hreaches⟩ : _ ∧ _ := hgroup ▸ reads_group hwithin attempts groups
    have hnext := reaches_next_group hbehind hampersand attempts (groups ++ [found])
    obtain ⟨hlast, hrest⟩ : _ ∧ _ := hothers ▸
      ih ((hbehind.skip Text.isBlank).advance hampersand) (groups ++ [found])
    simp only [List.append_assoc, List.singleton_append] at hrest
    exact ⟨hlast, (hreaches.trans hnext).trans hrest⟩
  | case4 start found behind hgroup next hampersand =>
    obtain ⟨hbehind, hreaches⟩ : _ ∧ _ := hgroup ▸ reads_group hwithin attempts groups
    have hend := reaches_attemptEnd hbehind hampersand attempts (groups ++ [found])
    exact ⟨hbehind.skip Text.isBlank, hreaches.trans hend⟩

/-- The groups of an attempt are read with the blanks behind them. -/
theorem stops_of_groups {start finish : Cursor} {found : List HideGroup}
    (hread : HideText.groups start = .ok (found, finish)) : Stops Text.isBlank finish.rest := by
  fun_induction HideText.groups start generalizing found finish with
  | case1 | case2 => cases hread
  | case3 _ _ _ _ _ _ _ _ hothers =>
    rename_i ih
    cases hread
    exact ih hothers
  | case4 =>
    cases hread
    exact stops_dropWhile _ _

theorem reaches_attempt {start finish : Cursor} {found : List HideGroup}
    (hwithin : start.Within text) (attempts : List HideAttempt)
    (hread : HideText.groups start = .ok (found, finish)) :
    finish.Within text ∧ Reaches text ⟨start.offset, attempts, [], .groupStart⟩
      ⟨finish.offset, attempts ++ [⟨found⟩], [], .attemptEnd⟩ := by
  have hreads := reads_groups hwithin attempts []
  rw [hread] at hreads
  exact hreads

/-- Behind the comma there is another attempt. -/
theorem reaches_next_attempt {finish : Cursor} (hwithin : finish.Within text)
    (hstops : Stops Text.isBlank finish.rest) (hhead : finish.rest.head? = some ',')
    (attempts : List HideAttempt) :
    Reaches text ⟨finish.offset, attempts, [], .attemptEnd⟩
      ⟨finish.advance.offset, attempts, [], .groupStart⟩ := by
  refine .single (step?_eq_some hwithin hstops hhead ?_)
  rw [Cursor.offset_advance hhead]
  rfl

/-- A reader in front of a group ends with the attempts that it has read and those that are read
from its place on, or with the error. -/
theorem exists_reaches_attempts {start : Cursor} (hwithin : start.Within text)
    (attempts : List HideAttempt) :
    ∃ last, Reaches text ⟨start.offset, attempts, [], .groupStart⟩ last ∧
      last.stage = .finished ((HideText.attempts start).map (attempts ++ ·)) := by
  fun_induction HideText.attempts start generalizing attempts with
  | case1 start error hgroups =>
    have hreads := reads_groups hwithin attempts []
    rw [hgroups] at hreads
    exact hreads
  | case2 start found finish hgroups hend =>
    obtain ⟨hfinish, hreaches⟩ := reaches_attempt hwithin attempts hgroups
    have hhead : finish.rest.head? = none := congrArg List.head? hend
    have hstops : Stops Stage.attemptEnd.accepts finish.rest := stops_of_groups hgroups
    exact ⟨_, hreaches.tail (step?_eq_some hfinish hstops hhead rfl), rfl⟩
  | case3 start found finish hgroups rest error hothers hcomma ih =>
    obtain ⟨hfinish, hreaches⟩ := reaches_attempt hwithin attempts hgroups
    have hhead : finish.rest.head? = some ',' := congrArg List.head? hcomma
    have hnext := reaches_next_attempt hfinish (stops_of_groups hgroups) hhead
      (attempts ++ [⟨found⟩])
    obtain ⟨last, hlast, hstage⟩ := ih (hfinish.advance hhead) (attempts ++ [⟨found⟩])
    refine ⟨last, (hreaches.trans hnext).trans hlast, ?_⟩
    rw [hstage, hothers]
    rfl
  | case4 start found finish hgroups rest others hothers hcomma ih =>
    obtain ⟨hfinish, hreaches⟩ := reaches_attempt hwithin attempts hgroups
    have hhead : finish.rest.head? = some ',' := congrArg List.head? hcomma
    have hnext := reaches_next_attempt hfinish (stops_of_groups hgroups) hhead
      (attempts ++ [⟨found⟩])
    obtain ⟨last, hlast, hstage⟩ := ih (hfinish.advance hhead) (attempts ++ [⟨found⟩])
    refine ⟨last, (hreaches.trans hnext).trans hlast, ?_⟩
    rw [hstage, hothers, Except.map, Except.map, List.append_assoc, List.singleton_append]
  | case5 start found finish hgroups character rest hcharacter hother =>
    obtain ⟨hfinish, hreaches⟩ := reaches_attempt hwithin attempts hgroups
    have hhead : finish.rest.head? = some character := congrArg List.head? hcharacter
    have hstops : Stops Stage.attemptEnd.accepts finish.rest := stops_of_groups hgroups
    exact ⟨_, hreaches.tail (step?_eq_some hfinish hstops hhead (if_neg hother)), rfl⟩

/-- From the front of a text a reader ends with what the text is read as. -/
theorem exists_reaches_parse (text : String) :
    ∃ last, Reaches text.toList start last ∧ last.stage = .finished (parse text) := by
  have hwithin : Cursor.Within text.toList ⟨0, text.toList⟩ :=
    ⟨[], divide?_eq_some_iff.mpr ⟨rfl, rfl⟩⟩
  obtain ⟨last, hlast, hstage⟩ := exists_reaches_attempts hwithin []
  refine ⟨last, hlast, ?_⟩
  rw [hstage, parse]
  cases HideText.attempts ⟨0, text.toList⟩ <;> rfl

end Reader

/-- Whatever the text, a reader that knows its place as a number of bytes stands between two
characters in every moment, finds every slice that it looks at, and gets ahead with every step, to
one end, at which it has what `parse` returns.  The error that it may have is reported between two
characters of the text, behind every comma, ampersand and opening parenthesis it has gone past. -/
theorem reader_stays_between_characters (text : String) :
    (∀ reader, Reader.Reaches text.toList .start reader →
      (String.Pos.Raw.mk reader.offset).IsValid text ∧
      (∀ start, reader.stage.start? = some start →
        (slice? text.toList start reader.offset).isSome = true) ∧
      ∃ next, reader.step? text.toList = some next ∧ reader.Advances text.toList next) ∧
    ∃ last : Reader, last.stage = .finished (parse text) ∧
      (∀ reader, Reader.Reaches text.toList .start reader →
        Reader.Reaches text.toList reader last) ∧
      ∀ error, parse text = .error error →
        error.offset ≤ text.utf8ByteSize ∧ (String.Pos.Raw.mk error.offset).IsValid text ∧
        BehindSeparators text.toList last.offset error.offset := by
  have hkept {reader : Reader} (hreaches : Reader.Reaches text.toList .start reader) :
      reader.OnCharacters text.toList :=
    (Reader.onCharacters_start text.toList).of_reaches hreaches
  constructor
  · intro reader hreaches
    have hreader := hkept hreaches
    refine ⟨isSome_divide?_iff.mp hreader.place, fun start hstart => ?_, ?_⟩
    · obtain ⟨part, hslice, -⟩ := hreader.token start hstart
      rw [hslice]
      rfl
    · obtain ⟨next, hstep, -, hadvances⟩ := hreader.step
      exact ⟨next, hstep, hadvances⟩
  · obtain ⟨last, hlast, hstage⟩ := Reader.exists_reaches_parse text
    refine ⟨last, hstage, fun reader hreader => hreader.to_finished hlast hstage, ?_⟩
    intro error herror
    obtain ⟨hplace, hbehind⟩ := (hkept hlast).error error (hstage.trans (by rw [herror]))
    have hvalid := isSome_divide?_iff.mp hplace
    exact ⟨hvalid.le_rawEndPos, hvalid, hbehind⟩

end LabelPlacement.HideText
