import LabelPlacement.Scalar.Binary64
import LabelPlacement.Proofs.Reading

/-!
# Written sequences

A command is written under the tag of its kind, with a field for each of its parameters. What is
read back is the command that was written (`Command.ofJson?_toJson`), if its numbers fit their bits
and are finite: an infinite length is written like a length that is absent. So is what is read back
of a whole sequence, and sequences that are written alike are the same.
-/

namespace LabelPlacement

variable {α : Type}

/-! ### Elements that are hidden -/

/-- Stack levels are numbers of 32 bits. -/
def Element.Fits : Element → Prop
  | .stackLevel level => level < 2 ^ 32
  | .textComponent _ | .symbolComponent _ | .textObject _ => True

instance : DecidablePred Element.Fits
  | .stackLevel level => inferInstanceAs (Decidable (level < 2 ^ 32))
  | .textComponent _ | .symbolComponent _ | .textObject _ => instDecidableTrue

def HideAttempt.Fits (attempt : HideAttempt) : Prop :=
  ∀ group ∈ attempt.groups, ∀ element ∈ group.targets, element.Fits

instance : DecidablePred HideAttempt.Fits := fun attempt =>
  inferInstanceAs (Decidable (∀ group ∈ attempt.groups, ∀ element ∈ group.targets, element.Fits))

theorem Element.ofJson?_toJson {element : Element} (hfits : element.Fits) :
    ofJson? (element.toJson : Json α) = some element := by
  cases element with
  | textComponent name | symbolComponent name | textObject name => rfl
  | stackLevel level =>
    have hlevel : (Json.ofNatural level : Json α).natural? 32 = some level :=
      Json.natural?_ofNatural hfits
    simp [ofJson?, toJson, hlevel]

theorem HideGroup.ofJson?_toJson {group : HideGroup}
    (hfits : ∀ element ∈ group.targets, element.Fits) :
    ofJson? (group.toJson : Json α) = some group := by
  have htargets : (Json.ofList Element.toJson group.targets : Json α).list? Element.ofJson? =
      some group.targets :=
    Json.list?_ofList fun element hmem => Element.ofJson?_toJson (hfits element hmem)
  simp [ofJson?, toJson, htargets]

theorem HideAttempt.ofJson?_toJson {attempt : HideAttempt} (hfits : attempt.Fits) :
    ofJson? (attempt.toJson : Json α) = some attempt := by
  have hgroups : (Json.ofList HideGroup.toJson attempt.groups : Json α).list? HideGroup.ofJson? =
      some attempt.groups :=
    Json.list?_ofList fun group hmem => HideGroup.ofJson?_toJson (hfits group hmem)
  simp [ofJson?, toJson, hgroups]

theorem attemptsOfJson?_attemptsToJson {attempts : List HideAttempt}
    (hfits : ∀ attempt ∈ attempts, attempt.Fits) :
    attemptsOfJson? (attemptsToJson attempts : Json α) = some attempts := by
  have hattempts : (Json.ofList HideAttempt.toJson attempts : Json α).list? HideAttempt.ofJson? =
      some attempts :=
    Json.list?_ofList fun attempt hmem => HideAttempt.ofJson?_toJson (hfits attempt hmem)
  simp [attemptsOfJson?, attemptsToJson, hattempts]

variable [Scalar α]

/-! ### Placing commands -/

def LinePosition.IsFinite (position : LinePosition α) : Prop := Scalar.isFinite position.value

theorem LinePosition.ofJson?_toJson {position : LinePosition α} (hfinite : position.IsFinite) :
    ofJson? position.toJson = some position := by
  simp [ofJson?, toJson, Json.number?_ofNumber hfinite]

def LinePlacement.IsFinite (placement : LinePlacement α) : Prop :=
  placement.initial.IsFinite ∧ placement.minimum.IsFinite ∧ placement.maximum.IsFinite

theorem LinePlacement.ofJson?_toJson {placement : LinePlacement α} (hfinite : placement.IsFinite) :
    ofJson? placement.toJson = some placement := by
  obtain ⟨hinitial, hminimum, hmaximum⟩ := hfinite
  simp [ofJson?, toJson, LinePosition.ofJson?_toJson hinitial,
    LinePosition.ofJson?_toJson hminimum, LinePosition.ofJson?_toJson hmaximum]

theorem PointPlacement.ofJson?_toJson {placement : PointPlacement α}
    (hfinite : Scalar.isFinite placement.angle) : ofJson? placement.toJson = some placement := by
  have hpositions : (Json.ofList Json.ofNamed placement.positions : Json α).list? Json.named? =
      some placement.positions :=
    Json.list?_ofList fun position _ => Json.named?_ofNamed position
  simp [ofJson?, toJson, hpositions, Json.number?_ofNumber hfinite]

theorem AreaPlacement.ofJson?_toJson {placement : AreaPlacement α}
    (hfinite : Scalar.isFinite placement.angle) : ofJson? placement.toJson = some placement := by
  simp [ofJson?, toJson, Json.number?_ofNumber hfinite]

theorem LeaderPlacement.ofJson?_toJson {placement : LeaderPlacement α}
    (hfinite : ∀ length ∈ placement.maxLength, Scalar.isFinite length) :
    ofJson? placement.toJson = some placement := by
  have hlength : Json.nullable? Json.number? (Json.ofOption Json.ofNumber placement.maxLength) =
      some placement.maxLength :=
    Json.nullable?_ofOption rfl fun length hmem => Json.number?_ofNumber (hfinite length hmem)
  simp [ofJson?, toJson, hlength]

omit [Scalar α] in
theorem FailureAction.ofJson?_toJson (action : FailureAction) :
    ofJson? (action.toJson : Json α) = some action :=
  Json.named?_ofNamed (α := α) action

/-! ### Loops -/

namespace LoopKind

/-- Steps and lines are numbers of 32 bits, and so are the levels that are hidden. -/
def Fits : LoopKind α → Prop
  | .relax _ => True
  | .bufferSize _ steps _ | .fontSize steps _ _ => steps < 2 ^ 32
  | .stack lines _ => lines < 2 ^ 32
  | .hide attempts => ∀ attempt ∈ attempts, attempt.Fits

def IsFinite : LoopKind α → Prop
  | .relax (.overhang amount) => Scalar.isFinite amount
  | .fontSize _ percent _ => Scalar.isFinite percent
  | .relax _ | .bufferSize .. | .stack .. | .hide _ => True

instance : DecidablePred (Fits (α := α))
  | .relax _ => instDecidableTrue
  | .bufferSize _ steps _ | .fontSize steps _ _ | .stack steps _ =>
    inferInstanceAs (Decidable (steps < 2 ^ 32))
  | .hide attempts => inferInstanceAs (Decidable (∀ attempt ∈ attempts, attempt.Fits))

instance : DecidablePred (IsFinite (α := α))
  | .relax (.overhang amount) => inferInstanceAs (Decidable (Scalar.isFinite amount = true))
  | .fontSize _ percent _ => inferInstanceAs (Decidable (Scalar.isFinite percent = true))
  | .relax .offset | .relax .overline | .relax .overregion | .relax .bump | .bufferSize ..
  | .stack .. | .hide _ => instDecidableTrue

omit [Scalar α] in
theorem exists_jsonNames? (kind : LoopKind α) : ∃ names, jsonNames? kind.jsonTag = some names := by
  cases kind with
  | relax relaxation => cases relaxation <;> exact ⟨_, rfl⟩
  | bufferSize | fontSize | stack | hide => exact ⟨_, rfl⟩

/-- No parameter has the name of the target. -/
theorem optional?_target {ι : Type} {decode? : Json α → Option ι} (kind : LoopKind α)
    (target : Json α) :
    Json.optional? "where_to_loop" decode? (kind.jsonFields ++ [("where_to_loop", target)]) =
      Json.nullable? decode? target := by
  cases kind with
  | relax relaxation => cases relaxation <;> simp [jsonFields]
  | bufferSize | fontSize | stack | hide => simp [jsonFields]

/-- The parameters are read back, whatever follows them. -/
theorem ofFields?_jsonFields {kind : LoopKind α} (hfits : kind.Fits) (hfinite : kind.IsFinite)
    (more : List (String × Json α)) :
    ofFields? kind.jsonTag (kind.jsonFields ++ more) = some kind := by
  cases kind with
  | relax relaxation =>
    cases relaxation with
    | offset | overline | overregion | bump => simp [ofFields?, jsonTag]
    | overhang amount =>
      have hamount : (Json.ofNumber amount).number? = some amount := Json.number?_ofNumber hfinite
      simp [ofFields?, jsonTag, jsonFields, hamount]
  | bufferSize buffer steps action =>
    have hsteps := Json.natural?_ofNatural (α := α) hfits
    simp [ofFields?, jsonTag, jsonFields, hsteps]
  | fontSize steps percent action =>
    have hsteps := Json.natural?_ofNatural (α := α) hfits
    have hpercent : (Json.ofNumber percent).number? = some percent := Json.number?_ofNumber hfinite
    simp [ofFields?, jsonTag, jsonFields, hsteps, hpercent]
  | stack lines action =>
    have hlines := Json.natural?_ofNatural (α := α) hfits
    simp [ofFields?, jsonTag, jsonFields, hlines]
  | hide attempts =>
    have hattempts := attemptsOfJson?_attemptsToJson (α := α) hfits
    simp [ofFields?, jsonTag, jsonFields, hattempts]

end LoopKind

namespace Loop

/-- Targets are numbers of 64 bits. -/
def Fits (loop : Loop α) : Prop :=
  loop.kind.Fits ∧ ∀ target ∈ loop.target, target < 2 ^ 64

theorem ofJson?_toJson {loop : Loop α} (hfits : loop.Fits) (hfinite : loop.kind.IsFinite) :
    ∃ content, loop.toJson = .tagged loop.kind.jsonTag content ∧
      ofJson? loop.kind.jsonTag content = some loop := by
  refine ⟨_, rfl, ?_⟩
  obtain ⟨names, hnames⟩ := loop.kind.exists_jsonNames?
  have hkind := LoopKind.ofFields?_jsonFields hfits.1 hfinite
    [("where_to_loop", .ofOption Json.ofNatural loop.target)]
  have htarget : Json.nullable? (Json.natural? 64)
      (Json.ofOption Json.ofNatural loop.target : Json α) = some loop.target :=
    Json.nullable?_ofOption rfl fun target hmem => Json.natural?_ofNatural (hfits.2 target hmem)
  simp [ofJson?, hnames, hkind, LoopKind.optional?_target, htarget]

end Loop

/-! ### Commands and sequences -/

namespace Command

def Fits : Command α → Prop
  | .loop found => found.Fits
  | .line _ | .point _ | .area _ | .leader _ | .failure _ => True

def IsFinite : Command α → Prop
  | .line placement => placement.IsFinite
  | .point placement => Scalar.isFinite placement.angle
  | .area placement => Scalar.isFinite placement.angle
  | .leader placement => ∀ length ∈ placement.maxLength, Scalar.isFinite length
  | .failure _ => True
  | .loop found => found.kind.IsFinite

instance : DecidablePred (Fits (α := α))
  | .loop found => inferInstanceAs
      (Decidable (found.kind.Fits ∧ ∀ target ∈ found.target, target < 2 ^ 64))
  | .line _ | .point _ | .area _ | .leader _ | .failure _ => instDecidableTrue

instance : DecidablePred (IsFinite (α := α))
  | .line ⟨_, initial, minimum, maximum⟩ => inferInstanceAs (Decidable
      (Scalar.isFinite initial.value ∧ Scalar.isFinite minimum.value ∧
        Scalar.isFinite maximum.value))
  | .point placement => inferInstanceAs (Decidable (Scalar.isFinite placement.angle = true))
  | .area placement => inferInstanceAs (Decidable (Scalar.isFinite placement.angle = true))
  | .leader placement => inferInstanceAs
      (Decidable (∀ length ∈ placement.maxLength, Scalar.isFinite length = true))
  | .failure _ => instDecidableTrue
  | .loop found => inferInstanceAs (Decidable found.kind.IsFinite)

/-- The tag of a loop is not that of another command. -/
theorem ofJson?_tagged_loop {kind : LoopKind α} {content : Json α} {found : Loop α}
    (hread : Loop.ofJson? kind.jsonTag content = some found) :
    ofJson? (.tagged kind.jsonTag content) = some (.loop found) := by
  cases kind with
  | relax relaxation =>
    cases relaxation <;> rw [LoopKind.jsonTag] at hread ⊢ <;>
      simp [ofJson?, hread]
  | bufferSize | fontSize | stack | hide =>
    rw [LoopKind.jsonTag] at hread ⊢
    simp [ofJson?, hread]

/-- **One command.** -/
theorem ofJson?_toJson {command : Command α} (hfits : command.Fits) (hfinite : command.IsFinite) :
    ofJson? command.toJson = some command := by
  cases command with
  | line placement =>
    simp [ofJson?, toJson, LinePlacement.ofJson?_toJson hfinite]
  | point placement =>
    simp [ofJson?, toJson, PointPlacement.ofJson?_toJson hfinite]
  | area placement =>
    simp [ofJson?, toJson, AreaPlacement.ofJson?_toJson hfinite]
  | leader placement =>
    simp [ofJson?, toJson, LeaderPlacement.ofJson?_toJson hfinite]
  | failure action =>
    simp [ofJson?, toJson, FailureAction.ofJson?_toJson]
  | loop found =>
    -- A loop has the tag of its kind, so the tags of the other commands have to be passed first.
    obtain ⟨content, hwritten, hread⟩ := Loop.ofJson?_toJson hfits hfinite
    rw [toJson, hwritten, ofJson?_tagged_loop hread]

end Command

namespace Sequence

/-- Commands are numbered with 64 bits. -/
structure Fits (sequence : Sequence α) : Prop where
  id : ∀ entry ∈ sequence.entries, entry.id < 2 ^ 64
  command : ∀ entry ∈ sequence.entries, entry.command.Fits
  nextId : sequence.nextId < 2 ^ 64

def IsFinite (sequence : Sequence α) : Prop :=
  ∀ entry ∈ sequence.entries, entry.command.IsFinite

theorem entryOfJson?_entryToJson {entry : Entry α} (hid : entry.id < 2 ^ 64)
    (hfits : entry.command.Fits) (hfinite : entry.command.IsFinite) :
    entryOfJson? (entryToJson entry) = some entry := by
  have hnumber := Json.natural?_ofNatural (α := α) hid
  simp [entryOfJson?, entryToJson, hnumber, Command.ofJson?_toJson hfits hfinite]

/-- **All commands.** -/
theorem ofJson?_toJson {sequence : Sequence α} (hfits : sequence.Fits)
    (hfinite : sequence.IsFinite) : ofJson? sequence.toJson = some sequence := by
  have hentries : (Json.ofList entryToJson sequence.entries).list? entryOfJson? =
      some sequence.entries :=
    Json.list?_ofList fun entry hmem =>
      entryOfJson?_entryToJson (hfits.id entry hmem) (hfits.command entry hmem) (hfinite entry hmem)
  have hnext := Json.natural?_ofNatural (α := α) hfits.nextId
  simp [ofJson?, toJson, hentries, hnext]

end Sequence

/-- **Written sequences.** A sequence is read back as it was written, whatever its numbers, targets
and attempts, if its parameters are finite; and no two such sequences are written alike. -/
theorem Sequence.written_is_read_back :
    (∀ sequence : Sequence α, sequence.Fits → sequence.IsFinite →
      ofJson? sequence.toJson = some sequence) ∧
    ∀ sequence other : Sequence α, sequence.Fits → sequence.IsFinite → other.Fits →
      other.IsFinite → sequence.toJson = other.toJson → sequence = other := by
  refine ⟨fun sequence hfits hfinite => ofJson?_toJson hfits hfinite, ?_⟩
  intro sequence other hfits hfinite hotherFits hotherFinite hwritten
  have hread : some sequence = some other := by
    calc some sequence = ofJson? sequence.toJson := (ofJson?_toJson hfits hfinite).symm
      _ = ofJson? other.toJson := by rw [hwritten]
      _ = some other := ofJson?_toJson hotherFits hotherFinite
  exact Option.some.inj hread

/-- A command of every kind, with a loop that refers to itself and one that refers to no command. -/
theorem Sequence.mixed_sequence_is_read_back :
    let attempts : List HideAttempt :=
      [⟨[⟨.textComponent, [.textComponent "unit", .stackLevel 2]⟩, ⟨.stackLevel, []⟩]⟩, ⟨[]⟩]
    let sequence : Sequence Float :=
      ⟨[⟨7, .line ⟨.above, ⟨50, .percent⟩, ⟨0.5, .absolute⟩, ⟨100, .percent⟩⟩⟩,
        ⟨7, .point ⟨[.north, .onPoint], 15⟩⟩, ⟨3, .area ⟨.boundaryStraddle, 0⟩⟩,
        ⟨4, .loop ⟨.relax .offset, some 4⟩⟩, ⟨5, .loop ⟨.relax (.overhang 25), some 3⟩⟩,
        ⟨6, .loop ⟨.relax .overline, none⟩⟩, ⟨8, .loop ⟨.relax .overregion, some 99⟩⟩,
        ⟨9, .loop ⟨.relax .bump, none⟩⟩, ⟨10, .leader ⟨.deferred, none⟩⟩,
        ⟨11, .loop ⟨.bufferSize .feature 0 .reduce, some 3⟩⟩,
        ⟨12, .loop ⟨.fontSize 4294967295 12.5 .loopAgain, none⟩⟩,
        ⟨13, .loop ⟨.stack 3 .reset, none⟩⟩, ⟨14, .loop ⟨.hide attempts, some 7⟩⟩,
        ⟨15, .failure .forceWithLeader⟩], 0⟩
    sequence.Fits ∧ sequence.IsFinite ∧ ofJson? sequence.toJson = some sequence := by
  intro attempts sequence
  have hfits : sequence.Fits := ⟨by decide, by decide, by decide⟩
  have hfinite : ∀ entry ∈ sequence.entries, entry.command.IsFinite := by decide
  exact ⟨hfits, hfinite, written_is_read_back.1 sequence hfits hfinite⟩

end LabelPlacement
