import Mathlib.Data.List.Basic
import Mathlib.Data.List.Induction
import Mathlib.Data.Real.Basic
import LabelPlacement.Scalar.Binary64
import LabelPlacement.Sequence.Validation
import LabelPlacement.Proofs.Returning

/-!
# Loops without a target

Whether a loop has a target in front of it is looked at twice: in the findings about a sequence, and
when the loop is carried out. Both come to the same (`Sequence.LacksTarget`), whatever numbers and
targets the commands have. Apart from symbols without a shape nothing else makes a run fail, so a
sequence without such findings comes back without an error, and with a settled label if its last
command settles it in any case, unless one of its commands crashes or goes on for ever
(`Sequence.keeps_unsettled`).
-/

namespace LabelPlacement

variable {α : Type}

/-- The command at a position is a loop that goes back to a target and has none in front of it. -/
def Sequence.LacksTarget (sequence : Sequence α) (position : Nat) : Prop :=
  ∃ entry loop, sequence.entryAt? position = some entry ∧ entry.command = .loop loop ∧
    loop.kind.needsTarget = true ∧ sequence.targetPosition? position loop = none

/-! ### Findings about targets -/

theorem flatMap_zipIdx {ι κ : Type} (view : ι × Nat → List κ) (elements : List ι) :
    elements.zipIdx.flatMap view =
      (List.range elements.length).flatMap fun position =>
        elements[position]?.elim [] fun element => view (element, position) := by
  induction elements using List.reverseRecOn with
  | nil => rfl
  | append_singleton earlier last ih =>
    rw [List.zipIdx_append, List.flatMap_append, ih, List.length_append, List.length_singleton,
      List.range_succ, List.flatMap_append]
    congr 1
    · refine List.flatMap_congr fun position hmem => ?_
      rw [List.getElem?_append_left (List.mem_range.mp hmem)]
    · simp

theorem not_isAboutTarget_of_mem_requireKind {what : String} {expected actual : FeatureKind}
    {concern : Concern} (hmem : concern ∈ requireKind what expected actual) :
    concern.isAboutTarget = false := by
  rw [requireKind] at hmem
  split at hmem
  · cases hmem
  · rw [List.mem_singleton.mp hmem]
    rfl

theorem not_isAboutTarget_of_mem_ite {condition : Prop} [Decidable condition] {only : Concern}
    (honly : only.isAboutTarget = false) {concern : Concern}
    (hmem : concern ∈ if condition then [only] else []) : concern.isAboutTarget = false := by
  split at hmem
  · rw [List.mem_singleton.mp hmem, honly]
  · cases hmem

theorem Command.not_isAboutTarget_of_mem_concerns [Scalar α] {command : Command α}
    {kind : FeatureKind} {concern : Concern} (hmem : concern ∈ command.concerns kind) :
    concern.isAboutTarget = false := by
  unfold concerns at hmem
  split at hmem
  case h_1 | h_2 =>
    obtain hkind | hother := List.mem_append.mp hmem
    · exact not_isAboutTarget_of_mem_requireKind hkind
    · exact not_isAboutTarget_of_mem_ite (by rfl) hother
  case h_3 | h_4 | h_5 => exact not_isAboutTarget_of_mem_requireKind hmem
  case h_6 | h_7 | h_8 => exact not_isAboutTarget_of_mem_ite (by rfl) hmem
  case h_9 => cases hmem

namespace Sequence

theorem isAboutTarget_of_mem_targetConcerns {sequence : Sequence α} {position : Nat}
    {loop : Loop α} {concern : Concern}
    (hmem : concern ∈ sequence.targetConcerns position loop) : concern.isAboutTarget = true := by
  rw [targetConcerns] at hmem
  split at hmem
  · split at hmem
    · rw [List.mem_singleton.mp hmem]; rfl
    · split at hmem
      · rw [List.mem_singleton.mp hmem]; rfl
      · split at hmem
        · rw [List.mem_singleton.mp hmem]; rfl
        · cases hmem
  · cases hmem

/-- There is a concern about the target of a loop exactly if the loop needs one and finds none. -/
theorem targetConcerns_ne_nil_iff (sequence : Sequence α) (position : Nat) (loop : Loop α) :
    sequence.targetConcerns position loop ≠ [] ↔
      loop.kind.needsTarget = true ∧ sequence.targetPosition? position loop = none := by
  rw [targetConcerns, targetPosition?]
  cases loop.kind.needsTarget with
  | false => simp
  | true =>
    cases loop.target with
    | none => simp
    | some target =>
      cases hfound : sequence.position? target with
      | none => simp [hfound]
      | some found => simp [hfound, Option.filter]

variable [Scalar α]

/-- The findings about the command at a position. -/
def findingsAt (sequence : Sequence α) (kind : FeatureKind) (position : Nat) : List Finding :=
  (sequence.entryAt? position).elim [] fun entry =>
    (sequence.concernsAt kind position entry.command).map fun concern =>
      { command := some entry.id, tag := entry.command.tag, concern }

theorem findings_eq_flatMap (sequence : Sequence α) (kind : FeatureKind) :
    sequence.findings kind =
      (List.range sequence.length).flatMap (sequence.findingsAt kind) :=
  flatMap_zipIdx _ sequence.entries

/-- What concerns a target among all concerns about a command. -/
theorem exists_concern_iff (sequence : Sequence α) (kind : FeatureKind) (position : Nat)
    (command : Command α) :
    (∃ concern ∈ sequence.concernsAt kind position command, concern.isAboutTarget = true) ↔
      ∃ loop, command = .loop loop ∧ loop.kind.needsTarget = true ∧
        sequence.targetPosition? position loop = none := by
  constructor
  · rintro ⟨concern, hmem, habout⟩
    simp only [concernsAt, List.mem_append] at hmem
    obtain (hcommand | hmisplaced) | htarget := hmem
    · rw [Command.not_isAboutTarget_of_mem_concerns hcommand] at habout
      cases habout
    · split at hmisplaced
      · split at hmisplaced
        · cases hmisplaced
        · rw [List.mem_singleton.mp hmisplaced] at habout
          cases habout
      · cases hmisplaced
    · split at htarget
      · rename_i loop
        exact ⟨loop, rfl, (sequence.targetConcerns_ne_nil_iff position loop).mp
          (List.ne_nil_of_mem htarget)⟩
      · cases htarget
  · rintro ⟨loop, rfl, hlacks⟩
    obtain ⟨concern, hmem⟩ := List.exists_mem_of_ne_nil _
      ((sequence.targetConcerns_ne_nil_iff position loop).mpr hlacks)
    refine ⟨concern, ?_, isAboutTarget_of_mem_targetConcerns hmem⟩
    exact List.mem_append_right _ hmem

/-- **Before a run.** There is a finding about the target of a command exactly if the command lacks
its target. -/
theorem exists_finding_iff_lacksTarget (sequence : Sequence α) (kind : FeatureKind)
    (position : Nat) :
    (∃ finding ∈ sequence.findingsAt kind position, finding.concern.isAboutTarget = true) ↔
      sequence.LacksTarget position := by
  rw [findingsAt, LacksTarget]
  cases sequence.entryAt? position with
  | none => simp
  | some entry =>
    simpa using exists_concern_iff sequence kind position entry.command

end Sequence

/-! ### Errors of a run -/

/-- The symbol of the request, if it has one, has an outline of polygons with vertices. -/
def Request.HasSymbolShape (request : Request α) : Prop :=
  ∀ symbol, request.symbol = some symbol →
    symbol.outline ≠ [] ∧ ∀ polygon ∈ symbol.outline, polygon.isEmpty = false

/-- If the request is for a point, its symbol has a shape, unless it has none. The symbols of lines
and areas are never looked at. -/
def Request.HasUsableSymbol [Scalar α] (request : Request α) : Prop :=
  ∀ point symbol, request.shape = .point point → request.symbol = some symbol →
    ∃ shape, symbol.shape = .ok shape

/-- Nothing makes a run of the sequence for the request fail. -/
structure Sequence.CanServe [Scalar α] (sequence : Sequence α) (request : Request α) : Prop where
  targets : ∀ position, ¬sequence.LacksTarget position
  symbol : request.HasUsableSymbol

theorem PointSymbol.exists_shape_eq_ok [Scalar α] {symbol : PointSymbol α}
    (houtline : symbol.outline ≠ [])
    (hvertices : ∀ polygon ∈ symbol.outline, polygon.isEmpty = false) :
    ∃ shape, symbol.shape = .ok shape := by
  have hchecked : checkOutline symbol.outline = .ok () := by
    have hfull : symbol.outline.findIdx? Polygon.isEmpty = none :=
      List.findIdx?_eq_none_iff.mpr hvertices
    simp [checkOutline, houtline, hfull]
  rw [shape]
  cases symbol.cache with
  | some shape => exact ⟨shape, rfl⟩
  | none => exact ⟨_, by simp only [SymbolShape.ofOutline, hchecked]; rfl⟩

theorem Request.HasSymbolShape.usable [Scalar α] {request : Request α}
    (hshape : request.HasSymbolShape) : request.HasUsableSymbol := by
  intro point symbol _ hsymbol
  obtain ⟨houtline, hvertices⟩ := hshape symbol hsymbol
  exact PointSymbol.exists_shape_eq_ok houtline hvertices

theorem Run.Unsettled.usable [Scalar α] {start run : Run α} (hunsettled : start.Unsettled run)
    (husable : start.request.HasUsableSymbol) : run.request.HasUsableSymbol := by
  have hshape : run.request.shape = start.request.shape :=
    (congrArg Request.shape hunsettled.declared :)
  have hsymbol : run.request.symbol = start.request.symbol :=
    (congrArg Request.symbol hunsettled.declared :)
  rw [Request.HasUsableSymbol, hshape, hsymbol]
  exact husable

/-- Whether the command settles the label whatever has been tried before. -/
def Command.settlesAlways : Command α → Bool
  | .failure _ | .leader ⟨.deferred, _⟩ => true
  | _ => false

namespace Command

variable [Trigonometric α] {command : Command α} {run : Run α} {outcome : Outcome α}

theorem ne_unresolvedTarget_of_ending (hcommand : command.loop? = none)
    (hresult : command.ending run = .result outcome) (id : Nat) :
    outcome.1 ≠ .error (.unresolvedTarget id) := by
  intro herror
  rw [performed_of_error hresult herror] at herror
  cases command with
  | line | area | leader | failure => simp [Sequence.performSingle] at herror
  | point placement =>
    rw [Sequence.performSingle, PointPlacement.perform] at herror
    split at herror
    · split at herror <;> simp at herror
    · simp at herror
  | loop loop => cases hcommand

theorem exists_ok_of_ending (hcommand : command.loop? = none)
    (husable : run.request.HasUsableSymbol) (hresult : command.ending run = .result outcome) :
    ∃ settled, outcome.1 = .ok settled := by
  cases herror : outcome.1 with
  | ok settled => exact ⟨settled, rfl⟩
  | error error =>
    rw [performed_of_error hresult herror] at herror
    cases command with
    | line | area | leader | failure => cases herror
    | loop loop => cases hcommand
    | point placement =>
      rw [Sequence.performSingle, PointPlacement.perform] at herror
      cases hshape : run.request.shape with
      | line | area => simp only [hshape, reduceCtorEq] at herror
      | point point =>
        cases hsymbol : run.request.symbol with
        | none => simp [hshape, hsymbol] at herror
        | some symbol =>
          obtain ⟨shape, hderived⟩ := husable point symbol hshape hsymbol
          simp [hshape, hsymbol, hderived, Except.map] at herror

theorem ok_true_of_ending (hsettles : command.settlesAlways = true)
    (hresult : command.ending run = .result outcome) : outcome.1 = .ok true := by
  cases command with
  | failure action =>
    obtain ⟨after, -, rfl⟩ := Ending.map_eq_result_iff.mp hresult
    rfl
  | leader placement =>
    obtain ⟨timing, maxLength⟩ := placement
    cases timing with
    | deferred => exact Ending.result.inj hresult ▸ rfl
    | immediate => cases hsettles
  | line | point | area | loop => cases hsettles

end Command

namespace Sequence

variable [Trigonometric α] {sequence : Sequence α}

/-- **More visits.** An error comes with at least one visit more than there were before. -/
theorem keeps_visits (sequence : Sequence α) (least : Nat) :
    sequence.Keeps Command.performing (fun run => least ≤ run.visits.length)
      (fun outcome => ∀ error, outcome.1 = .error error → least < outcome.2.visits.length)
      (fun _ => True) (fun _ => True) where
  visit _ _ hleast := Nat.le_succ_of_le hleast
  reenter kind state _ hleast := by rwa [(kind.agrees_reenter state _).visits]
  finish kind state _ hleast := by rwa [(kind.agrees_finish state _).visits]
  restore kind _ hleast := by rwa [(kind.agrees_restoreDeclared _).visits]
  finished kind state _ _ hended error herror := by
    rw [(kind.agrees_finish state _).visits]
    exact hended error herror
  single := by
    intro position entry _ hsingle run hleast
    refine Command.meets_performing (fun outcome hresult => ?_) (fun _ => trivial) fun _ => trivial
    cases Command.attempted_of_ending hsingle hresult with
    | settled => exact fun _ herror => by cases herror
    | @unsettled result ideal hopen =>
      have hmore : least < (run.visit position entry.id).visits.length :=
        Nat.lt_succ_of_le hleast
      obtain error | settled := result
      · exact fun _ _ => hmore
      · cases settled with
        | true => exact absurd rfl hopen
        | false => exact hmore.le
  unresolved _ _ _ _ _ hleast _ _ := Nat.lt_succ_of_le hleast

/-- **During a run.** Carrying out a command comes back with the error that its target is missing,
and with nothing visited but the command, exactly if it lacks its target. -/
theorem endingAt_eq_unresolved_iff {position : Nat} {entry : Entry α}
    (hentry : sequence.entryAt? position = some entry) (returnLimit : Nat) (run : Run α) :
    sequence.endingAt Command.performing position returnLimit run =
        .result (.error (.unresolvedTarget entry.id), run.visit position entry.id) ↔
      sequence.LacksTarget position := by
  constructor
  · intro hfailed
    cases sequence.commandAt position with
    | absent habsent => cases hentry.symm.trans habsent
    | single hfound hsingle =>
      cases hentry.symm.trans hfound
      rw [endingAt_single hentry hsingle, Command.performing_eq_result_iff] at hfailed
      exact absurd rfl (Command.ne_unresolvedTarget_of_ending hsingle hfailed entry.id)
    | reset hfound hloop hneeds =>
      rw [endingAt_reset hfound hloop hneeds] at hfailed
      cases Ending.result.inj hfailed
    | unresolved hfound hloop hneeds htarget => exact ⟨_, _, hfound, hloop, hneeds, htarget⟩
    | rounds hfound hloop hneeds htarget =>
      -- An error within the rounds comes with at least one more visit.
      cases hentry.symm.trans hfound
      have hkeeps := sequence.keeps_visits (run.visit position entry.id).visits.length
      rw [endingAt_rounds hentry hloop hneeds htarget] at hfailed
      have hrounds := (LoopKind.meets_roundsEnding
        (fun _ hleast => meets_inOrderEnding
          (fun inner _ _ _ hleast => hkeeps.endingAt inner _ hleast) hleast)
        (fun state _ => hkeeps.reenter _ state) (fun state _ => hkeeps.finish _ state)
        (fun state _ _ => hkeeps.finished _ state) _ (Nat.le_refl _)).of_result hfailed
      exact absurd (hrounds _ rfl) (Nat.lt_irrefl _)
  · rintro ⟨found, loop, hfound, hloop, hneeds, htarget⟩
    cases hentry.symm.trans hfound
    exact endingAt_unresolved hentry hloop hneeds htarget returnLimit run

/-! ### Runs without errors -/

/-- What a run of the sequence can have been doing if it does not come back: before the label was
settled, it carried out a command of the sequence, which by itself ends in this way. -/
def BreaksOff (sequence : Sequence α) (start : Run α) (ending : Ending Unit (Outcome α))
    (last : Performing α) : Prop :=
  (∃ entry ∈ sequence.entries, entry.command = last.command) ∧ start.Unsettled last.run ∧
    last.command.ending last.run = ending

/-- **No other error.** A run goes on until its label is settled, unless a command crashes or goes
on for ever. It ends with an error only if a loop lacks its target or the symbol at the request's
point has no shape. -/
theorem keeps_unsettled (sequence : Sequence α) (start : Run α) :
    sequence.Keeps Command.performing start.Unsettled
      (fun outcome => outcome.2.request.reset = start.request.reset ∧
        (sequence.CanServe start.request → outcome.1 = .ok true))
      (sequence.BreaksOff start (.crash ())) (sequence.BreaksOff start (.endless ())) where
  visit _ _ hunsettled := ⟨hunsettled.workspace, hunsettled.declared⟩
  reenter kind state _ hunsettled := (kind.agrees_reenter state _).unsettled hunsettled
  finish kind state _ hunsettled := (kind.agrees_finish state _).unsettled hunsettled
  restore kind _ hunsettled := (kind.agrees_restoreDeclared _).unsettled hunsettled
  finished kind state _ _ hended :=
    ⟨(Request.reset_of_declared_eq (kind.agrees_finish state _).declared).trans hended.1, hended.2⟩
  single := by
    intro position entry hentry hsingle run hunsettled
    have hvisited : start.Unsettled (run.visit position entry.id) :=
      ⟨hunsettled.workspace, hunsettled.declared⟩
    have hreset := Request.reset_of_declared_eq hvisited.declared
    have hmem : entry ∈ sequence.entries := List.mem_of_getElem? hentry
    refine Command.meets_performing (fun outcome hresult => ?_)
      (fun hcrash => ⟨⟨entry, hmem, rfl⟩, hvisited, hcrash⟩)
      (fun hendless => ⟨⟨entry, hmem, rfl⟩, hvisited, hendless⟩)
    have hok (hserves : sequence.CanServe start.request) :=
      Command.exists_ok_of_ending hsingle (hvisited.usable hserves.symbol) hresult
    cases Command.attempted_of_ending hsingle hresult with
    | @settled after hsettled =>
      refine ⟨Eq.trans ?_ hreset, fun _ => rfl⟩
      cases hsettled <;> exact Request.reset_settle _ _ _
    | @unsettled result ideal hopen =>
      obtain error | settled := result
      · refine ⟨hreset, fun hserves => ?_⟩
        obtain ⟨settled, hsettled⟩ := hok hserves
        cases hsettled
      · cases settled with
        | true => exact absurd rfl hopen
        | false => exact ⟨hvisited.workspace, hvisited.declared⟩
  unresolved hentry hloop hneeds htarget _ hunsettled :=
    ⟨Request.reset_of_declared_eq hunsettled.declared, fun hserves =>
      absurd ⟨_, _, hentry, hloop, hneeds, htarget⟩ (hserves.targets _)⟩

/-- **A run that comes back.** -/
theorem meets_ending (sequence : Sequence α) (start : Run α) :
    (sequence.ending start).Meets
      (fun outcome => outcome.2.request.reset = start.request.reset ∧
        (sequence.CanServe start.request → ∃ settled, outcome.1 = .ok settled))
      (sequence.BreaksOff start (.crash ())) (sequence.BreaksOff start (.endless ())) := by
  refine ((sequence.keeps_unsettled start).ending ⟨rfl, rfl⟩).imp ?_
  rintro ⟨error | settled, after⟩ hkept
  · exact ⟨hkept.1, fun hserves => ⟨true, hkept.2 hserves⟩⟩
  · cases settled with
    | true => exact ⟨hkept.1, fun _ => ⟨true, rfl⟩⟩
    | false => exact ⟨Request.reset_of_declared_eq hkept.declared, fun _ => ⟨false, rfl⟩⟩

/-- The last command of the sequence settles the label in any case. -/
def SettlesAtLast (sequence : Sequence α) : Prop :=
  ∃ entry, sequence.entries.getLast? = some entry ∧ entry.command.settlesAlways = true

theorem SettlesAtLast.ne_ok_false (hsettles : sequence.SettlesAtLast) {run : Run α}
    {outcome : Outcome α} (hresult : sequence.ending run = .result outcome) :
    outcome.1 ≠ .ok false := by
  intro hopen
  obtain ⟨entry, hlast, hsettles⟩ := hsettles
  obtain ⟨result, after⟩ := outcome
  obtain rfl : result = .ok false := hopen
  have hpositive : 0 < sequence.length := by
    refine List.length_pos_of_ne_nil fun hempty => ?_
    rw [hempty] at hlast
    cases hlast
  have hentry : sequence.entryAt? (sequence.length - 1) = some entry := by
    rw [entryAt?, ← hlast, List.getLast?_eq_getElem?]
    rfl
  have hsingle : entry.command.loop? = none := by
    cases hcommand : entry.command with
    | loop loop => rw [hcommand] at hsettles; cases hsettles
    | line | point | area | leader | failure => rfl
  obtain ⟨before, hbefore⟩ := exists_open_of_inOrderEnding hresult
    (by omega : sequence.length - 1 + 1 = 0 + sequence.length) (Nat.zero_le _)
  rw [endingAt_single hentry hsingle] at hbefore
  cases Command.ok_true_of_ending hsettles (Command.performing_eq_result_iff.mp hbefore)

omit [Trigonometric α] in
theorem not_lacksTarget_of_findings [Scalar α] {kind : FeatureKind}
    (hfindings : ∀ finding ∈ sequence.findings kind, finding.concern.isAboutTarget = false)
    (position : Nat) : ¬sequence.LacksTarget position := by
  intro hlacks
  obtain ⟨entry, _, hentry, -⟩ := id hlacks
  obtain ⟨finding, hmem, habout⟩ :=
    (sequence.exists_finding_iff_lacksTarget kind position).mpr hlacks
  have hposition : position < sequence.length := (List.getElem?_eq_some_iff.mp hentry).1
  have hlisted : finding ∈ sequence.findings kind := by
    rw [findings_eq_flatMap]
    exact List.mem_flatMap.mpr ⟨position, List.mem_range.mpr hposition, hmem⟩
  rw [hfindings finding hlisted] at habout
  cases habout

/-- Where all commands of a sequence come back, so does the sequence. -/
theorem exists_result {start : Run α} {holds : Outcome α → Prop}
    (hmeets : (sequence.ending start).Meets holds (sequence.BreaksOff start (.crash ()))
      (sequence.BreaksOff start (.endless ())))
    (hback : ∀ entry ∈ sequence.entries, ∀ run,
      ∃ outcome, entry.command.ending run = .result outcome) :
    ∃ outcome, sequence.ending start = .result outcome ∧ holds outcome := by
  cases hending : sequence.ending start with
  | result outcome => exact ⟨outcome, rfl, hmeets.of_result hending⟩
  | crash last | endless last =>
    rw [hending] at hmeets
    obtain ⟨⟨entry, hmem, hcommand⟩, -, hlast⟩ := hmeets
    obtain ⟨outcome, hresult⟩ := hback entry hmem last.run
    rw [← hcommand, hresult] at hlast
    cases hlast

/-- **Without findings.** -/
theorem ending_of_findings {kind : FeatureKind}
    (hfindings : ∀ finding ∈ sequence.findings kind, finding.concern.isAboutTarget = false)
    {workspace : Workspace α} {request : Request α} (hsymbol : request.HasSymbolShape) :
    (sequence.ending (.start workspace request)).Meets
      (fun outcome => (∃ settled, outcome.1 = .ok settled) ∧
        (sequence.SettlesAtLast → outcome.1 = .ok true))
      (sequence.BreaksOff (.start workspace request) (.crash ()))
      (sequence.BreaksOff (.start workspace request) (.endless ())) := by
  have hmeets := sequence.meets_ending (.start workspace request)
  have hserves : sequence.CanServe request :=
    ⟨not_lacksTarget_of_findings hfindings, hsymbol.usable⟩
  refine Ending.meets_of_results (fun outcome hresult => ?_) (fun last hcrash => ?_)
    fun last hendless => ?_
  · obtain ⟨settled, hok⟩ := (hmeets.of_result hresult).2 hserves
    refine ⟨⟨settled, hok⟩, fun hlast => ?_⟩
    cases settled with
    | true => exact hok
    | false => exact absurd hok (hlast.ne_ok_false hresult)
  · rwa [hcrash] at hmeets
  · rwa [hendless] at hmeets

/-- **Findings and runs agree.** The findings about a sequence are those about its commands, in
order. There is one about the target of a command exactly if carrying out the command rejects its
target. If there is none, no run fails for a request with the shape of its symbol, and a run whose
last command settles the label in any case settles it, unless one of the commands that are carried
out crashes or goes on for ever. With exact numbers none does, and every run comes back. -/
theorem findings_tell_failures (sequence : Sequence α) (kind : FeatureKind) :
    sequence.findings kind =
        (List.range sequence.length).flatMap (sequence.findingsAt kind) ∧
      (∀ position entry, sequence.entryAt? position = some entry → ∀ returnLimit run,
        (∃ finding ∈ sequence.findingsAt kind position, finding.concern.isAboutTarget = true) ↔
          sequence.endingAt Command.performing position returnLimit run =
            .result (.error (.unresolvedTarget entry.id), run.visit position entry.id)) ∧
      ((∀ finding ∈ sequence.findings kind, finding.concern.isAboutTarget = false) →
        ∀ workspace request, request.HasSymbolShape →
          (sequence.ending (.start workspace request)).Meets
            (fun outcome => (∃ settled, outcome.1 = .ok settled) ∧
              (sequence.SettlesAtLast → outcome.1 = .ok true))
            (sequence.BreaksOff (.start workspace request) (.crash ()))
            (sequence.BreaksOff (.start workspace request) (.endless ()))) ∧
      ∀ exact : Sequence ℝ,
        (∀ finding ∈ exact.findings kind, finding.concern.isAboutTarget = false) →
        ∀ workspace request, request.HasSymbolShape →
          ∃ settled after, exact.ending (.start workspace request) = .result (.ok settled, after) ∧
            (exact.SettlesAtLast → settled = true) := by
  refine ⟨sequence.findings_eq_flatMap kind, ?_, ?_, ?_⟩
  · intro position entry hentry returnLimit run
    rw [exists_finding_iff_lacksTarget, endingAt_eq_unresolved_iff hentry]
  · intro hfindings workspace request hsymbol
    exact ending_of_findings hfindings hsymbol
  · intro exact hfindings workspace request hsymbol
    have hresult := exact.ending_start workspace request
    obtain ⟨⟨settled, hok⟩, hsettles⟩ :=
      (ending_of_findings hfindings hsymbol).of_result hresult
    refine ⟨settled, (exact.execute (.start workspace request)).2, ?_, fun hlast => ?_⟩
    · rw [hresult, ← hok]
    · exact Except.ok.inj (hok.symm.trans (hsettles hlast))

/-- A sequence without findings about targets, and the same sequence after its first command has
been removed. -/
theorem forced_town_runs_through :
    let sequence : Sequence Float :=
      ⟨[⟨1, .point ⟨[.north], 0⟩⟩, ⟨2, .loop ⟨.fontSize 2 10 .reduce, some 1⟩⟩,
        ⟨3, .failure .force⟩], 4⟩
    let shortened := (sequence.remove 1).2
    let exact : Sequence ℝ :=
      ⟨[⟨1, .leader ⟨.immediate, none⟩⟩, ⟨2, .failure .forceWithLeader⟩], 3⟩
    let run : Run Float := .start (.empty .standard)
      (.create 1 1 "town" (.point ⟨0, 0⟩) (.single "Bern") ⟨10, ⟨1, 1⟩⟩)
    let town : Request ℝ :=
      .create 1 1 "town" (.point ⟨0, 0⟩) (.single "Bern") ⟨10, ⟨1, 1⟩⟩
    (∃ after, sequence.ending run = .result (.ok true, after)) ∧
      shortened.endingAt Command.performing 0 0 run =
        .result (.error (.unresolvedTarget 2), run.visit 0 2) ∧
      ∃ after, exact.ending (.start (.empty .standard) town) = .result (.ok true, after) := by
  intro sequence shortened exact run town
  refine ⟨?_, ?_, ?_⟩
  · have hback : ∀ entry ∈ sequence.entries, ∀ run,
        ∃ outcome, entry.command.ending run = .result outcome := by
      intro entry hmem run
      simp only [sequence, List.mem_cons, List.not_mem_nil, or_false] at hmem
      obtain rfl | rfl | rfl := hmem <;> exact ⟨_, rfl⟩
    obtain ⟨⟨result, after⟩, hresult, -, hsettles⟩ := exists_result
      ((findings_tell_failures sequence .point).2.2.1 (by decide +kernel) (.empty .standard)
        run.request (fun _ hsymbol => by cases hsymbol)) hback
    obtain rfl : result = .ok true := hsettles ⟨_, rfl, rfl⟩
    exact ⟨after, hresult⟩
  · exact ((findings_tell_failures shortened .point).2.1 0 _ rfl 0 run).mp (by decide +kernel)
  · have hfindings : exact.findings .point = [] := rfl
    obtain ⟨settled, after, hresult, hsettles⟩ :=
      (findings_tell_failures exact .point).2.2.2 exact (by simp [hfindings])
        (.empty .standard) town fun _ hsymbol => by cases hsymbol
    exact ⟨after, hsettles ⟨_, rfl, rfl⟩ ▸ hresult⟩

/-- The label of a road is to be put between two positions that are undefined. There is no finding
about a target, but the run crashes. -/
theorem undefined_range_crashes :
    let unbounded : LinePlacement Float :=
      ⟨.middle, ⟨50, .percent⟩, ⟨0 / 0, .absolute⟩, ⟨0 / 0, .absolute⟩⟩
    let sequence : Sequence Float := ⟨[⟨1, .line unbounded⟩, ⟨2, .failure .suppress⟩], 3⟩
    let run : Run Float := .start (.empty .standard)
      (.create 1 1 "road" (.line [⟨0, 0⟩, ⟨20, 0⟩]) (.single "Ab") ⟨10, ⟨1, 1⟩⟩)
    (∀ finding ∈ sequence.findings .line, finding.concern.isAboutTarget = false) ∧
      run.request.HasSymbolShape ∧ sequence.SettlesAtLast ∧
      sequence.ending run = .crash ⟨.line unbounded, run.visit 0 1⟩ := by
  intro unbounded sequence run
  refine ⟨by decide +kernel, ?_, ⟨_, rfl, rfl⟩, ?_⟩
  · intro symbol hsymbol
    cases hsymbol
  · have hcrash : unbounded.ending (run.visit 0 1) = .crash () :=
      LinePlacement.ending_eq_crash rfl (by decide +kernel) (by decide +kernel)
    have hentry : sequence.entryAt? 0 = some ⟨1, .line unbounded⟩ := rfl
    refine ending_eq_crash hentry rfl ?_
    rw [Command.ending, hcrash]
    rfl

end Sequence

end LabelPlacement
