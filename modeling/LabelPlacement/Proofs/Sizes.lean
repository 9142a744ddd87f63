import LabelPlacement.Proofs.Candidates
import LabelPlacement.Proofs.Nesting
import LabelPlacement.Proofs.Recovery

/-!
# Sizes of placed labels

A placement records a box and, beside it, the size and the lines of the text in it. They belong
together wherever nothing is in the way of the label, for every candidate has the size that the
label has when it is tried. A label that is forced gets the first candidate that was tried. For
points and areas a command tries candidates whatever the size of the label is, so the first one was
tried before any loop, in the declared style, which is also that of the command that forces the
label (`Sequence.Steady`). Along a line only candidates that stay on it are tried; the first of them
may have been tried while the label was reduced.
-/

namespace LabelPlacement

variable {α : Type} [Trigonometric α]

/-! ### Upright boxes -/

/-- In exact arithmetic an upright box is as wide as it says. -/
theorem Candidate.width_upright (center : Point Rat) (width height : Rat) :
    (create center width height 0).corners.lowerRight.x -
      (create center width height 0).corners.lowerLeft.x = width := by
  have hcos : Trigonometric.cos (0 : Rat) = 1 := by decide +kernel
  have hsin : Trigonometric.sin (0 : Rat) = 0 := by decide +kernel
  simp only [create, Corners.ofCenter, Point.rotateAbout, Point.translate, Displacement.rotate,
    Displacement.between, Rotation.ofAngle, hcos, hsin]
  change (center.x + (1 * (center.x + width * 0.5 - center.x) -
      0 * (center.y + -(height * 0.5) - center.y)) -
    (center.x + (1 * (center.x + -(width * 0.5) - center.x) -
      0 * (center.y + -(height * 0.5) - center.y))) : Rat) = width
  linarith

/-! ### What is noted while commands are carried out -/

namespace LoopKind

omit [Trigonometric α] in
theorem ideal_finish (kind : LoopKind α) (state : kind.State) (run : Run α) :
    (kind.finish state run).ideal = run.ideal := by
  cases kind <;> rfl

omit [Trigonometric α] in
theorem ideal_restoreDeclared (kind : LoopKind α) (run : Run α) :
    (kind.restoreDeclared run).ideal = run.ideal := by
  cases kind <;> rfl

theorem ideal_reenter (kind : LoopKind α) (state : kind.State) (run : Run α) :
    (kind.reenter state run).run.ideal = run.ideal := by
  match kind, state with
  | .relax _, state =>
    rw [reenter]
    split <;> rfl
  | .bufferSize .., state | .fontSize .., state =>
    simp only [reenter]
    split <;> split <;> rfl
  | .stack .., state =>
    rw [reenter]
    split
    · split <;> rfl
    · split
      · rfl
      · split <;> rfl
  | .hide _, state => rfl

end LoopKind

/-- From a run to a later one, the feature is the same, a candidate that was noted stays noted, and
one that is noted is noted by a command visited since. -/
structure Run.Traced (sequence : Sequence α) (before after : Run α) : Prop where
  shape : after.request.shape = before.request.shape
  kept : ∀ candidate, before.ideal = some candidate → after.ideal = some candidate
  noted : ∃ visited, after.visits = visited ++ before.visits ∧
    (before.ideal = none → after.ideal ≠ none → ∃ visit ∈ visited, ∃ entry,
      sequence.entryAt? visit.position = some entry ∧ entry.command.Notes before.request.shape)

namespace Run

variable {sequence : Sequence α}

theorem Traced.refl (run : Run α) : run.Traced sequence run :=
  ⟨rfl, fun _ hideal => hideal, [], rfl, fun hnone hsome => absurd hnone hsome⟩

theorem Traced.trans {first second third : Run α} (hleft : first.Traced sequence second)
    (hright : second.Traced sequence third) : first.Traced sequence third := by
  obtain ⟨earlier, hearlier, hfirst⟩ := hleft.noted
  obtain ⟨later, hlater, hsecond⟩ := hright.noted
  refine ⟨hright.shape.trans hleft.shape,
    fun candidate hideal => hright.kept candidate (hleft.kept candidate hideal),
    later ++ earlier, by rw [hlater, hearlier, List.append_assoc], fun hnone hsome => ?_⟩
  by_cases hbetween : second.ideal = none
  · obtain ⟨visit, hmem, hnotes⟩ := hsecond hbetween hsome
    exact ⟨visit, List.mem_append_left _ hmem, hleft.shape ▸ hnotes⟩
  · obtain ⟨visit, hmem, hnotes⟩ := hfirst hnone hbetween
    exact ⟨visit, List.mem_append_right _ hmem, hnotes⟩

theorem Traced.of_agrees {before after : Run α} (hagrees : before.Agrees after)
    (hideal : after.ideal = before.ideal) : before.Traced sequence after :=
  ⟨(congrArg Request.shape hagrees.declared :), fun _ hnoted => hideal.trans hnoted, [],
    hagrees.visits, fun hnone hsome => absurd (hideal.trans hnone) hsome⟩

theorem traced_visit (run : Run α) (position command : Nat) :
    run.Traced sequence (run.visit position command) :=
  ⟨rfl, fun _ hideal => hideal, [⟨position, command, run.request⟩], rfl,
    fun hnone hsome => absurd hnone hsome⟩

end Run

namespace Sequence

theorem shape_performSingle {command : Command α} (hcommand : command.loop? = none)
    (run : Run α) : (performSingle command run).2.request.shape = run.request.shape := by
  obtain ⟨_, _, hrequest⟩ := request_performSingle hcommand run
  rw [hrequest]

theorem respects_traced (sequence : Sequence α) :
    sequence.Respects fun run outcome => run.Traced sequence outcome.2 where
  skip run := .refl run
  seq hfirst hsecond := hfirst.trans hsecond
  single := by
    intro position entry hentry hsingle run
    refine ⟨shape_performSingle hsingle _, (sized_performSingle hsingle (run.visit _ _)).kept,
      [⟨position, entry.id, run.request⟩], visits_performSingle hsingle _, fun hnone hsome => ?_⟩
    exact ⟨_, List.mem_singleton_self _, entry, hentry, run.visit position entry.id, rfl, hnone,
      hsome⟩
  unresolved _ _ _ _ run := run.traced_visit _ _
  reset _ _ run := (run.traced_visit _ _).trans
    (.of_agrees (LoopKind.agrees_restoreDeclared _ _) (LoopKind.ideal_restoreDeclared _ _))
  rounds := by
    intro position entry loop _ _ body hbody run
    have hreenter (state : loop.kind.State) (mid : Run α) :
        mid.Traced sequence (loop.kind.reenter state mid).run :=
      .of_agrees (loop.kind.agrees_reenter state mid) (loop.kind.ideal_reenter state mid)
    have hfinish (state : loop.kind.State) (mid : Run α) :
        mid.Traced sequence (loop.kind.finish state mid) :=
      .of_agrees (loop.kind.agrees_finish state mid) (loop.kind.ideal_finish state mid)
    refine LoopKind.rounds_rule (fun _ mid => run.Traced sequence mid)
      (fun outcome => run.Traced sequence outcome.2) ?_ ?_ ?_ _ _ (run.traced_visit _ _)
    · intro state mid hmid _ after hafter
      have hround := hbody (loop.kind.reenter state mid).run
      rw [hafter] at hround
      exact (hmid.trans (hreenter state mid)).trans hround
    · intro state mid hmid _ outcome after hafter _
      have hround := hbody (loop.kind.reenter state mid).run
      rw [hafter] at hround
      exact ((hmid.trans (hreenter state mid)).trans hround).trans (hfinish _ _)
    · intro state mid hmid _
      exact (hmid.trans (hreenter state mid)).trans (hfinish _ _)

theorem position_le_of_visited {sequence : Sequence α} {position returnLimit : Nat}
    (hlimit : returnLimit ≤ position) {run : Run α} {visited : List (Visit α)}
    (hvisits : (sequence.executeAt position returnLimit run).2.visits = visited ++ run.visits) :
    ∀ visit ∈ visited, visit.position ≤ position := by
  intro visit hmem
  rw [visits_executeAt] at hvisits
  rw [← List.append_cancel_right hvisits, List.mem_reverse, List.mem_map] at hmem
  obtain ⟨stage, hstage, rfl⟩ := hmem
  exact (confined_stagesAt hlimit run stage hstage).below

/-- **Who notes.** While a command is carried out, a candidate can only be noted by the command
itself or by one in front of it. -/
theorem exists_notes_of_executeAt {sequence : Sequence α} {position returnLimit : Nat}
    (hlimit : returnLimit ≤ position) {run : Run α} (hnone : run.ideal = none)
    (hsome : (sequence.executeAt position returnLimit run).2.ideal ≠ none) :
    ∃ inner ≤ position, ∃ entry, sequence.entryAt? inner = some entry ∧
      entry.command.Notes run.request.shape := by
  have htraced := sequence.respects_traced.executeAt position returnLimit run
  obtain ⟨visited, hvisits, hnoted⟩ := htraced.noted
  obtain ⟨visit, hmem, entry, hentry, hnotes⟩ := hnoted hnone hsome
  exact ⟨visit.position, position_le_of_visited hlimit hvisits visit hmem, entry, hentry, hnotes⟩

/-! ### The whole sequence -/

/-- The run has placed its label in a box of the size that the label had then. -/
def PlacedToSize (sequence : Sequence α) (final : Run α) : Prop :=
  ∃ position entry before after candidate leader ideal,
    sequence.SettlesBetween position entry before after ∧
      after = { before with ideal }.place candidate final.request.status leader ∧
      before.Fits candidate ∧ after.Agrees final

theorem SettlesBetween.placedToSize {sequence : Sequence α} {position : Nat} {entry : Entry α}
    {before after final : Run α} (hsettles : sequence.SettlesBetween position entry before after)
    (hagrees : after.Agrees final) (hplaced : final.request.status.isPlaced = true)
    (hforced : final.request.status.isFree = false →
      ∀ candidate, before.ideal = some candidate → before.Fits candidate) :
    sequence.PlacedToSize final := by
  have hstatus : final.request.status = after.request.status :=
    (congrArg Request.status hagrees.declared :)
  have hsized := sized_performSingle hsettles.single before
  rw [hsettles.performed] at hsized
  obtain ⟨candidate, leader, ideal, hafter, hfits⟩ := hsized.placed rfl (hstatus ▸ hplaced)
  refine ⟨position, entry, before, after, candidate, leader, ideal, hsettles, hstatus ▸ hafter, ?_,
    hagrees⟩
  obtain hfits | ⟨hnotFree, hideal⟩ := hfits
  · exact hfits
  · exact hforced (hstatus ▸ hnotFree) candidate hideal

/-- **What the placement tells.** The recorded box has the size that the recorded font size and
lines take, with the symbols that were visible at the last command. -/
theorem PlacedToSize.exists_placement {sequence : Sequence α} {final : Run α}
    (hsized : sequence.PlacedToSize final) :
    ∃ placement visit center, final.request.placement = some placement ∧
      final.visits.head? = some visit ∧
      placement.fontSize = visit.request.working.fontSize ∧
      placement.lines = visit.request.lines ∧
      placement.hidden = visit.request.hiddenElements ∧
      let extent := Run.extentOf final.workspace visit.request
      let candidate : Candidate α := .create center extent.1 extent.2 placement.angle
      placement.corners = candidate.corners ∧ placement.bounds = candidate.bounds := by
  obtain ⟨position, entry, before, _, _, _, _, hsettles, rfl, ⟨center, _, rfl⟩, hagrees⟩ := hsized
  have hplacement := (congrArg Request.placement hagrees.declared :)
  refine ⟨_, ⟨position, entry.id, before.request⟩, center, hplacement, ?_, rfl, rfl, rfl, ?_⟩
  · rw [hagrees.visits]
    exact hsettles.visited
  · rw [hagrees.workspace]
    exact ⟨rfl, rfl⟩

/-- The command that settles a label while another one is carried out is that one or stands in
front of it. -/
theorem SettlesBetween.position_le {sequence : Sequence α} {position settling returnLimit : Nat}
    {entry settlingEntry : Entry α} {run before after final : Run α}
    (hsettles : sequence.SettlesBetween settling settlingEntry before after)
    (hagrees : after.Agrees final) (hlimit : returnLimit ≤ position)
    (hentry : sequence.entryAt? position = some entry)
    (hfinal : (sequence.executeAt position returnLimit run).2 = final) : settling ≤ position := by
  have hposition : position < sequence.length := (List.getElem?_eq_some_iff.mp hentry).1
  obtain ⟨found, rest, -, hstages⟩ := exists_stagesAt_eq_cons hposition returnLimit run
  have hvisits : final.visits = before.visits := by
    rw [hagrees.visits]
    cases hsettles.settled <;> rfl
  have hlast := hsettles.visited
  rw [← hvisits, ← hfinal, visits_executeAt, List.head?_append, List.head?_reverse,
    List.getLast?_map, hstages, List.getLast?_eq_some_getLast (List.cons_ne_nil _ _)] at hlast
  have hconfined : ∀ stage ∈ sequence.stagesAt position returnLimit run,
      stage.Confined sequence position returnLimit := confined_stagesAt hlimit run
  rw [hstages] at hconfined
  have hbelow := (hconfined _ (List.getLast_mem (List.cons_ne_nil _ _))).below
  simp only [Option.map_some, Option.some_or, Option.some.injEq] at hlast
  rwa [hlast] at hbelow

/-- Before a position of a sequence: nothing has been settled, all is as it was at the outset, and a
candidate that is noted has the size that the label had then. If none is noted, no command so far
ever notes one. -/
structure Steady (sequence : Sequence α) (origin : Run α) (position : Nat) (run : Run α) :
    Prop where
  workspace : run.workspace = origin.workspace
  request : run.request = origin.request
  ideal : ∀ candidate, run.ideal = some candidate → origin.Fits candidate
  silent : run.ideal = none → ∀ inner < position, ∀ entry,
    sequence.entryAt? inner = some entry → ¬ entry.command.Notes origin.request.shape
  passed : ∀ inner < position, ∀ entry, sequence.entryAt? inner = some entry →
    ∀ action, entry.command ≠ .failure action

section

variable {sequence : Sequence α} {origin run after : Run α} {position : Nat}

theorem steady_zero (hideal : origin.ideal = none) : sequence.Steady origin 0 origin where
  workspace := rfl
  request := rfl
  ideal candidate hnoted := by
    rw [hideal] at hnoted
    cases hnoted
  silent _ inner hinner := absurd hinner (Nat.not_lt_zero inner)
  passed inner hinner := absurd hinner (Nat.not_lt_zero inner)

theorem Steady.extent_eq (hsteady : sequence.Steady origin position run) :
    run.extent = origin.extent := by
  rw [Run.extent, Run.extent, hsteady.workspace, hsteady.request]

theorem Steady.unsettled (hsteady : sequence.Steady origin position run) : origin.Unsettled run :=
  ⟨hsteady.workspace, congrArg Request.declared hsteady.request⟩

/-- After a command that settles nothing, a request in its declared style is as it was. -/
theorem Steady.request_eq (hsteady : sequence.Steady origin position run)
    (hreset : origin.request.IsReset)
    (hnext : sequence.executeAt position 0 run = (.ok false, after)) :
    after.workspace = origin.workspace ∧ after.request = origin.request := by
  have hreaches :=
    (sequence.maintains_unsettled origin).respects.executeAt position 0 run hsteady.unsettled
  have hrecovered := (sequence.recovered_executeAt position 0 run).request
  rw [hnext] at hreaches hrecovered
  rw [hsteady.request] at hrecovered
  obtain ⟨hworkspace, hdeclared⟩ := hreaches.inv_of_unsettled (by simp)
  rw [(hrecovered.isReset hreset).declared_eq, hreset.declared_eq] at hdeclared
  exact ⟨hworkspace, hdeclared⟩

/-- **One command further.** For points and areas the first candidate is noted at the top level,
where the label has its declared size: by the time that a loop reduces it, each command that the
loop repeats has been carried out already. -/
theorem Steady.next (hsteady : sequence.Steady origin position run)
    (hreset : origin.request.IsReset) (hkind : origin.request.shape.kind ≠ .line)
    (hnext : sequence.executeAt position 0 run = (.ok false, after)) :
    sequence.Steady origin (position + 1) after := by
  obtain ⟨hworkspace, hrequest⟩ := hsteady.request_eq hreset hnext
  have hkept := (sequence.respects_traced.executeAt position 0 run).kept
  rw [hnext] at hkept
  have hperformed {entry : Entry α} (hentry : sequence.entryAt? position = some entry)
      (hsingle : entry.command.loop? = none) :
      performSingle entry.command (run.visit position entry.id) = (.ok false, after) := by
    rw [← hnext, executeAt_single hentry hsingle]
  refine ⟨hworkspace, hrequest, fun candidate hideal => ?_,
    fun hnone inner hinner entry hentry => ?_, fun inner hinner entry hentry action haction => ?_⟩
  · cases hbefore : run.ideal with
    | some previous =>
      rw [hkept previous hbefore, Option.some.injEq] at hideal
      exact hideal ▸ hsteady.ideal previous hbefore
    | none =>
      have hsome : (sequence.executeAt position 0 run).2.ideal ≠ none := by simp [hnext, hideal]
      obtain ⟨inner, hinner, entry, hentry, hnotes⟩ :=
        exists_notes_of_executeAt (Nat.zero_le position) hbefore hsome
      rw [hsteady.request] at hnotes
      -- None of the commands in front of the position ever notes a candidate, so it is this one,
      -- and one that notes is no loop: it sees the label as it was at the outset.
      obtain rfl | hearlier := Nat.eq_or_lt_of_le hinner
      · have hsized := sized_performSingle hnotes.loop?_eq_none (run.visit inner entry.id)
        rw [hperformed hentry hnotes.loop?_eq_none] at hsized
        obtain hnoted | ⟨center, angle, hfits⟩ := hsized.noted candidate hideal
        · rw [show (run.visit inner entry.id).ideal = none from hbefore] at hnoted
          cases hnoted
        · exact ⟨center, angle, hsteady.extent_eq ▸ hfits⟩
      · exact absurd hnotes (hsteady.silent hbefore inner hearlier entry hentry)
  · intro hnotes
    have hbefore : run.ideal = none := by
      cases hbefore : run.ideal with
      | none => rfl
      | some previous => rw [hkept previous hbefore] at hnone; cases hnone
    obtain rfl | hearlier := Nat.eq_or_lt_of_le (Nat.le_of_lt_succ hinner)
    · refine hnotes.ideal_ne_none hkind ?_ (hperformed hentry hnotes.loop?_eq_none) hnone
      exact congrArg Request.shape hsteady.request
    · exact hsteady.silent hbefore inner hearlier entry hentry hnotes
  · obtain rfl | hearlier := Nat.eq_or_lt_of_le (Nat.le_of_lt_succ hinner)
    · have htrue := hperformed hentry (by rw [haction]; rfl)
      rw [haction] at htrue
      cases htrue
    · exact hsteady.passed inner hearlier entry hentry action haction

/-- **Where it ends.** A command that settles the label places it to size: on its own because the
candidate noted has the size of the moment, and by a loop because no command in front of it forces
a label. -/
theorem Steady.placedToSize {final : Run α} (hsteady : sequence.Steady origin position run)
    (hend : sequence.executeAt position 0 run = (.ok true, final))
    (hplaced : final.request.status.isPlaced = true) : sequence.PlacedToSize final := by
  have hreaches :=
    (sequence.maintains_unsettled origin).respects.executeAt position 0 run hsteady.unsettled
  rw [hend] at hreaches
  -- The runs that `hreaches` speaks of are not known, so a single command is taken from `hend`.
  cases sequence.commandAt position with
  | absent hentry => rw [executeAt_absent hentry] at hend; cases hend
  | reset hentry hloop hneeds => rw [executeAt_reset hentry hloop hneeds] at hend; cases hend
  | unresolved hentry hloop hneeds htarget =>
    rw [executeAt_unresolved hentry hloop hneeds htarget] at hend
    cases hend
  | @single entry hentry hsingle =>
    rw [executeAt_single hentry hsingle] at hend
    have hattempted := attempted_performSingle hsingle (run.visit position entry.id)
    rw [hend] at hattempted
    cases hattempted with
    | unsettled _ hresult => exact absurd rfl hresult
    | settled hsettled =>
      have hsettles : sequence.SettlesBetween position entry (run.visit position entry.id) final :=
        ⟨hentry, hsingle, rfl, hend, hsettled⟩
      refine hsettles.placedToSize (.refl final) hplaced fun _ candidate hideal => ?_
      obtain ⟨center, angle, hfits⟩ := hsteady.ideal candidate hideal
      exact ⟨center, angle, hsteady.extent_eq ▸ hfits⟩
  | @rounds entry loop declared hentry hloop hneeds htarget =>
    cases hreaches with
    | unsettled hresult => exact absurd rfl hresult
    | @settled settling settlingEntry before after _ hunsettled hsettles hagrees =>
      refine hsettles.placedToSize hagrees hplaced fun hnotFree => ?_
      have hle :=
        hsettles.position_le hagrees (Nat.zero_le position) hentry (congrArg Prod.snd hend)
      have hne : settling ≠ position := by
        rintro rfl
        have hsingle := hsettles.single
        rw [Option.some.inj (hsettles.found.symm.trans hentry), hloop] at hsingle
        cases hsingle
      have hstatus : final.request.status = after.request.status :=
        (congrArg Request.status hagrees.declared :)
      have hfree := isFree_of_performed hsettles.single
        (hsteady.passed settling (Nat.lt_of_le_of_ne hle hne) settlingEntry hsettles.found)
        hsettles.performed (hstatus ▸ hplaced)
      rw [hstatus, hfree] at hnotFree
      cases hnotFree

end

/-- **Placed to size.** For a request in its declared style, the box of a placement has the size
that the label had when it was placed, which the placement records with it, if the label is one of a
point or an area, or if it is not forced. -/
theorem execute_places_to_size (sequence : Sequence α) (workspace : Workspace α)
    {request : Request α} (hreset : request.IsReset) {final : Run α}
    (hexecuted : sequence.execute (.start workspace request) = (.ok true, final))
    (hplaced : final.request.status.isPlaced = true)
    (hcase : request.shape.kind ≠ .line ∨ final.request.status.isFree = true) :
    sequence.PlacedToSize final := by
  obtain hkind | hfree := hcase
  · refine inOrder_rule_at (sequence.Steady (.start workspace request))
      (fun outcome => ∀ final, outcome = (.ok true, final) →
        final.request.status.isPlaced = true → sequence.PlacedToSize final)
      ?_ ?_ ?_ (steady_zero rfl) final hexecuted hplaced
    · intro position _ _ run hsteady after hnext
      exact hsteady.next hreset hkind hnext
    · rintro position _ _ run hsteady _ rfl _ final hend hplaced
      exact hsteady.placedToSize hend hplaced
    · intro run _ final hend
      cases hend
  · have hreaches :=
      (sequence.maintains_unsettled (.start workspace request)).reaches_execute ⟨rfl, rfl⟩
    rw [hexecuted] at hreaches
    cases hreaches with
    | unsettled hresult => exact absurd rfl hresult
    | settled _ hsettles hagrees =>
      refine hsettles.placedToSize hagrees hplaced fun hnotFree => ?_
      rw [hfree] at hnotFree
      cases hnotFree

/-- Around a town nothing is free at any size. The label is forced after the loop, and its box has
the declared size, in which it was tried first. -/
theorem blocked_town_is_forced_to_size :
    let sequence : Sequence Rat :=
      ⟨[⟨1, .point ⟨[.north], 0⟩⟩, ⟨2, .loop ⟨.fontSize 1 50 .reduce, some 1⟩⟩,
        ⟨3, .failure .force⟩], 4⟩
    let workspace : Workspace Rat :=
      { Workspace.empty .standard with
          index := .insert .empty ⟨.feature 9 .point, ⟨⟨-9, 1⟩, ⟨9, 9⟩⟩⟩ }
    let run : Run Rat := .start workspace
      (.create 1 1 "town" (.point ⟨0, 0⟩) (.single "Bern") ⟨10, ⟨1, 1⟩⟩)
    let final := (sequence.execute run).2
    final.request.status = .forced ∧ sequence.PlacedToSize final := by
  intro sequence workspace run final
  have hforced : final.request.status = .forced := by decide +kernel
  have hsettled : (sequence.execute run).1.toOption = some true := by decide +kernel
  have hresult : (sequence.execute run).1 = .ok true := by
    cases hcase : (sequence.execute run).1 with
    | error error => rw [hcase] at hsettled; cases hsettled
    | ok settled => rw [hcase] at hsettled; exact congrArg Except.ok (Option.some.inj hsettled)
  have hplaced : final.request.status.isPlaced = true := by rw [hforced]; rfl
  exact ⟨hforced, sequence.execute_places_to_size workspace ⟨rfl, rfl⟩ (Prod.ext hresult rfl)
    hplaced (Or.inl (by decide))⟩

/-- A road is too short for its label, so no candidate is tried before a loop reduces the size. The
label is forced after the loop in the box of the reduced size, beside the declared size. -/
theorem forced_road_not_placed_to_size :
    let sequence : Sequence Rat :=
      ⟨[⟨1, .line (.onSide .middle)⟩, ⟨2, .loop ⟨.fontSize 1 50 .reduce, some 1⟩⟩,
        ⟨3, .failure .force⟩], 4⟩
    let workspace : Workspace Rat :=
      { Workspace.empty .standard with
          index := .insert .empty ⟨.feature 9 .point, ⟨⟨4, 0⟩, ⟨4, 0⟩⟩⟩ }
    let request : Request Rat :=
      .create 1 1 "roads" (.line [⟨0, 0⟩, ⟨8, 0⟩]) (.single "Ab") ⟨10, ⟨1, 1⟩⟩
    let final := (sequence.execute (.start workspace request)).2
    request.IsReset ∧ final.request.status = .forced ∧
      final.request.placement.map (fun placement => (placement.fontSize, placement.bounds)) =
        some (10, ⟨⟨1, -3⟩, ⟨7, 3⟩⟩) ∧
      ¬ sequence.PlacedToSize final := by
  intro sequence workspace request final
  refine ⟨⟨rfl, rfl⟩, by decide +kernel, by decide +kernel, fun hsized => ?_⟩
  obtain ⟨placement, visit, center, hplacement, hvisit, -, -, -, hcorners, -⟩ :=
    hsized.exists_placement
  have hplaced : final.request.placement.map (fun placement =>
      (placement.angle, placement.corners.lowerLeft.x, placement.corners.lowerRight.x)) =
        some (0, 1, 7) := by decide +kernel
  have hextent : final.visits.head?.map (fun visit =>
      Run.extentOf final.workspace visit.request) = some (12, 12) := by decide +kernel
  rw [hplacement, Option.map_some, Option.some.injEq, Prod.mk.injEq, Prod.mk.injEq] at hplaced
  rw [hvisit, Option.map_some, Option.some.injEq] at hextent
  obtain ⟨hangle, hleft, hright⟩ := hplaced
  have hwidth := Candidate.width_upright center 12 12
  rw [hextent, hangle] at hcorners
  rw [← hcorners, hleft, hright] at hwidth
  exact absurd hwidth (by decide +kernel)

end Sequence

end LabelPlacement
