import LabelPlacement.Command.Target
/-!
Findings: what looks wrong about a command for labels of a kind of feature.

A finding is not an error; a sequence with findings can still be run.
-/

namespace LabelPlacement

inductive Concern
  | requiresKind (what : String) (expected actual : FeatureKind)
  | emptyLineRange
  | noPositions
  | offsetOnArea
  | stackOnLine
  | leaderOnLine
  | failureNotLast
  | noTarget
  | targetGone (target : Nat)
  | targetNotBefore (target : Nat)
  deriving BEq, DecidableEq

namespace Concern

def message : Concern → String
  | requiresKind what expected actual =>
    what ++ " requires a " ++ expected.name ++ " feature, got " ++ actual.name
  | emptyLineRange => "minimum line position lies after the maximum position"
  | noPositions => "point placement has no candidate positions"
  | offsetOnArea => "offset is not supported for area labels"
  | stackOnLine => "stacking is not supported for line labels"
  | leaderOnLine => "leaders are not supported for line labels"
  | failureNotLast => "failure command is not the last command"
  | noTarget => "loop command has no loop target"
  | targetGone target => "loop target " ++ toString target ++ " no longer exists"
  | targetNotBefore target =>
    "loop target " ++ toString target ++ " does not precede the loop command"

def isAboutTarget : Concern → Bool
  | noTarget | targetGone _ | targetNotBefore _ => true
  | _ => false

end Concern

structure Finding where
  command : Option Nat
  tag : Tag
  concern : Concern
  deriving BEq, DecidableEq

def Finding.render (finding : Finding) : String :=
  let place :=
    match finding.command with
    | some command => finding.tag.render ++ " @" ++ toString command
    | none => finding.tag.render
  "[" ++ place ++ "] " ++ finding.concern.message

def requireKind (what : String) (expected actual : FeatureKind) : List Concern :=
  if actual = expected then [] else [.requiresKind what expected actual]

def Command.concerns {α : Type} [Scalar α] (command : Command α) (kind : FeatureKind) :
    List Concern :=
  match command with
  | .line placement =>
    requireKind "line placement" .line kind ++
      if placement.minimum.unit = placement.maximum.unit ∧
          placement.maximum.value < placement.minimum.value then
        [.emptyLineRange]
      else []
  | .point placement =>
    requireKind "point placement" .point kind ++
      if placement.positions.isEmpty then [.noPositions] else []
  | .area _ => requireKind "area placement" .area kind
  | .loop ⟨.relax (.overhang _), _⟩ => requireKind "overhang" .line kind
  | .loop ⟨.relax .overregion, _⟩ => requireKind "overregion" .area kind
  | .loop ⟨.relax .offset, _⟩ => if kind = .area then [.offsetOnArea] else []
  | .loop ⟨.stack .., _⟩ => if kind = .line then [.stackOnLine] else []
  | .leader _ => if kind = .line then [.leaderOnLine] else []
  | _ => []

def Command.findings {α : Type} [Scalar α] (command : Command α) (kind : FeatureKind) :
    List Finding :=
  (command.concerns kind).map fun concern => { command := none, tag := command.tag, concern }

end LabelPlacement
