import LabelPlacement.Command.Basic
/-!
Tags of commands, and which commands a loop may go back to.
-/

namespace LabelPlacement

inductive CommandFamily
  | linePlacement
  | areaPlacement
  | pointPlacement
  | persistence
  | failure
  deriving BEq, DecidableEq

def CommandFamily.name : CommandFamily → String
  | .linePlacement => "LinePlacement"
  | .areaPlacement => "AreaPlacement"
  | .pointPlacement => "PointPlacement"
  | .persistence => "Persistence"
  | .failure => "Failure"

structure Tag where
  family : CommandFamily
  ordinal : Nat
  deriving BEq, DecidableEq

def Tag.render (tag : Tag) : String := tag.family.name ++ "#" ++ toString tag.ordinal

structure TagPattern where
  family : CommandFamily
  ordinal : Option Nat
  deriving BEq, DecidableEq

namespace TagPattern

def holds (pattern : TagPattern) (tag : Tag) : Bool :=
  pattern.family == tag.family && pattern.ordinal.all (· == tag.ordinal)

def render (pattern : TagPattern) : String :=
  pattern.family.name ++ "#" ++ (pattern.ordinal.map toString).getD "*"

end TagPattern

def leaderOrdinal : Nat := 5

namespace LoopKind

variable {α : Type}

def ordinal : LoopKind α → Nat
  | relax .offset => 0
  | relax (.overhang _) => 1
  | relax .overline => 2
  | relax .overregion => 3
  | relax .bump => 4
  | bufferSize .. => 6
  | fontSize .. => 7
  | stack .. => 8
  | hide _ => 9

def placingPatterns : List TagPattern :=
  [⟨.linePlacement, none⟩, ⟨.areaPlacement, none⟩, ⟨.pointPlacement, none⟩,
    ⟨.persistence, some leaderOrdinal⟩]

/-- The commands that a loop may go back to.  Reducing loops may also go back to loops of their own
kind. -/
def targetPatterns (kind : LoopKind α) : List TagPattern :=
  match kind with
  | relax .offset => [⟨.pointPlacement, none⟩, ⟨.linePlacement, none⟩]
  | relax (.overhang _) => [⟨.linePlacement, none⟩]
  | relax .overregion => [⟨.areaPlacement, none⟩]
  | relax .overline | relax .bump => placingPatterns
  | bufferSize .. | fontSize .. | stack .. | hide _ =>
    placingPatterns ++ [⟨.persistence, some kind.ordinal⟩]

end LoopKind

namespace Command

variable {α : Type}

def tag : Command α → Tag
  | line placement => ⟨.linePlacement, placement.side.ordinal⟩
  | point placement => ⟨.pointPlacement, placement.ordinal⟩
  | area placement => ⟨.areaPlacement, placement.strategy.ordinal⟩
  | leader _ => ⟨.persistence, leaderOrdinal⟩
  | failure action => ⟨.failure, action.ordinal⟩
  | loop found => ⟨.persistence, found.kind.ordinal⟩

end Command

/-- Whether a loop may go back to a command.  A loop over one buffer never goes back to a loop over
the other buffer. -/
def LoopKind.accepts {α : Type} (kind : LoopKind α) (command : Command α) : Bool :=
  kind.targetPatterns.any (·.holds command.tag) &&
    match kind, command with
    | .bufferSize buffer _ _, .loop ⟨.bufferSize other _ _, _⟩ => buffer == other
    | _, _ => true

end LabelPlacement
