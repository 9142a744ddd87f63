import LabelPlacement.Json.Value
import LabelPlacement.Placement.Index
/-!
The names by which the values of enumerations are written.
-/

namespace LabelPlacement

instance : Named FeatureKind where
  all := [.point, .line, .area]
  name
    | .point => "Point"
    | .line => "Line"
    | .area => "Area"

instance : Named BufferKind where
  all := [.label, .feature]
  name
    | .label => "Label"
    | .feature => "Feature"

instance : Named Status where
  all :=
    [.unplaced, .placed, .placedWithLeader, .forced, .forcedWithLeader, .leaderDeferred,
      .suppressed]
  name
    | .unplaced => "Unplaced"
    | .placed => "Placed"
    | .placedWithLeader => "PlacedWithLeader"
    | .forced => "Forced"
    | .forcedWithLeader => "ForcedWithLeader"
    | .leaderDeferred => "LeaderDeferred"
    | .suppressed => "Suppressed"

instance : Named HideOutcome where
  all := [.hidden, .alreadyHidden, .missing]
  name
    | .hidden => "Hidden"
    | .alreadyHidden => "AlreadyHidden"
    | .missing => "Missing"

instance : Named ElementKind where
  all := [.textComponent, .symbolComponent, .textObject, .stackLevel]
  name
    | .textComponent => "TextComponent"
    | .symbolComponent => "SymbolComponent"
    | .textObject => "TextObject"
    | .stackLevel => "StackLevel"

instance : Named LineSide where
  all := [.above, .below, .middle, .left, .right]
  name
    | .above => "Above"
    | .below => "Below"
    | .middle => "Middle"
    | .left => "Left"
    | .right => "Right"

instance : Named PositionUnit where
  all := [.absolute, .percent]
  name
    | .absolute => "Absolute"
    | .percent => "Percent"

instance : Named Compass where
  all :=
    [.north, .northEast, .east, .southEast, .south, .southWest, .west, .northWest, .onPoint]
  name
    | .north => "N"
    | .northEast => "NE"
    | .east => "E"
    | .southEast => "SE"
    | .south => "S"
    | .southWest => "SW"
    | .west => "W"
    | .northWest => "NW"
    | .onPoint => "OnPoint"

instance : Named AreaStrategy where
  all :=
    [.interiorHorizontal, .interiorDominantAngle, .interiorArbitraryAngle, .exteriorHorizontal,
      .exteriorDominantAngle, .exteriorArbitraryAngle, .boundaryStraddle]
  name
    | .interiorHorizontal => "InteriorHorizontal"
    | .interiorDominantAngle => "InteriorDominantAngle"
    | .interiorArbitraryAngle => "InteriorArbitraryAngle"
    | .exteriorHorizontal => "ExteriorHorizontal"
    | .exteriorDominantAngle => "ExteriorDominantAngle"
    | .exteriorArbitraryAngle => "ExteriorArbitraryAngle"
    | .boundaryStraddle => "BoundaryStraddle"

instance : Named FailureAction where
  all := [.suppress, .force, .forceWithLeader]
  name
    | .suppress => "Suppress"
    | .force => "Force"
    | .forceWithLeader => "ForceWithLeader"

instance : Named LeaderTiming where
  all := [.immediate, .deferred]
  name
    | .immediate => "Immediate"
    | .deferred => "Deferred"

instance : Named LoopAction where
  all := [.reduce, .loopAgain, .reset]
  name
    | .reduce => "Reduce"
    | .loopAgain => "LoopAgain"
    | .reset => "Reset"

instance : Named ObstacleKind where
  all := [.point, .lineSegment, .areaEdge]
  name
    | .point => "Point"
    | .lineSegment => "LineSegment"
    | .areaEdge => "AreaEdge"

end LabelPlacement
