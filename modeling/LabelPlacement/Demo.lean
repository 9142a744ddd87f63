import LabelPlacement.Settings
/-!
A map for demonstration: four towns, a river, a lake, and a road that has no label.
-/

namespace LabelPlacement.Demo

def towns : String := "towns"
def rivers : String := "rivers"
def lakes : String := "lakes"

def sequenceOf (commands : List (Except (LabelingError Float) (Command Float))) :
    Except (LabelingError Float) (Sequence Float) :=
  commands.foldlM (fun sequence command => do sequence.add (← command)) Sequence.empty

/-- Towns are labelled at one of eight positions; then with a larger offset, by bumping, with
smaller buffers and smaller text, stacked, with elements hidden, and at last with a leader line. -/
def townsSequence (settings : PlacementSettings) :
    Except (LabelingError Float) (Sequence Float) :=
  sequenceOf [
    .ok (.point .around),
    .ok (.relax .offset),
    .ok (.relax .bump),
    Command.bufferSize .label settings.bufferSteps .reduce,
    Command.fontSize settings.fontSteps settings.fontReductionPercent .reduce,
    Command.stack settings.maxStackLines .reduce,
    Command.hideText "TC(population), SC(badge)",
    Command.leaderLine .deferred none]

/-- Rivers are labelled above the line or below it; then with an overhang, across other lines and
with smaller text, or not at all. -/
def riversSequence (settings : PlacementSettings) :
    Except (LabelingError Float) (Sequence Float) :=
  sequenceOf [
    .ok (.line {
      side := .above, initial := ⟨50, .percent⟩, minimum := ⟨10, .percent⟩
      maximum := ⟨90, .percent⟩ }),
    .ok (.line (.onSide .below)),
    Command.overhang 20,
    .ok (.relax .overline),
    Command.fontSize settings.fontSteps settings.fontReductionPercent .reduce,
    .ok (.failure .suppress)]

/-- Lakes are labelled inside, level or along their longest side; then beyond their shore, outside,
or with a leader line in spite of all conflicts. -/
def lakesSequence : Except (LabelingError Float) (Sequence Float) :=
  sequenceOf [
    .ok (.area { strategy := .interiorHorizontal, angle := 0 }),
    .ok (.area { strategy := .interiorDominantAngle, angle := 0 }),
    .ok (.relax .overregion),
    .ok (.area { strategy := .exteriorHorizontal, angle := 0 }),
    .ok (.failure .forceWithLeader)]

structure Town where
  feature : Nat
  position : Point Float
  name : String
  population : String
  priority : Int

def townList : List Town :=
  [⟨1, ⟨0, 0⟩, "Ashford", "12k", 10⟩,
    ⟨2, ⟨8, 4⟩, "Brookmere", "3k", 5⟩,
    ⟨3, ⟨60, 20⟩, "Caldwell Springs", "48k", 20⟩,
    ⟨4, ⟨64, 24⟩, "Dunmore", "900", 1⟩]

def style : Style Float := { fontSize := 10, buffers := .standard }

def townRequest (town : Town) (symbol : PointSymbol Float) (id : Nat) : Request Float :=
  let content : Content Float :=
    { textObjects := [{
        name := "title"
        components :=
          [{ name := "name", text := town.name },
            { name := "population", text := town.population }] }]
      symbols := [{ name := "badge", width := 3, height := 3 }] }
  { Request.create id town.feature towns (.point town.position) content style with
      symbol := some symbol, priority := town.priority }

def riverRequest (id : Nat) : Request Float :=
  let points := [⟨-30, -20⟩, ⟨10, -12⟩, ⟨50, -18⟩, ⟨100, -5⟩]
  { Request.create id 100 rivers (.line points) (.single "Silver River") style with priority := 8 }

def lakeRequest (id : Nat) : Request Float :=
  let shore := Polygon.ofVertices [⟨20, 30⟩, ⟨110, 30⟩, ⟨120, 70⟩, ⟨30, 80⟩]
  { Request.create id 200 lakes (.area shore) (.single "Lake Meridian") style with priority := 15 }

def addTown (map : LabelMap Float) (town : Town) :
    Except OutlineError (LabelMap Float) := do
  let symbol ← PointSymbol.rectangle town.position 2 2
  map.addRequest (townRequest town symbol)

def populate (map : LabelMap Float) : Except OutlineError (LabelMap Float) := do
  let map ← map.addObstacle 900 (.line [⟨-40, 18⟩, ⟨120, 18⟩]) none
  let map ← townList.foldlM addTown map
  let map ← map.addRequest riverRequest
  map.addRequest lakeRequest

def map (settings : Settings) : Except (LabelingError Float) (LabelMap Float) := do
  let empty := LabelMap.empty settings.placementOptions settings.labelingOptions
  let townsSequence ← townsSequence settings.placement
  let riversSequence ← riversSequence settings.placement
  let lakesSequence ← lakesSequence
  let classed := ((empty.defineClass towns townsSequence).defineClass rivers
    riversSequence).defineClass lakes lakesSequence
  (populate classed).mapError .outline

end LabelPlacement.Demo
