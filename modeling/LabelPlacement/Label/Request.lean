import LabelPlacement.Feature.Shape
import LabelPlacement.Feature.Symbol
import LabelPlacement.Geometry.Rectangle
import LabelPlacement.Label.Content
import LabelPlacement.Label.Words
/-!
Label requests: what is to be shown for a feature, in which style, and how far placing it has come.

The declared style never changes while a label is placed.  Sizes, buffers, stacking and hidden
elements of the moment form the working state, and `Request.reset` returns to the declared style.
-/

namespace LabelPlacement

inductive BufferKind
  | label
  | feature
  deriving BEq, DecidableEq

structure Buffers (α : Type) where
  label : α
  feature : α
  deriving BEq, DecidableEq

namespace Buffers

variable {α : Type}

def get (buffers : Buffers α) : BufferKind → α
  | .label => buffers.label
  | .feature => buffers.feature

def set (buffers : Buffers α) (kind : BufferKind) (value : α) : Buffers α :=
  match kind with
  | .label => { buffers with label := value }
  | .feature => { buffers with feature := value }

def standard [Scalar α] : Buffers α := ⟨1, 1⟩

end Buffers

structure Style (α : Type) where
  fontSize : α
  buffers : Buffers α
  deriving BEq, DecidableEq

inductive Status
  | unplaced
  | placed
  | placedWithLeader
  | forced
  | forcedWithLeader
  | leaderDeferred
  | suppressed
  deriving BEq, DecidableEq

structure LeaderLine (α : Type) where
  start : Point α
  finish : Point α
  deriving BEq, DecidableEq

structure Placement (α : Type) where
  corners : Corners α
  bounds : Box α
  angle : α
  fontSize : α
  lines : List String
  hidden : List Element
  buffers : Buffers α
  leader : Option (LeaderLine α)
  deriving BEq, DecidableEq

/-- The style of the moment: what the commands of a sequence change while they look for a place.
The hidden stack levels are kept in increasing order. -/
structure Working (α : Type) where
  fontSize : α
  buffers : Buffers α
  stackLines : Nat
  hiddenLevels : List Nat
  deriving BEq, DecidableEq

namespace Working

variable {α : Type}

def ofStyle (style : Style α) : Working α :=
  { fontSize := style.fontSize, buffers := style.buffers, stackLines := 1, hiddenLevels := [] }

def insertLevel (level : Nat) : List Nat → List Nat
  | [] => [level]
  | first :: rest =>
    if level < first then level :: first :: rest
    else if level = first then first :: rest
    else first :: insertLevel level rest

end Working

structure Request (α : Type) where
  id : Nat
  feature : Nat
  labelClass : String
  shape : Shape α
  symbol : Option (PointSymbol α)
  content : Content α
  style : Style α
  priority : Int
  working : Working α
  status : Status
  placement : Option (Placement α)
  deriving BEq

namespace Request

variable {α : Type}

def create (id feature : Nat) (labelClass : String) (shape : Shape α) (content : Content α)
    (style : Style α) : Request α :=
  { id, feature, labelClass, shape, symbol := none, content, style, priority := 0
    working := .ofStyle style, status := .unplaced, placement := none }

def words (request : Request α) : List String := request.content.words

/-- The lines of text, the hidden stack levels included. -/
def baseLines (request : Request α) : List String :=
  if 1 < request.working.stackLines then
    Words.balance request.words request.working.stackLines
  else request.content.visibleTexts

/-- The lines whose level, counted from the given one, is not hidden. -/
def visibleLevels (hiddenLevels : List Nat) : (level : Nat) → List String → List String
  | _, [] => []
  | level, line :: rest =>
    if hiddenLevels.contains level then visibleLevels hiddenLevels (level + 1) rest
    else line :: visibleLevels hiddenLevels (level + 1) rest

def lines (request : Request α) : List String :=
  visibleLevels request.working.hiddenLevels 1 request.baseLines

def visibleSymbols (request : Request α) : List (SymbolComponent α) :=
  request.content.visibleSymbols

def hasVisibleContent (request : Request α) : Bool :=
  !request.lines.isEmpty || !request.visibleSymbols.isEmpty

def setFontSize (request : Request α) (fontSize : α) : Request α :=
  { request with working := { request.working with fontSize } }

def buffer (request : Request α) (kind : BufferKind) : α := request.working.buffers.get kind

def setBuffer (request : Request α) (kind : BufferKind) (value : α) : Request α :=
  { request with
      working := { request.working with buffers := request.working.buffers.set kind value } }

/-- The request with its text on one line, or on several; hidden levels are shown again. -/
def withStackLines (request : Request α) (stackLines : Nat) : Request α :=
  { request with working := { request.working with stackLines, hiddenLevels := [] } }

/-- The request with its visible text stacked on a number of lines, if it has that many words. -/
def stack? (request : Request α) (lines : Nat) : Option (Request α) :=
  if lines = 0 || request.words.length < lines then none else some (request.withStackLines lines)

def unstack (request : Request α) : Request α := request.withStackLines 1

/-- Hides an element.  Of several with one name the first is meant; a stack level must be a level of
the present stacking. -/
def hide (request : Request α) : Element → HideOutcome × Request α
  | .stackLevel level =>
    if level = 0 || request.baseLines.length < level then (.missing, request)
    else if request.working.hiddenLevels.contains level then (.alreadyHidden, request)
    else
      let hiddenLevels := Working.insertLevel level request.working.hiddenLevels
      (.hidden, { request with working := { request.working with hiddenLevels } })
  | element =>
    let (outcome, content) := request.content.hide element
    (outcome, { request with content })

/-- Shows an element again, all elements of its name included. -/
def restore (request : Request α) : Element → Request α
  | .stackLevel level =>
    let hiddenLevels := request.working.hiddenLevels.filter (· != level)
    { request with working := { request.working with hiddenLevels } }
  | element => { request with content := request.content.restore element }

def hiddenElements (request : Request α) : List Element :=
  request.content.hiddenElements ++ request.working.hiddenLevels.map .stackLevel

def restoreAll (request : Request α) : Request α :=
  request.hiddenElements.foldl restore request

/-- Returns to the declared style, hidden elements of the content aside. -/
def resetWorking (request : Request α) : Request α :=
  { request with working := .ofStyle request.style }

def reset (request : Request α) : Request α :=
  { request.resetWorking.restoreAll with status := .unplaced, placement := none }

end Request

end LabelPlacement
