import LabelPlacement.Scalar.Basic
/-!
The extent of a line of text.

Text is measured in one way only, that of a font in which every character is equally wide.  Fonts
that measure text otherwise are not considered.
-/

namespace LabelPlacement

/-- Text in which every character is equally wide; both lengths are shares of the font size. -/
structure Metrics (α : Type) where
  advance : α
  lineHeight : α

namespace Metrics

variable {α : Type} [Scalar α]

def standard : Metrics α := { advance := 0.6, lineHeight := 1.2 }

def width (metrics : Metrics α) (text : String) (fontSize : α) : α :=
  Scalar.ofNat text.length * metrics.advance * fontSize

def height (metrics : Metrics α) (fontSize : α) : α := metrics.lineHeight * fontSize

end Metrics

end LabelPlacement
