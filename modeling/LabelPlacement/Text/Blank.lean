/-!
Blank characters, trimming and splitting into words.

A character is blank when it has the Unicode property `White_Space`.
-/

namespace LabelPlacement.Text

/-- The ranges of characters with the property `White_Space`. -/
def blankRanges : List (Nat × Nat) :=
  [(0x09, 0x0D), (0x20, 0x20), (0x85, 0x85), (0xA0, 0xA0), (0x1680, 0x1680), (0x2000, 0x200A),
    (0x2028, 0x2029), (0x202F, 0x202F), (0x205F, 0x205F), (0x3000, 0x3000)]

def isBlank (character : Char) : Bool :=
  blankRanges.any fun range => range.1 ≤ character.toNat && character.toNat ≤ range.2

def trimLeft (text : List Char) : List Char := text.dropWhile isBlank

def trimRight (text : List Char) : List Char := (text.reverse.dropWhile isBlank).reverse

def trim (text : List Char) : List Char := trimRight (trimLeft text)

/-- The words of a text that starts with the reversed characters of an unfinished word. -/
def wordsFrom (unfinished : List Char) : List Char → List (List Char)
  | [] => if unfinished.isEmpty then [] else [unfinished.reverse]
  | character :: rest =>
    if isBlank character then
      if unfinished.isEmpty then wordsFrom [] rest else unfinished.reverse :: wordsFrom [] rest
    else wordsFrom (character :: unfinished) rest

/-- The words of a text: its longest runs without blanks. -/
def words (text : List Char) : List (List Char) := wordsFrom [] text

end LabelPlacement.Text

namespace LabelPlacement

def trimmed (text : String) : String := String.ofList (Text.trim text.toList)

def wordsOf (text : String) : List String := (Text.words text.toList).map String.ofList

end LabelPlacement
