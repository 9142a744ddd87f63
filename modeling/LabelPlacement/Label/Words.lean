/-!
Distributing words over lines of about equal length.
-/

namespace LabelPlacement.Words

def join (words : List String) : String := " ".intercalate words

def append (line word : String) : String := if line.isEmpty then word else line ++ " " ++ word

/-- The lines of the words that follow an unfinished `line`, with `opening` more lines allowed after
it.  The line ends where the next word would make it longer than `target`, or where the remaining
words are just enough for the remaining lines. -/
def fill (target : Nat) : (opening : Nat) → (line : String) → List String → List String
  | _, line, [] => [line]
  | 0, line, word :: rest => fill target 0 (append line word) rest
  | opening + 1, line, word :: rest =>
    let mustBreak := rest.length + 1 ≤ opening + 1
    let tooLong := target < line.length + 1 + word.length
    if !line.isEmpty && (mustBreak || tooLong) then line :: fill target opening word rest
    else fill target (opening + 1) (append line word) rest

def joinedLength : List String → Nat
  | [] => 0
  | [word] => word.length
  | word :: rest => word.length + 1 + joinedLength rest

/-- The words on exactly `lines` lines of about equal length, or on a single line when there are
fewer words than lines. -/
def balance (words : List String) (lines : Nat) : List String :=
  if lines ≤ 1 || words.length < lines then
    if words.isEmpty then [] else [join words]
  else
    fill ((joinedLength words + lines - 1) / lines) (lines - 1) "" words

end LabelPlacement.Words
