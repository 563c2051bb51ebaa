import Stencil.Text.Blank
import Stencil.Text.CaseTable

/-!
# Letter case

Upper and lower case of a text by the full case mappings of Unicode, without regard to a
language. One character may become several, as `ß` becomes `SS`. The lower case of the
Greek capital sigma depends on where it stands: at the end of a word it is `ς`,
elsewhere `σ`.

## Main definitions

* `upperChar`, `lowerChar` - the mapping of a character by itself
* `upper`, `lower` - the mapping of a text
* `capitalize`, `capitalizeWords` - the first letter of a text, or of each word, in upper
  case
-/

namespace Stencil.Text

/-- The mapping of one character by a table of expansions and a table of runs. -/
def mapCase (expansions : List (Nat × List Nat)) (runs : List CaseRun) (c : Char) :
    List Char :=
  match expansions.lookup c.toNat with
  | some codes => codes.map Char.ofNat
  | none =>
    match runs.findSome? (·.map? c.toNat) with
    | some n => [Char.ofNat n]
    | none => [c]

/-- The upper case of a character. -/
def upperChar (c : Char) : List Char :=
  mapCase upperExpansions upperRuns c

/-- The lower case of a character that stands by itself. -/
def lowerChar (c : Char) : List Char :=
  mapCase lowerExpansions lowerRuns c

/-- The upper case of a text. -/
def upper (text : List Char) : List Char :=
  text.flatMap upperChar

/-- Whether the first character that is not ignored for case is a cased one. -/
def startsCased (text : List Char) : Bool :=
  match text.dropWhile caseIgnorableRanges.has with
  | [] => false
  | c :: _ => casedRanges.has c

/-- The lower case of a text, given the text in front of it in reverse order. A capital
sigma is final when a cased character precedes it and none follows. -/
def lowerAfter (before : List Char) : List Char → List Char
  | [] => []
  | c :: text =>
    let mapped :=
      if c = 'Σ' then
        if startsCased before && !startsCased text then ['ς'] else ['σ']
      else lowerChar c
    mapped ++ lowerAfter (c :: before) text

/-- The lower case of a text. -/
def lower (text : List Char) : List Char :=
  lowerAfter [] text

/-- A text with its first character in upper case. -/
def capitalize : List Char → List Char
  | [] => []
  | c :: text => upperChar c ++ text

/-- A text with every character in upper case that follows a blank, and the first one too
if `atStart` holds. -/
def capitalizeFrom : (atStart : Bool) → List Char → List Char
  | _, [] => []
  | atStart, c :: text =>
    (if atStart then upperChar c else [c]) ++ capitalizeFrom (isBlank c) text

/-- A text with every character in upper case that starts it or follows a blank. -/
def capitalizeWords (text : List Char) : List Char :=
  capitalizeFrom true text

end Stencil.Text
