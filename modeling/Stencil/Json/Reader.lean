import Stencil.Json
import Stencil.Text.Search

/-!
# Reading JSON

## Main definitions

* `Json.readString?`, `Json.readNumber?`, `Json.readValue?` - a value in front of a text
* `Json.readForm?` - the value that fills a text, up to blanks
* `Json.read?` - the value that fills a text, if all its strings stand for texts

## Design notes

A reader takes a value off the front of a text and returns what follows. How deep arrays and
objects may be nested is a number of levels that the reader of a value gets; it is also
what the recursion runs on. The blanks of JSON are four characters only.
-/

namespace Stencil.Json

open Number Text

/-- The blanks of JSON. -/
def isSpace (c : Char) : Bool :=
  c = ' ' || c = '\n' || c = '\t' || c = '\r'

/-- A text without its leading blanks. -/
def skipSpace (text : List Char) : List Char :=
  text.dropWhile isSpace

/-- The value of a hexadecimal digit. -/
def hexValue? (c : Char) : Option Nat :=
  if '0' ≤ c && c ≤ '9' then some (c.toNat - 0x30)
  else if 'a' ≤ c && c ≤ 'f' then some (c.toNat - 0x57)
  else if 'A' ≤ c && c ≤ 'F' then some (c.toNat - 0x37)
  else none

/-- The code unit that four hexadecimal digits write. -/
def readUnit? : List Char → Option (Nat × List Char)
  | a :: b :: c :: d :: rest => do
    let a ← hexValue? a
    let b ← hexValue? b
    let c ← hexValue? c
    let d ← hexValue? d
    return (((a * 16 + b) * 16 + c) * 16 + d, rest)
  | _ => none

theorem length_of_readUnit? {text rest : List Char} {n : Nat}
    (h : readUnit? text = some (n, rest)) : rest.length < text.length := by
  unfold readUnit? at h
  split at h
  · simp only [Option.bind_eq_bind, Option.bind_eq_some_iff, Option.pure_def,
      Option.some.injEq, Prod.mk.injEq] at h
    obtain ⟨_, _, _, _, _, _, _, _, _, rfl⟩ := h
    simp only [List.length_cons]
    omega
  · simp at h

/-- The second half of a surrogate pair, written by an escape of its own. -/
def readLowHalf? : List Char → Option (Nat × List Char)
  | '\\' :: 'u' :: text => do
    let (low, rest) ← readUnit? text
    if 0xDC00 ≤ low ∧ low ≤ 0xDFFF then some (low, rest) else none
  | _ => none

theorem length_of_readLowHalf? {text rest : List Char} {n : Nat}
    (h : readLowHalf? text = some (n, rest)) : rest.length < text.length := by
  unfold readLowHalf? at h
  split at h
  · simp only [Option.bind_eq_bind, Option.bind_eq_some_iff] at h
    obtain ⟨⟨low, after⟩, hlow, h⟩ := h
    have := length_of_readUnit? hlow
    split at h
    · obtain ⟨_, rfl⟩ : _ ∧ after = rest := by simpa using h
      simp only [List.length_cons]
      omega
    · simp at h
  · simp at h

/-- The character of an escape, given the text behind the backslash. A character beyond
the first plane is written as two code units; half of such a pair is no character. -/
def readEscape? : List Char → Option (Option Char × List Char)
  | 'u' :: text =>
    match readUnit? text with
    | none => none
    | some (unit, rest) =>
      if 0xD800 ≤ unit ∧ unit ≤ 0xDBFF then
        match readLowHalf? rest with
        | none => some (none, rest)
        | some (low, rest) =>
          some (some (Char.ofNat (0x10000 + (unit - 0xD800) * 0x400 + (low - 0xDC00))), rest)
      else if 0xDC00 ≤ unit ∧ unit ≤ 0xDFFF then some (none, rest)
      else some (some (Char.ofNat unit), rest)
  | 'b' :: rest => some (some '\x08', rest)
  | 'f' :: rest => some (some '\x0c', rest)
  | 'n' :: rest => some (some '\n', rest)
  | 'r' :: rest => some (some '\r', rest)
  | 't' :: rest => some (some '\t', rest)
  | '\\' :: rest => some (some '\\', rest)
  | '/' :: rest => some (some '/', rest)
  | '\x22' :: rest => some (some '\x22', rest)
  | _ => none

/-- An escape takes at least one character. -/
theorem length_of_readEscape? {text rest : List Char} {c : Option Char}
    (h : readEscape? text = some (c, rest)) : rest.length < text.length := by
  unfold readEscape? at h
  split at h <;> try (simp_all; done)
  · next text =>
    split at h
    · simp at h
    · next unit after hunit =>
      have h₁ := length_of_readUnit? hunit
      have hafter : after = rest → rest.length < ('u' :: text).length := by
        rintro rfl
        simp only [List.length_cons]
        omega
      split at h
      · split at h
        · exact hafter (by simp_all)
        · next low last hlow =>
          have h₂ := length_of_readLowHalf? hlow
          obtain ⟨_, rfl⟩ : _ ∧ last = rest := by simpa using h
          simp only [List.length_cons]
          omega
      · split at h
        · exact hafter (by simp_all)
        · exact hafter (by simp_all)

/-- The characters of a string up to its closing quotation mark; there are none if half of a
surrogate pair is escaped. Control characters have to be escaped. -/
def readString? : List Char → Option (Option (List Char) × List Char)
  | [] => none
  | c :: text =>
    if c = '\x22' then some (some [], text)
    else if c = '\\' then
      match _h : readEscape? text with
      | none => none
      | some (d, rest) =>
        (readString? rest).map fun (body, rest) =>
          (d.bind fun d => body.map fun body => d :: body, rest)
    else if c.toNat < 0x20 then none
    else (readString? text).map fun (body, rest) => (body.map fun body => c :: body, rest)
termination_by text => text.length
decreasing_by
  · have := length_of_readEscape? _h
    simp only [List.length_cons]
    omega
  · simp

/-- The value of a string with the given characters. -/
def ofChars : Option (List Char) → Json
  | none => .unpaired
  | some body => .string (String.ofList body)

/-- The value of an object with the given members. -/
def ofMembers (members : List (Option (List Char) × Json)) : Json :=
  match members.mapM fun (name, value) => name.map fun name => (String.ofList name, value) with
  | none => .unpaired
  | some members => .object members

/-- The digits behind a point, if there is a point; at least one has to follow it. -/
def readFraction? : List Char → Option (List Char × List Char)
  | '.' :: rest =>
    if rest.takeWhile isDigit = [] then none
    else some (rest.takeWhile isDigit, rest.dropWhile isDigit)
  | text => some ([], text)

/-- A power of ten, if one is given; at least one digit has to follow its sign. -/
def readPower? : List Char → Option (Option (Bool × List Char) × List Char)
  | [] => some (none, [])
  | c :: text =>
    if c = 'e' ∨ c = 'E' then
      let (negative, rest) := takeSign text
      if rest.takeWhile isDigit = [] then none
      else some (some (negative, rest.takeWhile isDigit), rest.dropWhile isDigit)
    else some (none, c :: text)

/-- A number in front of a text. A zero is not followed by further digits. -/
def readNumber? (text : List Char) : Option (Numeral × List Char) := do
  let (negative, rest) := match text with
    | '-' :: rest => (true, rest)
    | _ => (false, text)
  let whole := rest.takeWhile isDigit
  if whole = [] ∨ (whole.head? = some '0' ∧ 1 < whole.length) then none
  else do
    let (fraction, rest) ← readFraction? (rest.dropWhile isDigit)
    let (exponent, rest) ← readPower? rest
    return (⟨negative, whole, fraction, exponent⟩, rest)

/-- A reader of values: takes a value off the front of a text. -/
abbrev Reader := List Char → Option (Json × List Char)

/-- The items of an array, behind its opening bracket or a comma, up to and with the closing
bracket. The text bounds their number. -/
def readItems? (item : Reader) : (bound : Nat) → List Char → Option (List Json × List Char)
  | 0, _ => none
  | bound + 1, text => do
    let (value, text) ← item text
    match skipSpace text with
    | ',' :: text => do
      let (values, text) ← readItems? item bound text
      return (value :: values, text)
    | ']' :: text => return ([value], text)
    | _ => none

/-- The members of an object, behind its opening brace or a comma, up to and with the closing
brace. -/
def readMembers? (item : Reader) :
    (bound : Nat) → List Char → Option (List (Option (List Char) × Json) × List Char)
  | 0, _ => none
  | bound + 1, text => do
    let text ← dropMark? ['\x22'] (skipSpace text)
    let (name, text) ← readString? text
    let text ← dropMark? [':'] (skipSpace text)
    let (value, text) ← item text
    match skipSpace text with
    | ',' :: text => do
      let (members, text) ← readMembers? item bound text
      return ((name, value) :: members, text)
    | '\x7d' :: text => return ([(name, value)], text)
    | _ => none

/-- A value in front of a text, where `inner` reads the values inside of arrays and objects;
without `inner` there may be none. -/
def readWith? (inner : Option Reader) : Reader := fun text =>
  match skipSpace text with
  | '\x22' :: text => (readString? text).map fun (body, rest) => (ofChars body, rest)
  | '[' :: text =>
    match inner with
    | none => none
    | some item =>
      match skipSpace text with
      | ']' :: rest => some (.array [], rest)
      | text => (readItems? item text.length text).map fun (items, rest) => (.array items, rest)
  | '\x7b' :: text =>
    match inner with
    | none => none
    | some item =>
      match skipSpace text with
      | '\x7d' :: rest => some (.object [], rest)
      | text =>
        (readMembers? item text.length text).map fun (members, rest) => (ofMembers members, rest)
  | text =>
    ((dropMark? ['n', 'u', 'l', 'l'] text).map fun rest => (.null, rest))
      <|> ((dropMark? ['t', 'r', 'u', 'e'] text).map fun rest => (.bool true, rest))
      <|> ((dropMark? ['f', 'a', 'l', 's', 'e'] text).map fun rest => (.bool false, rest))
      <|> ((readNumber? text).map fun (n, rest) => (.number n, rest))

/-- A value in front of a text, with at most the given number of arrays and objects inside of
each other. -/
def readValue? : (levels : Nat) → Reader
  | 0, text => readWith? none text
  | levels + 1, text => readWith? (some (readValue? levels)) text

/-- The value that fills a text, up to blanks, with at most the given number of arrays and
objects inside of each other. Its strings need not stand for texts. -/
def readForm? (levels : Nat) (text : List Char) : Option Json := do
  let (value, rest) ← readValue? levels text
  if skipSpace rest = [] then some value else none

/-- The value that fills a text, up to blanks, with at most the given number of arrays and
objects inside of each other. All its strings stand for texts. -/
def readNested? (levels : Nat) (text : List Char) : Option Json :=
  (readForm? levels text).filter isPaired

/-- The value that fills a text, up to blanks, however deep. All its strings stand for texts. -/
def read? (text : String) : Option Json :=
  readNested? text.toList.length text.toList

end Stencil.Json
