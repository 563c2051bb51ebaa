/-!
# Text in HTML

The five characters that can end or open something in an HTML text or attribute value
are written as entities, every other character as itself. Reading the entities back in
one pass from left to right undoes this.

## Main definitions

* `Html.escape` - a text with its special characters written as entities
* `Html.unescape` - a text with those entities replaced by their characters
-/

namespace Stencil.Text.Html

/-- The written form of one character. -/
def entity (c : Char) : List Char :=
  if c = '&' then ['&', 'a', 'm', 'p', ';']
  else if c = '<' then ['&', 'l', 't', ';']
  else if c = '>' then ['&', 'g', 't', ';']
  else if c = '\x22' then ['&', 'q', 'u', 'o', 't', ';']
  else if c = '\x27' then ['&', '#', '0', '3', '9', ';']
  else [c]

/-- Writes the characters `&`, `<`, `>` and the two quotation marks as entities. -/
def escape (text : String) : String :=
  String.ofList (text.toList.flatMap entity)

/-- Replaces the five entities by their characters, in one pass from left to right. -/
def unescapeChars : List Char → List Char
  | '&' :: 'a' :: 'm' :: 'p' :: ';' :: rest => '&' :: unescapeChars rest
  | '&' :: 'l' :: 't' :: ';' :: rest => '<' :: unescapeChars rest
  | '&' :: 'g' :: 't' :: ';' :: rest => '>' :: unescapeChars rest
  | '&' :: 'q' :: 'u' :: 'o' :: 't' :: ';' :: rest => '\x22' :: unescapeChars rest
  | '&' :: '#' :: '0' :: '3' :: '9' :: ';' :: rest => '\x27' :: unescapeChars rest
  | c :: rest => c :: unescapeChars rest
  | [] => []

/-- Reads entities back, see `unescapeChars`. -/
def unescape (text : String) : String :=
  String.ofList (unescapeChars text.toList)

end Stencil.Text.Html
