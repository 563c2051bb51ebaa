import Stencil.Text.Alphanumeric
import Stencil.Text.Blank
import Stencil.Text.Search

/-!
# Tokens

The pieces that the text of a template consists of: plain text, comments, raw text and tags.

## Main definitions

* `Tag` - the words of a tag: its name, arguments and named arguments
* `TokenKind`, `Token` - the pieces, and the lines on which they start
* `TokenKind.print` - a text for a token

## Design notes

A tag can be written in many ways. `Tag.words` puts the arguments by position in front of those
by name; `TokenKind.print` puts single blanks between the words and around them.
-/

namespace Stencil

/-- The words of a tag. -/
structure Tag where
  name : String
  args : List String
  hash : List (String × String)
  deriving Repr, DecidableEq

/-- The kinds of tokens. -/
inductive TokenKind where
  | text (text : String)
  | comment (text : String)
  | output (tag : Tag) (escaped : Bool)
  | opening (tag : Tag)
  | closing (name : String)
  | partialTag (tag : Tag)
  | raw (text : String)
  deriving Repr, DecidableEq

/-- A token and the line on which it starts. -/
structure Token where
  kind : TokenKind
  line : Nat
  deriving Repr, DecidableEq

namespace Token

/-- The mark that opens a tag. -/
def openMark : List Char := ['\x7b', '\x7b']

/-- The mark that closes a tag. -/
def closeMark : List Char := ['\x7d', '\x7d']

/-- The mark that closes a tag with three braces. -/
def tripleMark : List Char := ['\x7d', '\x7d', '\x7d']

/-- The mark that closes a comment with hyphens. -/
def commentMark : List Char := ['-', '-', '\x7d', '\x7d']

/-- The name of the block whose content is raw text. -/
def rawName : List Char := ['r', 'a', 'w']

/-- The mark that opens a raw block. -/
def rawOpen : List Char := openMark ++ '#' :: rawName ++ closeMark

/-- The mark that closes a raw block. -/
def rawClose : List Char := openMark ++ '/' :: rawName ++ closeMark

end Token

/-- The words of a tag with its name first, then the arguments by position and those by name. -/
def Tag.words (tag : Tag) : List (List Char) :=
  tag.name.toList :: tag.args.map String.toList ++
    tag.hash.map fun (key, value) => key.toList ++ '=' :: value.toList

/-- The words of a tag with single blanks between them. -/
def Tag.print (tag : Tag) : List Char :=
  [' '].intercalate tag.words

/-- A text with a blank on each side. -/
def Token.pad (text : List Char) : List Char :=
  [' '] ++ text ++ [' ']

/-- A text for a token. -/
def TokenKind.print : TokenKind → List Char
  | .text body => body.toList
  | .comment body =>
    Token.openMark ++ (['!', '-', '-'] ++ Token.pad body.toList ++ Token.commentMark)
  | .output tag true => Token.openMark ++ (Token.pad tag.print ++ Token.closeMark)
  | .output tag false => Token.openMark ++ ('&' :: Token.pad tag.print ++ Token.closeMark)
  | .opening tag => Token.openMark ++ ('#' :: Token.pad tag.print ++ Token.closeMark)
  | .closing name => Token.openMark ++ ('/' :: Token.pad name.toList ++ Token.closeMark)
  | .partialTag tag => Token.openMark ++ ('>' :: Token.pad tag.print ++ Token.closeMark)
  | .raw body => Token.rawOpen ++ body.toList ++ Token.rawClose

end Stencil
