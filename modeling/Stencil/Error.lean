import Stencil.Number.Shortest

/-!
# Errors

What can go wrong when a template is loaded, read, stored or rendered, by its cause. The texts
that users see are made in one place, `Error.message`.

## Main definitions

* `PathFault`, `SyntaxFault` - what is wrong with the text of a template
* `StoreFault` - what is wrong with an entry of a cache
* `RenderFault` - what stops a render
* `DataFault` - why data cannot become a value
* `Error` - all errors of the library
* `Error.message` - the text of an error
-/

namespace Stencil

/-- What is wrong with a path. -/
inductive PathFault where
  | empty
  | openSlice
  | malformedSlice
  | strayBracket
  | emptySegment
  | unexpectedCharacter
  | namelessVariable
  deriving Repr, DecidableEq

/-- What is wrong with the text of a template. -/
inductive SyntaxFault where
  | unterminatedTag
  | unclosedRaw
  | namelessClose
  | unterminatedQuote (content : String)
  | emptyTag
  | unclosedBlock (name : String)
  | unexpectedClose (name : String)
  | mismatchedClose (name opened : String) (line : Nat)
  | elseHash
  | elseArguments
  | elseifArguments
  | elseOutside
  | afterElse (block : String)
  | elseifInside (block : String)
  | partialArguments (name : String)
  | path (text : String) (fault : PathFault)
  | missingOperand
  | unterminatedString
  | missingOperator (rest : String)
  | trailing (rest expression : String)
  deriving Repr, DecidableEq

/-- What is wrong with an entry of a cache: the key cannot be the name of a file, or the
entry cannot be read or written. -/
inductive StoreFault where
  | key
  | entry
  deriving Repr, DecidableEq

/-- What stops a render. -/
inductive RenderFault where
  | nesting (limit : Nat)
  | missingArgument (helper : String) (count : Nat)
  | missingName (helper : String)
  | truncateLength
  | dateFormat (format : String)
  | repeatCount (count : Float) (limit : Nat)
  | other (text : String)

/-- Why data cannot become a value. -/
inductive DataFault where
  | unsupported (type : String)
  | compositeKey
  | missingKey
  deriving Repr, DecidableEq

/-- All errors of the library. -/
inductive Error where
  | parse (line : Nat) (fault : SyntaxFault)
  | unknownHelper (name : String)
  | notFound (name : String)
  | cache (key : String) (fault : StoreFault)
  | io
  | render (fault : RenderFault)
  | data (fault : DataFault)
  | missingZone

/-- The reason that the text of a path error gives. -/
def PathFault.message : PathFault → String
  | .empty => "empty"
  | .openSlice => "slice must close the path"
  | .malformedSlice => "slice must be [start:len]"
  | .strayBracket => "unbalanced ']'"
  | .emptySegment => "empty segment"
  | .unexpectedCharacter => "unexpected character"
  | .namelessVariable => "data variable needs a name"

/-- An opening tag of the given name. -/
def openingTag (name : String) : String :=
  "\x7b\x7b#" ++ name ++ "\x7d\x7d"

/-- A closing tag of the given name. -/
def closingTag (name : String) : String :=
  "\x7b\x7b/" ++ name ++ "\x7d\x7d"

/-- The text of an error in a template. -/
def SyntaxFault.message : SyntaxFault → String
  | .unterminatedTag => "unterminated tag: missing closing '\x7d\x7d'"
  | .unclosedRaw => "unclosed " ++ openingTag "raw" ++ " block"
  | .namelessClose => "close tag without a name"
  | .unterminatedQuote content => "unterminated quote in tag '" ++ content ++ "'"
  | .emptyTag => "empty tag"
  | .unclosedBlock name => "unclosed block '" ++ openingTag name ++ "'"
  | .unexpectedClose name => "unexpected close tag '" ++ closingTag name ++ "'"
  | .mismatchedClose name opened line =>
    "close tag '" ++ closingTag name ++ "' does not match open block '" ++ opened ++
      "' from line " ++ Number.natText line
  | .elseHash => "'else' does not take hash arguments"
  | .elseArguments => "unexpected arguments after 'else'"
  | .elseifArguments => "'elseif' takes exactly one condition"
  | .elseOutside => "'else' outside of a block"
  | .afterElse block => "only '" ++ closingTag block ++ "' may follow 'else'"
  | .elseifInside block => "'elseif' is not allowed inside '" ++ block ++ "'"
  | .partialArguments name => "partial '" ++ name ++ "' takes at most one context argument"
  | .path text fault => "invalid path '" ++ text ++ "': " ++ fault.message
  | .missingOperand => "missing operand in expression"
  | .unterminatedString => "unterminated string in expression"
  | .missingOperator rest => "expected a comparison operator before '" ++ rest ++ "'"
  | .trailing rest expression =>
    "unexpected '" ++ rest ++ "' in expression `" ++ expression ++ "`"

/-- The text of an error of a cache. -/
def StoreFault.message : StoreFault → String
  | .key => "key is not a valid file name"
  | .entry => "the entry cannot be read or written"

/-- The text of an error of a render. -/
def RenderFault.message : RenderFault → String
  | .nesting limit => "template nesting exceeds " ++ Number.natText limit ++ " levels"
  | .missingArgument helper count =>
    "helper '" ++ helper ++ "' expects at least " ++ Number.natText count ++ " argument(s)"
  | .missingName helper => "helper '" ++ helper ++ "' needs a name"
  | .truncateLength => "truncate length must be a non-negative number"
  | .dateFormat format => "invalid date format '" ++ format ++ "'"
  | .repeatCount count limit =>
    "repeat count " ++ Number.text count ++ " exceeds " ++ Number.natText limit
  | .other text => text

/-- The text of an error of data. -/
def DataFault.message : DataFault → String
  | .unsupported type => type ++ " is not supported"
  | .compositeKey => "Map key must be a string or scalar"
  | .missingKey => "Missing key for value"

/-- The text of an error. -/
def Error.message : Error → String
  | .parse line fault => "Parse error on line " ++ Number.natText line ++ ": " ++ fault.message
  | .unknownHelper name => "Unknown helper: " ++ name
  | .notFound name => "Template not found: " ++ name
  | .cache key fault => "Cache error for key " ++ key ++ ": " ++ fault.message
  | .io => "I/O error: the file cannot be read"
  | .render fault => "Render error: " ++ fault.message
  | .data fault => "Value error: " ++ fault.message
  | .missingZone => "a date without a zone cannot be written with its zone"

/-! ### Results of readers -/

section Results

variable {ε α β : Type}

/-- Two steps succeed exactly when the first one does and the second one does with its result. -/
theorem bind_eq_ok {x : Except ε α} {f : α → Except ε β} {b : β} :
    x >>= f = .ok b ↔ ∃ a, x = .ok a ∧ f a = .ok b := by
  cases x <;> simp [bind, Except.bind]

/-- Two steps fail exactly when the first one does, or the second one with its result. -/
theorem bind_eq_error {x : Except ε α} {f : α → Except ε β} {e : ε} :
    x >>= f = .error e ↔ x = .error e ∨ ∃ a, x = .ok a ∧ f a = .error e := by
  cases x <;> simp [bind, Except.bind]

theorem toOption_eq_some {x : Except ε α} {a : α} : x.toOption = some a ↔ x = .ok a := by
  cases x <;> simp [Except.toOption]

theorem map_eq_ok {x : Except ε α} {f : α → β} {b : β} :
    x.map f = .ok b ↔ ∃ a, x = .ok a ∧ f a = b := by
  cases x <;> simp [Except.map]

/-- What stands in a list of results comes from an element of the list. -/
theorem exists_of_mem_mapM {f : α → Except ε β} {items : List α} {results : List β}
    (h : items.mapM f = .ok results) {b : β} (hb : b ∈ results) : ∃ a ∈ items, f a = .ok b := by
  induction items generalizing results with
  | nil =>
    obtain rfl := Except.ok.inj h
    cases hb
  | cons a items ih =>
    simp only [List.mapM_cons, bind_eq_ok] at h
    obtain ⟨first, hfirst, later, hlater, h⟩ := h
    obtain rfl := Except.ok.inj h
    rcases List.mem_cons.1 hb with rfl | hmem
    · exact ⟨a, .head _, hfirst⟩
    · obtain ⟨a', ha', hfa'⟩ := ih hlater hmem
      exact ⟨a', .tail _ ha', hfa'⟩

/-- A run over a list that fails does so at an element of the list. -/
theorem exists_of_foldlM_eq_error {f : β → α → Except ε β} {items : List α} {init : β} {e : ε}
    (h : items.foldlM f init = .error e) : ∃ b, ∃ a ∈ items, f b a = .error e := by
  induction items generalizing init with
  | nil => cases h
  | cons a items ih =>
    rw [List.foldlM_cons] at h
    rcases bind_eq_error.1 h with hfirst | ⟨mid, -, hlater⟩
    · exact ⟨init, a, .head _, hfirst⟩
    · obtain ⟨b, a', ha', hfa'⟩ := ih hlater
      exact ⟨b, a', .tail _ ha', hfa'⟩

/-- A reader that succeeds wherever another one does, with the same result, does so on lists. -/
theorem mapM_mono {f g : α → Except ε β} {items : List α} {results : List β}
    (h : items.mapM f = .ok results) (hfg : ∀ a ∈ items, ∀ b, f a = .ok b → g a = .ok b) :
    items.mapM g = .ok results := by
  induction items generalizing results with
  | nil => exact h
  | cons a items ih =>
    simp only [List.mapM_cons, bind_eq_ok] at h ⊢
    obtain ⟨first, hfirst, later, hlater, h⟩ := h
    refine ⟨first, hfg a (.head _) first hfirst, later, ?_, h⟩
    exact ih hlater fun a' ha' => hfg a' (.tail _ ha')

/-- All errors that a result can be satisfy `P`. -/
def FailsWith (P : ε → Prop) (x : Except ε α) : Prop :=
  ∀ e, x = .error e → P e

namespace FailsWith

variable {P Q : ε → Prop}

theorem ok (a : α) : FailsWith P (.ok a) :=
  fun _ h => nomatch h

theorem error {e : ε} (h : P e) : FailsWith P (.error e : Except ε α) :=
  fun _ he => Except.error.inj he ▸ h

theorem mono {x : Except ε α} (hx : FailsWith P x) (h : ∀ e, P e → Q e) : FailsWith Q x :=
  fun e he => h e (hx e he)

theorem bind {x : Except ε α} {f : α → Except ε β} (hx : FailsWith P x)
    (hf : ∀ a, FailsWith P (f a)) : FailsWith P (x >>= f) := by
  intro e he
  rcases bind_eq_error.1 he with hfirst | ⟨a, -, hlater⟩
  · exact hx e hfirst
  · exact hf a e hlater

theorem map {x : Except ε α} (hx : FailsWith P x) (f : α → β) : FailsWith P (x.map f) := by
  cases x with
  | error e => exact error (hx e rfl)
  | ok a => exact ok (f a)

theorem mapM {f : α → Except ε β} (hf : ∀ a, FailsWith P (f a)) (items : List α) :
    FailsWith P (items.mapM f) := by
  induction items with
  | nil => exact ok []
  | cons a items ih =>
    rw [List.mapM_cons]
    exact bind (hf a) fun _ => bind ih fun _ => ok _

theorem foldlM {f : β → α → Except ε β} (hf : ∀ b a, FailsWith P (f b a)) (items : List α)
    (init : β) : FailsWith P (items.foldlM f init) := by
  induction items generalizing init with
  | nil => exact ok init
  | cons a items ih =>
    rw [List.foldlM_cons]
    exact bind (hf init a) ih

end FailsWith

end Results

end Stencil
