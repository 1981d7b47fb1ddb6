import Mathlib.Data.List.Basic
/-!
# Positions, spans and parse errors

The value types `ast.rs` locates everything with, and its closed set of parse errors. A position
is a byte offset into the pattern with a line and a column; a span is two positions. An error is a
span and a kind, and each kind prints one fixed message, which callers and tests match verbatim.
The errors carry what the message names: the offending character, the limit, or the span of an
earlier item the error points back to.
-/

namespace RegexCore

structure Position where
  offset : Nat
  line : Nat
  column : Nat
deriving DecidableEq, Repr

structure Span where
  start : Position
  «end» : Position
deriving DecidableEq, Repr

def Position.new (offset line column : Nat) : Position := ⟨offset, line, column⟩

def Span.new (start «end» : Position) : Span := ⟨start, «end»⟩

def Span.splat (pos : Position) : Span := Span.new pos pos

def Span.withStart (self : Span) (pos : Position) : Span := { self with start := pos }

def Span.withEnd (self : Span) (pos : Position) : Span := { self with «end» := pos }

inductive AstErrorKind
  | classIllegal
  | classUnclosed
  | countedRepetitionUnclosed
  | decimalEmpty
  | decimalInvalid
  | escapeHexEmpty
  | escapeHexInvalid
  | escapeHexInvalidDigit (c : Char)
  | escapeUnexpectedEof
  | escapeUnrecognized (c : Char)
  | flagDuplicate (flag : Char) (original : Span)
  | flagRepeatedNegation (original : Span)
  | flagUnexpectedEof
  | flagUnrecognized (flag : Char)
  | groupEmpty
  | groupNameEmpty
  | groupNameInvalid (c : Char)
  | groupNameUnexpectedEof
  | groupUnclosed
  | groupUnopened
  | nestLimitExceeded (limit : UInt32)
  | unsupportedBackreference
  | unsupportedLookAround
deriving DecidableEq, Repr

structure AstError where
  span : Span
  kind : AstErrorKind
deriving DecidableEq, Repr

namespace AstError

/-- The short text of `std::error::Error::description`. -/
def description (self : AstError) : String :=
  match self.kind with
  | .classIllegal => "illegal item found in character class"
  | .classUnclosed => "unclosed character class"
  | .countedRepetitionUnclosed => "unclosed counted repetition"
  | .decimalEmpty => "empty decimal literal"
  | .decimalInvalid => "invalid decimal literal"
  | .escapeHexEmpty => "empty hexadecimal literal"
  | .escapeHexInvalid => "invalid hexadecimal literal"
  | .escapeHexInvalidDigit _ => "invalid hexadecimal digit"
  | .escapeUnexpectedEof => "unexpected eof (escape sequence)"
  | .escapeUnrecognized _ => "unrecognized escape sequence"
  | .flagDuplicate _ _ => "duplicate flag"
  | .flagRepeatedNegation _ => "repeated negation"
  | .flagUnexpectedEof => "unexpected eof (flag)"
  | .flagUnrecognized _ => "unrecognized flag"
  | .groupEmpty => "empty group"
  | .groupNameEmpty => "empty capture group name"
  | .groupNameInvalid _ => "invalid capture group name"
  | .groupNameUnexpectedEof => "unclosed capture group name"
  | .groupUnclosed => "unclosed group"
  | .groupUnopened => "unopened group"
  | .nestLimitExceeded _ => "nest limit exceeded"
  | .unsupportedBackreference => "backreferences are not supported"
  | .unsupportedLookAround => "look-around is not supported"

/-- The message `Display` writes for an error. -/
def fmt (self : AstError) : String :=
  match self.kind with
  | .classIllegal => "illegal item found in character class"
  | .classUnclosed => "unclosed character class"
  | .countedRepetitionUnclosed => "unclosed counted repetition"
  | .decimalEmpty => "decimal literal empty"
  | .decimalInvalid => "decimal literal invalid"
  | .escapeHexEmpty => "hexadecimal literal empty"
  | .escapeHexInvalid => "hexadecimal literal is not a Unicode scalar value"
  | .escapeHexInvalidDigit c => "invalid hexadecimal digit '" ++ c.toString ++ "'"
  | .escapeUnexpectedEof =>
    "incomplete escape sequence, reached end of pattern prematurely"
  | .escapeUnrecognized c => "unrecognized escape sequence '\\" ++ c.toString ++ "'"
  | .flagDuplicate flag _ => "duplicate flag '" ++ flag.toString ++ "'"
  | .flagRepeatedNegation _ => "flag negation operator repeated"
  | .flagUnexpectedEof => "expected flag but got end of regex"
  | .flagUnrecognized flag => "unrecognized flag '" ++ flag.toString ++ "'"
  | .groupEmpty => "empty group"
  | .groupNameEmpty => "empty capture group name"
  | .groupNameInvalid c => "invalid capture group character '" ++ c.toString ++ "'"
  | .groupNameUnexpectedEof => "unclosed capture group name"
  | .groupUnclosed => "unclosed group"
  | .groupUnopened => "unopened group"
  | .nestLimitExceeded limit =>
    "exceed the maximum number of nested parentheses/brackets (" ++ toString limit ++ ")"
  | .unsupportedBackreference => "backreferences are not supported"
  | .unsupportedLookAround =>
    "look-around (including look-ahead and look-behind) is not supported"

end AstError

end RegexCore
