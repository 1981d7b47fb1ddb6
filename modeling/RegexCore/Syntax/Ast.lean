import RegexCore.Syntax.Span
/-!
# The abstract syntax tree

The node types of `ast.rs` and the functions on them that do more than hold data: the span of a
node, the builders that collapse a sequence of one or no children, the span-growing push onto a
class union, the lookups by name and the flag items. The printer is `Print`.

The character-class types refer to each other in a cycle (a set holds an operation, an operation
a union or a binary operation, a union items, an item possibly a nested class), and so do the
expression types (repetitions and groups hold an expression, alternations and concatenations a
list of them). Each cycle is one mutual inductive; the single-variant records in it are one-
constructor inductives with their fields read by the functions below.
-/

namespace RegexCore

inductive AstSpecialLiteralKind
  | bell
  | formFeed
  | tab
  | lineFeed
  | carriageReturn
  | verticalTab
  | space
deriving DecidableEq, Repr

inductive AstHexLiteralKind
  | x
  | unicodeShort
  | unicodeLong
deriving DecidableEq, Repr

/-- How a literal was written; the printer spells it the same way. -/
inductive AstLiteralKind
  | verbatim
  | special (kind : AstSpecialLiteralKind)
  | punctuation
  | octal
  | hexFixed (kind : AstHexLiteralKind)
  | hexBrace (kind : AstHexLiteralKind)
deriving DecidableEq, Repr

structure AstLiteral where
  span : Span
  kind : AstLiteralKind
  c : Char
deriving DecidableEq, Repr

inductive AstClassPerlKind
  | digit
  | space
  | word
deriving DecidableEq, Repr

structure AstClassPerl where
  span : Span
  kind : AstClassPerlKind
  negated : Bool
deriving DecidableEq, Repr

inductive AstClassAsciiKind
  | alnum
  | alpha
  | ascii
  | blank
  | cntrl
  | digit
  | graph
  | lower
  | print
  | punct
  | space
  | upper
  | word
  | xdigit
deriving DecidableEq, Repr

structure AstClassAscii where
  span : Span
  kind : AstClassAsciiKind
  negated : Bool
deriving DecidableEq, Repr

inductive AstClassUnicodeOpKind
  | equal
  | colon
  | notEqual
deriving DecidableEq, Repr

inductive AstClassUnicodeKind
  | oneLetter (c : Char)
  | named (name : String)
  | namedValue (op : AstClassUnicodeOpKind) (name value : String)
deriving DecidableEq, Repr

/-- `negated` records `\P` against `\p`, not whether the class is negated: see `isNegated`. -/
structure AstClassUnicode where
  span : Span
  negated : Bool
  kind : AstClassUnicodeKind
deriving DecidableEq, Repr

inductive AstClassSetBinaryOpKind
  | intersection
  | difference
  | symmetricDifference
deriving DecidableEq, Repr

structure AstClassSetRange where
  span : Span
  start : AstLiteral
  «end» : AstLiteral
deriving DecidableEq, Repr

mutual

inductive AstClass
  | perl (x : AstClassPerl)
  | unicode (x : AstClassUnicode)
  | set (x : AstClassSet)

inductive AstClassSet
  | mk (span : Span) (negated : Bool) (op : AstClassSetOp)

inductive AstClassSetOp
  | union (x : AstClassSetUnion)
  | binaryOp (x : AstClassSetBinaryOp)

inductive AstClassSetUnion
  | mk (span : Span) (items : List AstClassSetItem)

inductive AstClassSetItem
  | literal (x : AstLiteral)
  | range (x : AstClassSetRange)
  | ascii (x : AstClassAscii)
  | «class» (x : AstClass)

inductive AstClassSetBinaryOp
  | mk (span : Span) (kind : AstClassSetBinaryOpKind) (lhs rhs : AstClassSetOp)

end

inductive AstAssertionKind
  | startLine
  | endLine
  | startText
  | endText
  | wordBoundary
  | notWordBoundary
deriving DecidableEq, Repr

structure AstAssertion where
  span : Span
  kind : AstAssertionKind
deriving DecidableEq, Repr

inductive AstRepetitionRange
  | exactly (m : UInt32)
  | atLeast (m : UInt32)
  | bounded (m n : UInt32)
deriving DecidableEq, Repr

inductive AstRepetitionKind
  | zeroOrOne
  | zeroOrMore
  | oneOrMore
  | range (x : AstRepetitionRange)
deriving DecidableEq, Repr

structure AstRepetitionOp where
  span : Span
  kind : AstRepetitionKind
deriving DecidableEq, Repr

inductive AstFlag
  | caseInsensitive
  | multiLine
  | dotMatchesNewLine
  | swapGreed
  | unicode
  | ignoreWhitespace
deriving DecidableEq, Repr

inductive AstFlagsItemKind
  | negation
  | flag (x : AstFlag)
deriving DecidableEq, Repr

structure AstFlagsItem where
  span : Span
  kind : AstFlagsItemKind
deriving DecidableEq, Repr

structure AstFlags where
  span : Span
  items : List AstFlagsItem
deriving DecidableEq, Repr

structure AstSetFlags where
  span : Span
  flags : AstFlags
deriving DecidableEq, Repr

structure AstCaptureName where
  span : Span
  name : String
deriving DecidableEq, Repr

inductive AstGroupKind
  | captureIndex
  | captureName (x : AstCaptureName)
  | nonCapturing (flags : AstFlags)
deriving DecidableEq, Repr

mutual

inductive Ast
  | empty (span : Span)
  | flags (x : AstSetFlags)
  | literal (x : AstLiteral)
  | dot (span : Span)
  | assertion (x : AstAssertion)
  | «class» (x : AstClass)
  | repetition (x : AstRepetition)
  | group (x : AstGroup)
  | alternation (x : AstAlternation)
  | concat (x : AstConcat)

inductive AstRepetition
  | mk (span : Span) (op : AstRepetitionOp) (greedy : Bool) (ast : Ast)

inductive AstGroup
  | mk (span : Span) (kind : AstGroupKind) (ast : Ast)

inductive AstAlternation
  | mk (span : Span) (asts : List Ast)

inductive AstConcat
  | mk (span : Span) (asts : List Ast)

end

/-! ### Spans of nodes -/

def AstClassSet.span : AstClassSet → Span
  | .mk span _ _ => span

def AstClassSetUnion.span : AstClassSetUnion → Span
  | .mk span _ => span

def AstClassSetUnion.items : AstClassSetUnion → List AstClassSetItem
  | .mk _ items => items

def AstClassSetBinaryOp.span : AstClassSetBinaryOp → Span
  | .mk span _ _ _ => span

def AstClass.span : AstClass → Span
  | .perl x => x.span
  | .unicode x => x.span
  | .set x => x.span

def AstClassSetOp.span : AstClassSetOp → Span
  | .union x => x.span
  | .binaryOp x => x.span

def AstClassSetItem.span : AstClassSetItem → Span
  | .literal x => x.span
  | .range x => x.span
  | .ascii x => x.span
  | .«class» x => x.span

def AstRepetition.span : AstRepetition → Span
  | .mk span _ _ _ => span

def AstGroup.span : AstGroup → Span
  | .mk span _ _ => span

def AstAlternation.span : AstAlternation → Span
  | .mk span _ => span

def AstAlternation.asts : AstAlternation → List Ast
  | .mk _ asts => asts

def AstConcat.span : AstConcat → Span
  | .mk span _ => span

def AstConcat.asts : AstConcat → List Ast
  | .mk _ asts => asts

def Ast.span : Ast → Span
  | .empty span => span
  | .literal x => x.span
  | .dot span => span
  | .«class» x => x.span
  | .assertion x => x.span
  | .repetition x => x.span
  | .group x => x.span
  | .flags x => x.span
  | .alternation x => x.span
  | .concat x => x.span

/-! ### Builders -/

/-- An alternation as an expression: no alternative is the empty expression over the
alternation's span, one alternative is that alternative itself. -/
def AstAlternation.intoAst (self : AstAlternation) : Ast :=
  match self.asts with
  | [] => .empty self.span
  | [ast] => ast
  | _ => .alternation self

/-- A concatenation as an expression, collapsed as `AstAlternation.intoAst` collapses. -/
def AstConcat.intoAst (self : AstConcat) : Ast :=
  match self.asts with
  | [] => .empty self.span
  | [ast] => ast
  | _ => .concat self

/-- Push an item onto a union: the union's span ends where the item's does, and starts where it
does when the union was empty. -/
def AstClassSetUnion.push (self : AstClassSetUnion) (item : AstClassSetItem) : AstClassSetUnion :=
  let span := if self.items.isEmpty then { self.span with start := item.span.start } else self.span
  .mk { span with «end» := item.span.end } (self.items ++ [item])

/-! ### Lookups and flags -/

/-- The name of an ASCII class, as `from_name` takes it and as the printer writes it. -/
def AstClassAsciiKind.name : AstClassAsciiKind → String
  | .alnum => "alnum"
  | .alpha => "alpha"
  | .ascii => "ascii"
  | .blank => "blank"
  | .cntrl => "cntrl"
  | .digit => "digit"
  | .graph => "graph"
  | .lower => "lower"
  | .print => "print"
  | .punct => "punct"
  | .space => "space"
  | .upper => "upper"
  | .word => "word"
  | .xdigit => "xdigit"

def AstClassAsciiKind.fromName (name : String) : Option AstClassAsciiKind :=
  match name with
  | "alnum" => some .alnum
  | "alpha" => some .alpha
  | "ascii" => some .ascii
  | "blank" => some .blank
  | "cntrl" => some .cntrl
  | "digit" => some .digit
  | "graph" => some .graph
  | "lower" => some .lower
  | "print" => some .print
  | "punct" => some .punct
  | "space" => some .space
  | "upper" => some .upper
  | "word" => some .word
  | "xdigit" => some .xdigit
  | _ => none

example (kind : AstClassAsciiKind) : AstClassAsciiKind.fromName kind.name = some kind := by
  cases kind <;> rfl

/-- Whether the class is negated, the operator of a name-value class counted: `\P{x!=y}` is not. -/
def AstClassUnicode.isNegated (self : AstClassUnicode) : Bool :=
  match self.kind with
  | .namedValue .notEqual _ _ => !self.negated
  | _ => self.negated

def AstClassUnicodeOpKind.isEqual : AstClassUnicodeOpKind → Bool
  | .equal | .colon => true
  | _ => false

/-- The flags of a non-capturing group, `none` for a capturing one. -/
def AstGroup.flags : AstGroup → Option AstFlags
  | .mk _ (.nonCapturing flags) _ => some flags
  | _ => none

def AstFlagsItemKind.isNegation : AstFlagsItemKind → Bool
  | .negation => true
  | _ => false

namespace AstFlags

/-- Add an item unless one of the same kind is there: the index of that one, with the flags
unchanged, or `none` with the item appended. -/
def addItem (self : AstFlags) (item : AstFlagsItem) : Option Nat × AstFlags :=
  match self.items.findIdx? (fun x => x.kind == item.kind) with
  | some i => (some i, self)
  | none => (none, { self with items := self.items ++ [item] })

/-- The scan of `flag_state` over the items left, with `negated` set once a negation was passed. -/
def flagStateFrom (flag : AstFlag) (negated : Bool) : List AstFlagsItem → Option Bool
  | [] => none
  | x :: xs =>
    match x.kind with
    | .negation => flagStateFrom flag true xs
    | .flag xflag => if xflag = flag then some !negated else flagStateFrom flag negated xs

/-- Whether `flag` is set (`some true`), cleared (`some false`) or absent (`none`). -/
def flagState (self : AstFlags) (flag : AstFlag) : Option Bool :=
  flagStateFrom flag false self.items

end AstFlags

end RegexCore
