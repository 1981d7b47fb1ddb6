import RegexCore.Syntax.Ast
import Mathlib.Data.Nat.Digits
/-!
# The printer

`Display` of every node of `ast.rs`, as the text it writes. The printer recomputes nothing: each
node is written the way its recorded kind says it was spelled, a literal in the escape form it was
read in, a class with the negation marker it had, a repetition with its operator and a `?` when it
is lazy, a group with its opener. Alternatives are joined by `|` with none before the first, and
concatenations and class unions are written one part after the other.

Numbers are written as Rust's formats write them: `{:o}` and `{:X}` as digits in base 8 and 16 with
upper-case letters, `{:02X}` padded on the left with zeros, and `{}` of an integer in decimal.

What the printer writes reads back. A literal written as a number is printed as one or more
digits whose value is its code point, in the base of its form, and a fixed-width form gets exactly
`digits()` of them, the number a parser of that form takes, whenever the code point fits. A repetition is written as its operand
and then its operator, which a reader of the operator syntax takes back to the operator, counts
included, and to whether it is greedy. Each kind of flag item is printed as a character of its own.
-/

namespace RegexCore

/-- The digits of `n` in base `radix`, letters in upper case: what `{:o}` and `{:X}` write. -/
def radixDigits (radix n : Nat) : String :=
  String.mk ((Nat.toDigits radix n).map Char.toUpper)

/-- `s` padded on the left with zeros to `width` characters, as a `{:0w}` format pads. -/
def zeroPad (width : Nat) (s : String) : String :=
  String.mk (List.replicate (width - s.length) '0') ++ s

def AstSpecialLiteralKind.fmt : AstSpecialLiteralKind → String
  | .bell => "\\a"
  | .formFeed => "\\f"
  | .tab => "\\t"
  | .lineFeed => "\\n"
  | .carriageReturn => "\\r"
  | .verticalTab => "\\v"
  | .space => "\\ "

def AstLiteral.fmt (self : AstLiteral) : String :=
  match self.kind with
  | .verbatim => self.c.toString
  | .special x => x.fmt
  | .punctuation => "\\" ++ self.c.toString
  | .octal => "\\" ++ radixDigits 8 self.c.toNat
  | .hexFixed .x => "\\x" ++ zeroPad 2 (radixDigits 16 self.c.toNat)
  | .hexFixed .unicodeShort => "\\u" ++ zeroPad 4 (radixDigits 16 self.c.toNat)
  | .hexFixed .unicodeLong => "\\U" ++ zeroPad 8 (radixDigits 16 self.c.toNat)
  | .hexBrace .x => "\\x\x7b" ++ radixDigits 16 self.c.toNat ++ "\x7d"
  | .hexBrace .unicodeShort => "\\u\x7b" ++ radixDigits 16 self.c.toNat ++ "\x7d"
  | .hexBrace .unicodeLong => "\\U\x7b" ++ radixDigits 16 self.c.toNat ++ "\x7d"

def AstClassPerl.fmt (self : AstClassPerl) : String :=
  match self.kind, self.negated with
  | .digit, true => "\\D"
  | .digit, false => "\\d"
  | .space, true => "\\S"
  | .space, false => "\\s"
  | .word, true => "\\W"
  | .word, false => "\\w"

/-- The source spells out the twenty-eight cases; each is its kind's name between `[:` and `:]`,
after a `^` when negated. -/
def AstClassAscii.fmt (self : AstClassAscii) : String :=
  if self.negated then "[:^" ++ self.kind.name ++ ":]" else "[:" ++ self.kind.name ++ ":]"

def AstClassUnicodeOpKind.fmt : AstClassUnicodeOpKind → String
  | .equal => "="
  | .colon => ":"
  | .notEqual => "!="

def AstClassUnicodeKind.fmt : AstClassUnicodeKind → String
  | .oneLetter c => c.toString
  | .named x => "\x7b" ++ x ++ "\x7d"
  | .namedValue op name value => "\x7b" ++ name ++ op.fmt ++ value ++ "\x7d"

def AstClassUnicode.fmt (self : AstClassUnicode) : String :=
  if self.negated then "\\P" ++ self.kind.fmt else "\\p" ++ self.kind.fmt

def AstClassSetBinaryOpKind.fmt : AstClassSetBinaryOpKind → String
  | .intersection => "&&"
  | .difference => "--"
  | .symmetricDifference => "~~"

def AstClassSetRange.fmt (self : AstClassSetRange) : String :=
  self.start.fmt ++ "-" ++ self.end.fmt

mutual

def AstClass.fmt : AstClass → String
  | .perl x => x.fmt
  | .unicode x => x.fmt
  | .set x => x.fmt

def AstClassSet.fmt : AstClassSet → String
  | .mk _ negated op => if negated then "[^" ++ op.fmt ++ "]" else "[" ++ op.fmt ++ "]"

def AstClassSetOp.fmt : AstClassSetOp → String
  | .union x => x.fmt
  | .binaryOp x => x.fmt

def AstClassSetUnion.fmt : AstClassSetUnion → String
  | .mk _ items => AstClassSetItem.fmtAll items

/-- The items of a union, one after the other. -/
def AstClassSetItem.fmtAll : List AstClassSetItem → String
  | [] => ""
  | x :: xs => x.fmt ++ AstClassSetItem.fmtAll xs

def AstClassSetItem.fmt : AstClassSetItem → String
  | .literal x => x.fmt
  | .range x => x.fmt
  | .ascii x => x.fmt
  | .«class» x => x.fmt

def AstClassSetBinaryOp.fmt : AstClassSetBinaryOp → String
  | .mk _ kind lhs rhs => lhs.fmt ++ kind.fmt ++ rhs.fmt

end

def AstAssertionKind.fmt : AstAssertionKind → String
  | .startLine => "^"
  | .endLine => "$"
  | .startText => "\\A"
  | .endText => "\\z"
  | .wordBoundary => "\\b"
  | .notWordBoundary => "\\B"

def AstAssertion.fmt (self : AstAssertion) : String := self.kind.fmt

def AstRepetitionRange.fmt : AstRepetitionRange → String
  | .exactly m => "\x7b" ++ toString m ++ "\x7d"
  | .atLeast m => "\x7b" ++ toString m ++ ",\x7d"
  | .bounded m n => "\x7b" ++ toString m ++ "," ++ toString n ++ "\x7d"

def AstFlag.fmt : AstFlag → String
  | .caseInsensitive => "i"
  | .multiLine => "m"
  | .dotMatchesNewLine => "s"
  | .swapGreed => "U"
  | .unicode => "u"
  | .ignoreWhitespace => "x"

def AstFlagsItemKind.fmt : AstFlagsItemKind → String
  | .negation => "-"
  | .flag x => x.fmt

def AstFlagsItem.fmt (self : AstFlagsItem) : String := self.kind.fmt

def AstFlags.fmt (self : AstFlags) : String := String.join (self.items.map AstFlagsItem.fmt)

def AstSetFlags.fmt (self : AstSetFlags) : String := "(?" ++ self.flags.fmt ++ ")"

def AstCaptureName.fmt (self : AstCaptureName) : String := self.name

mutual

def Ast.fmt : Ast → String
  | .empty _ => ""
  | .flags x => x.fmt
  | .literal x => x.fmt
  | .dot _ => "."
  | .assertion x => x.fmt
  | .«class» x => x.fmt
  | .repetition x => x.fmt
  | .group x => x.fmt
  | .alternation x => x.fmt
  | .concat x => x.fmt

def AstRepetition.fmt : AstRepetition → String
  | .mk _ op greedy ast =>
    match op.kind with
    | .zeroOrOne => if greedy then ast.fmt ++ "?" else ast.fmt ++ "??"
    | .zeroOrMore => if greedy then ast.fmt ++ "*" else ast.fmt ++ "*?"
    | .oneOrMore => if greedy then ast.fmt ++ "+" else ast.fmt ++ "+?"
    | .range x => if greedy then ast.fmt ++ x.fmt else ast.fmt ++ x.fmt ++ "?"

def AstGroup.fmt : AstGroup → String
  | .mk _ kind ast =>
    match kind with
    | .captureIndex => "(" ++ ast.fmt ++ ")"
    | .captureName x => "(?P<" ++ x.fmt ++ ">" ++ ast.fmt ++ ")"
    | .nonCapturing x => "(?" ++ x.fmt ++ ":" ++ ast.fmt ++ ")"

def AstAlternation.fmt : AstAlternation → String
  | .mk _ asts => Ast.fmtAlternatives true asts

/-- The loop of `AstAlternation`'s `Display`: a `|` before every alternative but the first. -/
def Ast.fmtAlternatives : Bool → List Ast → String
  | _, [] => ""
  | first, x :: xs => (if first then "" else "|") ++ x.fmt ++ Ast.fmtAlternatives false xs

def AstConcat.fmt : AstConcat → String
  | .mk _ asts => Ast.fmtAll asts

/-- The parts of a concatenation, one after the other. -/
def Ast.fmtAll : List Ast → String
  | [] => ""
  | x :: xs => x.fmt ++ Ast.fmtAll xs

end

/-! ### What the printer writes -/

theorem toDigits_ne_nil (radix n : Nat) : Nat.toDigits radix n ≠ [] := by
  simp only [Nat.toDigits, Nat.toDigitsCore]
  split
  · exact List.cons_ne_nil _ _
  · rw [← List.length_pos, Nat.toDigitsCore_lens_eq]
    exact Nat.succ_pos _

/-- Each kind of flag item is printed as a character of its own. -/
theorem AstFlagsItemKind.fmt_injective : Function.Injective AstFlagsItemKind.fmt := by
  intro k k' h
  rcases k with _ | (_ | _ | _ | _ | _ | _) <;> rcases k' with _ | (_ | _ | _ | _ | _ | _) <;>
    first | rfl | exact absurd h (by decide)

theorem AstFlagsItemKind.fmt_data (k : AstFlagsItemKind) : ∃ c, k.fmt.data = [c] := by
  rcases k with _ | (_ | _ | _ | _ | _ | _) <;> exact ⟨_, rfl⟩

/-! ### Reading back the number of a literal

A reader of the number forms, as the spec spells them: an opening text, digits in a base, a closing
text. It takes what the printer writes back to the code point. -/

/-- The value of a digit character: `0` to `9`, then `A` to `F` or `a` to `f` for ten to fifteen. -/
def digitValue (c : Char) : Option Nat :=
  if '0' ≤ c ∧ c ≤ '9' then some (c.toNat - '0'.toNat)
  else if 'A' ≤ c ∧ c ≤ 'F' then some (c.toNat - 'A'.toNat + 10)
  else if 'a' ≤ c ∧ c ≤ 'f' then some (c.toNat - 'a'.toNat + 10)
  else none

/-- The number the digits `cs` write in base `radix`, read from the left on top of `acc`; `none` at
a character that is not a digit of the base. -/
def readDigits (radix acc : Nat) : List Char → Option Nat
  | [] => some acc
  | c :: cs =>
    match digitValue c with
    | some d => if d < radix then readDigits radix (acc * radix + d) cs else none
    | none => none

theorem digitValue_digitChar {d : Nat} (hd : d < 16) :
    digitValue (Nat.digitChar d).toUpper = some d := by
  have h : ∀ d : Fin 16, digitValue (Nat.digitChar d).toUpper = some d := by decide
  exact h ⟨d, hd⟩

theorem readDigits_cons_digit {radix acc d : Nat} {c : Char} (hc : digitValue c = some d)
    (hd : d < radix) (cs : List Char) :
    readDigits radix acc (c :: cs) = readDigits radix (acc * radix + d) cs := by
  simp [readDigits, hc, hd]

theorem readDigits_toDigitsCore {radix : Nat} (hradix : 2 ≤ radix) (hradix' : radix ≤ 16) :
    ∀ (fuel n : Nat) (ds : List Char), n < fuel →
      readDigits radix 0 ((Nat.toDigitsCore radix fuel n ds).map Char.toUpper) =
        readDigits radix n (ds.map Char.toUpper)
  | 0, _, _, hn => absurd hn (Nat.not_lt_zero _)
  | fuel + 1, n, ds, hn => by
    have hmod : n % radix < radix := Nat.mod_lt n (by omega)
    have hdigit := digitValue_digitChar (show n % radix < 16 by omega)
    simp only [Nat.toDigitsCore]
    split
    · rename_i hdiv
      rw [List.map_cons, readDigits_cons_digit hdigit hmod, Nat.zero_mul, Nat.zero_add,
        Nat.mod_eq_of_lt ((Nat.div_eq_zero_iff (by omega)).mp hdiv)]
    · rename_i hdiv
      have hlt : n / radix < fuel := by
        have := Nat.div_lt_self (Nat.pos_of_ne_zero fun h : n = 0 => hdiv (by simp [h])) hradix
        omega
      rw [readDigits_toDigitsCore hradix hradix' fuel (n / radix) _ hlt, List.map_cons,
        readDigits_cons_digit hdigit hmod, Nat.div_add_mod']

theorem readDigits_radixDigits {radix : Nat} (hradix : 2 ≤ radix) (hradix' : radix ≤ 16) (n : Nat) :
    readDigits radix 0 (radixDigits radix n).data = some n := by
  simpa [radixDigits, Nat.toDigits, readDigits] using
    readDigits_toDigitsCore hradix hradix' (n + 1) n [] (Nat.lt_succ_self n)

example : (AstLiteral.mk ⟨⟨0, 1, 1⟩, ⟨6, 1, 7⟩⟩ (.hexFixed .unicodeShort) 'a').fmt = "\\u0061" := by
  decide

/-! ### Reading back a repetition operator

A reader of repetition operators as the syntax spells them: `?`, `*`, `+` or a counted range with
decimal numbers, then a `?` when the operator is lazy. It takes the text the printer writes after
the operand back to the operator and its greediness. -/

/-- One or more decimal digits at the front of `cs`, read as a number, and the characters after
them. -/
def readDecimal (cs : List Char) : Option (Nat × List Char) :=
  match cs.takeWhile Char.isDigit with
  | [] => none
  | ds => (readDigits 10 0 ds).map (·, cs.dropWhile Char.isDigit)

/-- A counted range, `{m}`, `{m,}` or `{m,n}`, at the front of `cs`, and the characters after it. -/
def readRange : List Char → Option (AstRepetitionRange × List Char)
  | '{' :: cs =>
    (readDecimal cs).bind fun
      | (m, '}' :: rest) => some (.exactly (UInt32.ofNat m), rest)
      | (m, ',' :: '}' :: rest) => some (.atLeast (UInt32.ofNat m), rest)
      | (m, ',' :: cs) => (readDecimal cs).bind fun
        | (n, '}' :: rest) => some (.bounded (UInt32.ofNat m) (UInt32.ofNat n), rest)
        | _ => none
      | _ => none
  | _ => none

/-- What follows an operator: nothing when it is greedy, one `?` when it is lazy. -/
def readGreedy (kind : AstRepetitionKind) : List Char → Option (AstRepetitionKind × Bool)
  | [] => some (kind, true)
  | ['?'] => some (kind, false)
  | _ => none

/-- A repetition operator as the syntax spells it: `?`, `*`, `+` or a counted range, then a `?`
when it is lazy. -/
def readRepetitionOp : List Char → Option (AstRepetitionKind × Bool)
  | '?' :: rest => readGreedy .zeroOrOne rest
  | '*' :: rest => readGreedy .zeroOrMore rest
  | '+' :: rest => readGreedy .oneOrMore rest
  | cs => (readRange cs).bind fun (x, rest) => readGreedy (.range x) rest

theorem mem_toDigitsCore {radix : Nat} (hradix : 0 < radix) :
    ∀ {fuel n : Nat} {ds : List Char} {c : Char}, c ∈ Nat.toDigitsCore radix fuel n ds →
      c ∈ ds ∨ ∃ d < radix, c = Nat.digitChar d
  | 0, _, _, _, h => .inl h
  | fuel + 1, n, ds, c, h => by
    -- the digit of this step joins `ds`, and the rest of the digits come in front of it
    have hstep : c ∈ Nat.digitChar (n % radix) :: ds → c ∈ ds ∨ ∃ d < radix, c = Nat.digitChar d :=
      fun h => (List.mem_cons.mp h).elim (fun h => .inr ⟨_, Nat.mod_lt n hradix, h⟩) .inl
    simp only [Nat.toDigitsCore] at h
    split at h
    · exact hstep h
    · exact (mem_toDigitsCore hradix h).elim hstep .inr

theorem decimal_digitChar {d : Nat} (hd : d < 10) :
    (Nat.digitChar d).isDigit ∧ (Nat.digitChar d).toUpper = Nat.digitChar d := by
  have h : ∀ d : Fin 10, (Nat.digitChar d).isDigit ∧ (Nat.digitChar d).toUpper = Nat.digitChar d := by
    decide
  exact h ⟨d, hd⟩

theorem isDigit_of_mem_toString {n : Nat} {c : Char} (h : c ∈ (toString n).data) :
    c.isDigit ∧ c.toUpper = c := by
  rcases mem_toDigitsCore (by norm_num) h with h | ⟨d, hd, rfl⟩
  · cases h
  · exact decimal_digitChar hd

/-- A number `{}` writes reads back from the front of a text whenever no digit follows it. -/
theorem readDecimal_toString (n : Nat) {rest : List Char}
    (hrest : ∀ c ∈ rest.head?, c.isDigit = false) :
    readDecimal ((toString n).data ++ rest) = some (n, rest) := by
  have hdigits : ∀ c ∈ (toString n).data, c.isDigit := fun c h => (isDigit_of_mem_toString h).1
  have htake : rest.takeWhile Char.isDigit = [] ∧ rest.dropWhile Char.isDigit = rest := by
    cases rest with
    | nil => exact ⟨rfl, rfl⟩
    | cons c rest => simp [List.takeWhile_cons, List.dropWhile_cons, hrest c rfl]
  have hread : readDigits 10 0 (toString n).data = some n := by
    have hupper : (Nat.toDigits 10 n).map Char.toUpper = Nat.toDigits 10 n :=
      (List.map_congr_left fun _ h => (isDigit_of_mem_toString h).2).trans (List.map_id _)
    have h := readDigits_radixDigits (by norm_num : 2 ≤ 10) (by norm_num) n
    rwa [radixDigits, hupper] at h
  unfold readDecimal
  rw [List.takeWhile_append_of_pos hdigits, List.dropWhile_append_of_pos hdigits, htake.1, htake.2,
    List.append_nil]
  split
  · exact absurd ‹_› (toDigits_ne_nil 10 n)
  · rw [hread]; rfl

/-- A counted range reads back from its printed text, whatever follows it. -/
theorem readRange_fmt (x : AstRepetitionRange) (rest : List Char) :
    readRange (x.fmt.data ++ rest) = some (x, rest) := by
  have hnum : ∀ (m : UInt32) (c : Char) (cs : List Char), c.isDigit = false →
      readDecimal ((toString m).data ++ c :: cs) = some (m.toNat, c :: cs) :=
    fun m c cs hc => readDecimal_toString m.toNat (by simpa using hc)
  have hof : ∀ m : UInt32, UInt32.ofNat m.toNat = m :=
    fun m => UInt32.toNat.inj (UInt32.toNat_ofNat_of_lt m.toNat_lt_size)
  cases x <;> simp only [AstRepetitionRange.fmt, String.data_append, List.append_assoc]
  case exactly m =>
    show readRange ('{' :: ((toString m).data ++ '}' :: rest)) = _
    simp [readRange, hnum m '}' rest (by decide), hof]
  case atLeast m =>
    show readRange ('{' :: ((toString m).data ++ ',' :: '}' :: rest)) = _
    simp [readRange, hnum m ',' _ (by decide), hof]
  case bounded m n =>
    -- the second number starts with a digit, so the text after the comma is not `}`
    obtain ⟨c, cs, hcs⟩ : ∃ c cs, (toString n).data = c :: cs :=
      List.exists_cons_of_ne_nil (toDigits_ne_nil 10 n.toNat)
    have hc : c ≠ '}' := by
      rintro rfl
      exact absurd (isDigit_of_mem_toString (hcs ▸ List.mem_cons_self _ cs)).1 (by decide)
    show readRange ('{' :: ((toString m).data ++ ',' :: ((toString n).data ++ '}' :: rest))) = _
    simp only [readRange, hnum m ',' _ (by decide), Option.some_bind]
    split
    next h => simp at h
    next h =>
      simp only [Prod.mk.injEq, List.cons.injEq, hcs, List.cons_append] at h
      exact (hc h.2.2.1).elim
    next h =>
      obtain ⟨rfl, rfl⟩ : _ ∧ _ := by simpa using h
      simp [hnum n '}' rest (by decide), hof]
    next h => exact absurd rfl (h _ _)

theorem readRepetitionOp_range (x : AstRepetitionRange) (rest : List Char) :
    readRepetitionOp (x.fmt.data ++ rest) = readGreedy (.range x) rest := by
  obtain ⟨t, ht⟩ : ∃ t, x.fmt.data = '{' :: t := by cases x <;> exact ⟨_, rfl⟩
  have h := readRange_fmt x rest
  rw [ht, List.cons_append] at h ⊢
  simp [readRepetitionOp, h]

/-- A repetition is printed as its operand followed by a text that reads back to its operator and
whether it is greedy. -/
theorem AstRepetition.fmt_op_reads_back (span : Span) (op : AstRepetitionOp) (greedy : Bool)
    (ast : Ast) :
    ∃ opText : String, (AstRepetition.mk span op greedy ast).fmt = ast.fmt ++ opText ∧
      readRepetitionOp opText.data = some (op.kind, greedy) := by
  obtain ⟨_, kind⟩ := op
  cases kind <;> cases greedy
  case range.false x =>
    refine ⟨x.fmt ++ "?", String.append_assoc _ _ _, ?_⟩
    rw [String.data_append, readRepetitionOp_range]
    rfl
  case range.true x =>
    refine ⟨x.fmt, rfl, ?_⟩
    simpa using readRepetitionOp_range x []
  all_goals exact ⟨_, rfl, rfl⟩

end RegexCore
