import FormulaMachine.Expr.Basic
import FormulaMachine.Expr.Fault

/-!
# From tokens to formulas

Precedence, loosest first: `+` and `-`, then `*` and `/`, both to the left; the signs `-` and `+`;
`^`, to the right, whose exponent may carry a sign; numbers, names, calls and parentheses.

A parser gets the tokens ahead. It answers a value and the tokens left, which are fewer, or else
says what stopped it and before which tokens. So an error loses no token, and parsing can go on from
where it stopped.

Every phrase inside another one (in parentheses, in a call, behind a sign, in an exponent) is a
`signed` phrase. Their nesting is limited, and the number of further levels allowed is what
`signed` recurses on.

* `Parser.signed`, `Parser.expression`, `Parser.statement`: the phrases of the grammar.
* `Formula.ofTokens`, `Formula.parse`: whole formulas.
* `TokenStream.takeFormula`, `TokenStream.takeExpression`: reading that can be resumed.
-/

namespace FormulaMachine

/-- Why a parser stopped. -/
inductive Obstacle where
  | missing (expected : Expected)
  | nestedTooDeeply
  deriving DecidableEq, Repr

/-- A stop: the reason, and the tokens that were ahead. -/
structure Stop where
  obstacle : Obstacle
  ahead : List Token

namespace Stop

/-- The fault in a text whose end is at `finish`. It lies at the token ahead, or at the end. -/
def fault (finish : Position) (stop : Stop) : SyntaxFault :=
  ⟨match stop.obstacle with
    | .missing expected => .unexpectedNext expected (stop.ahead.head?.map Token.kind)
    | .nestedTooDeeply => .nestedTooDeeply,
   (stop.ahead.head?.map Token.position).getD finish⟩

end Stop

/-- What a parser makes of the tokens `ts`: a value and fewer tokens, or a stop. -/
abbrev Parsed (α : Type) (ts : List Token) :=
  Except Stop (α × { rest : List Token // rest.length < ts.length })

/-- A parser of phrases that are not empty. -/
abbrev Parser (α : Type) := (ts : List Token) → Parsed α ts

namespace Parsed

/-- A success with another value. -/
def map {α β : Type} {ts : List Token} (f : α → β) : Parsed α ts → Parsed β ts
  | .error stop => .error stop
  | .ok (a, rest) => .ok (f a, rest)

/-- What was made of fewer tokens, as made of more. -/
def widen {α : Type} {ts us : List Token} (h : ts.length ≤ us.length) :
    Parsed α ts → Parsed α us
  | .error stop => .error stop
  | .ok (a, ⟨rest, shorter⟩) => .ok (a, ⟨rest, Nat.lt_of_lt_of_le shorter h⟩)

end Parsed

namespace Parser

/-! ## Chains of operators to the left -/

def additive? : TokenKind → Option Operator
  | .plus => some .add
  | .minus => some .sub
  | _ => none

def multiplicative? : TokenKind → Option Operator
  | .star => some .mul
  | .slash => some .div
  | _ => none

/-- Takes operators and operands as long as an operator comes next, with `left` as the left operand
of the first. -/
def chainFrom (operator? : TokenKind → Option Operator) (operand : Parser Expr) (left : Expr)
    (ts : List Token) : Except Stop (Expr × { rest : List Token // rest.length ≤ ts.length }) :=
  match ts with
  | [] => .ok (left, ⟨[], Nat.le_refl _⟩)
  | t :: us =>
    match operator? t.kind with
    | none => .ok (left, ⟨t :: us, Nat.le_refl _⟩)
    | some op =>
      match operand us with
      | .error stop => .error stop
      | .ok (right, ⟨rest, shorter⟩) =>
        match chainFrom operator? operand (.binary op left right) rest with
        | .error stop => .error stop
        | .ok (e, ⟨rest', notLonger⟩) =>
          .ok (e, ⟨rest', by simp only [List.length_cons]; omega⟩)
termination_by ts.length
decreasing_by simp only [List.length_cons]; omega

/-- Operands with operators between them, grouped to the left. -/
def chain (operator? : TokenKind → Option Operator) (operand : Parser Expr) : Parser Expr :=
  fun ts =>
    match operand ts with
    | .error stop => .error stop
    | .ok (left, ⟨rest, shorter⟩) =>
      match chainFrom operator? operand left rest with
      | .error stop => .error stop
      | .ok (e, ⟨rest', notLonger⟩) => .ok (e, ⟨rest', Nat.lt_of_le_of_lt notLonger shorter⟩)

/-- An expression over the given signed phrases. -/
def expressionOver (signed : Parser Expr) : Parser Expr :=
  chain additive? (chain multiplicative? signed)

/-! ## Primary phrases -/

/-- Arguments, one at least, up to and with the closing parenthesis. -/
def argumentsFrom (expression : Parser Expr) (ts : List Token) : Parsed (List Expr) ts :=
  match expression ts with
  | .error stop => .error stop
  | .ok (e, ⟨rest, shorter⟩) =>
    match rest with
    | [] => .error ⟨.missing .commaOrCloseParen, []⟩
    | t :: us =>
      match t.kind with
      | .comma =>
        ((argumentsFrom expression us).map (e :: ·)).widen
          (by simp only [List.length_cons] at shorter; omega)
      | .closeParen => .ok ([e], ⟨us, by simp only [List.length_cons] at shorter; omega⟩)
      | _ => .error ⟨.missing .commaOrCloseParen, t :: us⟩
termination_by ts.length
decreasing_by simp only [List.length_cons] at shorter; omega

/-- The arguments of a call, perhaps none, up to and with the closing parenthesis. -/
def arguments (expression : Parser Expr) : Parser (List Expr) :=
  fun ts =>
    match ts with
    | [] => argumentsFrom expression []
    | t :: us =>
      match t.kind with
      | .closeParen => .ok ([], ⟨us, by simp⟩)
      | _ => argumentsFrom expression (t :: us)

/-- What an identifier starts: a call if a parenthesis follows, and a variable otherwise. -/
def named (expression : Parser Expr) (name : String) (us : List Token) :
    Except Stop (Expr × { rest : List Token // rest.length ≤ us.length }) :=
  match us with
  | [] => .ok (.var name, ⟨[], Nat.le_refl _⟩)
  | u :: rest =>
    match u.kind with
    | .openParen =>
      match arguments expression rest with
      | .error stop => .error stop
      | .ok (args, ⟨rest', shorter⟩) =>
        .ok (.call name args, ⟨rest', by simp only [List.length_cons]; omega⟩)
    | _ => .ok (.var name, ⟨u :: rest, Nat.le_refl _⟩)

/-- An expression whose opening parenthesis has been taken, and the closing one. -/
def parenthesized (expression : Parser Expr) : Parser Expr :=
  fun ts =>
    match expression ts with
    | .error stop => .error stop
    | .ok (e, ⟨rest, shorter⟩) =>
      match rest with
      | [] => .error ⟨.missing .closeParen, []⟩
      | t :: us =>
        match t.kind with
        | .closeParen => .ok (e, ⟨us, by simp only [List.length_cons] at shorter; omega⟩)
        | _ => .error ⟨.missing .closeParen, t :: us⟩

/-- A number, a variable, a call, or an expression in parentheses. -/
def primary (expression : Parser Expr) : Parser Expr :=
  fun ts =>
    match ts with
    | [] => .error ⟨.missing .expression, []⟩
    | t :: us =>
      match t.kind with
      | .number value => .ok (.number value, ⟨us, by simp⟩)
      | .identifier name =>
        match named expression name us with
        | .error stop => .error stop
        | .ok (e, ⟨rest, notLonger⟩) =>
          .ok (e, ⟨rest, by simp only [List.length_cons]; omega⟩)
      | .openParen => (parenthesized expression us).widen (by simp)
      | _ => .error ⟨.missing .expression, t :: us⟩

/-! ## Powers and signs -/

/-- A primary phrase, and the exponent if `^` follows. The exponent is a signed phrase, which groups
`^` to the right and admits `2^-1`. -/
def power (signed : Parser Expr) : Parser Expr :=
  fun ts =>
    match primary (expressionOver signed) ts with
    | .error stop => .error stop
    | .ok (base, ⟨rest, shorter⟩) =>
      match rest with
      | [] => .ok (base, ⟨[], shorter⟩)
      | t :: us =>
        match t.kind with
        | .caret =>
          ((signed us).map (.binary .pow base)).widen
            (by simp only [List.length_cons] at shorter; omega)
        | _ => .ok (base, ⟨t :: us, shorter⟩)

/-- A power with signs in front; the sign `+` leaves no trace. -/
def signedOver (signed : Parser Expr) : Parser Expr :=
  fun ts =>
    match ts with
    | [] => power signed []
    | t :: us =>
      match t.kind with
      | .minus => ((signed us).map .negate).widen (by simp)
      | .plus => (signed us).widen (by simp)
      | _ => power signed (t :: us)

/-- A signed phrase that may hold `levels - 1` further ones within each other. -/
def signed : (levels : Nat) → Parser Expr
  | 0 => fun ts => .error ⟨.nestedTooDeeply, ts⟩
  | levels + 1 => signedOver (signed levels)

/-- How many signed phrases may lie within each other. -/
def nestingLimit : Nat := 256

def expression : Parser Expr := expressionOver (signed nestingLimit)

/-! ## Statements -/

/-- The target of an assignment, if an identifier and `=` come next, and the tokens behind them. -/
def assignment? (ts : List Token) :
    Option (String × { rest : List Token // rest.length ≤ ts.length }) :=
  match ts with
  | t :: u :: rest =>
    match t.kind, u.kind with
    | .identifier name, .assign => some (name, ⟨rest, by simp only [List.length_cons]; omega⟩)
    | _, _ => none
  | _ => none

/-- An assignment, or an expression. -/
def statement : Parser Statement :=
  fun ts =>
    match assignment? ts with
    | some (name, ⟨rest, notLonger⟩) => ((expression rest).map (.assign name)).widen notLonger
    | none => (expression ts).map .result

/-- The tokens from the first on that is no terminator. -/
def skipTerminators (ts : List Token) : List Token :=
  ts.dropWhile fun t => t.kind.isTerminator

/-- Skipping terminators does not add tokens, which is what the recursion over statements needs. -/
theorem length_skipTerminators_le (ts : List Token) : (skipTerminators ts).length ≤ ts.length :=
  (List.dropWhile_sublist _).length_le

/-- Statements with terminators around them, up to the end of input. -/
def statements (ts : List Token) : Except Stop (List Statement) :=
  match _h : skipTerminators ts with
  | [] => .ok []
  | t :: us =>
    match statement (t :: us) with
    | .error stop => .error stop
    | .ok (s, ⟨rest, _shorter⟩) =>
      match rest with
      | [] => .ok [s]
      | u :: rest' =>
        if u.kind.isTerminator then (statements (u :: rest')).map (s :: ·)
        else .error ⟨.missing .operatorOrEnd, u :: rest'⟩
termination_by ts.length
decreasing_by
  have := length_skipTerminators_le ts
  simp only [_h] at this
  omega

end Parser

namespace Formula

/-- The formula that all tokens of a stream make up. -/
def ofTokens (stream : TokenStream) : Except SyntaxFault Formula :=
  match Parser.statements stream.tokens with
  | .error stop => .error (stop.fault stream.finish)
  | .ok statements => .ok ⟨statements⟩

/-- The formula that a text writes. Undefined variables are no fault here. -/
def parse (source : String) : Except SyntaxFault Formula :=
  match TokenStream.scan source with
  | .error stray => .error stray.fault
  | .ok stream => ofTokens stream

end Formula

/-! ## Reading a stream piece by piece -/

namespace TokenStream

/-- Reads all that is left as a formula. What is left afterwards is nothing, or the tokens from
where reading stopped. -/
def takeFormula (stream : TokenStream) : Except SyntaxFault Formula × TokenStream :=
  match Parser.statements stream.tokens with
  | .error stop => (.error (stop.fault stream.finish), ⟨stop.ahead, stream.finish⟩)
  | .ok statements => (.ok ⟨statements⟩, ⟨[], stream.finish⟩)

/-- Reads one expression off the front. What is left afterwards are the tokens behind it, or those
from where reading stopped. -/
def takeExpression (stream : TokenStream) : Except SyntaxFault Expr × TokenStream :=
  match Parser.expression stream.tokens with
  | .error stop => (.error (stop.fault stream.finish), ⟨stop.ahead, stream.finish⟩)
  | .ok (e, ⟨rest, _⟩) => (.ok e, ⟨rest, stream.finish⟩)

end TokenStream

end FormulaMachine
