import FormulaMachine.Expr.Basic
import FormulaMachine.Token.Basic
import Mathlib

/-!
# The grammar of formulas

The grammar, apart from any way to read it:

* a program is statements with terminators between them, one or more, and any number of them before
  the first and behind the last;
* a statement is `name = expression` or an expression;
* an expression is a chain of products with `+` and `-`, a product a chain of signed phrases with
  `*` and `/`;
* a signed phrase is `-` or `+` before a signed phrase, or a power;
* a power is a primary phrase, perhaps with `^` and a signed phrase behind it;
* a primary phrase is a number, a name, a call, or an expression in parentheses.

A derivation is a tree. What a tree stands for is read off the tree: the tokens it derives, the
expression it builds, and how deep signed phrases lie within each other in it.

* **`Tree`**, **`StatementTree`**, **`ProgramTree`**: derivations.
* **`Tree.yield`**, **`Tree.value`**, **`Tree.nesting`**: what they stand for.
-/

namespace FormulaMachine

/-- The token that writes an operator. -/
def Operator.token : Operator → TokenKind
  | add => .plus
  | sub => .minus
  | mul => .star
  | div => .slash
  | pow => .caret

namespace Grammar

inductive Level where
  | sums
  | products

/-- Phrases that stand for an expression. -/
inductive Category where
  | chain (level : Level)
  | signed
  | power
  | primary

namespace Level

def operators : Level → List Operator
  | sums => [.add, .sub]
  | products => [.mul, .div]

def operand : Level → Category
  | sums => .chain products
  | products => .signed

end Level

/-- What a tree can derive: an expression of a category, what follows the first operand of a chain,
or one argument and more up to the closing parenthesis of a call. -/
inductive Phrase where
  | expr (category : Category)
  | links (level : Level)
  | arguments

/-- The derivations of a phrase. -/
inductive Tree : Phrase → Type
  /-- an operand and the links behind it -/
  | chain {level : Level} (first : Tree (.expr level.operand)) (rest : Tree (.links level)) :
    Tree (.expr (.chain level))
  | done {level : Level} : Tree (.links level)
  /-- an operator, an operand, and the links behind them -/
  | link {level : Level} (op : Operator) (member : op ∈ level.operators)
    (right : Tree (.expr level.operand)) (rest : Tree (.links level)) : Tree (.links level)
  | minus (operand : Tree (.expr .signed)) : Tree (.expr .signed)
  | plus (operand : Tree (.expr .signed)) : Tree (.expr .signed)
  | unsigned (operand : Tree (.expr .power)) : Tree (.expr .signed)
  | bare (operand : Tree (.expr .primary)) : Tree (.expr .power)
  /-- a base, `^`, and an exponent -/
  | raised (base : Tree (.expr .primary)) (exponent : Tree (.expr .signed)) : Tree (.expr .power)
  | number (value : Float) : Tree (.expr .primary)
  | name (text : String) : Tree (.expr .primary)
  /-- a name and `()` -/
  | callNone (function : String) : Tree (.expr .primary)
  /-- a name, `(`, and arguments up to the closing parenthesis -/
  | callSome (function : String) (arguments : Tree .arguments) : Tree (.expr .primary)
  /-- an expression in parentheses -/
  | parens (inner : Tree (.expr (.chain .sums))) : Tree (.expr .primary)
  /-- the last argument and the closing parenthesis -/
  | lastArgument (argument : Tree (.expr (.chain .sums))) : Tree .arguments
  /-- an argument, a comma, and further arguments -/
  | nextArgument (argument : Tree (.expr (.chain .sums))) (rest : Tree .arguments) :
    Tree .arguments

/-- What a phrase stands for. Links turn the expression to the left of them into the whole chain. -/
abbrev Phrase.Value : Phrase → Type
  | expr _ => Expr
  | links _ => Expr → Expr
  | arguments => List Expr

namespace Tree

@[simp]
def yield : {phrase : Phrase} → Tree phrase → List TokenKind
  | _, chain first rest => first.yield ++ rest.yield
  | _, done => []
  | _, link op _ right rest => op.token :: (right.yield ++ rest.yield)
  | _, minus operand => .minus :: operand.yield
  | _, plus operand => .plus :: operand.yield
  | _, unsigned operand => operand.yield
  | _, bare operand => operand.yield
  | _, raised base exponent => base.yield ++ .caret :: exponent.yield
  | _, number value => [.number value]
  | _, name text => [.identifier text]
  | _, callNone function => [.identifier function, .openParen, .closeParen]
  | _, callSome function arguments => .identifier function :: .openParen :: arguments.yield
  | _, parens inner => .openParen :: (inner.yield ++ [.closeParen])
  | _, lastArgument argument => argument.yield ++ [.closeParen]
  | _, nextArgument argument rest => argument.yield ++ .comma :: rest.yield

/-- What a tree stands for. Chains are grouped to the left, powers to the right. -/
@[simp]
def value : {phrase : Phrase} → Tree phrase → phrase.Value
  | _, chain first rest => rest.value first.value
  | _, done => fun left => left
  | _, link op _ right rest => fun left => rest.value (.binary op left right.value)
  | _, minus operand => .negate operand.value
  | _, plus operand => operand.value
  | _, unsigned operand => operand.value
  | _, bare operand => operand.value
  | _, raised base exponent => .binary .pow base.value exponent.value
  | _, number value => .number value
  | _, name text => .var text
  | _, callNone function => .call function []
  | _, callSome function arguments => .call function arguments.value
  | _, parens inner => inner.value
  | _, lastArgument argument => [argument.value]
  | _, nextArgument argument rest => argument.value :: rest.value

/-- The length of the longest chain of signed phrases each of which lies within the one before. -/
@[simp]
def nesting : {phrase : Phrase} → Tree phrase → Nat
  | _, chain first rest => max first.nesting rest.nesting
  | _, done => 0
  | _, link _ _ right rest => max right.nesting rest.nesting
  | _, minus operand => operand.nesting + 1
  | _, plus operand => operand.nesting + 1
  | _, unsigned operand => operand.nesting + 1
  | _, bare operand => operand.nesting
  | _, raised base exponent => max base.nesting exponent.nesting
  | _, number _ => 0
  | _, name _ => 0
  | _, callNone _ => 0
  | _, callSome _ arguments => arguments.nesting
  | _, parens inner => inner.nesting
  | _, lastArgument argument => argument.nesting
  | _, nextArgument argument rest => max argument.nesting rest.nesting

end Tree

abbrev ExprTree := Tree (.expr (.chain .sums))

inductive StatementTree where
  /-- a name, `=`, and an expression -/
  | assign (name : String) (value : ExprTree)
  | result (value : ExprTree)

namespace StatementTree

def yield : StatementTree → List TokenKind
  | assign name value => .identifier name :: .assign :: value.yield
  | result value => value.yield

def statement : StatementTree → Statement
  | assign name value => .assign name value.value
  | result value => .result value.value

def nesting : StatementTree → Nat
  | assign _ value | result value => value.nesting

end StatementTree

/-- The derivations of a program. Every terminator but the one that ends a statement stands in front
of something, so that no two trees differ only in where they count a terminator. -/
inductive ProgramTree where
  /-- terminators and nothing else -/
  | blank (before : Nat)
  /-- terminators and a statement that the program ends with -/
  | last (before : Nat) (statement : StatementTree)
  /-- terminators, a statement, the terminator that ends it, and the rest of the program -/
  | next (before : Nat) (statement : StatementTree) (rest : ProgramTree)

namespace ProgramTree

def yield : ProgramTree → List TokenKind
  | blank before => List.replicate before .terminator
  | last before statement => List.replicate before .terminator ++ statement.yield
  | next before statement rest =>
    List.replicate before .terminator ++ (statement.yield ++ .terminator :: rest.yield)

def statements : ProgramTree → List Statement
  | blank _ => []
  | last _ statement => [statement.statement]
  | next _ statement rest => statement.statement :: rest.statements

def nesting : ProgramTree → Nat
  | blank _ => 0
  | last _ statement => statement.nesting
  | next _ statement rest => max statement.nesting rest.nesting

end ProgramTree

end Grammar

end FormulaMachine
