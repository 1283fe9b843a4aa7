import FormulaMachine.Expr.Parser
import FormulaMachine.Proofs.Grammar.Tree

/-!
# What the parsers answer

Every parser carries a proof that it leaves fewer tokens, which its recursion needs and nobody else.
Without these proofs an answer is a value and the tokens left, or a stop, and each parser is given by
one equation between such answers.

* **`outcome`**: an answer without the proof.
* **`outcome_chainFrom`**, **`outcome_argumentsFrom`**, **`outcome_primary`**, **`outcome_power`**:
  the equations.
* **`Category.parser`**: the parser of each category of the grammar.
-/

namespace FormulaMachine

/-- A value and the tokens left, or a stop. -/
abbrev Outcome (α : Type) := Except Stop (α × List Token)

/-- An answer without the proof that fewer tokens are left. -/
def outcome {α : Type} {P : List Token → Prop} :
    Except Stop (α × { rest : List Token // P rest }) → Outcome α
  | .error stop => .error stop
  | .ok (a, rest) => .ok (a, rest.1)

/-- What comes next, from the value and the tokens left. -/
def Outcome.andThen {α β : Type} (r : Outcome α) (next : α → List Token → Except Stop β) :
    Except Stop β :=
  match r with
  | .error stop => .error stop
  | .ok (a, rest) => next a rest

/-- The same with another value. -/
def Outcome.mapValue {α β : Type} (f : α → β) (r : Outcome α) : Outcome β :=
  r.andThen fun a rest => .ok (f a, rest)

theorem outcome_map {α β : Type} {ts : List Token} (f : α → β) (r : Parsed α ts) :
    outcome (r.map f) = (outcome r).mapValue f := by
  cases r <;> rfl

/-- Where a parser was called does not matter to its answer. -/
theorem outcome_widen {α : Type} {ts us : List Token} (h : ts.length ≤ us.length)
    (r : Parsed α ts) : outcome (r.widen h) = outcome r := by
  cases r <;> rfl

namespace Parser

/-! ## Chains -/

/-- A chain is its first operand, and then what follows an expression. -/
theorem outcome_chain (operator? : TokenKind → Option Operator) (operand : Parser Expr)
    (ts : List Token) :
    outcome (chain operator? operand ts) =
      (outcome (operand ts)).andThen fun left rest =>
        outcome (chainFrom operator? operand left rest) := by
  rw [chain]
  cases operand ts with
  | error stop => rfl
  | ok answer =>
    obtain ⟨left, rest, hshorter⟩ := answer
    simp only [outcome, Outcome.andThen]
    cases chainFrom operator? operand left rest <;> rfl

/-- At the end of the tokens a chain ends. -/
theorem outcome_chainFrom_nil (operator? : TokenKind → Option Operator) (operand : Parser Expr)
    (left : Expr) : outcome (chainFrom operator? operand left []) = .ok (left, []) := by
  rw [chainFrom]
  rfl

/-- What follows the token in front of a chain. -/
theorem outcome_chainFrom_cons (operator? : TokenKind → Option Operator) (operand : Parser Expr)
    (left : Expr) (t : Token) (us : List Token) :
    outcome (chainFrom operator? operand left (t :: us)) =
      match operator? t.kind with
      | none => .ok (left, t :: us)
      | some op =>
        (outcome (operand us)).andThen fun right rest =>
          outcome (chainFrom operator? operand (.binary op left right) rest) := by
  rw [chainFrom]
  -- without an operator the chain ends in front of the token
  cases operator? t.kind with
  | none => rfl
  | some op =>
    simp only
    cases operand us with
    | error stop => rfl
    | ok answer =>
      obtain ⟨right, rest, hshorter⟩ := answer
      simp only [outcome, Outcome.andThen]
      cases chainFrom operator? operand (.binary op left right) rest <;> rfl

/-! ## Arguments -/

/-- What follows an argument: a comma and further arguments, or the closing parenthesis. -/
def afterArgument (expression : Parser Expr) (e : Expr) : List Token → Outcome (List Expr)
  | [] => .error ⟨.missing .commaOrCloseParen, []⟩
  | t :: us =>
    match t.kind with
    | .comma => (outcome (argumentsFrom expression us)).mapValue (e :: ·)
    | .closeParen => .ok ([e], us)
    | _ => .error ⟨.missing .commaOrCloseParen, t :: us⟩

/-- Arguments are an expression, and then what follows an argument. -/
theorem outcome_argumentsFrom (expression : Parser Expr) (ts : List Token) :
    outcome (argumentsFrom expression ts) =
      (outcome (expression ts)).andThen (afterArgument expression) := by
  rw [argumentsFrom]
  cases expression ts with
  | error stop => rfl
  | ok answer =>
    obtain ⟨e, rest, hshorter⟩ := answer
    simp only [outcome, Outcome.andThen]
    cases rest with
    | nil => rfl
    -- only the comma leads to another call, which is widened to the tokens of this one
    | cons t us =>
      simp only [afterArgument]
      cases t.kind with
      | comma => exact (outcome_widen ..).trans (outcome_map ..)
      | _ => rfl

/-- What follows a name: the arguments of a call, or something else. -/
def afterName (expression : Parser Expr) (name : String) : List Token → Outcome Expr
  | [] => .ok (.var name, [])
  | t :: us =>
    match t.kind with
    | .openParen => (outcome (arguments expression us)).mapValue (.call name)
    | _ => .ok (.var name, t :: us)

theorem outcome_named (expression : Parser Expr) (name : String) (us : List Token) :
    outcome (named expression name us) = afterName expression name us := by
  cases us with
  | nil => rfl
  | cons t us =>
    simp only [named, afterName]
    cases t.kind with
    | openParen =>
      simp only
      cases arguments expression us <;> rfl
    | _ => rfl

/-! ## Primary phrases, powers, and signs -/

/-- What follows the expression behind an opening parenthesis. -/
def afterInner (e : Expr) : List Token → Outcome Expr
  | [] => .error ⟨.missing .closeParen, []⟩
  | t :: us =>
    match t.kind with
    | .closeParen => .ok (e, us)
    | _ => .error ⟨.missing .closeParen, t :: us⟩

/-- Behind an opening parenthesis come an expression and the closing one. -/
theorem outcome_parenthesized (expression : Parser Expr) (ts : List Token) :
    outcome (parenthesized expression ts) = (outcome (expression ts)).andThen afterInner := by
  rw [parenthesized]
  cases expression ts with
  | error stop => rfl
  | ok answer =>
    obtain ⟨e, rest, hshorter⟩ := answer
    simp only [outcome, Outcome.andThen]
    cases rest with
    | nil => rfl
    | cons t us =>
      simp only [afterInner]
      cases t.kind <;> rfl

/-- The primary phrase that a token starts. -/
theorem outcome_primary (expression : Parser Expr) (t : Token) (us : List Token) :
    outcome (primary expression (t :: us)) =
      match t.kind with
      | .number value => .ok (.number value, us)
      | .identifier name => afterName expression name us
      | .openParen => (outcome (expression us)).andThen afterInner
      | _ => .error ⟨.missing .expression, t :: us⟩ := by
  rw [primary]
  cases t.kind with
  | identifier name =>
    simp only
    rw [← outcome_named]
    cases named expression name us <;> rfl
  -- the call for the inner expression is on fewer tokens, and its answer is widened
  | openParen => exact (outcome_widen ..).trans (outcome_parenthesized ..)
  | _ => rfl

/-- What follows the base of a power. -/
def afterBase (signed : Parser Expr) (base : Expr) : List Token → Outcome Expr
  | [] => .ok (base, [])
  | t :: us =>
    match t.kind with
    | .caret => (outcome (signed us)).mapValue (.binary .pow base)
    | _ => .ok (base, t :: us)

/-- A power is a primary phrase, and then what follows a base. -/
theorem outcome_power (signed : Parser Expr) (ts : List Token) :
    outcome (power signed ts) =
      (outcome (primary (expressionOver signed) ts)).andThen (afterBase signed) := by
  rw [power]
  cases primary (expressionOver signed) ts with
  | error stop => rfl
  | ok answer =>
    obtain ⟨base, rest, hshorter⟩ := answer
    simp only [outcome, Outcome.andThen]
    cases rest with
    | nil => rfl
    | cons t us =>
      simp only [afterBase]
      cases t.kind with
      | caret => exact (outcome_widen ..).trans (outcome_map ..)
      | _ => rfl

/-- The signed phrase that a token starts. -/
theorem outcome_signed_succ (levels : Nat) (t : Token) (us : List Token) :
    outcome (signed (levels + 1) (t :: us)) =
      match t.kind with
      | .minus => (outcome (signed levels us)).mapValue .negate
      | .plus => outcome (signed levels us)
      | _ => outcome (power (signed levels) (t :: us)) := by
  rw [signed, signedOver]
  cases t.kind with
  -- each sign takes one token, so the answer behind it is widened
  | minus => exact (outcome_widen ..).trans (outcome_map ..)
  | plus => exact outcome_widen ..
  | _ => rfl

end Parser

/-! ## The parsers of the grammar -/

namespace Grammar

/-- The operator that a token stands for in a chain. -/
def Level.operator? : Level → TokenKind → Option Operator
  | sums => Parser.additive?
  | products => Parser.multiplicative?

/-- The parser of a category, where `levels` further signed phrases may lie within each other. -/
def Category.parser (levels : Nat) : Category → Parser Expr
  | chain .sums => Parser.expressionOver (Parser.signed levels)
  | chain .products => Parser.chain Parser.multiplicative? (Parser.signed levels)
  | signed => Parser.signed levels
  | power => Parser.power (Parser.signed levels)
  | primary => Parser.primary (Parser.expressionOver (Parser.signed levels))

/-- Sums and products are chains of the one kind, over different operands. -/
theorem Category.parser_chain (levels : Nat) (level : Level) :
    (Category.chain level).parser levels =
      Parser.chain level.operator? (level.operand.parser levels) := by
  cases level <;> rfl

/-- The operators of a level are found by their tokens, and no token stands for another one. -/
theorem Level.operator?_eq_some_iff {level : Level} {k : TokenKind} {op : Operator} :
    level.operator? k = some op ↔ op ∈ level.operators ∧ k = op.token := by
  cases level <;> cases k <;> cases op <;>
    simp [operator?, operators, Parser.additive?, Parser.multiplicative?, Operator.token]

end Grammar

end FormulaMachine
