import FormulaMachine.Proofs.Grammar.Lookahead
import FormulaMachine.Proofs.Steps

/-!
# Parsing in place

The parsers get the tokens ahead as a list. Here they are walks over one row of tokens, with a
cursor that moves along it and a count of the signed phrases that the cursor is in, which a walk
raises and lowers. A walk may ask for a token that is not there, and its loops may go on for ever:
they get a number of turns, and a walk that needs more of them breaks off. Neither happens, and the
walks do what the parsers do.

* `Cursor`, `Walk`: what walks change, and what breaks them off.
* `Walk.expression`, `Walk.program`: the phrases of the grammar, token by token.
* **`Follows`**: in front of some tokens, a walk comes to the answer of a parser.
* **`follows_expression`**, **`follows_program`**: the walks follow the parsers.
-/

namespace FormulaMachine

/-- How many tokens are behind, and how many signed phrases are around. -/
structure Cursor where
  position : Nat
  depth : Nat

/-- In front of all tokens, in no signed phrase. -/
def Cursor.start : Cursor := ⟨0, 0⟩

/-- What breaks a walk off. -/
inductive Halt (φ : Type) where
  | fault (fault : φ)
  /-- a token is read where there is none -/
  | outside
  /-- a loop or a recursion is not over after its turns -/
  | endless

/-- A walk over tokens, with a result. -/
abbrev Walk (α : Type) := Steps (Halt Obstacle) Cursor α

namespace Walk

open Steps

variable {α β : Type}

/-! ## Single tokens -/

section

variable (kinds : List TokenKind)

/-- The tokens and the end behind them. -/
def cells : List (Option TokenKind) := kinds.map some ++ [none]

/-- The token at the cursor, or the end, also from behind it. -/
def peek : Walk (Option TokenKind) := do
  match (cells kinds)[min (← get).position ((cells kinds).length - 1)]? with
  | some cell => pure cell
  | none => throw .outside

/-- The token `offset` places ahead, or the end, unless the cursor is too close to it. -/
def peekAt (offset : Nat) : Walk (Option (Option TokenKind)) := do
  return (cells kinds)[(← get).position + offset]?

/-- Moves on, but not behind the end. -/
def advance : Walk Unit := do
  match ← peek kinds with
  | some _ => modify fun cursor => { cursor with position := cursor.position + 1 }
  | none => pure ()

/-- Breaks off with an obstacle. -/
def stop (o : Obstacle) : Walk α := throw (.fault o)

end

/-! ## Phrases -/

section

variable (kinds : List TokenKind) (turns : Nat)

/-- Operators and operands, as long as an operator comes next. -/
def links (operator? : TokenKind → Option Operator) (operand : Walk Expr) :
    (turns : Nat) → Expr → Walk Expr
  | 0, _ => throw .endless
  | turns + 1, left => do
    match (← peek kinds).bind operator? with
    | none => pure left
    | some op =>
      advance kinds
      let right ← operand
      links operator? operand turns (.binary op left right)

/-- An operand and the links behind it. -/
def chain (operator? : TokenKind → Option Operator) (operand : Walk Expr) : Walk Expr := do
  links kinds operator? operand turns (← operand)

/-- An expression over the given signed phrases. -/
def expressionOver (signed : Walk Expr) : Walk Expr :=
  chain kinds turns Parser.additive? (chain kinds turns Parser.multiplicative? signed)

/-- Arguments behind those that have been read, up to and with the closing parenthesis. -/
def argumentsFrom (expression : Walk Expr) : (turns : Nat) → List Expr → Walk (List Expr)
  | 0, _ => throw .endless
  | turns + 1, args => do
    let args := args ++ [← expression]
    match ← peek kinds with
    | some .comma =>
      advance kinds
      argumentsFrom expression turns args
    | some .closeParen =>
      advance kinds
      return args
    | _ => stop (.missing .commaOrCloseParen)

/-- The arguments of a call, if there are any, and the closing parenthesis. -/
def arguments (expression : Walk Expr) : Walk (List Expr) := do
  match ← peek kinds with
  | some .closeParen =>
    advance kinds
    return []
  | _ => argumentsFrom kinds expression turns []

/-- A number, a variable, a call or an expression in parentheses. -/
def primary (expression : Walk Expr) : Walk Expr := do
  match ← peek kinds with
  | some (.number value) =>
    advance kinds
    return .number value
  | some (.identifier name) =>
    advance kinds
    match ← peek kinds with
    | some .openParen =>
      advance kinds
      return .call name (← arguments kinds turns expression)
    | _ => return .var name
  | some .openParen =>
    advance kinds
    let e ← expression
    match ← peek kinds with
    | some .closeParen =>
      advance kinds
      return e
    | _ => stop (.missing .closeParen)
  | _ => stop (.missing .expression)

/-- A primary phrase, with a signed phrase behind `^` as its exponent. -/
def power (signed : Walk Expr) : Walk Expr := do
  let base ← primary kinds turns (expressionOver kinds turns signed)
  match ← peek kinds with
  | some .caret =>
    advance kinds
    return .binary .pow base (← signed)
  | _ => return base

/-- A signed phrase behind its sign, or a power. -/
def prefixed (signed : Walk Expr) : Walk Expr := do
  match ← peek kinds with
  | some .minus =>
    advance kinds
    return .negate (← signed)
  | some .plus =>
    advance kinds
    signed
  | _ => power kinds turns signed

/-- A phrase inside a signed phrase: the count is lowered again however the phrase ends. -/
def nested (inner : Walk α) : Walk α := do
  if Parser.nestingLimit ≤ (← get).depth then stop .nestedTooDeeply
  else
    modify fun cursor => { cursor with depth := cursor.depth + 1 }
    let result ← inner.attempt
    modify fun cursor => { cursor with depth := cursor.depth - 1 }
    settle result

/-- A signed phrase, which may hold others within `calls - 1` levels. -/
def signed : (calls : Nat) → Walk Expr
  | 0 => throw .endless
  | calls + 1 => nested (prefixed kinds turns (signed calls))

end

section

variable (kinds : List TokenKind) (turns calls : Nat)

/-- An expression, with the walk over signed phrases that counts them. -/
def expression : Walk Expr := expressionOver kinds turns (signed kinds turns calls)

/-- An assignment is told by the token in front and the one behind it. -/
def statement : Walk Statement := do
  match ← peek kinds, ← peekAt kinds 1 with
  | some (.identifier name), some (some .assign) =>
    advance kinds
    advance kinds
    return .assign name (← expression kinds turns calls)
  | _, _ => return .result (← expression kinds turns calls)

/-- Skips the terminators that come next. -/
def skipTerminators : (turns : Nat) → Walk Unit
  | 0 => throw .endless
  | turns + 1 => do
    match ← peek kinds with
    | some .terminator =>
      advance kinds
      skipTerminators turns
    | _ => return ()

/-- Statements behind those that have been read. -/
def statementsFrom (statement : Walk Statement) (skip : Walk Unit) :
    (turns : Nat) → List Statement → Walk (List Statement)
  | 0, _ => throw .endless
  | turns + 1, ss => do
    match ← peek kinds with
    | none => return ss
    | some _ =>
      let ss := ss ++ [← statement]
      match ← peek kinds with
      | some .terminator =>
        skip
        statementsFrom statement skip turns ss
      | none => return ss
      | some _ => stop (.missing .operatorOrEnd)

/-- Statements to the end, terminators first. -/
def program : Walk (List Statement) := do
  skipTerminators kinds turns
  statementsFrom kinds (statement kinds turns calls) (skipTerminators kinds turns) turns []

end

end Walk

/-! ## Walks and parsers -/

open Walk Steps

variable {α β : Type} {kinds : List TokenKind} {depth : Nat}

/-- The cursor in front of the last tokens of a row. -/
def Cursor.before (kinds : List TokenKind) (depth : Nat) (ts : List Token) : Cursor :=
  ⟨kinds.length - ts.length, depth⟩

/-- The answer of a parser as the end of a walk: in front of the tokens left, or of those ahead. -/
def Outcome.reached (kinds : List TokenKind) (depth : Nat) (r : Outcome α) :
    Except (Halt Obstacle) α × Cursor :=
  (match r with
    | .error stop => .error (.fault stop.obstacle)
    | .ok (a, _) => .ok a,
   .before kinds depth r.left)

/-- In front of the tokens `ts`, if they are the last ones of the row, the walk comes to the answer
`r`. The tokens left are the last ones then. -/
def Follows (kinds : List TokenKind) (depth : Nat) (walk : Walk α) (ts : List Token)
    (r : Outcome α) : Prop :=
  ts.map Token.kind <:+ kinds →
    r.left <:+ ts ∧ walk.apply (.before kinds depth ts) = r.reached kinds depth

section

variable {ts us : List Token} {t : Token}

/-- A row that ends in these tokens, seen from the front of them. -/
theorem getElem?_cells (h : ts.map Token.kind <:+ kinds) {offset : Nat}
    (hoffset : offset ≤ ts.length) :
    (cells kinds)[kinds.length - ts.length + offset]? = some ((ts.map Token.kind)[offset]?) := by
  obtain ⟨before, rfl⟩ := h
  have hstart : (before ++ ts.map Token.kind).length - ts.length = before.length := by simp
  rw [hstart, cells, List.map_append, List.append_assoc,
    List.getElem?_append_right (by simp), List.length_map, Nat.add_sub_cancel_left]
  obtain hlt | rfl := Nat.lt_or_eq_of_le hoffset
  · rw [List.getElem?_append_left (by simpa using hlt)]
    simp [hlt]
  · simp

/-- In front of the last tokens of a row the walk sees the first of them, or the end. -/
theorem apply_peek (h : ts.map Token.kind <:+ kinds) :
    (peek kinds).apply (.before kinds depth ts) =
      (.ok (ts.head?.map Token.kind), .before kinds depth ts) := by
  have hcell := getElem?_cells h (Nat.zero_le _)
  -- the cursor is in front of a token or at the end, and not behind it
  have hlast : min (kinds.length - ts.length) ((cells kinds).length - 1) =
      kinds.length - ts.length := by
    simp [cells]
  rw [Nat.add_zero, ← List.head?_eq_getElem?, List.head?_map] at hcell
  rw [peek, apply_get_bind]
  simp only [Cursor.before, hlast, hcell]
  rfl

/-- Moving on leaves one token less. -/
theorem apply_advance (h : (t :: us).map Token.kind <:+ kinds) :
    (advance kinds).apply (.before kinds depth (t :: us)) = (.ok (), .before kinds depth us) := by
  have hlength : (t :: us).length ≤ kinds.length := by simpa using h.length_le
  have hmove : kinds.length - (t :: us).length + 1 = kinds.length - us.length := by
    rw [List.length_cons] at hlength ⊢
    omega
  rw [advance, apply_bind_of_ok (apply_peek h)]
  show (Except.ok (), Cursor.mk (kinds.length - (t :: us).length + 1) depth) = _
  rw [hmove]
  rfl

end

namespace Follows

variable {walk : Walk α} {ts us : List Token} {t : Token} {r : Outcome α}

theorem pure (a : α) (ts : List Token) : Follows kinds depth (Pure.pure a) ts (.ok (a, ts)) :=
  fun _ => ⟨List.suffix_rfl, rfl⟩

theorem stop (o : Obstacle) (ts : List Token) :
    Follows kinds depth (Walk.stop o : Walk α) ts (.error ⟨o, ts⟩) :=
  fun _ => ⟨List.suffix_rfl, rfl⟩

/-- One walk after another. The first one leaves the last tokens of the row, so the second starts in
front of such tokens again. -/
theorem bind {next : α → Walk β} {answer : α → List Token → Outcome β}
    (hwalk : Follows kinds depth walk ts r)
    (hnext : ∀ a rest, r = .ok (a, rest) → Follows kinds depth (next a) rest (answer a rest)) :
    Follows kinds depth (walk >>= next) ts (r.andThen answer) := by
  intro hts
  obtain ⟨hleft, hend⟩ := hwalk hts
  cases r with
  | error stop => exact ⟨hleft, apply_bind_of_error hend⟩
  | ok found =>
    obtain ⟨a, rest⟩ := found
    have hrest : rest <:+ ts := hleft
    obtain ⟨hleft', hend'⟩ := hnext a rest rfl ((hrest.map Token.kind).trans hts)
    exact ⟨hleft'.trans hrest, (apply_bind_of_ok hend).trans hend'⟩

/-- A walk that succeeds, and another one from where it ends. -/
theorem andThen {next : α → Walk β} {a : α} {rest : List Token} {r : Outcome β}
    (hwalk : Follows kinds depth walk ts (.ok (a, rest)))
    (hnext : Follows kinds depth (next a) rest r) : Follows kinds depth (walk >>= next) ts r := by
  have hboth : Follows kinds depth (walk >>= next) ts
      (Outcome.andThen (.ok (a, rest)) fun _ _ => r) := by
    refine hwalk.bind fun found left h => ?_
    cases h
    exact hnext
  exact hboth

theorem map (hwalk : Follows kinds depth walk ts r) (k : α → β) :
    Follows kinds depth (walk >>= fun a => Pure.pure (k a)) ts (r.mapValue k) :=
  hwalk.bind fun a rest _ => .pure (k a) rest

/-- A walk that looks at the token in front of it. -/
theorem peek {next : Option TokenKind → Walk α}
    (h : Follows kinds depth (next (ts.head?.map Token.kind)) ts r) :
    Follows kinds depth (Walk.peek kinds >>= next) ts r := by
  intro hts
  obtain ⟨hleft, hend⟩ := h hts
  exact ⟨hleft, (apply_bind_of_ok (apply_peek hts)).trans hend⟩

/-- A walk that takes the token in front of it. -/
theorem advance {next : Unit → Walk α} (h : Follows kinds depth (next ()) us r) :
    Follows kinds depth (Walk.advance kinds >>= next) (t :: us) r := by
  intro hts
  have hus : us <:+ t :: us := List.suffix_cons t us
  obtain ⟨hleft, hend⟩ := h ((hus.map Token.kind).trans hts)
  exact ⟨hleft.trans hus, (apply_bind_of_ok (apply_advance hts)).trans hend⟩

/-- A walk that looks further ahead and does the same whatever it sees. -/
theorem peekAt_of_forall {offset : Nat} {next : Option (Option TokenKind) → Walk α}
    (h : ∀ found, Follows kinds depth (next found) ts r) :
    Follows kinds depth (Walk.peekAt kinds offset >>= next) ts r :=
  fun hts => h _ hts

/-- A walk that looks one token further. -/
theorem peekAt {next : Option (Option TokenKind) → Walk α}
    (h : Follows kinds depth (next (some (us.head?.map Token.kind))) (t :: us) r) :
    Follows kinds depth (Walk.peekAt kinds 1 >>= next) (t :: us) r := by
  intro hts
  have hcell := getElem?_cells hts (Nat.le_add_left 1 us.length)
  have hnext : ((t :: us).map Token.kind)[1]? = us.head?.map Token.kind := by
    rw [List.map_cons, List.getElem?_cons_succ, ← List.head?_eq_getElem?, List.head?_map]
  obtain ⟨hleft, hend⟩ := h hts
  refine ⟨hleft, ?_⟩
  rw [← hend, ← hnext, ← hcell]
  rfl

/-- The tokens ahead are some of the row, and so not more than it has. -/
theorem of_length_le (h : ts.length ≤ kinds.length → Follows kinds depth walk ts r) :
    Follows kinds depth walk ts r := by
  intro hts
  have hlength := hts.length_le
  rw [List.length_map] at hlength
  exact h hlength hts

end Follows

/-- What a parser leaves is shorter, as its type says. -/
theorem outcome_shorter {P : List Token → Prop}
    {r : Except Stop (α × { rest : List Token // P rest })} {a : α} {rest : List Token}
    (h : outcome r = .ok (a, rest)) : P rest := by
  cases r with
  | error stop => cases h
  | ok found =>
    cases h
    exact found.2.2

namespace Outcome

variable {γ : Type}

theorem mapValue_andThen (r : Outcome α) (answer : α → List Token → Outcome β) (k : β → γ) :
    mapValue k (r.andThen answer) = r.andThen fun a rest => (answer a rest).mapValue k := by
  cases r <;> rfl

theorem mapValue_mapValue (r : Outcome α) (k : α → β) (l : β → γ) :
    (r.mapValue k).mapValue l = r.mapValue fun a => l (k a) := by
  cases r <;> rfl

theorem mapValue_id (r : Outcome α) : (r.mapValue fun a => a) = r := by
  cases r <;> rfl

end Outcome

namespace Walk

/-! ## Chains -/

section

variable {turns : Nat} {operator? : TokenKind → Option Operator}
  {operand expression signed : Walk Expr} {operand' expression' signed' : Parser Expr}

/-- The links of a chain, by induction on the turns: each takes tokens off. -/
theorem follows_links (hoperand : ∀ ts, Follows kinds depth operand ts (outcome (operand' ts)))
    {ts : List Token} (hturns : ts.length < turns) (left : Expr) :
    Follows kinds depth (links kinds operator? operand turns left) ts
      (outcome (Parser.chainFrom operator? operand' left ts)) := by
  induction turns generalizing ts left with
  | zero => omega
  | succ turns ih =>
    refine .peek ?_
    cases ts with
    | nil =>
      rw [Parser.outcome_chainFrom_nil]
      exact .pure left []
    | cons t us =>
      rw [Parser.outcome_chainFrom_cons]
      simp only [List.head?_cons, Option.map_some, Option.bind_some]
      cases operator? t.kind with
      | none => exact .pure left (t :: us)
      | some op =>
        refine .advance ((hoperand us).bind fun right rest hright => ih ?_ _)
        -- an operator and an operand have been taken, so one turn less is enough for the rest
        have hshorter : rest.length < us.length := outcome_shorter hright
        rw [List.length_cons] at hturns
        omega

/-- A chain. No more links are ahead than tokens in the row, so the turns suffice. -/
theorem follows_chain (hturns : kinds.length < turns)
    (hoperand : ∀ ts, Follows kinds depth operand ts (outcome (operand' ts))) (ts : List Token) :
    Follows kinds depth (chain kinds turns operator? operand) ts
      (outcome (Parser.chain operator? operand' ts)) := by
  rw [Parser.outcome_chain]
  refine (hoperand ts).bind fun left rest _ => .of_length_le fun hlength => ?_
  exact follows_links hoperand (by omega) left

/-- Sums of products, a chain over a chain. -/
theorem follows_expressionOver (hturns : kinds.length < turns)
    (hsigned : ∀ ts, Follows kinds depth signed ts (outcome (signed' ts))) (ts : List Token) :
    Follows kinds depth (expressionOver kinds turns signed) ts
      (outcome (Parser.expressionOver signed' ts)) :=
  follows_chain hturns (follows_chain hturns hsigned) ts

/-! ## Arguments and primary phrases -/

/-- The arguments of a call, by induction on the turns. -/
theorem follows_argumentsFrom
    (hexpression : ∀ ts, Follows kinds depth expression ts (outcome (expression' ts)))
    {ts : List Token} (hturns : ts.length < turns) (args : List Expr) :
    Follows kinds depth (argumentsFrom kinds expression turns args) ts
      ((outcome (Parser.argumentsFrom expression' ts)).mapValue (args ++ ·)) := by
  induction turns generalizing ts args with
  | zero => omega
  | succ turns ih =>
    rw [Parser.outcome_argumentsFrom, Outcome.mapValue_andThen]
    refine (hexpression ts).bind fun e rest he => .peek ?_
    -- an argument takes a token, so the turns last for the tokens behind it
    have hshorter : rest.length < ts.length := outcome_shorter he
    cases rest with
    | nil => exact .stop (.missing .commaOrCloseParen) []
    | cons t us =>
      simp only [Parser.afterArgument, List.head?_cons, Option.map_some]
      cases t.kind with
      | comma =>
        refine .advance ?_
        have hus : us.length < turns := by
          rw [List.length_cons] at hshorter
          omega
        have hmore := ih hus (args ++ [e])
        simp only [List.append_assoc] at hmore
        rwa [Outcome.mapValue_mapValue]
      | closeParen => exact .advance (.pure (args ++ [e]) us)
      | _ => exact .stop (.missing .commaOrCloseParen) (t :: us)

/-- The arguments of a call, if there are any. -/
theorem follows_arguments (hturns : kinds.length < turns)
    (hexpression : ∀ ts, Follows kinds depth expression ts (outcome (expression' ts)))
    (ts : List Token) :
    Follows kinds depth (arguments kinds turns expression) ts
      (outcome (Parser.arguments expression' ts)) := by
  -- where no parenthesis closes the call at once, there is an argument
  have hsome : Follows kinds depth (argumentsFrom kinds expression turns []) ts
      (outcome (Parser.argumentsFrom expression' ts)) := by
    refine .of_length_le fun hlength => ?_
    have hfrom := follows_argumentsFrom hexpression (Nat.lt_of_le_of_lt hlength hturns) []
    simp only [List.nil_append] at hfrom
    rwa [Outcome.mapValue_id] at hfrom
  refine .peek ?_
  cases ts with
  | nil => exact hsome
  | cons t us =>
    simp only [Parser.arguments, List.head?_cons, Option.map_some]
    cases t.kind with
    | closeParen => exact .advance (.pure [] us)
    | _ => exact hsome

/-- Primary phrases, by the kind of the token in front and then of the one behind it. -/
theorem follows_primary (hturns : kinds.length < turns)
    (hexpression : ∀ ts, Follows kinds depth expression ts (outcome (expression' ts)))
    (ts : List Token) :
    Follows kinds depth (primary kinds turns expression) ts
      (outcome (Parser.primary expression' ts)) := by
  refine .peek ?_
  cases ts with
  | nil => exact .stop (.missing .expression) []
  | cons t us =>
    rw [Parser.outcome_primary]
    simp only [List.head?_cons, Option.map_some]
    cases t.kind with
    | number value => exact .advance (.pure (Expr.number value) us)
    | identifier name =>
      refine .advance (.peek ?_)
      cases us with
      | nil => exact .pure (Expr.var name) []
      | cons u rest =>
        simp only [Parser.afterName, List.head?_cons, Option.map_some]
        cases u.kind with
        | openParen =>
          exact .advance ((follows_arguments hturns hexpression rest).map (Expr.call name))
        | _ => exact .pure (Expr.var name) (u :: rest)
    | openParen =>
      -- the parenthesis is taken, and what stands in it is an expression
      refine .advance ((hexpression us).bind fun e rest _ => .peek ?_)
      cases rest with
      | nil => exact .stop (.missing .closeParen) []
      | cons u rest =>
        simp only [Parser.afterInner, List.head?_cons, Option.map_some]
        cases u.kind with
        | closeParen => exact .advance (.pure e rest)
        | _ => exact .stop (.missing .closeParen) (u :: rest)
    | _ => exact .stop (.missing .expression) (t :: us)

/-! ## Powers and signs -/

/-- Powers, by whether a caret stands behind the base. -/
theorem follows_power (hturns : kinds.length < turns)
    (hsigned : ∀ ts, Follows kinds depth signed ts (outcome (signed' ts))) (ts : List Token) :
    Follows kinds depth (power kinds turns signed) ts (outcome (Parser.power signed' ts)) := by
  rw [Parser.outcome_power]
  refine (follows_primary hturns (follows_expressionOver hturns hsigned) ts).bind
    fun base rest _ => .peek ?_
  cases rest with
  | nil => exact .pure base []
  | cons t us =>
    simp only [Parser.afterBase, List.head?_cons, Option.map_some]
    cases t.kind with
    | caret => exact .advance ((hsigned us).map (Expr.binary .pow base))
    | _ => exact .pure base (t :: us)

/-- One level further in: the count is raised in front of the phrase and lowered behind it, whatever
the phrase has come to, so it is back where it was. -/
theorem follows_nested {inner : Walk Expr} {ts : List Token} {r : Outcome Expr}
    (hdepth : depth < Parser.nestingLimit) (hinner : Follows kinds (depth + 1) inner ts r) :
    Follows kinds depth (nested inner) ts r := by
  intro hts
  obtain ⟨hleft, hend⟩ := hinner hts
  -- the count is below the limit, so the walk goes on
  have hroom : ¬ Parser.nestingLimit ≤ (Cursor.before kinds depth ts).depth := Nat.not_le.2 hdepth
  refine ⟨hleft, ?_⟩
  rw [nested, apply_get_bind, if_neg hroom, apply_bind_of_ok (apply_modify _),
    apply_bind_of_ok (apply_attempt inner), apply_bind_of_ok (apply_modify _), apply_settle]
  show ((inner.apply (.before kinds (depth + 1) ts)).1,
    (⟨(inner.apply (.before kinds (depth + 1) ts)).2.position,
      (inner.apply (.before kinds (depth + 1) ts)).2.depth - 1⟩ : Cursor)) = _
  rw [hend]
  rfl

/-- A sign is taken; without one there is a power, at the end of the tokens too. -/
theorem follows_prefixed {levels : Nat} (hturns : kinds.length < turns)
    (hsigned : ∀ ts, Follows kinds depth signed ts (outcome (Parser.signed levels ts)))
    (ts : List Token) :
    Follows kinds depth (prefixed kinds turns signed) ts
      (outcome (Parser.signed (levels + 1) ts)) := by
  -- without a sign in front both go on with a power
  have hpower := follows_power hturns hsigned ts
  refine .peek ?_
  cases ts with
  | nil => exact hpower
  | cons t us =>
    rw [Parser.outcome_signed_succ]
    simp only [List.head?_cons, Option.map_some]
    cases t.kind with
    | minus => exact .advance ((hsigned us).map Expr.negate)
    | plus => exact .advance (hsigned us)
    | _ => exact hpower

end

/-- Signed phrases, by induction on the levels that the count leaves. -/
theorem follows_signed {turns levels calls : Nat} (hturns : kinds.length < turns)
    (hlevels : depth + levels = Parser.nestingLimit) (hcalls : levels < calls) (ts : List Token) :
    Follows kinds depth (signed kinds turns calls) ts (outcome (Parser.signed levels ts)) := by
  induction levels generalizing depth calls ts with
  | zero =>
    obtain ⟨calls, rfl⟩ := Nat.exists_eq_succ_of_ne_zero (Nat.ne_of_gt hcalls)
    intro hts
    -- no level is left, and the count says so
    have hfull : Parser.nestingLimit ≤ (Cursor.before kinds depth ts).depth := hlevels.ge
    refine ⟨List.suffix_rfl, ?_⟩
    rw [signed, nested, apply_get_bind, if_pos hfull]
    rfl
  | succ levels ih =>
    obtain ⟨calls, rfl⟩ := Nat.exists_eq_succ_of_ne_zero (Nat.ne_of_gt (Nat.zero_lt_of_lt hcalls))
    -- the phrase within has one level less, and one call less to come
    refine follows_nested (by omega) (follows_prefixed hturns (fun us => ?_) ts)
    exact ih (by omega) (by omega) us

section

variable {turns calls : Nat} (hturns : kinds.length < turns)
  (hcalls : Parser.nestingLimit < calls)

include hturns hcalls

theorem follows_expression (ts : List Token) :
    Follows kinds 0 (expression kinds turns calls) ts (outcome (Parser.expression ts)) :=
  follows_expressionOver hturns (follows_signed hturns (Nat.zero_add _) hcalls) ts

/-! ## Statements and programs -/

/-- What begins like an assignment is one; all else is an expression. -/
theorem follows_statement (ts : List Token) :
    Follows kinds 0 (statement kinds turns calls) ts (outcome (Parser.statement ts)) := by
  have hresult (hnone : Parser.assignment? ts = none) :
      Follows kinds 0 (do return Statement.result (← expression kinds turns calls)) ts
        (outcome (Parser.statement ts)) := by
    rw [Parser.outcome_statement_of_none hnone]
    exact (follows_expression hturns hcalls ts).map Statement.result
  refine .peek ?_
  cases ts with
  | nil => exact .peekAt_of_forall fun _ => hresult rfl
  | cons t us =>
    -- whether it is an assignment is told by the two tokens in front, none of which is taken yet
    refine .peekAt ?_
    simp only [List.head?_cons, Option.map_some]
    cases ht : t.kind with
    | identifier name =>
      cases us with
      | nil => exact hresult rfl
      | cons u rest =>
        simp only [List.head?_cons, Option.map_some]
        cases hu : u.kind with
        | assign =>
          rw [Parser.outcome_statement_of_kinds ht hu]
          refine .advance (.advance ?_)
          exact (follows_expression hturns hcalls rest).map (Statement.assign name)
        | _ => exact hresult (by simp only [Parser.assignment?, ht, hu])
    | _ => exact hresult (Parser.assignment?_eq_none_of_kind (by simp [ht]) us)

end

/-- Terminators are skipped, by induction on the turns. -/
theorem follows_skipTerminators {turns : Nat} {ts : List Token} (hturns : ts.length < turns) :
    Follows kinds depth (skipTerminators kinds turns) ts
      (.ok ((), Parser.skipTerminators ts)) := by
  -- on the turns: each one takes a terminator, or is the last
  induction turns generalizing ts with
  | zero => omega
  | succ turns ih =>
    refine .peek ?_
    cases ts with
    | nil => exact .pure () []
    | cons t us =>
      simp only [List.head?_cons, Option.map_some]
      cases hkind : t.kind with
      | terminator =>
        rw [Parser.skipTerminators_cons hkind]
        exact .advance (ih (by simpa using hturns))
      | _ =>
        rw [Parser.skipTerminators_of_ne (by simp [hkind])]
        exact .pure () (t :: us)

/-- Behind skipped terminators there are none to skip. -/
theorem skipTerminators_skipTerminators (ts : List Token) :
    Parser.skipTerminators (Parser.skipTerminators ts) = Parser.skipTerminators ts :=
  List.dropWhile_idempotent ..

/-- Terminators in front make no difference to a program. -/
theorem program_skipTerminators (ts : List Token) :
    Parser.program (Parser.skipTerminators ts) = Parser.program ts := by
  rw [Parser.program, Parser.program,
    Parser.statements_congr (skipTerminators_skipTerminators ts)]

/-- Statements behind skipped terminators, by induction on the turns. -/
theorem follows_statementsFrom {turns rounds : Nat} {statement : Walk Statement}
    (hturns : kinds.length < turns)
    (hstatement : ∀ ts, Follows kinds depth statement ts (outcome (Parser.statement ts)))
    {ts : List Token} (hrounds : ts.length < rounds) (hskipped : Parser.skipTerminators ts = ts)
    (ss : List Statement) :
    Follows kinds depth (statementsFrom kinds statement (skipTerminators kinds turns) rounds ss) ts
      ((Parser.program ts).mapValue (ss ++ ·)) := by
  induction rounds generalizing ts ss with
  | zero => omega
  | succ rounds ih =>
    refine .peek ?_
    cases ts with
    | nil =>
      rw [Parser.program, Parser.statements_of_skip_nil hskipped]
      show Follows kinds depth (pure ss) [] (.ok (ss ++ [], []))
      rw [List.append_nil]
      exact .pure ss []
    | cons t us =>
      rw [Parser.program_of_skip_cons hskipped, Outcome.mapValue_andThen]
      refine (hstatement (t :: us)).bind fun s rest hs => .peek ?_
      have hshorter : rest.length < (t :: us).length := outcome_shorter hs
      cases rest with
      | nil => exact .pure (ss ++ [s]) []
      | cons u rest =>
        simp only [List.head?_cons, Option.map_some]
        by_cases hkind : u.kind = .terminator
        · rw [hkind, Parser.programAfter_of_terminator hkind, Outcome.mapValue_mapValue]
          have hrest := Parser.length_skipTerminators_le rest
          have hlt : (Parser.skipTerminators rest).length < rounds := by
            simp only [List.length_cons] at hrounds hshorter
            omega
          have hmore := ih hlt (skipTerminators_skipTerminators rest) (ss ++ [s])
          simp only [program_skipTerminators, List.append_assoc] at hmore
          refine .of_length_le fun hlength => ?_
          -- the terminator that was seen is skipped with those behind it
          have hskip : Follows kinds depth (skipTerminators kinds turns) (u :: rest) _ :=
            follows_skipTerminators (Nat.lt_of_le_of_lt hlength hturns)
          rw [Parser.skipTerminators_cons hkind] at hskip
          exact hskip.andThen hmore
        · rw [Parser.programAfter, Parser.afterStatement,
            if_neg fun hterm => hkind (Parser.isTerminator_iff.1 hterm)]
          -- what stands behind the statement is neither a terminator nor the end
          have hstop : Follows kinds depth (stop (.missing .operatorOrEnd) : Walk (List Statement))
            (u :: rest) (.error ⟨.missing .operatorOrEnd, u :: rest⟩) := .stop _ _
          cases hother : u.kind with
          | terminator => exact absurd hother hkind
          | _ => exact hstop

/-- The walk over a program, terminators first. -/
theorem follows_program {turns calls : Nat} (hturns : kinds.length < turns)
    (hcalls : Parser.nestingLimit < calls) (ts : List Token) :
    Follows kinds 0 (program kinds turns calls) ts (Parser.program ts) := by
  refine .of_length_le fun hlength => ?_
  have hlt : ts.length < turns := Nat.lt_of_le_of_lt hlength hturns
  have hrest : (Parser.skipTerminators ts).length < turns :=
    Nat.lt_of_le_of_lt (Parser.length_skipTerminators_le ts) hlt
  have hstatements := follows_statementsFrom hturns (follows_statement hturns hcalls) hrest
    (skipTerminators_skipTerminators ts) []
  simp only [program_skipTerminators, List.nil_append] at hstatements
  rw [Outcome.mapValue_id] at hstatements
  exact (follows_skipTerminators hlt).andThen hstatements

end Walk

end FormulaMachine
