import FormulaMachine.Proofs.Grammar.Outcome
import FormulaMachine.Proofs.Grammar.Unique

/-!
# Derivations are found

On the tokens of a derivation that ends where it ends, a parser answers what the derivation stands
for if its nesting is within the limit, and stops for nesting if it is not. The induction is on the
derivation, for any limit and any tokens behind.

* **`Limited`**: an answer within the limit, a stop for nesting beyond it.
* **`Tree.parses`**: the parsers of phrases on the tokens of a derivation.
-/

namespace FormulaMachine.Grammar

/-- What `nesting` levels of signed phrases come to where `levels` of them are allowed: the answer
`b`, or a stop for nesting. -/
def Limited {β : Type} (levels nesting : Nat) (r : Except Stop β) (b : β) : Prop :=
  (nesting ≤ levels → r = .ok b) ∧
    (levels < nesting → ∃ ahead, r = .error ⟨.nestedTooDeeply, ahead⟩)

namespace Limited

variable {α β : Type} {levels n m : Nat}

/-- A part without signed phrases answers whatever the limit is. -/
theorem ok (b : β) : Limited levels 0 (.ok b) b :=
  ⟨fun _ => rfl, fun h => absurd h (Nat.not_lt_zero _)⟩

/-- The deeper of two parts decides, whichever of them exceeds the limit first. -/
theorem andThen {r : Outcome α} {next : α → List Token → Except Stop β} {a : α}
    {rest : List Token} {b : β} (hr : Limited levels n r (a, rest))
    (hnext : Limited levels m (next a rest) b) :
    Limited levels (max n m) (r.andThen next) b := by
  refine ⟨fun h => ?_, fun h => ?_⟩
  · have hn : n ≤ levels := by omega
    have hm : m ≤ levels := by omega
    rw [hr.1 hn]
    exact hnext.1 hm
  -- beyond the limit: the first part stops, or it answers and the second one stops
  · by_cases hn : n ≤ levels
    · have hm : levels < m := by omega
      rw [hr.1 hn]
      exact hnext.2 hm
    · obtain ⟨ahead, hstop⟩ := hr.2 (by omega)
      exact ⟨ahead, by rw [hstop]; rfl⟩

/-- A part without signed phrases of its own behind the first one. -/
theorem andThen_ok {r : Outcome α} {next : α → List Token → Except Stop β} {a : α}
    {rest : List Token} {b : β} (hr : Limited levels n r (a, rest)) (hnext : next a rest = .ok b) :
    Limited levels n (r.andThen next) b := by
  rw [← Nat.max_zero n]
  exact hr.andThen (hnext ▸ ok b)

theorem mapValue {r : Outcome α} {a : α} {rest : List Token} (hr : Limited levels n r (a, rest))
    (f : α → β) : Limited levels n (r.mapValue f) (f a, rest) :=
  hr.andThen_ok rfl

/-- One more signed phrase around, and one more allowed. -/
theorem deeper {r : Except Stop β} {b : β} (h : Limited levels n r b) :
    Limited (levels + 1) (n + 1) r b :=
  ⟨fun hle => h.1 (by omega), fun hlt => h.2 (by omega)⟩

end Limited

/-- Where no signed phrase is allowed, each one is a stop. -/
theorem limited_signed_zero (n : Nat) (ts : List Token) (b : Expr × List Token) :
    Limited 0 (n + 1) (outcome (Parser.signed 0 ts)) b :=
  ⟨fun h => absurd h (Nat.not_succ_le_zero n), fun _ => ⟨ts, rfl⟩⟩

/-- What the parser of a phrase does on tokens in front of which it is called. -/
def Phrase.answer (levels : Nat) : (phrase : Phrase) → Tree phrase → List Token → List Token → Prop
  | .expr category, t, ts, rest =>
    Limited levels t.nesting (outcome (category.parser levels ts)) (t.value, rest)
  | .links level, t, ts, rest =>
    ∀ left, Limited levels t.nesting
      (outcome (Parser.chainFrom level.operator? (level.operand.parser levels) left ts))
      (t.value left, rest)
  | .arguments, t, ts, rest =>
    Limited levels t.nesting
      (outcome (Parser.argumentsFrom ((Category.chain .sums).parser levels) ts)) (t.value, rest)

/-- Behind the base of a power that ends, nothing is taken. -/
theorem afterBase_of_ends {signed : Parser Expr} {base : Expr} {rest : List Token}
    (h : Ends (.expr .power) (rest.map Token.kind)) :
    Parser.afterBase signed base rest = .ok (base, rest) := by
  cases rest with
  | nil => rfl
  | cons t us =>
    rw [List.map_cons, ends_cons] at h
    rw [Parser.afterBase]
    split
    · next hkind => exact absurd (.inl hkind) h
    · rfl

/-- Behind a name that stands for itself, nothing is taken. -/
theorem afterName_of_ends {expression : Parser Expr} {name : String} {rest : List Token}
    (h : Ends (.expr .primary) (rest.map Token.kind)) :
    Parser.afterName expression name rest = .ok (.var name, rest) := by
  cases rest with
  | nil => rfl
  | cons t us =>
    rw [List.map_cons, ends_cons] at h
    rw [Parser.afterName]
    split
    · next hkind => exact absurd hkind h
    · rfl

/-- Behind a chain that ends, nothing is taken. -/
theorem chainFrom_of_ends {level : Level} {operand : Parser Expr} {left : Expr}
    {rest : List Token} (h : Ends (.links level) (rest.map Token.kind)) :
    outcome (Parser.chainFrom level.operator? operand left rest) = .ok (left, rest) := by
  cases rest with
  | nil => exact Parser.outcome_chainFrom_nil ..
  | cons t us =>
    rw [Parser.outcome_chainFrom_cons]
    cases hop : level.operator? t.kind with
    | none => rfl
    | some op =>
      obtain ⟨hmember, hkind⟩ := Level.operator?_eq_some_iff.1 hop
      rw [List.map_cons, hkind] at h
      exact absurd h (not_ends_operator hmember)

/-- The parser of signed phrases hands over to the one of powers in front of a primary phrase. -/
theorem outcome_signed_of_startsPrimary (levels : Nat) {t : Token} {us : List Token}
    (h : StartsPrimary t.kind) :
    outcome (Parser.signed (levels + 1) (t :: us)) =
      outcome (Parser.power (Parser.signed levels) (t :: us)) := by
  rw [Parser.outcome_signed_succ]
  generalize t.kind = k at h
  -- what begins a primary phrase is no sign
  cases h <;> rfl

/-- In front of a phrase, no closing parenthesis ends the arguments at once. -/
theorem arguments_of_starts {expression : Parser Expr} {t : Token} {us : List Token}
    (h : Category.signed.Starts t.kind) :
    Parser.arguments expression (t :: us) = Parser.argumentsFrom expression (t :: us) := by
  simp only [Parser.arguments]
  split
  · next hkind => exact absurd (hkind ▸ h) not_starts_closeParen
  · rfl

/-- On the tokens of the tree, where they end the phrase, its parser answers what the tree stands
for, whatever the limit. -/
def Tree.Parses {phrase : Phrase} (t : Tree phrase) : Prop :=
  ∀ (levels : Nat) {us rest : List Token}, us.map Token.kind = t.yield →
    Ends phrase (rest.map Token.kind) → phrase.answer levels t (us ++ rest) rest

namespace Tree

/-- The first operand is parsed up to the links, and the links up to the end of the chain. -/
theorem parses_chain {level : Level} {first : Tree (.expr level.operand)}
    {links : Tree (.links level)} (ihfirst : first.Parses) (ihlinks : links.Parses) :
    (chain first links).Parses := by
  intro levels us rest hus hends
  obtain ⟨vs, ws, rfl, hvs, hws⟩ := List.map_eq_append_iff.1 hus
  -- the first operand ends where the links begin
  have hmid : Ends (.expr level.operand) ((ws ++ rest).map Token.kind) := by
    rw [List.map_append, hws]
    exact links.ends_operand hends
  have hfirst := ihfirst levels hvs hmid
  have hlinks := ihlinks levels hws hends
  rw [Phrase.answer, Category.parser_chain, Parser.outcome_chain, List.append_assoc]
  exact hfirst.andThen (hlinks first.value)

/-- Links that are done take nothing. -/
theorem parses_done {level : Level} : (done : Tree (.links level)).Parses := by
  intro levels us rest hus hends left
  rw [List.map_eq_nil_iff.1 hus, List.nil_append, chainFrom_of_ends hends]
  exact .ok _

/-- The operator is found by its token, the operand is parsed up to the next links. -/
theorem parses_link {level : Level} {op : Operator} (member : op ∈ level.operators)
    {right : Tree (.expr level.operand)} {links : Tree (.links level)} (ihright : right.Parses)
    (ihlinks : links.Parses) : (link op member right links).Parses := by
  intro levels us rest hus hends left
  obtain ⟨t, us, rfl, hkind, hus⟩ := List.map_eq_cons_iff.1 hus
  obtain ⟨vs, ws, rfl, hvs, hws⟩ := List.map_eq_append_iff.1 hus
  -- the operand ends where the further links begin
  have hmid : Ends (.expr level.operand) ((ws ++ rest).map Token.kind) := by
    rw [List.map_append, hws]
    exact links.ends_operand hends
  have hright := ihright levels hvs hmid
  have hlinks := ihlinks levels hws hends
  rw [List.cons_append, Parser.outcome_chainFrom_cons,
    Level.operator?_eq_some_iff.2 ⟨member, hkind⟩, List.append_assoc]
  exact hright.andThen (hlinks _)

/-- A sign uses up one of the levels, and the operand has those that are left. -/
theorem parses_minus {operand : Tree (.expr .signed)} (ih : operand.Parses) :
    (minus operand).Parses := by
  intro levels us rest hus hends
  obtain ⟨t, us, rfl, hkind, hus⟩ := List.map_eq_cons_iff.1 hus
  -- a sign needs a level of its own
  cases levels with
  | zero => exact limited_signed_zero _ _ _
  | succ levels =>
    show Limited _ _ (outcome (Parser.signed (levels + 1) (t :: (us ++ rest)))) _
    rw [Parser.outcome_signed_succ, hkind]
    exact (Limited.mapValue (ih levels hus hends) Expr.negate).deeper

/-- As for `-`, except that the operand is the answer as it is. -/
theorem parses_plus {operand : Tree (.expr .signed)} (ih : operand.Parses) :
    (plus operand).Parses := by
  intro levels us rest hus hends
  obtain ⟨t, us, rfl, hkind, hus⟩ := List.map_eq_cons_iff.1 hus
  cases levels with
  | zero => exact limited_signed_zero _ _ _
  | succ levels =>
    show Limited _ _ (outcome (Parser.signed (levels + 1) (t :: (us ++ rest)))) _
    rw [Parser.outcome_signed_succ, hkind]
    exact Limited.deeper (ih levels hus hends)

/-- A signed phrase without a sign uses up a level as well. -/
theorem parses_unsigned {operand : Tree (.expr .power)} (ih : operand.Parses) :
    (unsigned operand).Parses := by
  intro levels us rest hus hends
  cases levels with
  | zero => exact limited_signed_zero _ _ _
  | succ levels =>
    have hoperand := ih levels hus hends
    -- a power does not begin with a sign, so the parser of powers is called
    obtain ⟨k, ks, hyield, hstarts⟩ := operand.begins
    rw [yield, hyield] at hus
    obtain ⟨t, us, rfl, rfl, -⟩ := List.map_eq_cons_iff.1 hus
    show Limited _ _ (outcome (Parser.signed (levels + 1) (t :: (us ++ rest)))) _
    rw [outcome_signed_of_startsPrimary levels hstarts]
    exact Limited.deeper hoperand

/-- Without an exponent the base is the answer. -/
theorem parses_bare {operand : Tree (.expr .primary)} (ih : operand.Parses) :
    (bare operand).Parses := by
  intro levels us rest hus hends
  have hoperand := ih levels hus hends.power
  show Limited _ _ (outcome (Parser.power _ _)) _
  rw [Parser.outcome_power]
  exact hoperand.andThen_ok (afterBase_of_ends hends)

/-- Base and exponent are parsed with the same levels, and the deeper one decides. -/
theorem parses_raised {base : Tree (.expr .primary)} {exponent : Tree (.expr .signed)}
    (ihbase : base.Parses) (ihexponent : exponent.Parses) : (raised base exponent).Parses := by
  intro levels us rest hus hends
  obtain ⟨vs, ws, rfl, hvs, hws⟩ := List.map_eq_append_iff.1 hus
  obtain ⟨t, ws, rfl, hkind, hws⟩ := List.map_eq_cons_iff.1 hws
  -- the base ends in front of `^`
  have hmid : Ends (.expr .primary) ((t :: ws ++ rest).map Token.kind) := by
    rw [List.cons_append, List.map_cons, hkind]
    exact ends_caret _
  have hbase := ihbase levels hvs hmid
  have hexponent := ihexponent levels hws hends
  show Limited _ _ (outcome (Parser.power _ _)) _
  rw [Parser.outcome_power, List.append_assoc]
  refine hbase.andThen ?_
  simp only [List.cons_append, Parser.afterBase, hkind]
  exact Limited.mapValue hexponent (Expr.binary .pow base.value)

theorem parses_number (value : Float) : (number value).Parses := by
  intro levels us rest hus hends
  obtain ⟨t, us, rfl, hkind, hus⟩ := List.map_eq_cons_iff.1 hus
  obtain rfl := List.map_eq_nil_iff.1 hus
  show Limited _ _ (outcome (Parser.primary _ (t :: rest))) _
  rw [Parser.outcome_primary, hkind]
  exact .ok _

/-- A name is taken for a variable unless a parenthesis follows. -/
theorem parses_name (text : String) : (name text).Parses := by
  intro levels us rest hus hends
  obtain ⟨t, us, rfl, hkind, hus⟩ := List.map_eq_cons_iff.1 hus
  obtain rfl := List.map_eq_nil_iff.1 hus
  show Limited _ _ (outcome (Parser.primary _ (t :: rest))) _
  rw [Parser.outcome_primary, hkind]
  simp only
  -- no parenthesis follows, so the name stands for itself
  rw [afterName_of_ends hends]
  exact .ok _

/-- Name and both parentheses are taken at once. -/
theorem parses_callNone (function : String) : (callNone function).Parses := by
  intro levels us rest hus hends
  obtain ⟨t, us, rfl, hkind, hus⟩ := List.map_eq_cons_iff.1 hus
  obtain ⟨open', us, rfl, hopen, hus⟩ := List.map_eq_cons_iff.1 hus
  obtain ⟨close, us, rfl, hclose, hus⟩ := List.map_eq_cons_iff.1 hus
  obtain rfl := List.map_eq_nil_iff.1 hus
  show Limited _ _ (outcome (Parser.primary _ (t :: open' :: close :: rest))) _
  rw [Parser.outcome_primary, hkind]
  -- both parentheses are seen before any argument is looked for
  simp only [Parser.afterName, hopen, Parser.arguments, hclose]
  exact .ok _

/-- Behind the parenthesis the arguments are parsed, which take the closing one. -/
theorem parses_callSome (function : String) {arguments : Tree .arguments} (ih : arguments.Parses) :
    (callSome function arguments).Parses := by
  intro levels us rest hus hends
  obtain ⟨t, us, rfl, hkind, hus⟩ := List.map_eq_cons_iff.1 hus
  obtain ⟨open', us, rfl, hopen, hus⟩ := List.map_eq_cons_iff.1 hus
  have harguments := ih levels hus (ends_arguments (rest.map Token.kind))
  -- arguments do not begin with the parenthesis that ends them
  obtain ⟨k, ks, hyield, hstarts⟩ := arguments.begins
  rw [hyield] at hus
  obtain ⟨first, us, rfl, rfl, -⟩ := List.map_eq_cons_iff.1 hus
  show Limited _ _ (outcome (Parser.primary _ (t :: open' :: first :: (us ++ rest)))) _
  rw [Parser.outcome_primary, hkind]
  simp only [Parser.afterName, hopen]
  rw [arguments_of_starts hstarts]
  exact Limited.mapValue harguments (Expr.call function)

/-- The inner expression is parsed up to the closing parenthesis. -/
theorem parses_parens {inner : Tree (.expr (.chain .sums))} (ih : inner.Parses) :
    (parens inner).Parses := by
  intro levels us rest hus hends
  obtain ⟨t, us, rfl, hkind, hus⟩ := List.map_eq_cons_iff.1 hus
  obtain ⟨vs, ws, rfl, hvs, hws⟩ := List.map_eq_append_iff.1 hus
  obtain ⟨close, ws, rfl, hclose, hws⟩ := List.map_eq_cons_iff.1 hws
  obtain rfl := List.map_eq_nil_iff.1 hws
  -- the inner expression ends in front of the closing parenthesis
  have hmid : Ends (.expr (.chain .sums)) ((close :: rest).map Token.kind) := by
    rw [List.map_cons, hclose]
    exact ends_closeParen _ _
  have hinner := ih levels hvs hmid
  show Limited _ _ (outcome (Parser.primary _ (t :: (vs ++ [close] ++ rest)))) _
  rw [Parser.outcome_primary, hkind, List.append_assoc]
  refine hinner.andThen_ok ?_
  simp only [Parser.afterInner, hclose]
  rfl

/-- The last argument is parsed up to the closing parenthesis, which ends the arguments. -/
theorem parses_lastArgument {argument : Tree (.expr (.chain .sums))} (ih : argument.Parses) :
    (lastArgument argument).Parses := by
  intro levels us rest hus hends
  obtain ⟨vs, ws, rfl, hvs, hws⟩ := List.map_eq_append_iff.1 hus
  obtain ⟨close, ws, rfl, hclose, hws⟩ := List.map_eq_cons_iff.1 hws
  obtain rfl := List.map_eq_nil_iff.1 hws
  have hmid : Ends (.expr (.chain .sums)) ((close :: rest).map Token.kind) := by
    rw [List.map_cons, hclose]
    exact ends_closeParen _ _
  have hargument := ih levels hvs hmid
  rw [Phrase.answer, Parser.outcome_argumentsFrom, List.append_assoc]
  refine hargument.andThen_ok ?_
  simp only [Parser.afterArgument, hclose]
  rfl

/-- An argument is parsed up to the comma, and further arguments behind it. -/
theorem parses_nextArgument {argument : Tree (.expr (.chain .sums))} {others : Tree .arguments}
    (ihargument : argument.Parses) (ihothers : others.Parses) :
    (nextArgument argument others).Parses := by
  intro levels us rest hus hends
  obtain ⟨vs, ws, rfl, hvs, hws⟩ := List.map_eq_append_iff.1 hus
  obtain ⟨comma, ws, rfl, hcomma, hws⟩ := List.map_eq_cons_iff.1 hws
  -- the argument ends in front of the comma
  have hmid : Ends (.expr (.chain .sums)) ((comma :: ws ++ rest).map Token.kind) := by
    rw [List.cons_append, List.map_cons, hcomma]
    exact ends_comma _ _
  have hargument := ihargument levels hvs hmid
  have hothers := ihothers levels hws hends
  rw [Phrase.answer, Parser.outcome_argumentsFrom, List.append_assoc]
  refine hargument.andThen ?_
  simp only [List.cons_append, Parser.afterArgument, hcomma]
  exact Limited.mapValue hothers (argument.value :: ·)

/-- Every derivation is found. Induction on the tree, one lemma for each constructor; the limit and
the tokens behind are arbitrary in each. -/
theorem parses {phrase : Phrase} (t : Tree phrase) : t.Parses := by
  induction t with
  | chain _ _ ihfirst ihlinks => exact parses_chain ihfirst ihlinks
  | done => exact parses_done
  | link _ member _ _ ihright ihlinks => exact parses_link member ihright ihlinks
  | minus _ ih => exact parses_minus ih
  | plus _ ih => exact parses_plus ih
  | unsigned _ ih => exact parses_unsigned ih
  | bare _ ih => exact parses_bare ih
  | raised _ _ ihbase ihexponent => exact parses_raised ihbase ihexponent
  | number value => exact parses_number value
  | name text => exact parses_name text
  | callNone function => exact parses_callNone function
  | callSome function _ ih => exact parses_callSome function ih
  | parens _ ih => exact parses_parens ih
  | lastArgument _ ih => exact parses_lastArgument ih
  | nextArgument _ _ ihargument ihothers => exact parses_nextArgument ihargument ihothers

end Tree

end FormulaMachine.Grammar
