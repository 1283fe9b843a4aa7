import FormulaMachine.Proofs.Grammar.Outcome

/-!
# Answers are derivations

Whatever a parser answers, the tokens it has taken have a derivation that stands for the answer, with
no more nesting than was allowed. Each lemma takes the parsers it builds on as given, so that the
recursion through parentheses, arguments, signs and exponents is closed once, over the levels
allowed.

* **`Sound`**: a parser all of whose answers are derivations.
* **`chain_sound`**, **`argumentsFrom_sound`**, **`primary_sound`**, **`power_sound`**: one parser over
  another one.
* **`signed_sound`**, **`expression_sound`**: the parsers of the grammar.
-/

namespace FormulaMachine.Grammar

/-- The tokens taken off the front of `ts` to leave `rest` have a derivation that stands for `value`
and has at most `levels` signed phrases within each other. -/
def Derives (phrase : Phrase) (levels : Nat) (ts : List Token) (value : phrase.Value)
    (rest : List Token) : Prop :=
  ∃ (t : Tree phrase) (us : List Token),
    us ++ rest = ts ∧ us.map Token.kind = t.yield ∧ t.value = value ∧ t.nesting ≤ levels

/-- All answers of a parser are derivations. -/
def Sound (category : Category) (levels : Nat) (parser : Parser Expr) : Prop :=
  ∀ ⦃ts : List Token⦄ ⦃e : Expr⦄ ⦃rest : List Token⦄, outcome (parser ts) = .ok (e, rest) →
    Derives (.expr category) levels ts e rest

/-- An answer at the end means that there was one on the way. -/
theorem andThen_eq_ok {α β : Type} {r : Outcome α} {next : α → List Token → Except Stop β} {b : β}
    (h : r.andThen next = .ok b) : ∃ a rest, r = .ok (a, rest) ∧ next a rest = .ok b := by
  cases r with
  | error stop => cases h
  | ok answer => exact ⟨answer.1, answer.2, rfl, h⟩

/-- An answer with a changed value comes from an answer on the same tokens left. -/
theorem mapValue_eq_ok {α β : Type} {f : α → β} {r : Outcome α} {b : β} {rest : List Token}
    (h : r.mapValue f = .ok (b, rest)) : ∃ a, r = .ok (a, rest) ∧ f a = b := by
  obtain ⟨a, rest', hr, hf⟩ := andThen_eq_ok h
  cases hf
  exact ⟨a, hr, rfl⟩

variable {levels : Nat}

/-! ## Chains -/

/-- The links behind an expression, by induction on the number of tokens. -/
theorem chainFrom_sound {level : Level} {operand : Parser Expr}
    (hoperand : Sound level.operand levels operand) (left : Expr) (ts : List Token) {e : Expr}
    {rest : List Token}
    (h : outcome (Parser.chainFrom level.operator? operand left ts) = .ok (e, rest)) :
    ∃ (t : Tree (.links level)) (us : List Token),
      us ++ rest = ts ∧ us.map Token.kind = t.yield ∧ t.value left = e ∧ t.nesting ≤ levels := by
  induction hn : ts.length using Nat.strong_induction_on generalizing left ts with
  | _ n ih =>
    cases ts with
    | nil =>
      rw [Parser.outcome_chainFrom_nil] at h
      cases h
      exact ⟨.done, [], rfl, rfl, rfl, Nat.zero_le _⟩
    | cons t us =>
      rw [Parser.outcome_chainFrom_cons] at h
      cases hop : level.operator? t.kind with
      -- the token is no operator of the chain, so the chain has ended in front of it
      | none =>
        rw [hop] at h
        cases h
        exact ⟨.done, [], rfl, rfl, rfl, Nat.zero_le _⟩
      | some op =>
        rw [hop] at h
        obtain ⟨hmember, hkind⟩ := Level.operator?_eq_some_iff.1 hop
        obtain ⟨right, mid, hright, hlinks⟩ := andThen_eq_ok h
        obtain ⟨tree, vs, rfl, hvs, rfl, hdepth⟩ := hoperand hright
        -- the operator and an operand are gone
        have hshorter : mid.length < n := by
          rw [← hn, List.length_cons, List.length_append]
          omega
        obtain ⟨links, ws, rfl, hws, rfl, hdepth'⟩ := ih _ hshorter _ _ hlinks rfl
        refine ⟨.link op hmember tree links, t :: (vs ++ ws), by simp, ?_, rfl, ?_⟩
        · rw [List.map_cons, List.map_append, hkind, hvs, hws, Tree.yield]
        · exact Nat.max_le.2 ⟨hdepth, hdepth'⟩

/-- A chain is derived from its first operand and the links behind it. -/
theorem chain_sound {level : Level} {operand : Parser Expr}
    (hoperand : Sound level.operand levels operand) :
    Sound (.chain level) levels (Parser.chain level.operator? operand) := by
  intro ts e rest h
  rw [Parser.outcome_chain] at h
  obtain ⟨left, mid, hfirst, hlinks⟩ := andThen_eq_ok h
  obtain ⟨first, us, rfl, hus, rfl, hdepth⟩ := hoperand hfirst
  obtain ⟨links, vs, rfl, hvs, rfl, hdepth'⟩ := chainFrom_sound hoperand _ _ hlinks
  refine ⟨.chain first links, us ++ vs, List.append_assoc .., ?_, rfl, ?_⟩
  · rw [List.map_append, hus, hvs, Tree.yield]
  · exact Nat.max_le.2 ⟨hdepth, hdepth'⟩

/-- Expressions are chains of chains over the signed phrases. -/
theorem expressionOver_sound {signed : Parser Expr} (hsigned : Sound .signed levels signed) :
    Sound (.chain .sums) levels (Parser.expressionOver signed) :=
  @chain_sound levels .sums _ (@chain_sound levels .products _ hsigned)

/-! ## Arguments and primary phrases -/

/-- The arguments of a call, by induction on the number of tokens. -/
theorem argumentsFrom_sound {expression : Parser Expr}
    (hexpression : Sound (.chain .sums) levels expression) (ts : List Token) {es : List Expr}
    {rest : List Token} (h : outcome (Parser.argumentsFrom expression ts) = .ok (es, rest)) :
    Derives .arguments levels ts es rest := by
  induction hn : ts.length using Nat.strong_induction_on generalizing ts es with
  | _ n ih =>
    rw [Parser.outcome_argumentsFrom] at h
    obtain ⟨e, mid, hfirst, hafter⟩ := andThen_eq_ok h
    obtain ⟨argument, us, rfl, hus, rfl, hdepth⟩ := hexpression hfirst
    cases mid with
    | nil => cases hafter
    | cons t ts =>
      rw [Parser.afterArgument.eq_def] at hafter
      simp only at hafter
      -- a comma, the closing parenthesis, or neither
      split at hafter
      · next hkind =>
        obtain ⟨others, hothers, rfl⟩ := mapValue_eq_ok hafter
        -- at least the comma has been taken
        have hshorter : ts.length < n := by
          rw [← hn, List.length_append, List.length_cons]
          omega
        obtain ⟨tree, vs, rfl, hvs, rfl, hdepth'⟩ := ih _ hshorter _ hothers rfl
        refine ⟨.nextArgument argument tree, us ++ t :: vs, by simp, ?_, rfl, ?_⟩
        · rw [List.map_append, List.map_cons, hus, hkind, hvs, Tree.yield]
        · exact Nat.max_le.2 ⟨hdepth, hdepth'⟩
      · next hkind =>
        cases hafter
        refine ⟨.lastArgument argument, us ++ [t], by simp, ?_, rfl, hdepth⟩
        rw [List.map_append, List.map_singleton, hus, hkind, Tree.yield]
      · cases hafter

/-- Behind a name: a call with or without arguments, or nothing that belongs to the name. -/
theorem afterName_sound {expression : Parser Expr}
    (hexpression : Sound (.chain .sums) levels expression) {t : Token} {name : String}
    (hkind : t.kind = .identifier name) {us : List Token} {e : Expr} {rest : List Token}
    (h : Parser.afterName expression name us = .ok (e, rest)) :
    Derives (.expr .primary) levels (t :: us) e rest := by
  -- a name without a parenthesis behind it is a variable
  have hname (hvar : (.ok (.var name, us) : Outcome Expr) = .ok (e, rest)) :
      Derives (.expr .primary) levels (t :: us) e rest := by
    cases hvar
    exact ⟨.name name, [t], rfl, by rw [List.map_singleton, hkind, Tree.yield], rfl,
      Nat.zero_le _⟩
  cases us with
  | nil => exact hname h
  | cons open' us =>
    rw [Parser.afterName.eq_def] at h
    simp only at h
    split at h
    · next hopen =>
      obtain ⟨es, hcall, rfl⟩ := mapValue_eq_ok h
      -- at the end of the tokens nothing says that there are no arguments
      cases us with
      | nil =>
        obtain ⟨tree, us, hus, hyield, rfl, hdepth⟩ := argumentsFrom_sound hexpression [] hcall
        refine ⟨.callSome name tree, t :: open' :: us, by rw [← hus]; rfl, ?_, rfl, hdepth⟩
        rw [List.map_cons, List.map_cons, hkind, hopen, hyield, Tree.yield]
      | cons close us =>
        simp only [Parser.arguments] at hcall
        split at hcall
        -- the closing parenthesis comes at once, so there are no arguments
        · next hclose =>
          cases hcall
          refine ⟨.callNone name, [t, open', close], rfl, ?_, rfl, Nat.zero_le _⟩
          simp only [List.map_cons, List.map_nil, hkind, hopen, hclose, Tree.yield]
        · obtain ⟨tree, vs, hvs, hyield, rfl, hdepth⟩ := argumentsFrom_sound hexpression _ hcall
          refine ⟨.callSome name tree, t :: open' :: vs, by rw [← hvs]; rfl, ?_, rfl, hdepth⟩
          rw [List.map_cons, List.map_cons, hkind, hopen, hyield, Tree.yield]
    · exact hname h

/-- A primary phrase is derived from the token that it begins with. -/
theorem primary_sound {expression : Parser Expr}
    (hexpression : Sound (.chain .sums) levels expression) :
    Sound .primary levels (Parser.primary expression) := by
  intro ts e rest h
  cases ts with
  | nil => cases h
  | cons t us =>
    rw [Parser.outcome_primary] at h
    -- a number, a name, a parenthesis, or what begins no primary phrase
    split at h
    · next value hkind =>
      cases h
      exact ⟨.number value, [t], rfl, by rw [List.map_singleton, hkind, Tree.yield], rfl,
        Nat.zero_le _⟩
    · next name hkind => exact afterName_sound hexpression hkind h
    · next hopen =>
      obtain ⟨e', mid, hinner, hafter⟩ := andThen_eq_ok h
      obtain ⟨inner, us, rfl, hus, rfl, hdepth⟩ := hexpression hinner
      cases mid with
      | nil => cases hafter
      | cons close ts =>
        rw [Parser.afterInner.eq_def] at hafter
        simp only at hafter
        split at hafter
        · next hclose =>
          cases hafter
          refine ⟨.parens inner, t :: (us ++ [close]), by simp, ?_, rfl, hdepth⟩
          rw [List.map_cons, List.map_append, List.map_singleton, hopen, hus, hclose, Tree.yield]
        · cases hafter
    · cases h

/-! ## Powers and signs -/

/-- A power is derived from its base, with an exponent if `^` follows. -/
theorem power_sound {signed : Parser Expr} (hsigned : Sound .signed levels signed) :
    Sound .power levels (Parser.power signed) := by
  intro ts e rest h
  have hexpression := expressionOver_sound hsigned
  rw [Parser.outcome_power] at h
  obtain ⟨b, mid, hbase, hafter⟩ := andThen_eq_ok h
  obtain ⟨base, us, rfl, hus, rfl, hdepth⟩ := primary_sound hexpression hbase
  -- what is not followed by an exponent is a power by itself
  have hbare (hok : (.ok (base.value, mid) : Outcome Expr) = .ok (e, rest)) :
      Derives (.expr .power) levels (us ++ mid) e rest := by
    cases hok
    exact ⟨.bare base, us, rfl, hus, rfl, hdepth⟩
  cases mid with
  | nil => exact hbare hafter
  | cons t ts =>
    rw [Parser.afterBase.eq_def] at hafter
    simp only at hafter
    split at hafter
    · next hcaret =>
      obtain ⟨e', hexponent, rfl⟩ := mapValue_eq_ok hafter
      obtain ⟨exponent, vs, rfl, hvs, rfl, hdepth'⟩ := hsigned hexponent
      refine ⟨.raised base exponent, us ++ t :: vs, by simp, ?_, rfl, ?_⟩
      · rw [List.map_append, List.map_cons, hus, hcaret, hvs, Tree.yield]
      · exact Nat.max_le.2 ⟨hdepth, hdepth'⟩
    · exact hbare hafter

/-- Signed phrases, by induction on the levels allowed: every parser within a signed phrase has one
level less. -/
theorem signed_sound (levels : Nat) : Sound .signed levels (Parser.signed levels) := by
  induction levels with
  | zero =>
    intro ts e rest h
    cases h
  | succ levels ih =>
    intro ts e rest h
    -- what has no sign is a power, one level further in
    have hunsigned (hpower : outcome (Parser.power (Parser.signed levels) ts) = .ok (e, rest)) :
        Derives (.expr .signed) (levels + 1) ts e rest := by
      obtain ⟨operand, us, hus, hyield, rfl, hdepth⟩ := power_sound ih hpower
      exact ⟨.unsigned operand, us, hus, hyield, rfl, Nat.succ_le_succ hdepth⟩
    cases ts with
    | nil => exact hunsigned h
    | cons t us =>
      rw [Parser.outcome_signed_succ] at h
      -- a sign, or whatever begins a power
      split at h
      · next hkind =>
        obtain ⟨e', hoperand, rfl⟩ := mapValue_eq_ok h
        obtain ⟨operand, us, rfl, hus, rfl, hdepth⟩ := ih hoperand
        refine ⟨.minus operand, t :: us, rfl, ?_, rfl, Nat.succ_le_succ hdepth⟩
        rw [List.map_cons, hkind, hus, Tree.yield]
      · next hkind =>
        obtain ⟨operand, us, rfl, hus, rfl, hdepth⟩ := ih h
        refine ⟨.plus operand, t :: us, rfl, ?_, rfl, Nat.succ_le_succ hdepth⟩
        rw [List.map_cons, hkind, hus, Tree.yield]
      · exact hunsigned h

theorem expression_sound : Sound (.chain .sums) Parser.nestingLimit Parser.expression :=
  expressionOver_sound (signed_sound _)

end FormulaMachine.Grammar
