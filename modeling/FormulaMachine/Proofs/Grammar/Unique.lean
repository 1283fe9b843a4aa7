import FormulaMachine.Proofs.Grammar.Tree

/-!
# One tree for the tokens

The grammar is read from left to right with one token ahead: the first token of a phrase says which
derivation it has, and the token behind a phrase says that it ends there. So tokens have one
derivation at most, and it is found without going back.

* **`Tree.begins`**: the tokens that a phrase can begin with.
* **`Ends`**: no token comes next that would belong to the phrase.
* **`Tree.eq_of_append`**: of two phrases that end where they end, in front of whatever, the tokens
  determine the tree and its end.
* **`ProgramTree.yield_inj`**: a program has one derivation.
-/

namespace FormulaMachine

theorem Operator.token_inj {op op' : Operator} (h : op.token = op'.token) : op = op' := by
  cases op <;> cases op' <;> first | rfl | cases h

namespace Grammar

/-! ## What a phrase begins with -/

/-- The tokens that primary phrases begin with. -/
inductive StartsPrimary : TokenKind → Prop where
  | number (value : Float) : StartsPrimary (.number value)
  | identifier (name : String) : StartsPrimary (.identifier name)
  | openParen : StartsPrimary .openParen

/-- The tokens that phrases of a category begin with. -/
def Category.Starts : Category → TokenKind → Prop
  | .primary, k | .power, k => StartsPrimary k
  | .signed, k | .chain _, k => StartsPrimary k ∨ k = .minus ∨ k = .plus

/-- The tokens that a phrase derives begin as the phrase can begin. -/
def Phrase.Begins : Phrase → List TokenKind → Prop
  | .expr category, ks => ∃ k rest, ks = k :: rest ∧ category.Starts k
  | .links level, ks => ks = [] ∨ ∃ op ∈ level.operators, ∃ rest, ks = op.token :: rest
  | .arguments, ks => ∃ k rest, ks = k :: rest ∧ Category.signed.Starts k

/-- Every derivation begins as its phrase can begin. Induction on the tree: a phrase begins with its
first part, or with a token of its own. -/
theorem Tree.begins {phrase : Phrase} (t : Tree phrase) : phrase.Begins t.yield := by
  induction t with
  | @chain level first rest ih _ =>
    obtain ⟨k, ks, hyield, hstarts⟩ := ih
    refine ⟨k, ks ++ rest.yield, by rw [yield, hyield, List.cons_append], ?_⟩
    -- sums and products begin alike, with a signed phrase
    cases level <;> exact hstarts
  | done => exact .inl rfl
  | link op member right rest => exact .inr ⟨op, member, _, rfl⟩
  | minus operand => exact ⟨_, _, rfl, .inr (.inl rfl)⟩
  | plus operand => exact ⟨_, _, rfl, .inr (.inr rfl)⟩
  | unsigned operand ih =>
    obtain ⟨k, ks, hyield, hstarts⟩ := ih
    exact ⟨k, ks, hyield, .inl hstarts⟩
  | bare operand ih => exact ih
  | raised base exponent ih _ =>
    obtain ⟨k, ks, hyield, hstarts⟩ := ih
    exact ⟨k, ks ++ .caret :: exponent.yield, by rw [yield, hyield, List.cons_append], hstarts⟩
  | number value => exact ⟨_, _, rfl, .number value⟩
  | name text => exact ⟨_, _, rfl, .identifier text⟩
  | callNone function => exact ⟨_, _, rfl, .identifier function⟩
  | callSome function arguments => exact ⟨_, _, rfl, .identifier function⟩
  | parens inner => exact ⟨_, _, rfl, .openParen⟩
  | lastArgument argument ih =>
    obtain ⟨k, ks, hyield, hstarts⟩ := ih
    exact ⟨k, ks ++ [.closeParen], by rw [yield, hyield, List.cons_append], hstarts⟩
  | nextArgument argument rest ih _ =>
    obtain ⟨k, ks, hyield, hstarts⟩ := ih
    exact ⟨k, ks ++ .comma :: rest.yield, by rw [yield, hyield, List.cons_append], hstarts⟩

/-! ## Where a phrase ends -/

/-- The tokens that would belong to a phrase of a category if they came behind it. -/
def Category.Continues : Category → TokenKind → Prop
  | .primary, k => k = .openParen
  | .power, k | .signed, k => k = .caret ∨ k = .openParen
  | .chain .products, k => k = .star ∨ k = .slash ∨ k = .caret ∨ k = .openParen
  | .chain .sums, k =>
    k = .plus ∨ k = .minus ∨ k = .star ∨ k = .slash ∨ k = .caret ∨ k = .openParen

/-- The tokens that would belong to a phrase if they came behind it. -/
def Phrase.Continues : Phrase → TokenKind → Prop
  | .expr category, k => category.Continues k
  | .links level, k => (Category.chain level).Continues k
  | .arguments, _ => False

/-- Nothing comes next that would belong to the phrase. -/
def Ends (phrase : Phrase) (ahead : List TokenKind) : Prop :=
  ∀ k ∈ ahead.head?, ¬ phrase.Continues k

theorem ends_cons {phrase : Phrase} {k : TokenKind} {ks : List TokenKind} :
    Ends phrase (k :: ks) ↔ ¬ phrase.Continues k := by
  simp [Ends]

/-- Where a phrase ends, another one ends that fewer tokens continue. -/
theorem Ends.mono {phrase other : Phrase} {ahead : List TokenKind} (h : Ends phrase ahead)
    (hsub : ∀ k, other.Continues k → phrase.Continues k) : Ends other ahead :=
  fun k hk hcontinues => h k hk (hsub k hcontinues)

/-- A power goes on wherever its base would, so the base ends where the power ends. -/
theorem Ends.power {ahead : List TokenKind} (h : Ends (.expr .power) ahead) :
    Ends (.expr .primary) ahead :=
  h.mono fun _ hk => .inr hk

/-- An operand of a chain ends in front of the links, which have operators of the chain in front. -/
theorem Tree.ends_operand {level : Level} (rest : Tree (.links level)) {ahead : List TokenKind}
    (h : Ends (.links level) ahead) : Ends (.expr level.operand) (rest.yield ++ ahead) := by
  obtain hnil | ⟨op, hmember, ks, hcons⟩ := rest.begins
  -- without links the operand ends where the chain ends
  · rw [hnil, List.nil_append]
    refine h.mono fun k hk => ?_
    cases level
    · exact .inr (.inr hk)
    · exact .inr (.inr hk)
  -- no operator of a chain belongs to its operands
  · rw [hcons, List.cons_append, ends_cons]
    cases level <;> cases op <;>
      simp_all [Level.operators, Level.operand, Operator.token, Phrase.Continues,
        Category.Continues]

/-- Every expression ends in front of a closing parenthesis. -/
theorem ends_closeParen (category : Category) (ks : List TokenKind) :
    Ends (.expr category) (.closeParen :: ks) := by
  rw [ends_cons]
  rcases category with (_ | _) | _ | _ | _ <;> simp [Phrase.Continues, Category.Continues]

/-- Every expression ends in front of a comma. -/
theorem ends_comma (category : Category) (ks : List TokenKind) :
    Ends (.expr category) (.comma :: ks) := by
  rw [ends_cons]
  rcases category with (_ | _) | _ | _ | _ <;> simp [Phrase.Continues, Category.Continues]

/-- Every expression ends in front of a terminator. -/
theorem ends_terminator (category : Category) (ks : List TokenKind) :
    Ends (.expr category) (.terminator :: ks) := by
  rw [ends_cons]
  rcases category with (_ | _) | _ | _ | _ <;> simp [Phrase.Continues, Category.Continues]

/-- A base ends in front of `^`: it is the power that goes on there. -/
theorem ends_caret (ks : List TokenKind) : Ends (.expr .primary) (.caret :: ks) := by
  rw [ends_cons]
  simp [Phrase.Continues, Category.Continues]

/-- Arguments include their closing parenthesis, so nothing behind them can belong to them. -/
theorem ends_arguments (ks : List TokenKind) : Ends .arguments ks := fun _ _ h => h

theorem ends_nil (phrase : Phrase) : Ends phrase [] := by simp [Ends]

/-! ## One derivation -/

/-- The first token tells what the phrase begins with, whatever comes behind it. -/
theorem Tree.starts_of_append {category : Category} (t : Tree (.expr category))
    {k : TokenKind} {ahead ks : List TokenKind} (h : t.yield ++ ahead = k :: ks) :
    category.Starts k := by
  obtain ⟨k', rest, hyield, hstarts⟩ := t.begins
  rw [hyield, List.cons_append] at h
  rwa [← (List.cons.inj h).1]

/-- Arguments begin as an expression does. -/
theorem Tree.starts_of_append_arguments (t : Tree .arguments) {k : TokenKind}
    {ahead ks : List TokenKind} (h : t.yield ++ ahead = k :: ks) : Category.signed.Starts k := by
  obtain ⟨k', rest, hyield, hstarts⟩ := t.begins
  rw [hyield, List.cons_append] at h
  rwa [← (List.cons.inj h).1]

theorem not_startsPrimary_minus : ¬ StartsPrimary .minus := nofun

theorem not_startsPrimary_plus : ¬ StartsPrimary .plus := nofun

/-- No expression begins with a closing parenthesis. This tells `f()` from a call with arguments. -/
theorem not_starts_closeParen : ¬ Category.signed.Starts .closeParen := by
  rintro (h | h | h) <;> cases h

/-- Behind a name no parenthesis comes next that the name does not own. -/
theorem not_ends_openParen {ks : List TokenKind} : ¬ Ends (.expr .primary) (.openParen :: ks) :=
  fun h => ends_cons.1 h rfl

/-- Behind a chain no operator of the chain comes next. -/
theorem not_ends_operator {level : Level} {op : Operator} (member : op ∈ level.operators)
    {ks : List TokenKind} : ¬ Ends (.links level) (op.token :: ks) := by
  rw [ends_cons, not_not]
  cases level <;> cases op <;>
    simp_all [Level.operators, Operator.token, Phrase.Continues, Category.Continues]

/-- In front of whatever the phrase ends, the tokens of the tree determine it, and where it ends. -/
def Tree.Determined {phrase : Phrase} (t : Tree phrase) : Prop :=
  ∀ (t' : Tree phrase) {ahead ahead' : List TokenKind}, Ends phrase ahead → Ends phrase ahead' →
    t.yield ++ ahead = t'.yield ++ ahead' → t = t' ∧ ahead = ahead'

namespace Tree

/-- The first operand ends where the links begin, and the links end where the chain ends. -/
theorem determined_chain {level : Level} {first : Tree (.expr level.operand)}
    {rest : Tree (.links level)} (ihfirst : first.Determined) (ihrest : rest.Determined) :
    (chain first rest).Determined := by
  intro t' ahead ahead' hends hends' h
  cases t' with
  | chain first' rest' =>
    rw [yield, yield, List.append_assoc, List.append_assoc] at h
    obtain ⟨rfl, hlinks⟩ :=
      ihfirst first' (rest.ends_operand hends) (rest'.ends_operand hends') h
    obtain ⟨rfl, hahead⟩ := ihrest rest' hends hends' hlinks
    exact ⟨rfl, hahead⟩

/-- Links end where the next token is no operator of their level. -/
theorem determined_done {level : Level} : (done : Tree (.links level)).Determined := by
  intro t' ahead ahead' hends hends' h
  cases t' with
  | done => exact ⟨rfl, h⟩
  | link op member right rest =>
    -- a link would have its operator where the links end
    rw [show ahead = _ from h] at hends
    exact absurd hends (not_ends_operator member)

/-- A link shows its operator, then its operand, then the links behind it. -/
theorem determined_link {level : Level} {op : Operator} (member : op ∈ level.operators)
    {right : Tree (.expr level.operand)} {rest : Tree (.links level)} (ihright : right.Determined)
    (ihrest : rest.Determined) : (link op member right rest).Determined := by
  intro t' ahead ahead' hends hends' h
  cases t' with
  | done =>
    -- a link would have its operator where the links end
    rw [show ahead' = _ from h.symm] at hends'
    exact absurd hends' (not_ends_operator member)
  | link op' member' right' rest' =>
    rw [yield, yield, List.cons_append, List.cons_append, List.append_assoc,
      List.append_assoc] at h
    obtain ⟨htoken, htail⟩ := List.cons.inj h
    obtain rfl := Operator.token_inj htoken
    obtain ⟨rfl, hlinks⟩ :=
      ihright right' (rest.ends_operand hends) (rest'.ends_operand hends') htail
    obtain ⟨rfl, hahead⟩ := ihrest rest' hends hends' hlinks
    exact ⟨rfl, hahead⟩

/-- No power begins with `-`, so this derivation is the only one for a phrase that does. -/
theorem determined_minus {operand : Tree (.expr .signed)} (ih : operand.Determined) :
    (minus operand).Determined := by
  intro t' ahead ahead' hends hends' h
  cases t' with
  | minus operand' =>
    obtain ⟨rfl, hahead⟩ := ih operand' hends hends' (List.cons.inj h).2
    exact ⟨rfl, hahead⟩
  -- the first tokens differ
  | plus operand' => cases (List.cons.inj h).1
  | unsigned operand' => exact absurd (operand'.starts_of_append h.symm) not_startsPrimary_minus

/-- As for `-`: a phrase that begins with `+` is a signed one. -/
theorem determined_plus {operand : Tree (.expr .signed)} (ih : operand.Determined) :
    (plus operand).Determined := by
  intro t' ahead ahead' hends hends' h
  cases t' with
  | minus operand' => cases (List.cons.inj h).1
  | plus operand' =>
    obtain ⟨rfl, hahead⟩ := ih operand' hends hends' (List.cons.inj h).2
    exact ⟨rfl, hahead⟩
  | unsigned operand' => exact absurd (operand'.starts_of_append h.symm) not_startsPrimary_plus

/-- A signed phrase that does not begin with a sign is a power. -/
theorem determined_unsigned {operand : Tree (.expr .power)} (ih : operand.Determined) :
    (unsigned operand).Determined := by
  intro t' ahead ahead' hends hends' h
  cases t' with
  | minus operand' => exact absurd (operand.starts_of_append h) not_startsPrimary_minus
  | plus operand' => exact absurd (operand.starts_of_append h) not_startsPrimary_plus
  | unsigned operand' =>
    obtain ⟨rfl, hahead⟩ := ih operand' hends hends' h
    exact ⟨rfl, hahead⟩

/-- A power without an exponent is told from one with an exponent by the token behind its base. -/
theorem determined_bare {operand : Tree (.expr .primary)} (ih : operand.Determined) :
    (bare operand).Determined := by
  intro t' ahead ahead' hends hends' h
  cases t' with
  | bare operand' =>
    obtain ⟨rfl, hahead⟩ := ih operand' hends.power hends'.power h
    exact ⟨rfl, hahead⟩
  | raised base' exponent' =>
    -- `^` would stand where the power ends
    rw [yield, yield, List.append_assoc, List.cons_append] at h
    obtain ⟨-, rfl⟩ := ih base' hends.power (ends_caret _) h
    exact absurd (.inl rfl) (ends_cons.1 hends)

/-- Of two powers with an exponent the bases end in front of `^`, and so they are the same. -/
theorem determined_raised {base : Tree (.expr .primary)} {exponent : Tree (.expr .signed)}
    (ihbase : base.Determined) (ihexponent : exponent.Determined) :
    (raised base exponent).Determined := by
  intro t' ahead ahead' hends hends' h
  cases t' with
  | bare operand' =>
    rw [yield, yield, List.append_assoc, List.cons_append] at h
    obtain ⟨-, rfl⟩ := ihbase operand' (ends_caret _) hends'.power h
    exact absurd (.inl rfl) (ends_cons.1 hends')
  | raised base' exponent' =>
    rw [yield, yield, List.append_assoc, List.append_assoc, List.cons_append,
      List.cons_append] at h
    -- both bases end in front of `^`
    obtain ⟨rfl, hcaret⟩ := ihbase base' (ends_caret _) (ends_caret _) h
    obtain ⟨rfl, hahead⟩ := ihexponent exponent' hends hends' (List.cons.inj hcaret).2
    exact ⟨rfl, hahead⟩

theorem determined_number (value : Float) : (number value).Determined := by
  intro t' ahead ahead' hends hends' h
  cases t' with
  | number value' =>
    obtain ⟨hkind, hahead⟩ := List.cons.inj h
    cases hkind
    exact ⟨rfl, hahead⟩
  | _ => cases (List.cons.inj h).1

/-- A name is told from a call by the parenthesis that a call has behind it. -/
theorem determined_name (text : String) : (name text).Determined := by
  intro t' ahead ahead' hends hends' h
  cases t' with
  | name text' =>
    obtain ⟨hkind, hahead⟩ := List.cons.inj h
    cases hkind
    exact ⟨rfl, hahead⟩
  | callNone function' =>
    -- the parenthesis of a call would stand where the name ends
    rw [show ahead = _ from (List.cons.inj h).2] at hends
    exact absurd hends not_ends_openParen
  | callSome function' arguments' =>
    rw [show ahead = _ from (List.cons.inj h).2] at hends
    exact absurd hends not_ends_openParen
  | _ => cases (List.cons.inj h).1

/-- The closing parenthesis shows that there are no arguments. -/
theorem determined_callNone (function : String) : (callNone function).Determined := by
  intro t' ahead ahead' hends hends' h
  cases t' with
  | name text' =>
    rw [show ahead' = _ from (List.cons.inj h).2.symm] at hends'
    exact absurd hends' not_ends_openParen
  | callNone function' =>
    obtain ⟨hkind, htail⟩ := List.cons.inj h
    cases hkind
    exact ⟨rfl, (List.cons.inj (List.cons.inj htail).2).2⟩
  | callSome function' arguments' =>
    -- no argument begins with a closing parenthesis
    have hclose := (List.cons.inj (List.cons.inj h).2).2
    exact absurd (arguments'.starts_of_append_arguments hclose.symm) not_starts_closeParen
  | _ => cases (List.cons.inj h).1

/-- The token behind the parenthesis shows that there are arguments. -/
theorem determined_callSome (function : String) {arguments : Tree .arguments}
    (ih : arguments.Determined) : (callSome function arguments).Determined := by
  intro t' ahead ahead' hends hends' h
  cases t' with
  | name text' =>
    rw [show ahead' = _ from (List.cons.inj h).2.symm] at hends'
    exact absurd hends' not_ends_openParen
  -- one of the two has a closing parenthesis where the other has an argument
  | callNone function' =>
    have hclose := (List.cons.inj (List.cons.inj h).2).2
    exact absurd (arguments.starts_of_append_arguments hclose) not_starts_closeParen
  | callSome function' arguments' =>
    obtain ⟨hkind, htail⟩ := List.cons.inj h
    cases hkind
    obtain ⟨rfl, hahead⟩ :=
      ih arguments' (ends_arguments _) (ends_arguments _) (List.cons.inj htail).2
    exact ⟨rfl, hahead⟩
  | _ => cases (List.cons.inj h).1

/-- The expression in parentheses ends in front of the closing one. -/
theorem determined_parens {inner : Tree (.expr (.chain .sums))} (ih : inner.Determined) :
    (parens inner).Determined := by
  intro t' ahead ahead' hends hends' h
  cases t' with
  | parens inner' =>
    rw [yield, yield, List.cons_append, List.cons_append, List.append_assoc,
      List.append_assoc] at h
    obtain ⟨rfl, hclose⟩ :=
      ih inner' (ends_closeParen _ _) (ends_closeParen _ _) (List.cons.inj h).2
    exact ⟨rfl, (List.cons.inj hclose).2⟩
  | _ => cases (List.cons.inj h).1

/-- The last argument is told from any other by the token in front of which it ends. -/
theorem determined_lastArgument {argument : Tree (.expr (.chain .sums))} (ih : argument.Determined)
    : (lastArgument argument).Determined := by
  intro t' ahead ahead' hends hends' h
  cases t' with
  | lastArgument argument' =>
    rw [yield, yield, List.append_assoc, List.append_assoc] at h
    obtain ⟨rfl, hclose⟩ := ih argument' (ends_closeParen _ _) (ends_closeParen _ _) h
    exact ⟨rfl, (List.cons.inj hclose).2⟩
  | nextArgument argument' rest' =>
    rw [yield, yield, List.append_assoc, List.append_assoc] at h
    -- a closing parenthesis here, a comma there
    obtain ⟨-, hclose⟩ := ih argument' (ends_closeParen _ _) (ends_comma _ _) h
    cases (List.cons.inj hclose).1

/-- An argument in front of a comma is not the last one, and what is behind the comma are arguments
again. -/
theorem determined_nextArgument {argument : Tree (.expr (.chain .sums))} {rest : Tree .arguments}
    (ihargument : argument.Determined) (ihrest : rest.Determined) :
    (nextArgument argument rest).Determined := by
  intro t' ahead ahead' hends hends' h
  cases t' with
  | lastArgument argument' =>
    rw [yield, yield, List.append_assoc, List.append_assoc] at h
    -- one list has a comma where the other one has the closing parenthesis
    obtain ⟨-, hcomma⟩ := ihargument argument' (ends_comma _ _) (ends_closeParen _ _) h
    cases (List.cons.inj hcomma).1
  | nextArgument argument' rest' =>
    rw [yield, yield, List.append_assoc, List.append_assoc, List.cons_append,
      List.cons_append] at h
    obtain ⟨rfl, hcomma⟩ := ihargument argument' (ends_comma _ _) (ends_comma _ _) h
    obtain ⟨rfl, hahead⟩ :=
      ihrest rest' (ends_arguments _) (ends_arguments _) (List.cons.inj hcomma).2
    exact ⟨rfl, hahead⟩

/-- Of two phrases that end where they end, in front of whatever, the tokens determine the tree and
its end. -/
theorem eq_of_append {phrase : Phrase} (t : Tree phrase) : t.Determined := by
  induction t with
  | chain _ _ ihfirst ihrest => exact determined_chain ihfirst ihrest
  | done => exact determined_done
  | link _ member _ _ ihright ihrest => exact determined_link member ihright ihrest
  | minus _ ih => exact determined_minus ih
  | plus _ ih => exact determined_plus ih
  | unsigned _ ih => exact determined_unsigned ih
  | bare _ ih => exact determined_bare ih
  | raised _ _ ihbase ihexponent => exact determined_raised ihbase ihexponent
  | number value => exact determined_number value
  | name text => exact determined_name text
  | callNone function => exact determined_callNone function
  | callSome function _ ih => exact determined_callSome function ih
  | parens _ ih => exact determined_parens ih
  | lastArgument _ ih => exact determined_lastArgument ih
  | nextArgument _ _ ihargument ihrest => exact determined_nextArgument ihargument ihrest

end Tree

/-! ## Statements and programs -/

/-- Neither `=` nor a terminator belongs to an expression. -/
theorem Tree.not_mem_yield {phrase : Phrase} (t : Tree phrase) {k : TokenKind}
    (hk : k = .assign ∨ k = .terminator) : k ∉ t.yield := by
  have hop (op : Operator) : k ≠ op.token := by
    rcases hk with rfl | rfl <;> cases op <;> exact nofun
  induction t with
  | link op member right rest ihright ihrest => simp [yield, hop op, ihright, ihrest]
  | _ => rcases hk with rfl | rfl <;> simp_all [yield]

/-- The end of input or a terminator, in front of which statements end. -/
def AtEnd (ahead : List TokenKind) : Prop := ∀ k ∈ ahead.head?, k = .terminator

theorem atEnd_nil : AtEnd [] := by simp [AtEnd]

theorem atEnd_terminator (ks : List TokenKind) : AtEnd (.terminator :: ks) := by simp [AtEnd]

/-- An expression ends where a statement ends. -/
theorem AtEnd.ends {ahead : List TokenKind} (h : AtEnd ahead) (category : Category) :
    Ends (.expr category) ahead := by
  cases ahead with
  | nil => exact ends_nil _
  | cons k ks =>
    rw [h k rfl]
    exact ends_terminator category ks

/-- An expression is no assignment: the token behind its first one is not `=`. -/
theorem Tree.yield_append_ne_assign {category : Category} (t : Tree (.expr category))
    {ahead : List TokenKind} (hend : AtEnd ahead) {k : TokenKind} {ks : List TokenKind} :
    t.yield ++ ahead ≠ k :: .assign :: ks := by
  intro h
  obtain ⟨k', rest, hyield, -⟩ := t.begins
  have hassign := t.not_mem_yield (.inl rfl)
  rw [hyield, List.cons_append] at h
  have htail := (List.cons.inj h).2
  cases rest with
  -- an expression of one token ends before `=`
  | nil => cases hend .assign (by rw [show ahead = _ from htail]; rfl)
  -- the second token of an expression is one of its own
  | cons second rest =>
    rw [hyield, (List.cons.inj htail).1] at hassign
    exact hassign (by simp)

namespace StatementTree

/-- The second token tells assignments and results apart, and the tree of the expression does the
rest. -/
theorem eq_of_append {s s' : StatementTree} {ahead ahead' : List TokenKind} (hend : AtEnd ahead)
    (hend' : AtEnd ahead') (h : s.yield ++ ahead = s'.yield ++ ahead') :
    s = s' ∧ ahead = ahead' := by
  cases s with
  | assign name value =>
    cases s' with
    | assign name' value' =>
      obtain ⟨hkind, htail⟩ := List.cons.inj h
      cases hkind
      obtain ⟨rfl, hahead⟩ :=
        value.eq_of_append value' (hend.ends _) (hend'.ends _) (List.cons.inj htail).2
      exact ⟨rfl, hahead⟩
    | result value' => exact absurd h.symm (value'.yield_append_ne_assign hend')
  | result value =>
    cases s' with
    | assign name' value' => exact absurd h (value.yield_append_ne_assign hend)
    | result value' =>
      obtain ⟨rfl, hahead⟩ := value.eq_of_append value' (hend.ends _) (hend'.ends _) h
      exact ⟨rfl, hahead⟩

/-- A statement begins with a token that is no terminator. -/
theorem begins (s : StatementTree) : ∃ k ks, s.yield = k :: ks ∧ k ≠ .terminator := by
  cases s with
  | assign name value => exact ⟨_, _, rfl, nofun⟩
  | result value =>
    obtain ⟨k, ks, hyield, -⟩ := value.begins
    refine ⟨k, ks, hyield, fun hk => value.not_mem_yield (k := k) (.inr hk) ?_⟩
    rw [hyield]
    exact List.mem_cons_self ..

/-- A statement has tokens, whatever is put behind it. -/
theorem yield_append_ne_nil (s : StatementTree) (ks : List TokenKind) : s.yield ++ ks ≠ [] := by
  obtain ⟨k, rest, hyield, -⟩ := s.begins
  rw [hyield]
  exact nofun

end StatementTree

/-- Terminators in front of something else are counted in one way. -/
theorem replicate_append_inj {k : TokenKind} {n m : Nat} {ks ls : List TokenKind}
    (hks : k ∉ ks.head?) (hls : k ∉ ls.head?)
    (h : List.replicate n k ++ ks = List.replicate m k ++ ls) : n = m ∧ ks = ls := by
  -- the longer row of terminators would go on into what is said not to begin with one
  induction n generalizing m with
  | zero =>
    cases m with
    | zero => exact ⟨rfl, h⟩
    | succ m =>
      rw [List.replicate_zero, List.nil_append] at h
      rw [h] at hks
      exact absurd rfl hks
  | succ n ih =>
    cases m with
    | zero =>
      rw [List.replicate_zero, List.nil_append] at h
      rw [← h] at hls
      exact absurd rfl hls
    | succ m =>
      rw [List.replicate_succ, List.replicate_succ, List.cons_append, List.cons_append] at h
      obtain ⟨rfl, htail⟩ := ih (List.cons.inj h).2
      exact ⟨rfl, htail⟩

namespace ProgramTree

/-- What stands behind the terminators in front of a program. -/
def afterTerminators : ProgramTree → List TokenKind
  | blank _ => []
  | last _ statement => statement.yield
  | next _ statement rest => statement.yield ++ .terminator :: rest.yield

def before : ProgramTree → Nat
  | blank n | last n _ | next n _ _ => n

/-- A program is terminators and what stands behind them. -/
theorem yield_eq (p : ProgramTree) :
    p.yield = List.replicate p.before .terminator ++ p.afterTerminators := by
  cases p with
  | blank n => exact (List.append_nil _).symm
  | last n s => rfl
  | next n s rest => rfl

/-- What stands behind the terminators does not begin with one, so it is clear how many they are. -/
theorem terminator_not_mem_head? (p : ProgramTree) : .terminator ∉ p.afterTerminators.head? := by
  cases p with
  | blank n => exact nofun
  | last n s =>
    obtain ⟨k, ks, hyield, hne⟩ := s.begins
    rw [afterTerminators, hyield]
    exact fun h => hne (Option.some.inj h)
  | next n s rest =>
    obtain ⟨k, ks, hyield, hne⟩ := s.begins
    rw [afterTerminators, hyield]
    exact fun h => hne (Option.some.inj h)

/-- The tokens of a program tell how many terminators come first and what comes then. -/
theorem front_eq {p q : ProgramTree} (h : p.yield = q.yield) :
    p.before = q.before ∧ p.afterTerminators = q.afterTerminators := by
  rw [yield_eq, yield_eq] at h
  exact replicate_append_inj p.terminator_not_mem_head? q.terminator_not_mem_head? h

/-- A program has one derivation. Induction on the first one: the terminators in front are counted
in one way, the statement behind them is determined, and what follows the terminator that ends it is
a shorter program. -/
theorem yield_inj {p q : ProgramTree} (h : p.yield = q.yield) : p = q := by
  induction p generalizing q with
  | blank n =>
    obtain ⟨hbefore, hafter⟩ := front_eq h
    cases q with
    | blank m => rw [show n = m from hbefore]
    | last m s =>
      rw [afterTerminators, afterTerminators, ← List.append_nil s.yield] at hafter
      exact absurd hafter.symm (s.yield_append_ne_nil _)
    | next m s rest => exact absurd hafter.symm (s.yield_append_ne_nil _)
  -- a statement that ends the program has nothing behind it, one that does not has a terminator
  | last n s =>
    obtain ⟨hbefore, hafter⟩ := front_eq h
    rw [afterTerminators, ← List.append_nil s.yield] at hafter
    cases q with
    | blank m => exact absurd hafter (s.yield_append_ne_nil _)
    | last m s' =>
      rw [afterTerminators, ← List.append_nil s'.yield] at hafter
      rw [show n = m from hbefore, (StatementTree.eq_of_append atEnd_nil atEnd_nil hafter).1]
    | next m s' rest => cases (StatementTree.eq_of_append atEnd_nil (atEnd_terminator _) hafter).2
  | next n s rest ih =>
    obtain ⟨hbefore, hafter⟩ := front_eq h
    rw [afterTerminators] at hafter
    cases q with
    | blank m => exact absurd hafter (s.yield_append_ne_nil _)
    | last m s' =>
      rw [afterTerminators, ← List.append_nil s'.yield] at hafter
      cases (StatementTree.eq_of_append (atEnd_terminator _) atEnd_nil hafter).2
    | next m s' rest' =>
      obtain ⟨rfl, htail⟩ :=
        StatementTree.eq_of_append (atEnd_terminator _) (atEnd_terminator _) hafter
      rw [show n = m from hbefore, ih (List.cons.inj htail).2]

end ProgramTree

end Grammar

end FormulaMachine
