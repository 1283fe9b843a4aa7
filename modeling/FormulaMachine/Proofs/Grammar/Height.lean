import FormulaMachine.Proofs.Expr.Parts
import FormulaMachine.Proofs.Grammar.Program
import FormulaMachine.Proofs.Token.Reading

/-!
# How high the trees of a formula are

What walks over an expression recurses once for each node on the way down. The parser limits how
many signed phrases lie within each other. But it takes the operands of `+`, `-`, `*` and `/` in a
loop, and each turn puts one more node on top of what there is, so that limit alone does not bound
the trees.

* `Expr.height`: the nodes on the longest way down.
* `Expr.leftRun`, `Expr.longestRun`: how often `+`, `-`, `*` and `/` follow each other on the way
  down to the left.
* **`Tree.low`**: the height of what a derivation stands for, by its nesting and the longest run.
* **`Formula.height_of_parse`**: the height of what is parsed is more than its longest run, and less
  than a fixed multiple of it.
* **`Formula.not_exists_height_bound`**: no number bounds the height of all that is parsed.
-/

namespace FormulaMachine

open Grammar

/-! ## Height and runs -/

namespace Expr

mutual

/-- The number of nodes on the longest way down from the root. -/
def height : Expr → Nat
  | number _ | var _ => 1
  | binary _ left right => 1 + max left.height right.height
  | negate operand => 1 + operand.height
  | call _ arguments => 1 + heightAll arguments

/-- The largest height of several expressions, zero if there is none. -/
def heightAll : List Expr → Nat
  | [] => 0
  | e :: es => max e.height (heightAll es)

end

/-- How many operations `+`, `-`, `*` and `/` follow each other from the root down to the left. -/
def leftRun : Expr → Nat
  | binary op left _ =>
    match op with
    | .pow => 0
    | .add | .sub | .mul | .div => 1 + left.leftRun
  | number _ | var _ | negate _ | call _ _ => 0

mutual

/-- The longest run to the left, wherever it starts. -/
def longestRun : Expr → Nat
  | number _ | var _ => 0
  | binary op left right =>
    max (binary op left right).leftRun (max left.longestRun right.longestRun)
  | negate operand => operand.longestRun
  | call _ arguments => longestRunAll arguments

def longestRunAll : List Expr → Nat
  | [] => 0
  | e :: es => max e.longestRun (longestRunAll es)

end

/-- The run that starts at the root is one of the runs. -/
theorem leftRun_le_longestRun (e : Expr) : e.leftRun ≤ e.longestRun := by
  cases e with
  | number | var | negate | call => exact Nat.zero_le _
  | binary op left right =>
    rw [longestRun]
    exact Nat.le_max_left ..

/-- Every expression has a node, its root. -/
theorem height_pos (e : Expr) : 0 < e.height := by
  cases e
  all_goals
    simp only [height]
    omega

/-- The operations of the run from the root are nodes on one way down, and below the last of them
there is one more. -/
theorem leftRun_lt_height (e : Expr) : e.leftRun < e.height := by
  induction e using nested_induction with
  | number | var => exact Nat.one_pos
  | negate operand => exact height_pos _
  | call function arguments => exact height_pos _
  | binary op left right ihl ihr =>
    -- the left operand is part of either side, so its bound decides, and a power starts no run
    cases op
    all_goals
      simp only [leftRun, height]
      omega

/-- The longest run in a list is less than the largest height, where each member has its own below
its height. An empty list has both zero. -/
theorem longestRunAll_le_heightAll {es : List Expr} (h : ∀ e ∈ es, e.longestRun < e.height) :
    longestRunAll es ≤ heightAll es := by
  induction es with
  | nil => exact Nat.le_refl 0
  | cons e es ih =>
    have hfirst := h e (List.mem_cons_self ..)
    have hrest := ih fun e' he' => h e' (List.mem_cons_of_mem e he')
    simp only [longestRunAll, heightAll]
    omega

/-- A run is a way down. -/
theorem longestRun_lt_height (e : Expr) : e.longestRun < e.height := by
  induction e using nested_induction with
  | number | var => exact Nat.one_pos
  | binary op left right ihl ihr =>
    -- the run from the root is the new one, the others lie within the operands
    have hroot := leftRun_lt_height (binary op left right)
    simp only [longestRun, height] at hroot ⊢
    omega
  | negate operand ih =>
    simp only [longestRun, height]
    omega
  | call function arguments ih =>
    have hall := longestRunAll_le_heightAll ih
    simp only [longestRun, height]
    omega

end Expr

/-! ## Height by nesting -/

namespace Grammar

/-- Heights that `n` levels of nesting allow where runs have at most `run` operations. One level
puts at most `2 * run + 2` nodes on top of what lies deeper: one for a call, one for a sign or a
power, a run in a product, and a run in a sum. -/
def Category.Low (run n height : Nat) : Category → Prop
  | .chain .sums => height + 1 ≤ (2 * run + 2) * n
  | .chain .products => height + run + 1 ≤ (2 * run + 2) * n
  | .signed => height + 2 * run + 1 ≤ (2 * run + 2) * n
  | .power => height ≤ (2 * run + 2) * n + 1
  | .primary => height ≤ max 1 ((2 * run + 2) * n)

/-- What a phrase stands for is low if its runs have at most `run` operations. Links put at most as
many nodes on what is to the left of them as they prolong its run. -/
def Phrase.Low (run n : Nat) : (phrase : Phrase) → phrase.Value → Prop
  | .expr category, e => e.longestRun ≤ run → category.Low run n e.height
  | .links level, chained => ∀ left bound, (chained left).longestRun ≤ run →
      (∀ height, level.operand.Low run n height → height ≤ bound) →
      left.height ≤ left.leftRun + bound →
      (chained left).height ≤ (chained left).leftRun + bound
  | .arguments, es => Expr.longestRunAll es ≤ run → Expr.heightAll es + 1 ≤ (2 * run + 2) * n

/-- A height that operands do not exceed, and with a run on top of which a chain is still low. -/
theorem Level.exists_bound (level : Level) {run n height : Nat}
    (h : level.operand.Low run n height) :
    ∃ bound, (∀ height', level.operand.Low run n height' → height' ≤ bound) ∧
      ∀ height', height' ≤ run + bound → (Category.chain level).Low run n height' := by
  cases level with
  | sums =>
    simp only [Level.operand, Category.Low] at h ⊢
    refine ⟨(2 * run + 2) * n - (run + 1), fun height' h' => ?_, fun height' h' => ?_⟩ <;> omega
  | products =>
    simp only [Level.operand, Category.Low] at h ⊢
    refine ⟨(2 * run + 2) * n - (2 * run + 1), fun height' h' => ?_, fun height' h' => ?_⟩ <;> omega

namespace Tree

/-- Links shorten no run: what is to the left of them stays within the chain. -/
theorem longestRun_le_chained : {level : Level} → (links : Tree (.links level)) → (left : Expr) →
    left.longestRun ≤ (links.value left).longestRun
  | _, done, _ => Nat.le_refl _
  | _, link op _ right rest, left => by
    have hroot : left.longestRun ≤ (Expr.binary op left right.value).longestRun := by
      simp only [Expr.longestRun]
      omega
    exact hroot.trans (rest.longestRun_le_chained _)

/-- What the tree stands for is low at every level that its nesting is within. -/
def IsLow {phrase : Phrase} (t : Tree phrase) (run : Nat) : Prop :=
  ∀ n, t.nesting ≤ n → phrase.Low run n t.value

variable {run : Nat}

/-- A chain is as high as its longest run on top of its highest operand. The bound on the operands
is that of `Level.exists_bound`, and the links keep the height within it and the run. -/
theorem low_chain {level : Level} {first : Tree (.expr level.operand)}
    {rest : Tree (.links level)} (ihfirst : first.IsLow run) (ihrest : rest.IsLow run) :
    (chain first rest).IsLow run := by
  intro n hn hrun
  obtain ⟨hn, hn'⟩ := Nat.max_le.1 hn
  -- the first operand is within the bound, and the links prolong its run by what they add
  have hfirst := ihfirst n hn ((rest.longestRun_le_chained _).trans hrun)
  obtain ⟨bound, hoperand, hchain⟩ := level.exists_bound hfirst
  have hstart : first.value.height ≤ first.value.leftRun + bound :=
    (hoperand _ hfirst).trans (Nat.le_add_left ..)
  have hheight := ihrest n hn' first.value bound hrun hoperand hstart
  have hleft := (Expr.leftRun_le_longestRun _).trans hrun
  exact hchain _ (hheight.trans (Nat.add_le_add_right hleft bound))

/-- One more link: the new root is one node above what stood to the left and above the right
operand, and it is one more operation of the run. -/
theorem low_link {level : Level} {op : Operator} (member : op ∈ level.operators)
    {right : Tree (.expr level.operand)} {rest : Tree (.links level)} (ihright : right.IsLow run)
    (ihrest : rest.IsLow run) : (link op member right rest).IsLow run := by
  intro n hn left bound hrun hoperand hleft
  obtain ⟨hn, hn'⟩ := Nat.max_le.1 hn
  have hrun' := (rest.longestRun_le_chained (.binary op left right.value)).trans hrun
  -- the right operand is an operand of the level, and so within the same bound
  have hright : right.value.height ≤ bound := by
    refine hoperand _ (ihright n hn ?_)
    simp only [Expr.longestRun] at hrun'
    omega
  refine ihrest n hn' (.binary op left right.value) bound hrun hoperand ?_
  -- the operator prolongs the run by the node that it adds
  have hstep : (Expr.binary op left right.value).leftRun = 1 + left.leftRun := by
    cases level
    all_goals
      simp only [Level.operators, List.mem_cons, List.not_mem_nil, or_false] at member
      obtain rfl | rfl := member <;> rfl
  rw [hstep, Expr.height]
  omega

/-- A sign is one node, and one level of nesting pays for it. -/
theorem low_minus {operand : Tree (.expr .signed)} (ih : operand.IsLow run) :
    (minus operand).IsLow run := by
  intro n hn hrun
  -- the nesting of a sign is one more than that of its operand, so a level is left over
  obtain ⟨m, rfl⟩ := Nat.exists_eq_add_of_lt hn
  have hoperand := ih (operand.nesting + m) (Nat.le_add_right ..) hrun
  simp only [Category.Low, value, Expr.height, Nat.mul_succ] at hoperand ⊢
  omega

/-- A plus sign leaves no node. -/
theorem low_plus {operand : Tree (.expr .signed)} (ih : operand.IsLow run) :
    (plus operand).IsLow run := by
  intro n hn hrun
  exact ih n (Nat.le_of_succ_le hn) hrun

/-- A power where a signed phrase stands, one level further out. -/
theorem low_unsigned {operand : Tree (.expr .power)} (ih : operand.IsLow run) :
    (unsigned operand).IsLow run := by
  intro n hn hrun
  obtain ⟨m, rfl⟩ := Nat.exists_eq_add_of_lt hn
  have hoperand := ih (operand.nesting + m) (Nat.le_add_right ..) hrun
  simp only [Category.Low, value, Nat.mul_succ] at hoperand ⊢
  omega

/-- A primary phrase that is not raised. -/
theorem low_bare {operand : Tree (.expr .primary)} (ih : operand.IsLow run) :
    (bare operand).IsLow run := by
  intro n hn hrun
  have hoperand := ih n hn hrun
  simp only [Category.Low, value] at hoperand ⊢
  omega

/-- A power is one node above its base and its exponent, and starts no run. -/
theorem low_raised {base : Tree (.expr .primary)} {exponent : Tree (.expr .signed)}
    (ihbase : base.IsLow run) (ihexponent : exponent.IsLow run) :
    (raised base exponent).IsLow run := by
  intro n hn hrun
  obtain ⟨hn, hn'⟩ := Nat.max_le.1 hn
  simp only [value, Expr.longestRun, Expr.leftRun] at hrun
  have hbase := ihbase n hn (by omega)
  have hexponent := ihexponent n hn' (by omega)
  simp only [Category.Low, value, Expr.height] at hbase hexponent ⊢
  omega

/-- A call is one node above its arguments. -/
theorem low_callSome (function : String) {arguments : Tree .arguments}
    (ih : arguments.IsLow run) : (callSome function arguments).IsLow run := by
  intro n hn hrun
  have harguments := ih n hn hrun
  simp only [Category.Low, value, Expr.height] at harguments ⊢
  omega

/-- Parentheses leave no node. -/
theorem low_parens {inner : ExprTree} (ih : inner.IsLow run) : (parens inner).IsLow run := by
  intro n hn hrun
  have hinner := ih n hn hrun
  simp only [Category.Low, value] at hinner ⊢
  omega

/-- A list of one argument is as high as that argument. -/
theorem low_lastArgument {argument : ExprTree} (ih : argument.IsLow run) :
    (lastArgument argument).IsLow run := by
  intro n hn hrun
  simp only [value, Expr.longestRunAll] at hrun
  have hargument := ih n hn (by omega)
  simp only [Category.Low] at hargument
  simp only [value, Expr.heightAll]
  omega

/-- A further argument: the higher one of it and of the rest counts. -/
theorem low_nextArgument {argument : ExprTree} {rest : Tree .arguments}
    (ihargument : argument.IsLow run) (ihrest : rest.IsLow run) :
    (nextArgument argument rest).IsLow run := by
  intro n hn hrun
  obtain ⟨hn, hn'⟩ := Nat.max_le.1 hn
  simp only [value, Expr.longestRunAll] at hrun
  have hargument := ihargument n hn (by omega)
  have hrest := ihrest n hn' (by omega)
  simp only [Category.Low] at hargument
  simp only [value, Expr.heightAll]
  omega

/-- Every tree is low, by induction on it. Each case is one of the lemmas above, and a phrase of one
token has height one. -/
theorem low {phrase : Phrase} (t : Tree phrase) (run : Nat) : t.IsLow run := by
  induction t with
  | chain _ _ ihfirst ihrest => exact low_chain ihfirst ihrest
  | done => exact fun n hn left bound hrun hoperand hleft => hleft
  | link _ member _ _ ihright ihrest => exact low_link member ihright ihrest
  | minus _ ih => exact low_minus ih
  | plus _ ih => exact low_plus ih
  | unsigned _ ih => exact low_unsigned ih
  | bare _ ih => exact low_bare ih
  | raised _ _ ihbase ihexponent => exact low_raised ihbase ihexponent
  | number | name | callNone => exact fun n hn hrun => Nat.le_max_left ..
  | callSome function _ ih => exact low_callSome function ih
  | parens _ ih => exact low_parens ih
  | lastArgument _ ih => exact low_lastArgument ih
  | nextArgument _ _ ihargument ihrest => exact low_nextArgument ihargument ihrest

/-- The height of an expression, by its nesting and its longest run. -/
theorem height_lt_of_nesting (t : ExprTree) {n : Nat} (hn : t.nesting ≤ n) :
    t.value.height < (2 * t.value.longestRun + 2) * n :=
  t.low t.value.longestRun n hn (Nat.le_refl _)

end Tree

/-- Each statement of a program stands for the expression of a tree that nests no deeper than the
program. -/
theorem ProgramTree.exists_tree_of_mem {p : ProgramTree} {s : Statement} (hs : s ∈ p.statements) :
    ∃ t : ExprTree, t.value = s.expr ∧ t.nesting ≤ p.nesting := by
  induction p with
  | blank => cases hs
  | last _ statement =>
    obtain rfl := List.mem_singleton.1 hs
    cases statement with
    | assign _ t | result t => exact ⟨t, rfl, Nat.le_refl _⟩
  | next _ statement rest ih =>
    obtain rfl | hs := List.mem_cons.1 hs
    · cases statement with
      | assign _ t | result t => exact ⟨t, rfl, Nat.le_max_left ..⟩
    · obtain ⟨t, hvalue, hnesting⟩ := ih hs
      exact ⟨t, hvalue, hnesting.trans (Nat.le_max_right ..)⟩

end Grammar

/-! ## Formulas -/

namespace Formula

/-- The height of an expression that was parsed is more than its longest run, and less than 512
times one more than that. So the heights of what some sources are parsed as are bounded if and only
if the longest runs are. -/
theorem height_of_parse {source : String} {formula : Formula} (h : parse source = .ok formula)
    {e : Expr} (he : e ∈ formula.exprs) :
    e.longestRun < e.height ∧ e.height < 512 * (e.longestRun + 1) := by
  obtain ⟨p, hp, hnesting⟩ := exists_derivation_of_parse h
  obtain ⟨s, hs, rfl⟩ := List.mem_map.1 he
  obtain ⟨t, hvalue, ht⟩ := ProgramTree.exists_tree_of_mem (hp ▸ hs)
  -- the tree nests within the limit, so the bound by nesting is one by the limit
  have hheight := t.height_lt_of_nesting (ht.trans hnesting)
  rw [hvalue, Parser.nestingLimit] at hheight
  refine ⟨s.expr.longestRun_lt_height, ?_⟩
  omega

set_option maxRecDepth 10000 in
/-- In `a - b - f(c / d)` the longest run is that of the two differences. -/
theorem height_of_parse_of_differences :
    ∃ formula, parse "a - b - f(c / d)" = .ok formula ∧
      ∃ e ∈ formula.exprs, e.longestRun = 2 ∧ 2 < e.height ∧ e.height < 512 * 3 := by
  have hparse : parse "a - b - f(c / d)" =
      .ok ⟨[.result (.binary .sub (.binary .sub (.var "a") (.var "b"))
        (.call "f" [.binary .div (.var "c") (.var "d")]))]⟩ := by cbv
  exact ⟨_, hparse, _, List.mem_singleton_self _, rfl,
    height_of_parse hparse (List.mem_singleton_self _)⟩

end Formula

/-! ## Long sums -/

namespace Grammar.Tree

/-- The variable `x` as a product. -/
def summand : Tree (.expr (.chain .products)) := chain (unsigned (bare (name "x"))) done

/-- `n` further summands. -/
def summands : Nat → Tree (.links .sums)
  | 0 => done
  | n + 1 => link .add (by decide) summand (summands n)

/-- Each further summand puts one node on top. -/
theorem height_summands (n : Nat) (left : Expr) :
    ((summands n).value left).height = left.height + n := by
  induction n generalizing left with
  | zero => rfl
  | succ n ih =>
    have hpos := left.height_pos
    have hnode : (Expr.binary .add left summand.value).height = 1 + max left.height 1 := rfl
    -- the sum so far is what the next summands stand to the right of
    show ((summands n).value (.binary .add left summand.value)).height = _
    rw [ih, hnode]
    omega

/-- The summands stand beside each other and not within each other. -/
theorem nesting_summands_le (n : Nat) : (summands n).nesting ≤ 1 := by
  induction n with
  | zero => exact Nat.zero_le 1
  | succ n ih => exact Nat.max_le.2 ⟨Nat.le_refl 1, ih⟩

/-- The text of `n` further summands. -/
def summandsText : Nat → List Char
  | 0 => []
  | n + 1 => '+' :: 'x' :: summandsText n

/-- A name in front of the summands ends there, since a plus sign follows or nothing. -/
theorem delimited_summandsText (n : Nat) : Delimited (summandsText n) := by
  cases n with
  | zero => exact delimited_nil
  | succ n => exact delimited_cons (by decide) (by decide)

/-- The text of one summand is the name `x`. -/
theorem reads_summand {cs : List Char} {kinds : List TokenKind} (hcs : Delimited cs)
    (h : Reads 0 cs kinds) : Reads 0 ('x' :: cs) (summand.yield ++ kinds) :=
  have hname : isIdentifier "x" = true := by decide
  h.identifier hname hcs

/-- The text of the summands is read as their tokens. -/
theorem reads_summandsText (n : Nat) : Reads 0 (summandsText n) (summands n).yield := by
  induction n with
  | zero => exact Reads.nil 0
  | succ n ih => exact Reads.mark rfl (reads_summand (delimited_summandsText n) ih)

end Grammar.Tree

namespace Formula

/-- Every height occurs, without any two signed phrases within each other. -/
theorem exists_parse_of_height (n : Nat) :
    ∃ source formula, parse source = .ok formula ∧ ∃ e ∈ formula.exprs, e.height = n + 1 := by
  let sum : ExprTree := .chain .summand (.summands n)
  let p : ProgramTree := .last 0 (.result sum)
  -- the text is `x+x+...+x`, which is read as a program of one statement
  have hread : Reads 0 ('x' :: Tree.summandsText n) p.yield :=
    Tree.reads_summand (Tree.delimited_summandsText n) (Tree.reads_summandsText n)
  -- however many summands there are, none is within another
  have hnesting : p.nesting ≤ Parser.nestingLimit :=
    Nat.max_le.2 ⟨by decide, (Tree.nesting_summands_le n).trans (by decide)⟩
  have hheight : sum.value.height = 1 + n := Tree.height_summands n (.var "x")
  rw [← String.toList_ofList (l := 'x' :: Tree.summandsText n)] at hread
  refine ⟨_, _, (parse_of_reads hread).1 hnesting, sum.value, List.mem_singleton_self _, ?_⟩
  rw [hheight, Nat.add_comm]

/-- The limit on nesting does not bound the height of what is parsed. -/
theorem not_exists_height_bound :
    ¬ ∃ bound, ∀ source formula, parse source = .ok formula →
      ∀ e ∈ formula.exprs, e.height ≤ bound := by
  rintro ⟨bound, hbound⟩
  -- a sum with one more operation than the bound is higher
  obtain ⟨source, formula, hparse, e, he, hheight⟩ := exists_parse_of_height bound
  have hle := hbound source formula hparse e he
  omega

end Formula

end FormulaMachine
