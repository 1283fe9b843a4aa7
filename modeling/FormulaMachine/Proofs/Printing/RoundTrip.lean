import FormulaMachine.Proofs.Decimal.Plain
import FormulaMachine.Proofs.Grammar.Program
import FormulaMachine.Proofs.Printing.Derivation

/-!
# Printing and parsing are inverse

The text of a formula is read as the tokens of its derivation, and the parser makes of these what
the derivation stands for.

* `Expr.Printable`: names are identifiers, and literals read back from their text.
* **`Expr.reads_text`**: the text of an expression, in front of a text that does not continue it.
* **`Formula.reads_text`**: the text of a formula.
* **`Formula.parse_text`**: parsing the text of a formula gives it back, as long as no expression
  needs more than the parser allows.
-/

namespace FormulaMachine

open Decimal Grammar

/-- All names are identifiers, and all literals are finite without a minus sign and read back from
their text. -/
structure Printable (names : List String) (literals : List Float) : Prop where
  names : ∀ name ∈ names, isIdentifier name = true
  finite : ∀ x ∈ literals, x.isFinite = true ∧ Binary64.isNegative x = false
  readBack : ∀ x ∈ literals, ofText? (plain x) = some x

namespace Printable

variable {names : List String} {literals : List Float}

/-- Fewer names and literals. -/
theorem mono {names' : List String} {literals' : List Float} (h : Printable names literals)
    (hnames : names' ⊆ names) (hliterals : literals' ⊆ literals) : Printable names' literals' :=
  ⟨fun name hname => h.names name (hnames hname), fun x hx => h.finite x (hliterals hx),
    fun x hx => h.readBack x (hliterals hx)⟩

/-- The text of a literal is a plain literal of its value. -/
theorem exists_literal (h : Printable names literals) {x : Float} (hx : x ∈ literals) :
    ∃ l : Literal, l.IsPlain ∧ (plain x).toList = l.text ∧ l.value = x := by
  obtain ⟨hfinite, hsign⟩ := h.finite x hx
  obtain ⟨l, hplain, htext⟩ := exists_literal_of_finite hfinite hsign
  exact ⟨l, hplain, htext, Literal.value_of_ofText? hplain htext (h.readBack x hx)⟩

end Printable

/-! ## Expressions -/

namespace Operator

/-- The character that an operator is printed as. -/
def mark : Operator → Char
  | add => '+'
  | sub => '-'
  | mul => '*'
  | div => '/'
  | pow => '^'

theorem toList_symbol (op : Operator) : op.symbol.toList = [op.mark] := by
  cases op <;> rfl

end Operator

/-- That character is read as its token. -/
theorem Reads.operator (op : Operator) {depth : Nat} {rest : List Char} {kinds : List TokenKind}
    (h : Reads depth rest kinds) : Reads depth (op.mark :: rest) (op.token :: kinds) := by
  cases op
  all_goals exact Reads.mark rfl h

namespace Expr

/-- The text of the expression is read as its derivation, with any number of parentheses open, in
front of any text that does not continue it. -/
def ReadsText (e : Expr) : Prop :=
  ∀ ⦃depth : Nat⦄ ⦃rest : List Char⦄ ⦃kinds : List TokenKind⦄, Delimited rest →
    Reads depth rest kinds → Reads depth (e.text.toList ++ rest) (e.derivation.yield ++ kinds)

/-- Arguments are read up to and with the parenthesis that closes the call. -/
theorem reads_arguments {e : Expr} {es : List Expr} (h : ∀ e' ∈ e :: es, e'.ReadsText)
    {depth : Nat} {rest : List Char} {kinds : List TokenKind} (hrest : Reads depth rest kinds) :
    Reads (depth + 1)
      ([',', ' '].intercalate ((e :: es).map fun e' => e'.text.toList) ++ ')' :: rest)
      ((Tree.argumentList e.derivation (es.map derivation)).yield ++ kinds) := by
  induction es generalizing e with
  | nil =>
    have hread := h e (by simp) (delimited_of_mem (by decide) rest) hrest.closeParen
    simpa [Tree.argumentList, Tree.yield, Tree.yield_alone] using hread
  | cons next others ih =>
    have hothers := ih fun e' he' => h e' (List.mem_cons_of_mem e he')
    -- an argument with others behind it ends in front of a comma
    have hcomma := Reads.mark (c := ',') rfl hothers.space
    have hread := h e (by simp) (delimited_of_mem (by decide) _) hcomma
    simpa [Tree.argumentList, Tree.yield, Tree.yield_alone] using hread

/-- A literal is printed as a plain literal, which ends in front of what does not continue it. -/
theorem readsText_number {value : Float} (h : Printable [] [value]) : (number value).ReadsText := by
  intro depth rest kinds hdelimited hrest
  obtain ⟨l, hplain, htext, rfl⟩ := h.exists_literal (List.mem_singleton_self value)
  rw [text, htext]
  exact hrest.literal hplain hdelimited

/-- A binary operation: an operand, a space, the operator, a space and an operand, all in
parentheses. It is read from the back, each part in front of what is read already. -/
theorem readsText_binary (op : Operator) {left right : Expr} (ihl : left.ReadsText)
    (ihr : right.ReadsText) : (binary op left right).ReadsText := by
  intro depth rest kinds hdelimited hrest
  have hright := ihr (delimited_of_mem (by decide) rest) hrest.closeParen
  have hleft := ihl (delimited_of_mem (by decide) _) (Reads.operator op hright.space).space
  simpa [text, op.toList_symbol, derivation, Tree.yield, Tree.yield_operation] using hleft.openParen

/-- A negation: a minus sign and its operand in parentheses. -/
theorem readsText_negate {operand : Expr} (ih : operand.ReadsText) :
    (negate operand).ReadsText := by
  intro depth rest kinds hdelimited hrest
  have hoperand := ih (delimited_of_mem (by decide) rest) hrest.closeParen
  have hminus : Reads (depth + 1) _ _ := Reads.mark (c := '-') rfl hoperand
  simpa [text, derivation, Tree.yield, Tree.yield_negation] using hminus.openParen

/-- A call: the function, and its arguments in parentheses. -/
theorem readsText_call {function : String} (hname : isIdentifier function = true)
    {arguments : List Expr} (ih : ∀ e ∈ arguments, e.ReadsText) :
    (call function arguments).ReadsText := by
  intro depth rest kinds hdelimited hrest
  rw [text, texts_eq_map, derivation, derivations_eq_map]
  cases arguments with
  | nil =>
    have hopen := hrest.closeParen.openParen
    have hread := hopen.identifier hname (delimited_of_mem (by decide) _)
    simpa [Tree.yield] using hread
  | cons e es =>
    have hopen := (reads_arguments ih hrest).openParen
    have hread := hopen.identifier hname (delimited_of_mem (by decide) _)
    simpa [Tree.yield, Function.comp_def] using hread

/-- The text of an expression. Induction on it; each part is printable since the whole is. -/
theorem reads_text {e : Expr} (h : Printable e.names e.literals) : e.ReadsText := by
  induction e using nested_induction with
  | number value => exact readsText_number (h.mono (List.nil_subset _) (List.Subset.refl _))
  | var name =>
    intro depth rest kinds hdelimited hrest
    exact hrest.identifier (h.names name (List.mem_singleton_self name)) hdelimited
  | binary op left right ihl ihr =>
    have hleft := ihl (h.mono (List.subset_append_left ..) (List.subset_append_left ..))
    have hright := ihr (h.mono (List.subset_append_right ..) (List.subset_append_right ..))
    exact readsText_binary op hleft hright
  | negate operand ih => exact readsText_negate (ih h)
  | call function arguments ih =>
    -- the name of the function is one of the names, and the arguments are printable by themselves
    have hname := h.names function (List.mem_cons_self ..)
    refine readsText_call hname fun e he => ih e he ?_
    refine h.mono (fun name hmem => ?_) fun x hmem => mem_literalsAll.2 ⟨e, he, hmem⟩
    exact List.mem_cons_of_mem _ (mem_namesAll.2 ⟨e, he, hmem⟩)

end Expr

/-! ## Statements and formulas -/

namespace Statement

/-- The text of a statement: an expression, or a name, `=` and an expression. -/
theorem reads_text {s : Statement} (h : Printable s.names s.expr.literals) {rest : List Char}
    {kinds : List TokenKind} (hdelimited : Delimited rest) (hrest : Reads 0 rest kinds) :
    Reads 0 (s.text.toList ++ rest) (s.derivation.yield ++ kinds) := by
  cases s with
  | result value =>
    have hread := Expr.reads_text h hdelimited hrest
    rwa [← Tree.yield_alone] at hread
  | assign name value =>
    have hname := h.names name (List.mem_cons_self ..)
    have hvalue := Expr.reads_text (h.mono (List.subset_cons_self ..) (List.Subset.refl _))
      hdelimited hrest
    have hassign : Reads 0 _ _ := Reads.mark (c := '=') rfl hvalue.space
    have hread := hassign.space.identifier hname (delimited_of_mem (by decide) _)
    simpa [text, derivation, StatementTree.yield, Expr.tree, Tree.yield_alone] using hread

/-- Statements in lines of their own. -/
theorem reads_lines {ss : List Statement}
    (h : ∀ s ∈ ss, Printable s.names s.expr.literals) :
    Reads 0 (['\n'].intercalate (ss.map fun s => s.text.toList)) (derivations ss).yield := by
  induction ss with
  | nil => exact Reads.nil 0
  | cons s rest ih =>
    have hs := h s (by simp)
    have hrest := ih fun s' hs' => h s' (List.mem_cons_of_mem s hs')
    -- between lines there is a line break, and none behind the last one
    cases rest with
    | nil =>
      have hread := reads_text hs delimited_nil (Reads.nil 0)
      simpa [derivations, ProgramTree.yield] using hread
    | cons next rest =>
      have hread := reads_text hs (delimited_of_mem (by decide) _) hrest.lineBreak
      simpa [derivations, ProgramTree.yield] using hread

end Statement

namespace Formula

/-- The text of a formula, statement by statement. -/
theorem reads_text {formula : Formula} (h : Printable formula.names formula.literals) :
    Reads 0 formula.text.toList formula.derivation.yield := by
  have hstatements : ∀ s ∈ formula.statements, Printable s.names s.expr.literals := by
    intro s hs
    refine h.mono (fun name hname => ?_) fun x hx => ?_
    · exact List.mem_flatMap.2 ⟨s, hs, hname⟩
    · exact List.mem_flatMap.2 ⟨s.expr, List.mem_map_of_mem hs, hx⟩
  have hread := Statement.reads_lines hstatements
  rw [text, String.toList_intercalate, List.map_map]
  exact hread

/-- Reading the text of a formula gives the formula back, with every name, every literal and every
operation where it was, if no expression needs more than 256 signed phrases within each other. If
some expression needs more, the text is rejected for that reason. -/
theorem parse_text (formula : Formula)
    (hnames : ∀ name ∈ formula.names, isIdentifier name = true)
    (hliterals : ∀ x ∈ formula.literals, x.isFinite = true ∧ Binary64.isNegative x = false)
    (hreadBack : ∀ x ∈ formula.literals, ofText? (plain x) = some x) :
    ((∀ e ∈ formula.exprs, e.need ≤ 256) → Formula.parse formula.text = .ok formula) ∧
      ((∃ e ∈ formula.exprs, 256 < e.need) →
        ∃ position, Formula.parse formula.text = .error ⟨.nestedTooDeeply, position⟩) := by
  -- the tokens are those of the derivation, so it decides what the parser makes of them
  have hparse := parse_of_reads (reads_text ⟨hnames, hliterals, hreadBack⟩)
  rw [statements_derivation] at hparse
  refine ⟨fun hneed => hparse.1 (nesting_derivation_le.2 hneed), fun ⟨e, he, hdeep⟩ => ?_⟩
  refine hparse.2 ?_
  -- a need beyond the limit is a nesting beyond it
  by_contra hle
  have hneed := nesting_derivation_le.1 (Nat.le_of_not_lt hle) e he
  exact absurd hdeep (Nat.not_lt.2 hneed)

/-- `sin` of `x` behind the given number of minus signs needs two signed phrases for each sign, one
for the call and one for `x`. With 127 signs that is the limit, with one sign more it is beyond. -/
theorem parse_text_of_signs :
    let signs (n : Nat) : Expr := (List.range n).foldl (fun e _ => .negate e) (.var "x")
    let power : Statement := .assign "y_1" (.binary .pow (.number 2.5) (.negate (.number 0.1)))
    let formula (n : Nat) : Formula := ⟨[power, .result (.call "sin" [signs n])]⟩
    parse (formula 127).text = .ok (formula 127) ∧
      ∃ position, parse (formula 128).text = .error ⟨.nestedTooDeeply, position⟩ := by
  intro signs power formula
  have hnames : ∀ n ∈ [127, 128], ∀ name ∈ (formula n).names, isIdentifier name = true := by
    decide +kernel
  have hliterals : ∀ n ∈ [127, 128], (formula n).literals = [2.5, 0.1] := by
    simp only [List.forall_mem_cons]
    exact ⟨rfl, rfl, fun _ h => nomatch h⟩
  have hfinite : ∀ x ∈ [2.5, 0.1], Float.isFinite x = true ∧ Binary64.isNegative x = false := by
    decide
  have hreadBack : ∀ x ∈ [2.5, 0.1], ofText? (plain x) = some x := by
    simp only [List.forall_mem_cons]
    exact ⟨rfl, rfl, fun _ h => nomatch h⟩
  have hparse (n : Nat) (hn : n ∈ [127, 128]) := parse_text (formula n) (hnames n hn)
    (hliterals n hn ▸ hfinite) (hliterals n hn ▸ hreadBack)
  -- each sign needs two signed phrases, and the name and the call need one each
  have hwithin : ∀ e ∈ (formula 127).exprs, e.need ≤ 256 := by decide +kernel
  have hbeyond : ∃ e ∈ (formula 128).exprs, 256 < e.need := by decide +kernel
  exact ⟨(hparse 127 (by decide)).1 hwithin, (hparse 128 (by decide)).2 hbeyond⟩

end Formula

end FormulaMachine
