import FormulaMachine.Proofs.Grammar.Program
import FormulaMachine.Proofs.Names.Emission
import FormulaMachine.Proofs.Token.Joining
import FormulaMachine.Code.Program

/-!
# One formula behind another

Two formulas with a line break between them are one formula. Whatever derives a program closes the
parentheses it opens, so the line break ends a statement; the table of names that the first formula
leaves is the one that the second is compiled on.

* **`ProgramTree.foldl_depthAfter`**: a program leaves no parenthesis open.
* **`ProgramTree.append`**: the derivation of one program behind another.
* **`Program.compile_append`**: parsing and compiling two formulas one behind the other.
-/

namespace FormulaMachine

namespace Grammar

/-! ## Parentheses -/

/-- How many parentheses a phrase closes that it does not open. -/
def Phrase.surplus : Phrase → Nat
  | arguments => 1
  | expr _ | links _ => 0

/-- Reading the tokens of a phrase leaves as many parentheses open as before, less those that the
phrase closes for the one around it. By induction on the tree. -/
theorem Tree.foldl_depthAfter {phrase : Phrase} (t : Tree phrase) (depth : Nat) :
    t.yield.foldl TokenKind.depthAfter (depth + phrase.surplus) = depth := by
  induction t generalizing depth with
  | chain first rest ihfirst ihrest =>
    simp only [Phrase.surplus, Nat.add_zero] at ihfirst ihrest ⊢
    rw [yield, List.foldl_append, ihfirst, ihrest]
  | link op member right rest ihright ihrest =>
    have hop : op.token.depthAfter depth = depth := by cases op <;> rfl
    simp only [Phrase.surplus, Nat.add_zero] at ihright ihrest ⊢
    rw [yield, List.foldl_cons, hop, List.foldl_append, ihright, ihrest]
  | raised base exponent ihbase ihexponent =>
    simp only [Phrase.surplus, Nat.add_zero] at ihbase ihexponent ⊢
    rw [yield, List.foldl_append, ihbase]
    exact ihexponent depth
  | parens inner ih =>
    simp only [Phrase.surplus, Nat.add_zero] at ih ⊢
    rw [yield, List.foldl_cons, List.foldl_append, ih]
    rfl
  -- the closing parenthesis behind arguments is the one that they leave to be closed
  | lastArgument argument ih =>
    simp only [Phrase.surplus, Nat.add_zero] at ih ⊢
    rw [yield, List.foldl_append, ih]
    rfl
  | nextArgument argument rest ihargument ihrest =>
    simp only [Phrase.surplus, Nat.add_zero] at ihargument ihrest ⊢
    rw [yield, List.foldl_append, ihargument]
    exact ihrest depth
  | callSome function arguments ih => exact ih depth
  | minus operand ih => exact ih depth
  | plus operand ih => exact ih depth
  | unsigned operand ih => exact ih depth
  | bare operand ih => exact ih depth
  | done | number | name | callNone => rfl

/-- A statement closes the parentheses it opens. The assigned name and the `=` in front of the value
open none. -/
theorem StatementTree.foldl_depthAfter (s : StatementTree) (depth : Nat) :
    s.yield.foldl TokenKind.depthAfter depth = depth := by
  cases s with
  | assign name value => exact value.foldl_depthAfter depth
  | result value => exact value.foldl_depthAfter depth

theorem foldl_depthAfter_terminators (n depth : Nat) :
    (List.replicate n TokenKind.terminator).foldl TokenKind.depthAfter depth = depth := by
  induction n with
  | zero => rfl
  | succ n ih => exact ih

namespace ProgramTree

/-- A program closes the parentheses it opens, however many are open before. -/
theorem foldl_depthAfter (p : ProgramTree) (depth : Nat) :
    p.yield.foldl TokenKind.depthAfter depth = depth := by
  induction p with
  | blank n => exact foldl_depthAfter_terminators n depth
  | last n s => rw [yield, List.foldl_append, foldl_depthAfter_terminators, s.foldl_depthAfter]
  | next n s p ih =>
    rw [yield, List.foldl_append, foldl_depthAfter_terminators, List.foldl_append,
      s.foldl_depthAfter]
    exact ih

/-! ## Derivations -/

/-- The program with further terminators in front. -/
def delay (n : Nat) : ProgramTree → ProgramTree
  | blank m => blank (n + m)
  | last m s => last (n + m) s
  | next m s p => next (n + m) s p

/-- Further terminators in front are read before everything else. -/
theorem yield_delay (n : Nat) (p : ProgramTree) :
    (p.delay n).yield = List.replicate n .terminator ++ p.yield := by
  cases p <;> simp only [delay, yield, ← List.replicate_append_replicate, List.append_assoc]

/-- The programs one behind the other, with a terminator between them. -/
def append : ProgramTree → ProgramTree → ProgramTree
  | blank n, q => q.delay (n + 1)
  | last n s, q => next n s q
  | next n s p, q => next n s (p.append q)

/-- The tokens of the one program, a terminator, and the tokens of the other. -/
theorem yield_append (p q : ProgramTree) :
    (p.append q).yield = p.yield ++ .terminator :: q.yield := by
  induction p with
  | blank n =>
    rw [append, yield_delay, yield, List.replicate_succ', List.append_assoc]
    rfl
  | last n s => simp only [append, yield, List.append_assoc]
  | next n s p ih => simp only [append, yield, ih, List.append_assoc, List.cons_append]

/-- The statements of the one program, then those of the other; the terminators between them add
none. -/
theorem statements_append (p q : ProgramTree) :
    (p.append q).statements = p.statements ++ q.statements := by
  induction p with
  | blank n => cases q <;> rfl
  | last n s => rfl
  | next n s p ih => simp only [append, statements, ih, List.cons_append]

/-- No phrase of the joined program is nested in one of the other part, so the nesting is that of
the deeper part. -/
theorem nesting_append (p q : ProgramTree) : (p.append q).nesting = max p.nesting q.nesting := by
  induction p with
  | blank n => cases q <;> simp [append, delay, nesting]
  | last n s => rfl
  | next n s p ih => simp only [append, nesting, ih, Nat.max_assoc]

end ProgramTree

end Grammar

/-! ## Texts -/

namespace Formula

open Grammar

/-- Two formulas with a line break between them. -/
theorem parse_append {source source' : String} {formula formula' : Formula}
    (h : parse source = .ok formula) (h' : parse source' = .ok formula') :
    parse (source ++ "\n" ++ source') = .ok ⟨formula.statements ++ formula'.statements⟩ := by
  obtain ⟨p, hp, hnesting, rfl⟩ := exists_reads_of_parse h
  obtain ⟨q, hq, hnesting', rfl⟩ := exists_reads_of_parse h'
  -- no parenthesis is open in front of the line break
  have hclosed : Reads (p.yield.foldl TokenKind.depthAfter 0) ('\n' :: source'.toList)
      (.terminator :: q.yield) := by
    rw [p.foldl_depthAfter]
    exact hq.lineBreak
  have hjoined : Reads 0 (source ++ "\n" ++ source').toList (p.append q).yield := by
    have htext : (source ++ "\n" ++ source').toList = source.toList ++ '\n' :: source'.toList := by
      simp
    rw [htext, ProgramTree.yield_append]
    exact hp.append source'.toList hclosed
  -- both parts are within the limit, and joining nests neither in the other
  have hwithin : (p.append q).nesting ≤ Parser.nestingLimit := by
    rw [ProgramTree.nesting_append]
    exact Nat.max_le.2 ⟨hnesting, hnesting'⟩
  rw [(parse_of_reads hjoined).1 hwithin, ProgramTree.statements_append]

end Formula

/-! ## Code -/

/-- The code of statements is emitted in order, and the table of names is handed on from one to the
next. -/
theorem Statement.emitAll_append (options : Options) (ss more : List Statement)
    (table : NameTable) :
    emitAll options table (ss ++ more) =
      ((emitAll options table ss).1 ++ (emitAll options (emitAll options table ss).2 more).1,
        (emitAll options (emitAll options table ss).2 more).2) := by
  induction ss generalizing table with
  | nil => rfl
  | cons s ss ih => simp only [List.cons_append, emitAll, ih, List.append_assoc]

namespace Program

/-- Parsing and compiling take two formulas one behind the other to their statements and their code
one behind the other, where the second is compiled on the table of names that the first has left. -/
theorem compile_append {source source' : String} {formula formula' : Formula}
    (h : Formula.parse source = .ok formula) (h' : Formula.parse source' = .ok formula') :
    let joined := source ++ "\n" ++ source'
    let statements := formula.statements ++ formula'.statements
    Formula.parse joined = .ok ⟨statements⟩ ∧
      ∀ (options : Options) (table : NameTable), ∃ first second : Program,
        compile options table source = .ok first ∧
        compile options first.names source' = .ok second ∧
        compile options table joined =
          .ok ⟨joined, ⟨statements⟩, first.code ++ second.code, second.names⟩ := by
  intro joined statements
  have hjoined : Formula.parse joined = .ok ⟨statements⟩ := Formula.parse_append h h'
  refine ⟨hjoined, fun options table => ?_⟩
  refine ⟨⟨source, formula, (formula.emit options table).1, (formula.emit options table).2⟩,
    ⟨source', formula', (formula'.emit options (formula.emit options table).2).1,
      (formula'.emit options (formula.emit options table).2).2⟩, ?_, ?_, ?_⟩
  · rw [compile, h]
  · rw [compile, h']
  -- the second part is compiled on the table that the first one leaves
  · have hcode := Statement.emitAll_append options formula.statements formula'.statements table
    rw [compile, hjoined]
    simp only [Formula.emit, statements, hcode]

set_option maxRecDepth 10000 in
/-- A comment of the first formula ends at the line break, whatever parentheses it holds. The
constant `pi` is one only until the second formula assigns it. -/
theorem compile_append_of_comment :
    Formula.parse "x = pi # (" = .ok ⟨[.assign "x" (.var "pi")]⟩ ∧
    Formula.parse "pi = x; pi" = .ok ⟨[.assign "pi" (.var "x"), .result (.var "pi")]⟩ ∧
    Program.compile {} .empty ("x = pi # (" ++ "\n" ++ "pi = x; pi") =
      .ok ⟨"x = pi # (\npi = x; pi",
        ⟨[.assign "x" (.var "pi"), .assign "pi" (.var "x"), .result (.var "pi")]⟩,
        [.push Special.pi, .store 0, .load 0, .store 1, .load 1], ⟨["x", "pi"], by decide⟩⟩ := by
  have h : Formula.parse "x = pi # (" = .ok ⟨[.assign "x" (.var "pi")]⟩ := by cbv
  have h' : Formula.parse "pi = x; pi" =
      .ok ⟨[.assign "pi" (.var "x"), .result (.var "pi")]⟩ := by cbv
  refine ⟨h, h', ?_⟩
  obtain ⟨first, second, hfirst, hsecond, hjoined⟩ := (compile_append h h').2 {} .empty
  rw [hjoined]
  rw [compile, h] at hfirst
  cases hfirst
  rw [compile, h'] at hsecond
  cases hsecond
  rfl

end Program

end FormulaMachine
