import FormulaMachine.Code.Program
import FormulaMachine.Proofs.Grammar.Fault
import FormulaMachine.Proofs.Grammar.Walk
import FormulaMachine.Proofs.Token.Layout

/-!
# Texts with tokens of the same kinds

What a parser does is told by the kinds of its tokens: a walk over the tokens sees nothing else of
them. So two texts whose tokens are of the same kinds write the same formula and have the same code,
or both are faulty for the same reason, each at its own place. How a text is laid out does not
matter.

* **`Parser.statements_of_kinds`**: parsers on tokens of the same kinds.
* **`Program.compile_of_kinds`**: texts with tokens of the same kinds.
-/

namespace FormulaMachine

/-- A walk in front of tokens of the same kinds comes to the same end. -/
theorem Follows.reached_eq {α : Type} {kinds : List TokenKind} {depth : Nat} {walk : Walk α}
    {ts us : List Token} {r r' : Outcome α} (hr : Follows kinds depth walk ts r)
    (hr' : Follows kinds depth walk us r') (hkinds : ts.map Token.kind = us.map Token.kind)
    (hsuffix : ts.map Token.kind <:+ kinds) :
    r.reached kinds depth = r'.reached kinds depth ∧
      r.left.map Token.kind = r'.left.map Token.kind := by
  have hsuffix' : us.map Token.kind <:+ kinds := hkinds ▸ hsuffix
  obtain ⟨hleft, hend⟩ := hr hsuffix
  obtain ⟨hleft', hend'⟩ := hr' hsuffix'
  have hstart : Cursor.before kinds depth ts = .before kinds depth us := by
    have hlength := congrArg List.length hkinds
    rw [List.length_map, List.length_map] at hlength
    rw [Cursor.before, Cursor.before, hlength]
  rw [hstart] at hend
  have hreached : r.reached kinds depth = r'.reached kinds depth := hend.symm.trans hend'
  refine ⟨hreached, ?_⟩
  -- both ends are the last tokens of the row, and as many
  have hlast := (hleft.map Token.kind).trans hsuffix
  have hlast' := (hleft'.map Token.kind).trans hsuffix'
  have hposition := congrArg (fun reached => reached.2.position) hreached
  have hlength : (r.left.map Token.kind).length = (r'.left.map Token.kind).length := by
    have hle := hlast.length_le
    have hle' := hlast'.length_le
    simp only [Outcome.reached, Cursor.before, List.length_map] at hposition hle hle' ⊢
    omega
  exact (List.suffix_of_suffix_length_le hlast hlast' hlength.le).eq_of_length hlength

namespace Parser

/-- Tokens of the same kinds make up the same statements, or the parser stops for the same reason in
front of tokens of the same kinds. -/
theorem statements_of_kinds {ts us : List Token} (h : ts.map Token.kind = us.map Token.kind) :
    (∃ ss, statements ts = .ok ss ∧ statements us = .ok ss) ∨
      ∃ o ahead ahead', statements ts = .error ⟨o, ahead⟩ ∧ statements us = .error ⟨o, ahead'⟩ ∧
        ahead.map Token.kind = ahead'.map Token.kind := by
  have hfollows (vs : List Token) : Follows (ts.map Token.kind) 0 _ vs (program vs) :=
    Walk.follows_program (Nat.lt_succ_self _) (Nat.lt_succ_self _) vs
  obtain ⟨hreached, hleft⟩ := (hfollows ts).reached_eq (hfollows us) h List.suffix_rfl
  have hresult := congrArg Prod.fst hreached
  rw [program, program] at hresult hleft
  -- the two results agree, so both parsers succeed or both stop
  cases hts : statements ts with
  | ok ss =>
    rw [hts] at hresult hleft
    cases hus : statements us with
    | ok ss' =>
      rw [hus] at hresult
      cases hresult
      exact .inl ⟨ss, rfl, rfl⟩
    | error stop =>
      rw [hus] at hresult
      cases hresult
  | error stop =>
    rw [hts] at hresult hleft
    cases hus : statements us with
    | ok ss =>
      rw [hus] at hresult
      cases hresult
    | error stop' =>
      rw [hus] at hresult hleft
      obtain ⟨o, ahead⟩ := stop
      obtain ⟨o', ahead'⟩ := stop'
      cases hresult
      exact .inr ⟨o, ahead, ahead', rfl, rfl, hleft⟩

end Parser

/-- The cause of a fault is told by the kinds of the tokens ahead, its place is not. -/
theorem Stop.fault_of_kinds {o : Obstacle} {ahead ahead' : List Token}
    (h : ahead.map Token.kind = ahead'.map Token.kind) (finish finish' : Position) :
    (⟨(Stop.fault finish ⟨o, ahead⟩).cause, (Stop.fault finish' ⟨o, ahead'⟩).position⟩ :
      SyntaxFault) = Stop.fault finish' ⟨o, ahead'⟩ := by
  have hhead : ahead.head?.map Token.kind = ahead'.head?.map Token.kind := by
    rw [← List.head?_map, ← List.head?_map, h]
  cases o with
  | missing expected => simp only [Stop.fault, hhead]
  | nestedTooDeeply => rfl

namespace Formula

theorem parse_of_scan {source : String} {stream : TokenStream}
    (h : TokenStream.scan source = .ok stream) : parse source = ofTokens stream := by
  rw [parse, h]

/-- Streams of the same kinds write the same formula, or are faulty for the same reason. -/
theorem ofTokens_of_kinds {stream other : TokenStream}
    (h : stream.tokens.map Token.kind = other.tokens.map Token.kind) :
    (∃ formula, ofTokens stream = .ok formula ∧ ofTokens other = .ok formula) ∨
      ∃ cause position position', ofTokens stream = .error ⟨cause, position⟩ ∧
        ofTokens other = .error ⟨cause, position'⟩ := by
  obtain ⟨ss, hss, hss'⟩ | ⟨o, ahead, ahead', hstop, hstop', hahead⟩ :=
    Parser.statements_of_kinds h
  · exact .inl ⟨⟨ss⟩, ofTokens_of_statements_ok hss, ofTokens_of_statements_ok hss'⟩
  · have hfault := ofTokens_of_statements_error hstop'
    rw [← Stop.fault_of_kinds hahead stream.finish other.finish] at hfault
    exact .inr ⟨_, _, _, ofTokens_of_statements_error hstop, hfault⟩

end Formula

namespace Program

/-- The texts of the tokens of a text, with single blanks between them, are read as the same tokens.
And whatever other text is read as tokens of these kinds, it writes the same formula, with the same
code and names on every table and under all options; or both texts are faulty for one reason. -/
theorem compile_of_kinds {source : String} {stream : TokenStream}
    (h : TokenStream.scan source = .ok stream) :
    (∃ again, TokenStream.scan (" ".intercalate (stream.tokens.map Token.lexeme)) = .ok again ∧
      again.contents = stream.contents) ∧
    ∀ other otherStream, TokenStream.scan other = .ok otherStream →
      otherStream.tokens.map Token.kind = stream.tokens.map Token.kind →
      (∃ formula, Formula.parse source = .ok formula ∧ Formula.parse other = .ok formula ∧
        ∀ options table, ∃ code names,
          compile options table source = .ok ⟨source, formula, code, names⟩ ∧
          compile options table other = .ok ⟨other, formula, code, names⟩) ∨
      ∃ cause position position', Formula.parse source = .error ⟨cause, position⟩ ∧
        Formula.parse other = .error ⟨cause, position'⟩ ∧
        ∀ options table,
          compile options table source = .error (.malformed source ⟨cause, position⟩) ∧
          compile options table other = .error (.malformed other ⟨cause, position'⟩) := by
  refine ⟨TokenStream.exists_scan_respelled h, fun other otherStream hother hkinds => ?_⟩
  have hparse := Formula.parse_of_scan h
  have hparse' := Formula.parse_of_scan hother
  -- the parser does the same on both streams, and code and names depend on the formula only
  obtain ⟨formula, hok, hok'⟩ | ⟨cause, position, position', hfault, hfault'⟩ :=
    Formula.ofTokens_of_kinds hkinds.symm
  · rw [hok] at hparse
    rw [hok'] at hparse'
    exact .inl ⟨formula, hparse, hparse', fun options table =>
      ⟨_, _, by rw [compile, hparse], by rw [compile, hparse']⟩⟩
  · rw [hfault] at hparse
    rw [hfault'] at hparse'
    exact .inr ⟨cause, position, position', hparse, hparse', fun options table =>
      ⟨by rw [compile, hparse], by rw [compile, hparse']⟩⟩

set_option maxRecDepth 20000 in
/-- A comment and a line break inside parentheses, and a terminator that is written otherwise. -/
theorem compile_of_kinds_of_comment :
    let stream : TokenStream :=
      ⟨[⟨.identifier "f", "f", ⟨1, 1⟩⟩, ⟨.openParen, "(", ⟨1, 2⟩⟩, ⟨.identifier "x", "x", ⟨1, 3⟩⟩,
        ⟨.comma, ",", ⟨1, 4⟩⟩, ⟨.identifier "y", "y", ⟨2, 1⟩⟩, ⟨.closeParen, ")", ⟨2, 2⟩⟩,
        ⟨.terminator, ";", ⟨2, 3⟩⟩, ⟨.identifier "z", "z", ⟨2, 5⟩⟩], ⟨2, 6⟩⟩
    TokenStream.scan "f(x, # 1\ny); z" = .ok stream ∧
      (∃ again, TokenStream.scan "f ( x , y ) ; z" = .ok again ∧
        again.contents = stream.contents) ∧
      ∃ formula, Formula.parse "f(x, # 1\ny); z" = .ok formula ∧
        Formula.parse "f(x,y)\nz" = .ok formula := by
  intro stream
  have hscan : TokenStream.scan "f(x, # 1\ny); z" = .ok stream := by cbv
  have htext : " ".intercalate (stream.tokens.map Token.lexeme) = "f ( x , y ) ; z" := by cbv
  have hother : TokenStream.scan "f(x,y)\nz" = .ok
      ⟨[⟨.identifier "f", "f", ⟨1, 1⟩⟩, ⟨.openParen, "(", ⟨1, 2⟩⟩, ⟨.identifier "x", "x", ⟨1, 3⟩⟩,
        ⟨.comma, ",", ⟨1, 4⟩⟩, ⟨.identifier "y", "y", ⟨1, 5⟩⟩, ⟨.closeParen, ")", ⟨1, 6⟩⟩,
        ⟨.terminator, "\n", ⟨1, 7⟩⟩, ⟨.identifier "z", "z", ⟨2, 1⟩⟩], ⟨2, 2⟩⟩ := by cbv
  have hparse : Formula.parse "f(x, # 1\ny); z" =
      .ok ⟨[.result (.call "f" [.var "x", .var "y"]), .result (.var "z")]⟩ := by cbv
  obtain ⟨hrespelled, hkinds⟩ := compile_of_kinds hscan
  rw [htext] at hrespelled
  obtain ⟨formula, hformula, hsame, -⟩ | ⟨cause, position, -, hfault, -⟩ :=
    hkinds "f(x,y)\nz" _ hother rfl
  · exact ⟨hscan, hrespelled, formula, hformula, hsame⟩
  · rw [hparse] at hfault
    cases hfault

end Program

end FormulaMachine
