import FormulaMachine.Proofs.Grammar.Completion
import FormulaMachine.Proofs.Grammar.Lookahead
import FormulaMachine.Proofs.Token.Places

/-!
# Faults are told at the first token that cannot stand

A fault tells the place of the token in front of which parsing stopped. Whatever stands behind that
token, parsing stops there; so no formula begins with the tokens up to it. If something was missing,
the tokens before it do begin a formula.

* **`Formula.exists_place_of_fault`**: both.
-/

namespace FormulaMachine

namespace Stop

/-- The place in the fault is that of the token ahead, or the end. -/
theorem position_fault (stop : Stop) (us : List Token) (finish : Position) :
    (TokenStream.mk (us ++ stop.ahead) finish).places[us.length]? =
      some (stop.fault finish).position := by
  obtain ⟨obstacle, ahead⟩ := stop
  cases ahead <;> simp [TokenStream.places, fault]

/-- What a fault says besides its place. -/
theorem cause_fault (stop : Stop) (finish : Position) :
    (stop.fault finish).cause = .nestedTooDeeply ∨ ∃ expected,
      stop.obstacle = .missing expected ∧
        (stop.fault finish).cause = .unexpectedNext expected (stop.ahead.head?.map Token.kind) := by
  obtain ⟨obstacle, ahead⟩ := stop
  cases obstacle with
  | missing expected => exact .inr ⟨expected, rfl, rfl⟩
  | nestedTooDeeply => exact .inl rfl

end Stop

namespace Formula

theorem ofTokens_of_statements_ok {stream : TokenStream} {ss : List Statement}
    (h : Parser.statements stream.tokens = .ok ss) : ofTokens stream = .ok ⟨ss⟩ := by
  rw [ofTokens, h]

/-- Where the parser of statements stops, the formula fails with the fault of that stop. -/
theorem ofTokens_of_statements_error {stream : TokenStream} {stop : Stop}
    (h : Parser.statements stream.tokens = .error stop) :
    ofTokens stream = .error (stop.fault stream.finish) := by
  rw [ofTokens, h]

/-- A fault in tokens with different places tells the place of one of them, or of the end. No
formula begins with the tokens up to and with that one. Either too many phrases lie within each
other, or the fault names the token and what is expected instead, and then a formula begins with the
tokens before it. -/
theorem exists_place_of_fault {stream : TokenStream} {fault : SyntaxFault}
    (hplaces : stream.places.Nodup) (h : ofTokens stream = .error fault) :
    ∃ i ≤ stream.tokens.length, (∀ j, stream.places[j]? = some fault.position ↔ j = i) ∧
      (i < stream.tokens.length → ∀ more finish formula,
        ofTokens ⟨stream.tokens.take (i + 1) ++ more, finish⟩ ≠ .ok formula) ∧
      (fault.cause = .nestedTooDeeply ∨ ∃ expected,
        fault.cause = .unexpectedNext expected (stream.tokens[i]?.map Token.kind) ∧
        ∃ kinds ≠ [], ∀ more finish, more.map Token.kind = kinds →
          ∃ formula, ofTokens ⟨stream.tokens.take i ++ more, finish⟩ = .ok formula) := by
  obtain ⟨tokens, finish⟩ := stream
  cases hstatements : Parser.statements tokens with
  | ok ss =>
    rw [ofTokens_of_statements_ok hstatements] at h
    cases h
  | error stop =>
    rw [ofTokens_of_statements_error hstatements] at h
    cases h
    obtain ⟨us, rfl, hstop⟩ := Parser.exists_stop_of_statements hstatements
    have hplace := stop.position_fault us finish
    -- the token is the one in front of which parsing stops, behind `us`
    refine ⟨us.length, by simp, fun j => ⟨fun hj => ?_, ?_⟩, ?_, ?_⟩
    · obtain ⟨hlt, -⟩ := List.getElem?_eq_some_iff.1 hj
      exact (List.getElem?_inj hlt hplaces).1 (hj.trans hplace.symm)
    · rintro rfl
      exact hplace
    · intro hinside more finish' formula hok
      -- the same token is in front where parsing stops
      obtain ⟨t, rest, hahead⟩ : ∃ t rest, stop.ahead = t :: rest := by
        refine List.exists_cons_of_ne_nil fun hnil => ?_
        simp [hnil] at hinside
      have htake : (us ++ stop.ahead).take (us.length + 1) ++ more = us ++ t :: more := by
        simp [hahead, List.take_append]
      have herror := hstop (t :: more) (by rw [hahead]; rfl)
      rw [htake, ofTokens_of_statements_error herror] at hok
      cases hok
    · obtain hdeep | ⟨expected, hmissing, hcause⟩ := stop.cause_fault finish
      · exact .inl hdeep
      · refine .inr ⟨expected, ?_, ?_⟩
        · rw [hcause, List.getElem?_append_right (Nat.le_refl _), Nat.sub_self,
            List.head?_eq_getElem?]
        -- something is missing, so what was taken begins a program
        · obtain ⟨p, vs, completion, hvs, hyield, hne, hdepth⟩ :=
            Grammar.statements_viable (us ++ stop.ahead) (by rw [hstatements, ← hmissing])
          obtain rfl := List.append_cancel_right hvs
          refine ⟨completion, hne, fun more finish' hmore => ?_⟩
          have hkinds : (vs ++ more).map Token.kind = p.yield := by
            rw [List.map_append, hmore, hyield]
          rw [List.take_left]
          exact ⟨_, ofTokens_of_statements_ok ((p.parses hkinds).1 hdepth)⟩

set_option maxRecDepth 20000 in
/-- An argument is missing in front of `;`. The tokens up to the comma begin a formula, those up to
`;` do not. -/
theorem exists_place_of_fault_of_missing_argument :
    let stream : TokenStream :=
      ⟨[⟨.identifier "f", "f", ⟨1, 1⟩⟩, ⟨.openParen, "(", ⟨1, 2⟩⟩, ⟨.identifier "x", "x", ⟨1, 3⟩⟩,
        ⟨.comma, ",", ⟨1, 4⟩⟩, ⟨.terminator, ";", ⟨1, 6⟩⟩, ⟨.identifier "y", "y", ⟨1, 8⟩⟩], ⟨1, 9⟩⟩
    TokenStream.scan "f(x, ; y" = .ok stream ∧ stream.places.Nodup ∧
      ofTokens stream = .error ⟨.unexpectedNext .expression (some .terminator), ⟨1, 6⟩⟩ ∧
      (∀ more finish formula, ofTokens ⟨stream.tokens.take 5 ++ more, finish⟩ ≠ .ok formula) ∧
      ∃ kinds ≠ [], ∀ more finish, more.map Token.kind = kinds →
        ∃ formula, ofTokens ⟨stream.tokens.take 4 ++ more, finish⟩ = .ok formula := by
  intro stream
  have hscan : TokenStream.scan "f(x, ; y" = .ok stream := by cbv
  have hplaces := TokenStream.nodup_places_of_scan hscan
  have herror : ofTokens stream =
      .error ⟨.unexpectedNext .expression (some .terminator), ⟨1, 6⟩⟩ := by cbv
  obtain ⟨i, -, hplace, hnone, hcause⟩ := exists_place_of_fault hplaces herror
  -- the terminator is the fifth token, and the only one at that place
  obtain rfl : 4 = i := (hplace 4).1 rfl
  refine ⟨hscan, hplaces, herror, hnone (by decide), ?_⟩
  obtain hdeep | ⟨expected, -, hbegins⟩ := hcause
  · cases hdeep
  · exact hbegins

end Formula

end FormulaMachine
