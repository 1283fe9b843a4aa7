import FormulaMachine.Proofs.Token.Reading

/-!
# Tokens stand one behind the other

No two tokens of a text have the same place, and none has that of the end: the scanner moves on by
at least one character from token to token, and every character moves the place ahead.

* **`Position.Before`**: the order of places, by line and then by column.
* **`TokenStream.pairwise_places_of_scanFrom`**: the places of the tokens and of the end increase.
-/

namespace FormulaMachine

namespace Position

/-- A place comes before another one on a later line, or further right on its own. -/
def Before (p q : Position) : Prop := p.line < q.line ∨ p.line = q.line ∧ p.column < q.column

theorem Before.trans {p q r : Position} (h : p.Before q) (h' : q.Before r) : p.Before r := by
  unfold Before at *
  omega

theorem Before.ne {p q : Position} (h : p.Before q) : p ≠ q := by
  rintro rfl
  unfold Before at h
  omega

/-- Every character moves the place ahead: a line break to the next line, any other one to the next
column. -/
theorem before_next (p : Position) (c : Char) : p.Before (p.next c) := by
  unfold Before next
  split
  · exact .inl (Nat.lt_succ_self _)
  · exact .inr ⟨rfl, Nat.lt_succ_self _⟩

/-- A text that is not empty moves the place ahead. -/
theorem before_after (p : Position) {cs : List Char} (h : cs ≠ []) : p.Before (p.after cs) := by
  induction cs generalizing p with
  | nil => exact absurd rfl h
  | cons c cs ih =>
    have hnext := p.before_next c
    rw [after_cons]
    by_cases hcs : cs = []
    · rw [hcs]
      exact hnext
    · exact hnext.trans (ih _ hcs)

end Position

/-- A token has the place of its piece. -/
theorem Piece.position_of_mem_token? {position : Position} {depth : Nat} {piece : Piece}
    {t : Token} (h : t ∈ (piece.token? position depth).toList) : t.position = position := by
  rw [Option.mem_toList] at h
  cases piece with
  | token kind text =>
    cases h
    rfl
  | lineBreak =>
    -- inside parentheses a line break gives no token
    by_cases hdepth : depth = 0
    · simp only [token?, if_pos hdepth] at h
      cases h
      rfl
    · simp only [token?, if_neg hdepth] at h
      cases h
  | skipped text => cases h

namespace TokenStream

/-- The places of the tokens, and that of the end. -/
def places (stream : TokenStream) : List Position :=
  stream.tokens.map Token.position ++ [stream.finish]

theorem places_prepend (token? : Option Token) (stream : TokenStream) :
    (stream.prepend token?).places = (token?.toList.map Token.position) ++ stream.places := by
  simp [prepend, places]

/-- The tokens of a text stand at its start or behind it, and one behind the other. By induction on
the length of the text. -/
theorem pairwise_places_of_scanFrom {position : Position} {depth : Nat} (cs : List Char)
    {stream : TokenStream} (h : scanFrom position depth cs = .ok stream) :
    (∀ p ∈ stream.places, p = position ∨ position.Before p) ∧
      stream.places.Pairwise Position.Before := by
  induction hn : cs.length using Nat.strong_induction_on generalizing position depth cs stream with
  | _ n ih =>
    cases cs with
    | nil =>
      rw [scanFrom_nil] at h
      cases h
      simp [places]
    | cons c cs =>
      obtain ⟨piece, rest, inner, hfront, hrest, rfl⟩ := exists_of_scanFrom_cons h
      have hshorter : rest.length < n := hn ▸ Piece.length_front? hfront
      obtain ⟨hbehind, hpairwise⟩ := ih _ hshorter rest hrest rfl
      -- a piece is not empty, so what follows it stands behind its place
      have hmove := position.before_after (Piece.text_ne_nil_of_front? hfront)
      have hinner : ∀ p ∈ inner.places, position.Before p := by
        intro p hp
        rcases hbehind p hp with rfl | hafter
        · exact hmove
        · exact hmove.trans hafter
      have hfirst : ∀ p ∈ (piece.token? position depth).toList.map Token.position,
          p = position := by
        intro p hp
        obtain ⟨t, ht, rfl⟩ := List.mem_map.1 hp
        exact Piece.position_of_mem_token? ht
      rw [places_prepend]
      refine ⟨fun p hp => ?_, List.pairwise_append.2 ⟨?_, hpairwise, fun p hp q hq => ?_⟩⟩
      · rcases List.mem_append.1 hp with hp | hp
        · exact .inl (hfirst p hp)
        · exact .inr (hinner p hp)
      · cases piece.token? position depth <;> simp
      · rw [hfirst p hp]
        exact hinner q hq

/-- No two tokens of a text have the same place, and none has that of the end: a place tells which
token it is. -/
theorem nodup_places_of_scan {source : String} {stream : TokenStream}
    (h : scan source = .ok stream) : stream.places.Nodup :=
  (pairwise_places_of_scanFrom source.toList h).2.imp Position.Before.ne

end TokenStream

end FormulaMachine
