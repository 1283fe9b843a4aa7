import FormulaMachine.Proofs.Grammar.Walk

/-!
# Parsing goes on where it stopped

A parser is called again and again, for a whole program or for one expression, and every call starts
where the last one ended, whether it succeeded or not. No call leaves a trace but the place of the
cursor: it comes to the same end as the same call on a new parser over the tokens that are left.

* `ParserCall`, `TokenStream.answer`: a call, and what it does from a cursor on.
* `ParserCall.take`: the same call on a list of tokens.
* **`TokenStream.answer_eq`**: the one is the other.
* **`TokenStream.resumes`**: what holds of a call after any other calls.
-/

namespace FormulaMachine

/-- What a parser is asked for. -/
inductive ParserCall where
  | program
  | expression

/-- What a call gives back. -/
inductive ParserReply where
  | formula (formula : Formula)
  | expression (e : Expr)

namespace Halt

/-- The same halt, with the fault changed. -/
def map {φ ψ : Type} (f : φ → ψ) : Halt φ → Halt ψ
  | fault φ => fault (f φ)
  | outside => outside
  | endless => endless

end Halt

/-! ## Calls in place -/

namespace ParserCall

/-- The walk over the tokens that a call makes. -/
def walk (kinds : List TokenKind) (turns calls : Nat) : ParserCall → Walk ParserReply
  | program => do return .formula ⟨← Walk.program kinds turns calls⟩
  | expression => do return .expression (← Walk.expression kinds turns calls)

end ParserCall

namespace TokenStream

/-- The fault of a parser that stops at the given token. -/
def faultAt (stream : TokenStream) (position : Nat) (o : Obstacle) : SyntaxFault :=
  Stop.fault stream.finish ⟨o, stream.tokens.drop position⟩

/-- What a call does from a cursor on, and where it leaves the cursor. -/
def answer (stream : TokenStream) (turns calls : Nat) (call : ParserCall) (cursor : Cursor) :
    Except (Halt SyntaxFault) ParserReply × Cursor :=
  let (reply, after) := (call.walk (stream.tokens.map Token.kind) turns calls).apply cursor
  (reply.mapError (Halt.map (stream.faultAt after.position)), after)

/-- The cursor after some calls on a new parser. -/
def cursorAfter (stream : TokenStream) (turns calls : Nat) (history : List ParserCall) : Cursor :=
  history.foldl (fun cursor call => (stream.answer turns calls call cursor).2) .start

/-- The stream without its first tokens. -/
def drop (count : Nat) (stream : TokenStream) : TokenStream :=
  ⟨stream.tokens.drop count, stream.finish⟩

end TokenStream

/-! ## Calls on a list of tokens -/

namespace ParserCall

/-- What a call makes of the tokens of a stream, and what it leaves of them. -/
def take (call : ParserCall) (stream : TokenStream) :
    Except SyntaxFault ParserReply × TokenStream :=
  match call with
  | program => (stream.takeFormula.1.map .formula, stream.takeFormula.2)
  | expression => (stream.takeExpression.1.map .expression, stream.takeExpression.2)

/-- How many tokens a call takes. -/
def taken (call : ParserCall) (stream : TokenStream) : Nat :=
  stream.tokens.length - (call.take stream).2.tokens.length

/-- What a call makes of tokens without a place. -/
def outcome (ts : List Token) : ParserCall → Outcome ParserReply
  | program => (Parser.program ts).mapValue fun ss => .formula ⟨ss⟩
  | expression => (FormulaMachine.outcome (Parser.expression ts)).mapValue .expression

/-- A call on a stream is the parser on its tokens, with the fault at its place; the end of the text
stays where it is. -/
theorem take_eq (call : ParserCall) (stream : TokenStream) :
    call.take stream = (match call.outcome stream.tokens with
      | .ok (reply, _) => .ok reply
      | .error stop => .error (stop.fault stream.finish),
      ⟨(call.outcome stream.tokens).left, stream.finish⟩) := by
  cases call with
  | program =>
    simp only [take, outcome, TokenStream.takeFormula, Parser.program]
    cases Parser.statements stream.tokens <;> rfl
  | expression =>
    simp only [take, outcome, TokenStream.takeExpression]
    cases Parser.expression stream.tokens <;> rfl

/-- The walk of a call follows the parser, if there are turns for all tokens and calls for every
nesting. -/
theorem follows_walk {kinds : List TokenKind} {turns calls : Nat} (hturns : kinds.length < turns)
    (hcalls : Parser.nestingLimit < calls) (call : ParserCall) (ts : List Token) :
    Follows kinds 0 (call.walk kinds turns calls) ts (call.outcome ts) := by
  cases call with
  | program =>
    exact (Walk.follows_program hturns hcalls ts).map fun ss => ParserReply.formula ⟨ss⟩
  | expression => exact (Walk.follows_expression hturns hcalls ts).map ParserReply.expression

/-- An expression that is read is not empty. -/
theorem taken_pos {call : ParserCall} {stream : TokenStream} {e : Expr}
    (h : (call.take stream).1 = .ok (.expression e)) : 0 < call.taken stream := by
  rw [taken]
  rw [take_eq] at h ⊢
  cases hr : call.outcome stream.tokens with
  | error stop =>
    rw [hr] at h
    cases h
  | ok found =>
    obtain ⟨reply, rest⟩ := found
    rw [hr] at h
    cases h
    show 0 < stream.tokens.length - rest.length
    cases call with
    | program =>
      obtain ⟨ss, -, hreply⟩ := Grammar.mapValue_eq_ok hr
      cases hreply
    | expression =>
      obtain ⟨e', hvalue, -⟩ := Grammar.mapValue_eq_ok hr
      -- the parser of expressions leaves fewer tokens than it was given
      have hshorter : rest.length < stream.tokens.length := outcome_shorter hvalue
      exact Nat.sub_pos_of_lt hshorter

end ParserCall

namespace TokenStream

variable {turns calls : Nat}

/-- From any place on, a call does what it does on the tokens from there on, and ends in front of
those that it leaves. -/
theorem answer_eq {stream : TokenStream} (hturns : stream.tokens.length < turns)
    (hcalls : Parser.nestingLimit < calls) (call : ParserCall) {position : Nat}
    (hposition : position ≤ stream.tokens.length) :
    stream.answer turns calls call ⟨position, 0⟩ =
        ((call.take (stream.drop position)).1.mapError .fault,
          ⟨position + call.taken (stream.drop position), 0⟩) ∧
      (call.take (stream.drop position)).2 =
        stream.drop (position + call.taken (stream.drop position)) := by
  obtain ⟨tokens, finish⟩ := stream
  simp only at hturns hposition
  have hkinds : (tokens.map Token.kind).length < turns := by rwa [List.length_map]
  have hsuffix : tokens.drop position <:+ tokens := List.drop_suffix position tokens
  obtain ⟨hleft, hend⟩ := call.follows_walk hkinds hcalls _ (hsuffix.map Token.kind)
  have hstart : Cursor.before (tokens.map Token.kind) 0 (tokens.drop position) = ⟨position, 0⟩ := by
    simp only [Cursor.before, List.length_map, List.length_drop]
    rw [Nat.sub_sub_self hposition]
  rw [hstart] at hend
  -- where the call ends, counted from the front
  have hlength := hleft.length_le
  rw [List.length_drop] at hlength
  have htaken : position + call.taken (drop position ⟨tokens, finish⟩) =
      tokens.length - (call.outcome (tokens.drop position)).left.length := by
    rw [ParserCall.taken, ParserCall.take_eq]
    simp only [drop, List.length_drop]
    omega
  -- what is left are the last tokens, so they are those from the end of the call on
  have hahead : tokens.drop (tokens.length - (call.outcome (tokens.drop position)).left.length) =
      (call.outcome (tokens.drop position)).left :=
    (List.suffix_iff_eq_drop.1 (hleft.trans hsuffix)).symm
  rw [htaken, ParserCall.take_eq]
  refine ⟨?_, ?_⟩
  · simp only [answer]
    rw [hend]
    simp only [Outcome.reached, Cursor.before, List.length_map, drop]
    cases hr : call.outcome (tokens.drop position) with
    | ok found => rfl
    | error stop =>
      rw [hr] at hahead
      simp only [Except.mapError, Halt.map, faultAt]
      rw [hahead]
      rfl
  · simp only [drop]
    rw [hahead]

/-- A call does not take more tokens than there are. -/
theorem taken_drop_le (stream : TokenStream) (call : ParserCall) {position : Nat}
    (hposition : position ≤ stream.tokens.length) :
    position + call.taken (stream.drop position) ≤ stream.tokens.length := by
  have hle : call.taken (stream.drop position) ≤ (stream.tokens.drop position).length :=
    Nat.sub_le _ _
  rw [List.length_drop] at hle
  omega

/-- Between calls no signed phrase is open, and the cursor is not behind the end. By induction on
the calls. -/
theorem cursorAfter_eq {stream : TokenStream} (hturns : stream.tokens.length < turns)
    (hcalls : Parser.nestingLimit < calls) (history : List ParserCall) :
    ∃ position ≤ stream.tokens.length,
      stream.cursorAfter turns calls history = ⟨position, 0⟩ := by
  induction history using List.reverseRecOn with
  | nil => exact ⟨0, Nat.zero_le _, rfl⟩
  | append_singleton history call ih =>
    obtain ⟨position, hposition, hcursor⟩ := ih
    have hstep := (answer_eq hturns hcalls call hposition).1
    refine ⟨_, stream.taken_drop_le call hposition, ?_⟩
    rw [cursorAfter, List.foldl_append, ← cursorAfter, hcursor]
    exact congrArg Prod.snd hstep

/-- After any calls on a parser, successful or not: no signed phrase is open, and one more call ends
neither in front of where it began nor behind the end of the tokens, and leaves no phrase open. It
reads no token that is not there, and its loops are over after as many turns as there are tokens, so
that more turns change nothing. It has the same end, after as many tokens, as on a new parser over
the tokens that were left, which is what the call makes of these tokens as a list. An expression that
is read has a token at least. -/
theorem resumes {stream : TokenStream} (hturns : stream.tokens.length < turns)
    (hcalls : Parser.nestingLimit < calls) (history : List ParserCall) (call : ParserCall) :
    let cursor := stream.cursorAfter turns calls history
    ∃ (reply : Except SyntaxFault ParserReply) (taken : Nat),
      cursor.depth = 0 ∧ cursor.position + taken ≤ stream.tokens.length ∧
        stream.answer turns calls call cursor =
          (reply.mapError .fault, ⟨cursor.position + taken, 0⟩) ∧
        (stream.drop cursor.position).answer turns calls call .start =
          (reply.mapError .fault, ⟨taken, 0⟩) ∧
        call.take (stream.drop cursor.position) = (reply, stream.drop (cursor.position + taken)) ∧
        ∀ e, reply = .ok (.expression e) → 0 < taken := by
  -- whatever the calls before were, the cursor stands somewhere and nothing is open
  obtain ⟨position, hposition, hcursor⟩ := cursorAfter_eq hturns hcalls history
  rw [hcursor]
  obtain ⟨hanswer, hleft⟩ := answer_eq hturns hcalls call hposition
  have hturns' : (stream.drop position).tokens.length < turns := by
    simp only [drop, List.length_drop]
    omega
  obtain ⟨hnew, -⟩ := answer_eq hturns' hcalls call (Nat.zero_le _)
  rw [show (stream.drop position).drop 0 = stream.drop position from rfl, Nat.zero_add] at hnew
  exact ⟨(call.take (stream.drop position)).1, call.taken (stream.drop position), rfl,
    stream.taken_drop_le call hposition, hanswer, hnew, Prod.ext rfl hleft,
    fun e => ParserCall.taken_pos⟩

set_option maxRecDepth 20000 in
/-- `x y` is no program: the parser stops behind `x`. An expression that it is asked for then is
`y`. -/
theorem resumes_behind_stop :
    let stream : TokenStream :=
      ⟨[⟨.identifier "x", "x", ⟨1, 1⟩⟩, ⟨.identifier "y", "y", ⟨1, 3⟩⟩], ⟨1, 4⟩⟩
    stream.tokens.length < 3 ∧ Parser.nestingLimit < 257 ∧
      stream.answer 3 257 .program .start =
        (.error (.fault ⟨.unexpectedNext .operatorOrEnd (some (.identifier "y")), ⟨1, 3⟩⟩),
          ⟨1, 0⟩) ∧
      stream.answer 3 257 .expression ⟨1, 0⟩ = (.ok (.expression (.var "y")), ⟨2, 0⟩) := by
  intro stream
  have hturns : stream.tokens.length < 3 := by decide
  have hcalls : Parser.nestingLimit < 257 := by decide
  have hfirst : stream.answer 3 257 .program .start =
      (.error (.fault ⟨.unexpectedNext .operatorOrEnd (some (.identifier "y")), ⟨1, 3⟩⟩),
        ⟨1, 0⟩) := by
    have htake : ParserCall.program.take stream =
        (.error ⟨.unexpectedNext .operatorOrEnd (some (.identifier "y")), ⟨1, 3⟩⟩,
          stream.drop 1) := by cbv
    have htaken : ParserCall.program.taken stream = 1 := by
      rw [ParserCall.taken, htake]
      rfl
    have hanswer := (answer_eq hturns hcalls .program (Nat.zero_le _)).1
    rw [show stream.drop 0 = stream from rfl, htake, htaken] at hanswer
    exact hanswer
  -- the second call begins where the first one has stopped
  have hcursor : stream.cursorAfter 3 257 [.program] = ⟨1, 0⟩ := congrArg Prod.snd hfirst
  have htake : ParserCall.expression.take (stream.drop 1) =
      (.ok (.expression (.var "y")), stream.drop 2) := by cbv
  have hresumes := resumes hturns hcalls [.program] .expression
  rw [hcursor] at hresumes
  obtain ⟨reply, taken, -, hle, hanswer, -, hlist, hpos⟩ := hresumes
  obtain ⟨rfl, -⟩ := Prod.mk.inj (hlist.symm.trans htake)
  have hpositive := hpos (.var "y") rfl
  obtain rfl : taken = 1 := by
    simp only [stream, List.length_cons, List.length_nil] at hle
    omega
  exact ⟨hturns, hcalls, hfirst, hanswer⟩

end TokenStream

end FormulaMachine
