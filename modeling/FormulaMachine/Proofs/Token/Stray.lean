import FormulaMachine.Expr.Parser
import FormulaMachine.Proofs.Token.Segments

/-!
# What no formula may hold

Reading a text fails at one character, the first that starts no piece. What stands before it is a
text by itself: the pieces there end where they do whatever comes behind them. That reading cannot
fail for another reason is shown on a scanner that can: it has the value of each number's text from
a function that may reject texts, and it never does if that function accepts those of the form of a
number.

* **`Piece.ReadBefore.cut`**: the piece at the front, with less of the text behind it.
* `Piece.StartsNone`: the characters that start no piece.
* `TokenStream.scanReading`: the scanner over a function that reads numbers.
* **`TokenStream.lexical_fault`**: how reading a text ends.
-/

namespace FormulaMachine

open Text Decimal

/-! ## Cutting a text -/

/-- Where characters of a sort end, they still do if less is left behind them. -/
theorem not_of_mem_head?_cut {p : Char → Bool} {cs before behind : List Char}
    (h : cs.dropWhile p = before ++ behind) : ∀ c ∈ before.head?, p c = false := by
  intro c hc
  obtain ⟨ds, rfl⟩ := List.head?_eq_some_iff.1 hc
  have hnot := List.head?_dropWhile_not p cs
  rw [h] at hnot
  simpa using hnot

namespace Piece

/-- A piece does not depend on how much of the text stands behind it. -/
theorem ReadBefore.cut {piece : Piece} {before behind : List Char}
    (h : piece.ReadBefore (before ++ behind)) : piece.ReadBefore before := by
  obtain ⟨c, cs, -, hfront⟩ := h
  obtain ⟨rest, hrest⟩ : ∃ rest, rest = before ++ behind := ⟨_, rfl⟩
  rw [← hrest] at hfront
  -- by the sort of the piece: each ends where it does for a reason that the cut leaves
  cases atFront_of_front? hfront with
  | lineBreak hbreak => exact readBefore_lineBreak before
  | blank hblank hne => exact readBefore_blank hblank hne before
  | comment hcomment =>
    subst hcomment
    exact readBefore_comment (fun d hd => List.mem_takeWhile_imp hd) (not_of_mem_head?_cut hrest)
  | number hnumber =>
    have hisNumber := Literal.isNumber_scan (startsNumber_iff.1 hnumber)
    exact readBefore_number hisNumber (Literal.scan_cut (Prod.ext rfl hrest) hisNumber)
  | identifier hstart =>
    exact readBefore_identifier hstart (fun d hd => List.mem_takeWhile_imp hd)
      (not_of_mem_head?_cut hrest)
  | mark hmark => exact readBefore_mark hmark before

/-- The marks that are tokens. -/
def marks : List Char := ['+', '-', '*', '/', '^', '=', ',', ';', '(', ')']

/-- The character, in front of a text, is no blank, no `#`, no digit, no letter, no `_` and no mark,
and no point in front of a digit. -/
structure StartsNone (c : Char) (cs : List Char) : Prop where
  blank : isBlank c = false
  comment : c ≠ '#'
  digit : c.isDigit = false
  letter : isLetter c = false
  line : c ≠ '_'
  mark : c ∉ marks
  point : c = '.' → ∀ d ∈ cs.head?, d.isDigit = false

theorem ofMark?_eq_none_iff {c : Char} : TokenKind.ofMark? c = none ↔ c ∉ marks := by
  unfold TokenKind.ofMark? marks
  split <;> simp_all

/-- No number starts with what is no digit, nor a point in front of one. -/
theorem startsNumber_eq_false_iff {c : Char} {cs : List Char} :
    startsNumber c cs = false ↔
      c.isDigit = false ∧ (c = '.' → ∀ d ∈ cs.head?, d.isDigit = false) := by
  cases cs <;> simp [startsNumber]

/-- The characters that the scanner cannot begin a piece with are those that start none. -/
theorem front?_eq_none_iff {c : Char} {cs : List Char} :
    front? c cs = none ↔ StartsNone c cs := by
  constructor
  · intro h
    -- all tests of the scanner fail, one after the other
    unfold front? at h
    split_ifs at h with hbreak hblank hcomment hnumber hstart
    obtain ⟨hdigit, hpoint⟩ := startsNumber_eq_false_iff.1 (Bool.eq_false_iff.2 hnumber)
    simp only [isIdentifierStart, Bool.or_eq_true, beq_iff_eq, not_or] at hstart
    exact ⟨Bool.eq_false_iff.2 hblank, hcomment, hdigit, Bool.eq_false_iff.2 hstart.1, hstart.2,
      ofMark?_eq_none_iff.1 (Option.map_eq_none_iff.1 h), hpoint⟩
  · intro h
    -- a line break is a blank too
    have hbreak : c ≠ '\n' := by
      rintro rfl
      exact absurd h.blank (by decide)
    have hnumber := startsNumber_eq_false_iff.2 ⟨h.digit, h.point⟩
    have hstart : isIdentifierStart c = false := by simp [isIdentifierStart, h.letter, h.line]
    rw [front?, if_neg hbreak, h.blank, if_neg Bool.false_ne_true, if_neg h.comment, hnumber,
      if_neg Bool.false_ne_true, hstart, if_neg Bool.false_ne_true, ofMark?_eq_none_iff.2 h.mark]
    rfl

end Piece

/-! ## The first stray character -/

namespace TokenStream

/-- Where a text with a piece in front is not read, the rest is not. -/
theorem scanFrom_error_of_front? {position : Position} {depth : Nat} {c : Char}
    {cs rest : List Char} {piece : Piece} {stray : StrayCharacter}
    (hfront : Piece.front? c cs = some (piece, rest))
    (h : scanFrom position depth (c :: cs) = .error stray) :
    scanFrom (position.after piece.text) (piece.depthAfter depth) rest = .error stray := by
  rw [scanFrom_of_front? hfront] at h
  cases hrest : scanFrom (position.after piece.text) (piece.depthAfter depth) rest with
  | error found =>
    rw [hrest] at h
    cases h
    rfl
  | ok inner =>
    rw [hrest] at h
    cases h

/-- Where reading fails: at a character that starts no piece, behind a text that is read. By
induction on the length of the text. -/
theorem exists_of_scanFrom_error {position : Position} {depth : Nat} (cs : List Char)
    {stray : StrayCharacter} (h : scanFrom position depth cs = .error stray) :
    ∃ before behind, cs = before ++ stray.character :: behind ∧
      stray.position = position.after before ∧ Piece.front? stray.character behind = none ∧
      ∃ stream, scanFrom position depth before = .ok stream := by
  induction hn : cs.length using Nat.strong_induction_on generalizing position depth cs with
  | _ n ih =>
    cases cs with
    | nil =>
      rw [scanFrom_nil] at h
      cases h
    | cons c cs =>
      cases hfront : Piece.front? c cs with
      | none =>
        rw [scanFrom_of_front?_eq_none hfront] at h
        cases h
        exact ⟨[], cs, rfl, rfl, hfront, _, scanFrom_nil position depth⟩
      | some found =>
        obtain ⟨piece, rest⟩ := found
        have hshorter : rest.length < n := hn ▸ Piece.length_front? hfront
        obtain ⟨before, behind, rfl, hplace, hnone, inner, hinner⟩ :=
          ih _ hshorter rest (scanFrom_error_of_front? hfront h) rfl
        -- the piece in front is read before less of the text as well, so what stands before the
        -- character is read
        have hread : piece.ReadBefore (before ++ stray.character :: behind) :=
          ⟨c, cs, Piece.text_front? hfront, hfront⟩
        refine ⟨piece.text ++ before, behind, ?_, ?_, hnone, ?_⟩
        · rw [List.append_assoc, Piece.text_front? hfront]
        · rw [hplace, Position.after_append]
        · rw [scanFrom_of_readBefore hread.cut, hinner]
          exact ⟨_, rfl⟩

end TokenStream

/-! ## Reading numbers by another function -/

/-- What can be wrong with a text: a character that starts no piece, or the text of a number that is
rejected. -/
inductive LexicalFault where
  | stray (stray : StrayCharacter)
  | invalidNumber (text : String) (position : Position)

/-- The piece with the value that `read` gives to the text, if it is a number. -/
def Piece.readBy (read : String → Option Float) (position : Position) :
    Piece → Except LexicalFault Piece
  | token (.number _) text =>
    match read (String.ofList text) with
    | some value => .ok (token (.number value) text)
    | none => .error (.invalidNumber (String.ofList text) position)
  | piece => .ok piece

namespace TokenStream

/-- The tokens of `cs`, the numbers among them read by `read`. -/
def scanReadingFrom (read : String → Option Float) (position : Position) (depth : Nat) :
    List Char → Except LexicalFault TokenStream
  | [] => .ok ⟨[], position⟩
  | c :: cs =>
    match _h : Piece.front? c cs with
    | none => .error (.stray ⟨c, position⟩)
    | some (piece, rest) =>
      match piece.readBy read position with
      | .error fault => .error fault
      | .ok piece =>
        (scanReadingFrom read (position.after piece.text) (piece.depthAfter depth) rest).map
          (prepend (piece.token? position depth))
termination_by cs => cs.length
decreasing_by exact Piece.length_front? _h

/-- The tokens of a text, the numbers among them read by `read`. -/
def scanReading (read : String → Option Float) (source : String) :
    Except LexicalFault TokenStream :=
  scanReadingFrom read .start 0 source.toList

end TokenStream

/-- The token with the value that `read` gives to its text, if it is a number. -/
def Token.reread (read : String → Option Float) (t : Token) : Token :=
  match t.kind with
  | .number value => { t with kind := .number ((read t.lexeme).getD value) }
  | _ => t

/-- Every text of the form of a number is accepted. -/
def AcceptsNumbers (read : String → Option Float) : Prop :=
  ∀ cs, IsNumber cs → (read (String.ofList cs)).isSome = true

/-- The reading of literals accepts every number. -/
theorem acceptsNumbers_ofText? : AcceptsNumbers ofText? := by
  intro cs hcs
  rw [ofText?_of_isNumber hcs]
  rfl

section Reading

variable {read : String → Option Float}

/-- What the reading function makes of a piece that stands in a text. -/
theorem Piece.readBy_of_front? (hread : AcceptsNumbers read) {c : Char} {cs rest : List Char}
    {piece : Piece} (h : front? c cs = some (piece, rest)) (position : Position) :
    ∃ found, piece.readBy read position = .ok found ∧ found.text = piece.text ∧
      (∀ depth, found.depthAfter depth = piece.depthAfter depth) ∧
      ∀ place depth,
        found.token? place depth = (piece.token? place depth).map (Token.reread read) := by
  cases atFront_of_front? h with
  | lineBreak hbreak =>
    refine ⟨lineBreak, rfl, rfl, fun _ => rfl, fun place depth => ?_⟩
    by_cases hdepth : depth = 0 <;> simp [token?, hdepth, Token.reread]
  | blank hblank hne => exact ⟨_, rfl, rfl, fun _ => rfl, fun _ _ => rfl⟩
  | comment hcomment => exact ⟨_, rfl, rfl, fun _ => rfl, fun _ _ => rfl⟩
  | number hnumber =>
    -- the text that the scanner takes has the form of a number, so the reader accepts it
    have hisNumber := Literal.isNumber_scan (startsNumber_iff.1 hnumber)
    obtain ⟨value, hvalue⟩ := Option.isSome_iff_exists.1 (hread _ hisNumber)
    refine ⟨token (.number value) _, ?_, rfl, fun _ => rfl, fun place depth => ?_⟩
    · rw [readBy, hvalue]
    · simp [token?, Token.reread, hvalue]
  | identifier hstart => exact ⟨_, rfl, rfl, fun _ => rfl, fun _ _ => rfl⟩
  | @mark kind hmark =>
    unfold TokenKind.ofMark? at hmark
    split at hmark
    all_goals cases hmark
    all_goals exact ⟨_, rfl, rfl, fun _ => rfl, fun _ _ => rfl⟩

end Reading

namespace TokenStream

/-- The tokens with the values that `read` gives to their texts. -/
def reread (read : String → Option Float) (stream : TokenStream) : TokenStream :=
  ⟨stream.tokens.map (Token.reread read), stream.finish⟩

/-- The token in front is reread with the others. -/
theorem reread_prepend (read : String → Option Float) (token? : Option Token)
    (stream : TokenStream) :
    (stream.prepend token?).reread read =
      (stream.reread read).prepend (token?.map (Token.reread read)) := by
  cases token? <;> rfl

section Reading

variable {read : String → Option Float}

theorem scanReadingFrom_nil (position : Position) (depth : Nat) :
    scanReadingFrom read position depth [] = .ok ⟨[], position⟩ := by
  rw [scanReadingFrom]

/-- A character that starts no piece is a fault, whatever `read` is. -/
theorem scanReadingFrom_of_front?_eq_none {position : Position} {depth : Nat} {c : Char}
    {cs : List Char} (h : Piece.front? c cs = none) :
    scanReadingFrom read position depth (c :: cs) = .error (.stray ⟨c, position⟩) := by
  rw [scanReadingFrom]
  split
  · rfl
  · next h' => simp [h] at h'

/-- A piece in front whose number is accepted, and the rest behind it. -/
theorem scanReadingFrom_of_front? {position : Position} {depth : Nat} {c : Char}
    {cs rest : List Char} {piece found : Piece} (h : Piece.front? c cs = some (piece, rest))
    (hfound : piece.readBy read position = .ok found) :
    scanReadingFrom read position depth (c :: cs) =
      (scanReadingFrom read (position.after found.text) (found.depthAfter depth) rest).map
        (prepend (found.token? position depth)) := by
  rw [scanReadingFrom]
  split
  · next h' => simp [h] at h'
  · next h' =>
    rw [h] at h'
    cases h'
    rw [hfound]

/-- Reading by a function that accepts numbers makes a difference to their values alone. By
induction on the length of the text. -/
theorem scanReadingFrom_eq (hread : AcceptsNumbers read) (position : Position) (depth : Nat)
    (cs : List Char) :
    scanReadingFrom read position depth cs =
      ((scanFrom position depth cs).map (reread read)).mapError .stray := by
  induction hn : cs.length using Nat.strong_induction_on generalizing position depth cs with
  | _ n ih =>
    cases cs with
    | nil =>
      rw [scanReadingFrom_nil, scanFrom_nil]
      rfl
    | cons c cs =>
      cases hfront : Piece.front? c cs with
      | none =>
        rw [scanReadingFrom_of_front?_eq_none hfront, scanFrom_of_front?_eq_none hfront]
        rfl
      | some front =>
        obtain ⟨piece, rest⟩ := front
        -- reading the number changes its value at most: text and parentheses are the same
        obtain ⟨found, hfound, htext, hdepth, htoken⟩ :=
          Piece.readBy_of_front? hread hfront position
        have hshorter : rest.length < n := hn ▸ Piece.length_front? hfront
        rw [scanReadingFrom_of_front? hfront hfound, scanFrom_of_front? hfront, htext, hdepth,
          htoken, ih _ hshorter _ _ rest rfl]
        cases scanFrom (position.after piece.text) (piece.depthAfter depth) rest with
        | error stray => rfl
        | ok inner => exact congrArg Except.ok (reread_prepend read _ inner).symm

end Reading

/-- What is true of the token of every piece is true of all tokens of a text. -/
theorem forall_mem_tokens_of_scanFrom {P : Token → Prop}
    (hpiece : ∀ {c cs piece rest}, Piece.front? c cs = some (piece, rest) →
      ∀ position depth, ∀ t ∈ piece.token? position depth, P t)
    {position : Position} {depth : Nat} (cs : List Char) {stream : TokenStream}
    (h : scanFrom position depth cs = .ok stream) : ∀ t ∈ stream.tokens, P t := by
  induction hn : cs.length using Nat.strong_induction_on generalizing position depth cs stream with
  | _ n ih =>
    cases cs with
    | nil =>
      rw [scanFrom_nil] at h
      cases h
      simp
    | cons c cs =>
      obtain ⟨piece, rest, inner, hfront, hrest, rfl⟩ := exists_of_scanFrom_cons h
      have hshorter : rest.length < n := hn ▸ Piece.length_front? hfront
      intro t ht
      rcases List.mem_append.1 ht with hhead | htail
      · exact hpiece hfront position depth t (Option.mem_toList.1 hhead)
      · exact ih _ hshorter rest hrest rfl t htail

/-- The numbers of a text have the values that their texts are read as. -/
theorem reread_ofText? {source : String} {stream : TokenStream} (h : scan source = .ok stream) :
    stream.reread ofText? = stream := by
  have htokens : ∀ t ∈ stream.tokens, t.reread ofText? = t := by
    refine forall_mem_tokens_of_scanFrom (fun hfront position depth t ht => ?_) _ h
    cases Piece.atFront_of_front? hfront with
    | lineBreak hbreak =>
      by_cases hdepth : depth = 0
      · simp only [Piece.token?, if_pos hdepth, Option.mem_some_iff] at ht
        rw [← ht]
        rfl
      · simp [Piece.token?, hdepth] at ht
    | blank hblank hne => cases ht
    | comment hcomment => cases ht
    | number hnumber =>
      obtain rfl := Option.some.inj ht
      -- the text of the token is that of a number, and all of it is read
      have hisNumber := Literal.isNumber_scan (Piece.startsNumber_iff.1 hnumber)
      simp [Token.reread, ofText?_of_isNumber hisNumber, Literal.scan_text]
    | identifier hstart =>
      obtain rfl := Option.some.inj ht
      rfl
    | mark hmark =>
      obtain rfl := Option.some.inj ht
      unfold TokenKind.ofMark? at hmark
      split at hmark <;> cases hmark <;> rfl
  rw [reread, List.map_congr_left htokens, List.map_id']

theorem scanReading_ofText? (source : String) :
    scanReading ofText? source = (scan source).mapError .stray := by
  rw [scanReading, scanReadingFrom_eq acceptsNumbers_ofText?, scan]
  cases h : scanFrom .start 0 source.toList with
  | error stray => rfl
  | ok stream => exact congrArg Except.ok (reread_ofText? h)

/-! ## How reading a text ends -/

/-- A text is read to its end, or else there is a character at which reading fails: it stands at its
own place, starts no piece, and what stands before it is a text that is read. The text of a number
is never rejected. -/
theorem lexical_fault {read : String → Option Float} (hread : AcceptsNumbers read)
    (source : String) :
    (∀ text position, scanReading read source ≠ .error (.invalidNumber text position)) ∧
      ((∃ stream, scan source = .ok stream ∧ scanReading ofText? source = .ok stream ∧
          scanReading read source = .ok (stream.reread read)) ∨
        ∃ stray before behind, scan source = .error stray ∧
          scanReading ofText? source = .error (.stray stray) ∧
          scanReading read source = .error (.stray stray) ∧
          Formula.parse source = .error stray.fault ∧
          stray.fault.message = stray.position.text ++ ": " ++
            ("unexpected character `" ++ String.singleton stray.character ++ "`") ∧
          source.toList = before ++ stray.character :: behind ∧
          stray.position = .behind before ∧
          (∃ stream, scan (String.ofList before) = .ok stream) ∧
          Piece.StartsNone stray.character behind) := by
  -- the readers differ in values of numbers alone, so both fail where the scanner does
  have hreading : scanReading read source = ((scan source).map (reread read)).mapError .stray :=
    scanReadingFrom_eq hread .start 0 source.toList
  rw [hreading, scanReading_ofText?]
  cases h : scan source with
  | ok stream => exact ⟨nofun, .inl ⟨stream, rfl, rfl, rfl⟩⟩
  | error stray =>
    obtain ⟨before, behind, hsplit, hplace, hnone, stream, hbefore⟩ :=
      exists_of_scanFrom_error source.toList h
    refine ⟨nofun, .inr ⟨stray, before, behind, rfl, rfl, rfl, ?_, rfl, hsplit, ?_, ?_, ?_⟩⟩
    · rw [Formula.parse, h]
    · rw [hplace, Position.after_start]
    · exact ⟨stream, by rw [scan, String.toList_ofList, hbefore]⟩
    · exact Piece.front?_eq_none_iff.1 hnone

/-- A number, a blank, and a character that no formula holds. -/
theorem lexical_fault_of_dollar :
    AcceptsNumbers ofText? ∧ scan "2.5e-3 $ 1" = .error ⟨'$', ⟨1, 8⟩⟩ ∧
      ∃ before behind, "2.5e-3 $ 1".toList = before ++ '$' :: behind ∧
        Position.behind before = ⟨1, 8⟩ ∧
        (∃ stream, scan (String.ofList before) = .ok stream) ∧ Piece.StartsNone '$' behind := by
  have hscan : scan "2.5e-3 $ 1" = .error ⟨'$', ⟨1, 8⟩⟩ := by
    -- the number is read as text, and not to its value
    have hliteral : Literal.scan "2.5e-3 $ 1".toList =
        (⟨['2'], some ['5'], some ⟨'e', some '-', ['3']⟩⟩, [' ', '$', ' ', '1']) := by cbv
    have hnumber : Piece.front? '2' ".5e-3 $ 1".toList = _ := Piece.front?_of_isDigit (by decide) _
    have hblank : Piece.front? ' ' ['$', ' ', '1'] = some (.skipped [' '], ['$', ' ', '1']) := rfl
    have hnone : Piece.front? '$' [' ', '1'] = none := by cbv
    rw [show '2' :: ".5e-3 $ 1".toList = "2.5e-3 $ 1".toList from rfl, hliteral] at hnumber
    rw [scan, show "2.5e-3 $ 1".toList = '2' :: ".5e-3 $ 1".toList from rfl,
      scanFrom_of_front? hnumber, scanFrom_of_front? hblank, scanFrom_of_front?_eq_none hnone]
    rfl
  obtain ⟨-, ⟨stream, hok, -⟩ | ⟨stray, before, behind, herror, -, -, -, -, hsplit, hplace,
    hbefore, hnone⟩⟩ := lexical_fault acceptsNumbers_ofText? "2.5e-3 $ 1"
  · rw [hscan] at hok
    cases hok
  · obtain rfl := Except.error.inj (hscan.symm.trans herror)
    exact ⟨acceptsNumbers_ofText?, hscan, before, behind, hsplit, hplace.symm, hbefore, hnone⟩

end TokenStream

end FormulaMachine
