import FormulaMachine.Proofs.Decimal.Longest
import FormulaMachine.Proofs.Token.Parentheses
import FormulaMachine.Proofs.Token.Reading

/-!
# Reading a text loses nothing

A text that is read falls into segments, one behind the other: those that tokens write, and those
that are skipped. What a segment can be depends on what stands before it, and on the text behind it,
which must not continue it.

* **`Position.behind`**: the place of a text by its line breaks.
* **`Segment.Fits`**: a segment between the segments before it and the text behind it.
* **`TokenStream.exists_segments`**: every text that is read falls into segments that fit.
-/

namespace FormulaMachine

open Text Decimal

/-! ## Places -/

/-- The place behind a text: its line is one more than the line breaks in the text, its column one
more than the characters since the last of them. -/
def Position.behind (cs : List Char) : Position :=
  ⟨1 + cs.count '\n', 1 + (cs.rtakeWhile (· ≠ '\n')).length⟩

/-- Going on character by character from the start comes to the place that the line breaks tell. -/
theorem Position.after_start (cs : List Char) : start.after cs = behind cs := by
  induction cs using List.reverseRecOn with
  | nil => rfl
  | append_singleton cs c ih =>
    rw [after_append, ih, after_cons, after_nil]
    by_cases hc : c = '\n'
    · simp [next, behind, hc]
      omega
    · simp [next, behind, hc]
      omega

theorem Position.behind_append (cs ds : List Char) : behind (cs ++ ds) = (behind cs).after ds := by
  rw [← after_start, ← after_start, after_append]

/-! ## Segments -/

/-- A stretch of text: one that a token writes, or one that is skipped. -/
inductive Segment where
  | token (token : Token)
  | skipped (text : List Char)

/-- How a token of some kind is written in front of some text, which does not continue it. A number
is the longest one that stands there, an identifier all letters, digits and `_` that do. -/
inductive TokenKind.Written : TokenKind → List Char → List Char → Prop where
  | number {l : Literal} {rest : List Char} (hnumber : IsNumber l.text)
    (hlongest : ∀ text, IsNumber text → text <+: l.text ++ rest → text.length ≤ l.text.length) :
    Written (.number l.value) l.text rest
  | identifier {c : Char} {cs rest : List Char} (hstart : Piece.isIdentifierStart c = true)
    (hall : ∀ d ∈ c :: cs, Piece.isIdentifierChar d = true)
    (hstop : ∀ d ∈ rest.head?, Piece.isIdentifierChar d = false) :
    Written (.identifier (String.ofList (c :: cs))) (c :: cs) rest
  | mark {c : Char} {kind : TokenKind} {rest : List Char}
    (hmark : TokenKind.ofMark? c = some kind) : Written kind [c] rest
  | lineBreak {rest : List Char} : Written .terminator ['\n'] rest

namespace Segment

/-- The characters of the segment. -/
def text : Segment → List Char
  | token t => t.lexeme.toList
  | skipped text => text

/-- The token that writes it, if one does. -/
def token? : Segment → Option Token
  | token t => some t
  | skipped _ => none

/-- The text that segments make up. -/
def textOf (segments : List Segment) : List Char := segments.flatMap text

/-- The tokens among them. -/
def tokensOf (segments : List Segment) : List Token := segments.filterMap token?

/-- The kinds of these tokens. -/
def kindsOf (segments : List Segment) : List TokenKind := (tokensOf segments).map Token.kind

/-- What can be skipped behind tokens of the given kinds and in front of some text: one blank, a
comment up to the end of its line, or a line break inside parentheses. -/
inductive Skippable (kinds : List TokenKind) (rest : List Char) : List Char → Prop where
  | blank {c : Char} (hblank : isBlank c = true) (hne : c ≠ '\n') : Skippable kinds rest [c]
  | comment {cs : List Char} (hline : '\n' ∉ cs) (hstop : ∀ c ∈ rest.head?, c = '\n') :
    Skippable kinds rest ('#' :: cs)
  | lineBreak (hunclosed : Unclosed kinds) : Skippable kinds rest ['\n']

/-- The segment can stand behind the segments `before` and in front of the text `rest`. A token
tells its place, and a line break is a token only outside parentheses. -/
def Fits (before : List Segment) (rest : List Char) : Segment → Prop
  | token t => t.position = .behind (textOf before) ∧ t.kind.Written t.lexeme.toList rest ∧
      (t.lexeme = "\n" → ¬ Unclosed (kindsOf before))
  | skipped text => Skippable (kindsOf before) rest text

@[simp] theorem textOf_nil : textOf [] = [] := rfl

@[simp] theorem textOf_cons (seg : Segment) (segments : List Segment) :
    textOf (seg :: segments) = seg.text ++ textOf segments := rfl

@[simp] theorem textOf_append (segments more : List Segment) :
    textOf (segments ++ more) = textOf segments ++ textOf more := List.flatMap_append

theorem tokensOf_cons (seg : Segment) (segments : List Segment) :
    tokensOf (seg :: segments) = seg.token?.toList ++ tokensOf segments := by
  cases seg <;> rfl

/-- The kind of the last one comes last. -/
theorem kindsOf_append_singleton (segments : List Segment) (seg : Segment) :
    kindsOf (segments ++ [seg]) = kindsOf segments ++ (seg.token?.map Token.kind).toList := by
  cases seg <;> simp [kindsOf, tokensOf, token?]

end Segment

/-! ## From pieces to segments -/

namespace Piece

/-- The piece as a segment at some place, with some parentheses open. -/
def segment (position : Position) (depth : Nat) (piece : Piece) : Segment :=
  match piece.token? position depth with
  | some t => .token t
  | none => .skipped piece.text

/-- A segment has the text of its piece. -/
theorem text_segment (position : Position) (depth : Nat) (piece : Piece) :
    (piece.segment position depth).text = piece.text := by
  unfold segment
  cases piece with
  | token kind text => simp [token?, Segment.text, Piece.text]
  | skipped text => rfl
  | lineBreak => by_cases hdepth : depth = 0 <;> simp [token?, hdepth, Segment.text, Piece.text]

/-- A segment has the token of its piece, if that leaves one. -/
theorem token?_segment (position : Position) (depth : Nat) (piece : Piece) :
    (piece.segment position depth).token? = piece.token? position depth := by
  unfold segment
  cases piece.token? position depth <;> rfl

/-- One more segment counts the parentheses as its piece does: a line break inside them leaves no
token and changes nothing. -/
theorem openCount_segment (position : Position) (before : List Segment) (piece : Piece) :
    openCount (Segment.kindsOf (before ++
        [piece.segment position (openCount (Segment.kindsOf before))])) =
      piece.depthAfter (openCount (Segment.kindsOf before)) := by
  rw [Segment.kindsOf_append_singleton, token?_segment, kind_token?]
  unfold openCount
  rw [List.foldl_append]
  cases piece with
  | token kind text => rfl
  | skipped text => rfl
  | lineBreak =>
    simp only [kind?]
    split <;> rfl

/-- The scanner takes what the kind is written as: the longest number, an identifier to its end, or
one mark. -/
theorem written_of_front? {c : Char} {cs rest text : List Char} {kind : TokenKind}
    (h : front? c cs = some (token kind text, rest)) : kind.Written text rest := by
  cases atFront_of_front? h with
  | number hnumber =>
    refine .number (Literal.isNumber_scan (startsNumber_iff.1 hnumber)) fun text htext hpre => ?_
    rw [Literal.text_scan] at hpre
    exact Literal.length_le_scan htext hpre
  | identifier hstart =>
    have hfirst := isIdentifierChar_of_isIdentifierStart hstart
    refine .identifier hstart
      (List.forall_mem_cons.2 ⟨hfirst, fun d hd => List.mem_takeWhile_imp hd⟩) fun d hd => ?_
    -- behind the name stands what could not go on with it
    have hnot := List.head?_dropWhile_not isIdentifierChar cs
    rw [hd] at hnot
    simpa using hnot
  | mark hmark => exact .mark hmark

/-- What the scanner skips outside line breaks is a blank or a comment. -/
theorem skippable_of_front? {c : Char} {cs rest text : List Char} (kinds : List TokenKind)
    (h : front? c cs = some (skipped text, rest)) : Segment.Skippable kinds rest text := by
  cases atFront_of_front? h with
  | blank hblank hne => exact .blank hblank hne
  | comment hcomment =>
    subst hcomment
    refine .comment (fun hmem => ?_) fun d hd => ?_
    · have hchar := List.mem_takeWhile_imp hmem
      simp [isCommentChar] at hchar
    · have hnot := List.head?_dropWhile_not isCommentChar cs
      rw [hd] at hnot
      simpa [isCommentChar] using hnot

end Piece

namespace Piece

/-- A piece of the text is a segment that fits, at the place behind the segments before it and with
the parentheses open that they leave open. -/
theorem fits_segment {c : Char} {cs rest : List Char} {piece : Piece} (before : List Segment)
    (h : front? c cs = some (piece, rest)) :
    (piece.segment (.behind (Segment.textOf before)) (openCount (Segment.kindsOf before))).Fits
      before rest := by
  cases piece with
  | skipped text => exact skippable_of_front? _ h
  | token kind text =>
    have hwritten := written_of_front? h
    refine ⟨rfl, ?_, fun hlexeme => ?_⟩
    · show kind.Written (String.ofList text).toList rest
      rw [String.toList_ofList]
      exact hwritten
    · -- a line break is a piece of its own
      have htext : text = ['\n'] := by
        rw [← String.toList_ofList (l := text)]
        exact congrArg String.toList hlexeme
      have hwhole := text_front? h
      rw [show (token kind text).text = text from rfl, htext] at hwhole
      obtain ⟨rfl, -⟩ := List.cons.inj hwhole
      cases h
  | lineBreak =>
    unfold segment token?
    -- a line break is a terminator outside parentheses, and skipped inside
    by_cases hdepth : openCount (Segment.kindsOf before) = 0
    · have hclosed : ¬ Unclosed (Segment.kindsOf before) := by
        rw [unclosed_iff]
        omega
      have hwritten : TokenKind.Written .terminator "\n".toList rest := .lineBreak
      rw [if_pos hdepth]
      exact ⟨rfl, hwritten, fun _ => hclosed⟩
    · rw [if_neg hdepth]
      exact .lineBreak (unclosed_iff.2 (Nat.pos_of_ne_zero hdepth))

end Piece

/-! ## Texts -/

namespace TokenStream

open Segment

/-- A text behind segments, by induction on its length: the piece at its front is one more of
them. -/
theorem exists_segments_of_scanFrom (cs : List Char) {before : List Segment} {stream : TokenStream}
    (h : scanFrom (.behind (textOf before)) (openCount (kindsOf before)) cs = .ok stream) :
    ∃ segments, textOf segments = cs ∧ tokensOf segments = stream.tokens ∧
      stream.finish = .behind (textOf before ++ cs) ∧
      ∀ front seg back, segments = front ++ seg :: back →
        seg.Fits (before ++ front) (textOf back) := by
  induction hn : cs.length using Nat.strong_induction_on generalizing cs before stream with
  | _ n ih =>
    cases cs with
    | nil =>
      rw [scanFrom_nil] at h
      cases h
      refine ⟨[], rfl, rfl, by rw [List.append_nil], fun front seg back hsplit => ?_⟩
      simp at hsplit
    | cons c cs =>
      obtain ⟨piece, rest, inner, hfront, hscan, rfl⟩ := exists_of_scanFrom_cons h
      let seg := piece.segment (.behind (textOf before)) (openCount (kindsOf before))
      have htext : seg.text = piece.text := Piece.text_segment _ _ piece
      have hwhole : piece.text ++ rest = c :: cs := Piece.text_front? hfront
      -- the place and the count are those behind the segments so far, this one included
      have hplace : (Position.behind (textOf before)).after piece.text =
          .behind (textOf (before ++ [seg])) := by
        rw [textOf_append, textOf_cons, textOf_nil, List.append_nil, htext,
          Position.behind_append]
      have hcount : piece.depthAfter (openCount (kindsOf before)) =
          openCount (kindsOf (before ++ [seg])) := (Piece.openCount_segment _ before piece).symm
      rw [hplace, hcount] at hscan
      have hshorter : rest.length < n := hn ▸ Piece.length_front? hfront
      obtain ⟨segments, hrest, htokens, hfinish, hfits⟩ := ih _ hshorter rest hscan rfl
      refine ⟨seg :: segments, ?_, ?_, ?_, fun front other back hsplit => ?_⟩
      · rw [textOf_cons, htext, hrest, hwhole]
      · rw [tokensOf_cons, htokens, Piece.token?_segment]
        rfl
      · show inner.finish = _
        rw [hfinish, textOf_append, textOf_cons, textOf_nil, List.append_nil, htext,
          List.append_assoc, hwhole]
      -- the segment is the one in front, or one of those that the rest falls into
      · cases front with
        | nil =>
          obtain ⟨rfl, rfl⟩ := List.cons.inj hsplit
          rw [hrest, List.append_nil]
          exact Piece.fits_segment before hfront
        | cons first front =>
          obtain ⟨rfl, htail⟩ := List.cons.inj hsplit
          have hother := hfits front other back htail
          rwa [List.append_assoc] at hother

end TokenStream

/-! ## Line breaks -/

/-- No number has a line break in it. -/
theorem Decimal.IsNumber.lineBreak_not_mem {cs : List Char} (h : IsNumber cs) : '\n' ∉ cs := by
  have hdigits {ds : List Char} (hds : AllDigits ds) : '\n' ∉ ds := fun hmem =>
    absurd (hds _ hmem) (by decide)
  have hexponent {ex : List Char} (hex : IsExponent ex) : '\n' ∉ ex := by
    cases hex with
    | absent => exact List.not_mem_nil
    | present hmarker hsign hds hne =>
      rcases hmarker with rfl | rfl <;> rcases hsign with rfl | rfl | rfl <;> simp [hdigits hds]
  cases h with
  | whole hds hne hex => simp [hdigits hds, hexponent hex]
  | pointed hds hne hfs hex => simp [hdigits hds, hdigits hfs, hexponent hex]
  | fraction hfs hne hex => simp [hdigits hfs, hexponent hex]

/-- The only token with a line break in its text is the terminator that the line break writes. -/
theorem TokenKind.Written.of_lineBreak_mem {kind : TokenKind} {lexeme rest : List Char}
    (h : kind.Written lexeme rest) (hmem : '\n' ∈ lexeme) :
    kind = .terminator ∧ lexeme = ['\n'] := by
  cases h with
  | number hnumber hlongest => exact absurd hmem hnumber.lineBreak_not_mem
  | identifier hstart hall hstop => exact absurd (hall _ hmem) (by decide)
  | mark hmark =>
    obtain rfl := List.mem_singleton.1 hmem
    cases hmark
  | lineBreak => exact ⟨rfl, rfl⟩

/-- An identifier begins with a letter or `_`. -/
theorem TokenKind.Written.exists_isIdentifierStart {name : String} {lexeme rest : List Char}
    (h : Written (.identifier name) lexeme rest) :
    ∃ c ∈ lexeme.head?, Piece.isIdentifierStart c = true := by
  cases h with
  | identifier hstart hall hstop => exact ⟨_, rfl, hstart⟩
  | mark hmark =>
    unfold ofMark? at hmark
    split at hmark <;> cases hmark

namespace Segment

/-- A segment with a line break in it is that line break: a terminator outside parentheses, and
skipped inside. -/
theorem Fits.of_lineBreak_mem {before : List Segment} {rest : List Char} {seg : Segment}
    (h : seg.Fits before rest) (hmem : '\n' ∈ seg.text) :
    seg.text = ['\n'] ∧ (Unclosed (kindsOf before) → seg = .skipped ['\n']) ∧
      (¬ Unclosed (kindsOf before) →
        seg = .token ⟨.terminator, "\n", .behind (textOf before)⟩) := by
  cases seg with
  | token t =>
    obtain ⟨kind, lexeme, position⟩ := t
    obtain ⟨hplace, hwritten, hclosed⟩ := h
    simp only at hplace hwritten hclosed
    -- among tokens only a terminator can hold a line break, and that is all it holds
    obtain ⟨rfl, htext⟩ := hwritten.of_lineBreak_mem hmem
    have hlexeme : lexeme = "\n" := String.toList_inj.1 htext
    refine ⟨htext, fun hopen => absurd hopen (hclosed hlexeme), fun _ => ?_⟩
    rw [hplace, hlexeme]
  | skipped text =>
    have hskippable : Skippable (kindsOf before) rest text := h
    cases hskippable with
    | blank hblank hne => exact absurd (List.mem_singleton.1 hmem).symm hne
    | comment hline hstop =>
      rcases List.mem_cons.1 hmem with hsame | htail
      · cases hsame
      · exact absurd htail hline
    | lineBreak hunclosed => exact ⟨rfl, fun _ => rfl, fun hclosed => absurd hunclosed hclosed⟩

/-- Every character of a text stands in one of its segments. -/
theorem exists_split {segments : List Segment} {d : Char} {pre post : List Char}
    (h : textOf segments = pre ++ d :: post) :
    ∃ front seg back left right, segments = front ++ seg :: back ∧
      seg.text = left ++ d :: right ∧ pre = textOf front ++ left ∧
      post = right ++ textOf back := by
  induction segments generalizing pre with
  | nil => simp at h
  | cons seg segments ih =>
    rw [textOf_cons] at h
    -- the character is in the first segment, or in those behind it
    rcases List.append_eq_append_iff.1 h with ⟨more, hpre, hrest⟩ | ⟨more, htext, hrest⟩
    · obtain ⟨front, other, back, left, right, hsplit, hother, hmore, hpost⟩ := ih hrest
      refine ⟨seg :: front, other, back, left, right, by rw [hsplit]; rfl, hother, ?_, hpost⟩
      rw [hpre, hmore, textOf_cons, List.append_assoc]
    · cases more with
      | nil =>
        -- the character stands at the front of the segments behind
        have hrest' : textOf segments = [] ++ d :: post := hrest.symm
        obtain ⟨front, other, back, left, right, hsplit, hother, hmore, hpost⟩ := ih hrest'
        refine ⟨seg :: front, other, back, left, right, by rw [hsplit]; rfl, hother, ?_, hpost⟩
        rw [List.append_nil] at htext
        rw [textOf_cons, List.append_assoc, ← hmore, List.append_nil, htext]
      | cons first more =>
        obtain ⟨rfl, hpost⟩ := List.cons.inj hrest
        exact ⟨[], seg, segments, pre, more, rfl, htext, rfl, hpost⟩

/-! ## Identifiers -/

/-- In front of an identifier stands a number, or a single character that belongs to none. -/
theorem Fits.of_isIdentifierStart {before : List Segment} {rest : List Char} {seg : Segment}
    (h : seg.Fits before rest) {first : Char} (hfirst : first ∈ rest.head?)
    (hstart : Piece.isIdentifierStart first = true) :
    (∃ t value, seg = .token t ∧ t.kind = .number value) ∨
      ∃ d, seg.text = [d] ∧ Piece.isIdentifierChar d = false := by
  have hchar := Piece.isIdentifierChar_of_isIdentifierStart hstart
  cases seg with
  | token t =>
    obtain ⟨kind, lexeme, position⟩ := t
    have hwritten : kind.Written lexeme.toList rest := h.2.1
    show _ ∨ ∃ d, lexeme.toList = [d] ∧ _
    generalize lexeme.toList = text at hwritten
    -- an identifier would have gone on, so it cannot end here
    cases hwritten with
    | number hnumber hlongest => exact .inl ⟨_, _, rfl, rfl⟩
    | identifier hstart' hall hstop =>
      rw [hstop first hfirst] at hchar
      cases hchar
    | mark hmark => exact .inr ⟨_, rfl, Piece.isIdentifierChar_eq_false_of_mark hmark⟩
    | lineBreak => exact .inr ⟨_, rfl, by decide⟩
  | skipped text =>
    have hskippable : Skippable (kindsOf before) rest text := h
    cases hskippable with
    | blank hblank hne => exact .inr ⟨_, rfl, Piece.isIdentifierChar_eq_false_of_isBlank hblank⟩
    | comment hline hstop =>
      rw [hstop first hfirst] at hchar
      exact absurd hchar (by decide)
    | lineBreak hunclosed => exact .inr ⟨_, rfl, by decide⟩

/-- A character of an identifier right in front of one is the end of a number. -/
theorem number_of_isIdentifierStart {segments : List Segment} {rest : List Char}
    (h : ∀ before seg after, segments = before ++ seg :: after →
      seg.Fits before (textOf after ++ rest))
    {first c : Char} (hfirst : first ∈ rest.head?) (hstart : Piece.isIdentifierStart first = true)
    (hc : c ∈ (textOf segments).getLast?) (hchar : Piece.isIdentifierChar c = true) :
    ∃ t value, segments.getLast? = some (.token t) ∧ t.kind = .number value := by
  rcases List.eq_nil_or_concat segments with rfl | ⟨before, seg, rfl⟩
  · simp at hc
  · rw [List.concat_eq_append] at h hc ⊢
    have hseg : seg.Fits before rest := h before seg [] rfl
    -- the last segment is a number, or its only character belongs to no identifier
    rcases hseg.of_isIdentifierStart hfirst hstart with ⟨t, value, rfl, hkind⟩ | ⟨d, htext, hfalse⟩
    · exact ⟨t, value, List.getLast?_concat, hkind⟩
    · have hlast : d = c := by
        rw [textOf_append, textOf_cons, htext] at hc
        simpa using hc
      rw [hlast, hchar] at hfalse
      cases hfalse

end Segment

/-! ## Whole texts -/

namespace TokenStream

open Segment

/-- A text that is read falls into segments, in order and with nothing lost: the tokens, each at the
place that it tells and written as its kind is, and what is skipped. An identifier is a run of
letters, digits and `_` that goes on neither behind it nor, beside a number, before it. A line break
is skipped where a parenthesis is unclosed, and a terminator everywhere else. The end of the stream
is the place behind the text. -/
theorem exists_segments {source : String} {stream : TokenStream} (h : scan source = .ok stream) :
    ∃ segments : List Segment, textOf segments = source.toList ∧
      tokensOf segments = stream.tokens ∧ stream.finish = .behind source.toList ∧
      (∀ before seg after, segments = before ++ seg :: after →
        seg.Fits before (textOf after)) ∧
      (∀ before t after name, segments = before ++ .token t :: after →
        t.kind = .identifier name → ∀ c ∈ (textOf before).getLast?,
          Piece.isIdentifierChar c = true →
          ∃ last value, before.getLast? = some (.token last) ∧ last.kind = .number value) ∧
      ∀ pre post, source.toList = pre ++ '\n' :: post →
        ∃ before seg after, segments = before ++ seg :: after ∧ textOf before = pre ∧
          textOf after = post ∧ (Unclosed (kindsOf before) → seg = .skipped ['\n']) ∧
          (¬ Unclosed (kindsOf before) → seg = .token ⟨.terminator, "\n", .behind pre⟩) := by
  have hstart : scanFrom (.behind (textOf [])) (openCount (kindsOf [])) source.toList =
      .ok stream := h
  obtain ⟨segments, htext, htokens, hfinish, hfits⟩ := exists_segments_of_scanFrom _ hstart
  refine ⟨segments, htext, htokens, hfinish, hfits, ?_, fun pre post hsource => ?_⟩
  · intro before t after name hsplit hname c hc hchar
    have hwritten : t.kind.Written t.lexeme.toList (textOf after) :=
      (hfits before (.token t) after hsplit).2.1
    rw [hname] at hwritten
    obtain ⟨first, hfirst, hstart⟩ := hwritten.exists_isIdentifierStart
    have hfront : first ∈ (t.lexeme.toList ++ textOf after).head? :=
      List.mem_head?_append_of_mem_head? hfirst
    refine number_of_isIdentifierStart (fun front seg back hbefore => ?_) hfront hstart hc hchar
    have hseg := hfits front seg (back ++ .token t :: after) (by rw [hsplit, hbefore]; simp)
    simpa [Segment.text] using hseg
  · obtain ⟨before, seg, after, left, right, hsplit, hseg, hpre, hpost⟩ :=
      exists_split (htext.trans hsource)
    have hmem : '\n' ∈ seg.text := by simp [hseg]
    obtain ⟨hall, hopen, hclosed⟩ := (hfits before seg after hsplit).of_lineBreak_mem hmem
    -- the segment is the line break alone
    rw [hall] at hseg
    obtain ⟨rfl, rfl⟩ : left = [] ∧ right = [] := by
      cases left with
      | nil => exact ⟨rfl, (List.cons.inj hseg).2.symm⟩
      | cons first left => simp at hseg
    rw [List.append_nil] at hpre
    rw [hpre]
    exact ⟨before, seg, after, hsplit, rfl, hpost.symm, hopen, hclosed⟩

set_option maxRecDepth 20000 in
/-- The parenthesis in the comment does not count. The first line break stands between the two that
do, so no token tells of it. -/
theorem exists_segments_of_comment :
    let source := "f(x # (\n,x1)\ny"
    let stream : TokenStream :=
      ⟨[⟨.identifier "f", "f", ⟨1, 1⟩⟩, ⟨.openParen, "(", ⟨1, 2⟩⟩, ⟨.identifier "x", "x", ⟨1, 3⟩⟩,
        ⟨.comma, ",", ⟨2, 1⟩⟩, ⟨.identifier "x1", "x1", ⟨2, 2⟩⟩, ⟨.closeParen, ")", ⟨2, 4⟩⟩,
        ⟨.terminator, "\n", ⟨2, 5⟩⟩, ⟨.identifier "y", "y", ⟨3, 1⟩⟩], ⟨3, 2⟩⟩
    scan source = .ok stream ∧ ∃ segments, textOf segments = source.toList ∧
      tokensOf segments = stream.tokens ∧ stream.finish = .behind source.toList := by
  intro source stream
  have hscan : scan source = .ok stream := by cbv
  obtain ⟨segments, htext, htokens, hfinish, -⟩ := exists_segments hscan
  exact ⟨hscan, segments, htext, htokens, hfinish⟩

end TokenStream

end FormulaMachine
