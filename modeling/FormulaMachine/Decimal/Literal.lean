/-!
# Decimal literals

A literal is digits with an optional point and an optional exponent: `2`, `0.5`, `.25`, `3.`,
`4E-2`. Digits are the ASCII ones. Scanning takes the longest literal at the front of a text, and
the value is the double nearest to the number written.

* `Literal.text_scan`: the literal's text and the rest make up the text scanned.
* An exponent needs a digit: in `2e` the literal is `2`.
-/

namespace FormulaMachine.Decimal

def leadingDigits (cs : List Char) : List Char := cs.takeWhile Char.isDigit

def afterDigits (cs : List Char) : List Char := cs.dropWhile Char.isDigit

/-- The digits at the front and what follows them make up the text. -/
theorem leadingDigits_append_afterDigits (cs : List Char) :
    leadingDigits cs ++ afterDigits cs = cs :=
  List.takeWhile_append_dropWhile

/-- The number that a list of digits writes, most significant first. -/
def natOfDigits (cs : List Char) : Nat :=
  cs.foldl (fun n c => 10 * n + (c.toNat - '0'.toNat)) 0

/-! ## Exponents -/

/-- An exponent as written: its marker `e` or `E`, its sign if any, and its digits. -/
structure Exponent where
  marker : Char
  sign : Option Char
  digits : List Char
  deriving DecidableEq, Repr

namespace Exponent

def text (e : Exponent) : List Char := e.marker :: e.sign.toList ++ e.digits

def value (e : Exponent) : Int :=
  if e.sign = some '-' then -natOfDigits e.digits else natOfDigits e.digits

/-- A sign at the front, and what follows it. -/
def splitSign : List Char → Option Char × List Char
  | '+' :: cs => (some '+', cs)
  | '-' :: cs => (some '-', cs)
  | cs => (none, cs)

theorem splitSign_append (cs : List Char) :
    (splitSign cs).1.toList ++ (splitSign cs).2 = cs := by
  unfold splitSign; split <;> rfl

/-- The exponent at the front, if a marker, perhaps a sign, and at least one digit stand there. -/
def scan? : List Char → Option (Exponent × List Char)
  | [] => none
  | m :: cs =>
    let (sign, rest) := splitSign cs
    if (m = 'e' ∨ m = 'E') ∧ leadingDigits rest ≠ [] then
      some (⟨m, sign, leadingDigits rest⟩, afterDigits rest)
    else none

/-- An exponent that is read and what follows it make up the text. -/
theorem text_scan? {cs rest : List Char} {e : Exponent} (h : scan? cs = some (e, rest)) :
    e.text ++ rest = cs := by
  cases cs with
  | nil => simp [scan?] at h
  | cons m cs =>
    simp only [scan?] at h
    split at h
    · obtain ⟨rfl, rfl⟩ : _ ∧ _ := by simpa using h
      simp only [text, List.cons_append, List.append_assoc, leadingDigits_append_afterDigits,
        splitSign_append]
    · simp at h

end Exponent

/-! ## Literals -/

/-- A literal as written: the digits before the point, those after it if there is a point, and the
exponent if there is one. -/
structure Literal where
  whole : List Char
  fraction : Option (List Char)
  exponent : Option Exponent
  deriving DecidableEq, Repr

/-- A point and the digits after it at the front, if a point stands there. -/
def scanFraction : List Char → Option (List Char) × List Char
  | '.' :: cs => (some (leadingDigits cs), afterDigits cs)
  | cs => (none, cs)

/-- The text of a point and the digits after it, or nothing. -/
def fractionText (fraction : Option (List Char)) : List Char :=
  fraction.elim [] ('.' :: ·)

/-- A fraction that is read and what follows it make up the text. -/
theorem fractionText_scanFraction (cs : List Char) :
    fractionText (scanFraction cs).1 ++ (scanFraction cs).2 = cs := by
  unfold scanFraction
  split
  · simp [fractionText, leadingDigits_append_afterDigits]
  · rfl

/-- The double nearest to `m · 10^p`. -/
def nearestScaled (m : Nat) (p : Int) : Float :=
  if p < 0 then Float.ofScientific m true p.natAbs else Float.ofScientific m false p.natAbs

namespace Literal

def text (l : Literal) : List Char :=
  l.whole ++ fractionText l.fraction ++ (l.exponent.elim [] Exponent.text)

/-- All digits before the exponent, read as one number. -/
def significand (l : Literal) : Nat := natOfDigits (l.whole ++ l.fraction.getD [])

/-- The power of ten that the significand is multiplied by. -/
def power (l : Literal) : Int :=
  l.exponent.elim 0 Exponent.value - (l.fraction.getD []).length

def value (l : Literal) : Float := nearestScaled l.significand l.power

/-- The longest literal at the front, and the rest of the text. -/
def scan (cs : List Char) : Literal × List Char :=
  let whole := leadingDigits cs
  let (fraction, rest) := scanFraction (afterDigits cs)
  match Exponent.scan? rest with
  | some (exponent, rest) => (⟨whole, fraction, some exponent⟩, rest)
  | none => (⟨whole, fraction, none⟩, rest)

/-- No character gets lost in reading: a literal and what follows it make up the text. -/
theorem text_scan (cs : List Char) : (scan cs).1.text ++ (scan cs).2 = cs := by
  have front : leadingDigits cs ++ (fractionText (scanFraction (afterDigits cs)).1 ++
      (scanFraction (afterDigits cs)).2) = cs := by
    rw [fractionText_scanFraction, leadingDigits_append_afterDigits]
  simp only [scan]
  split
  · next e rest h =>
    rw [← Exponent.text_scan? h] at front
    simpa [text] using front
  · simpa [text] using front

end Literal

end FormulaMachine.Decimal
