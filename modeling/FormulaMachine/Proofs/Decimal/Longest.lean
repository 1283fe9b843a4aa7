import FormulaMachine.Decimal.Literal
import Mathlib

/-!
# The longest number at the front of a text

The texts of numbers are given by their form, apart from any way to read them: digits, perhaps with
a point and digits behind it, or a point and digits; and perhaps an exponent, which has a digit at
least.

* **`IsNumber`**: the texts of numbers.
* **`Literal.isNumber_scan`**: the literal at the front has this form if a digit, or a point and a
  digit, stand there.
* **`Literal.length_le_scan`**: no longer text of this form stands at the front.
-/

namespace FormulaMachine.Decimal

/-- Only digits, or nothing. -/
def AllDigits (cs : List Char) : Prop := ∀ c ∈ cs, c.isDigit = true

/-- `e` or `E`, perhaps a sign, and a digit at least; or nothing. -/
inductive IsExponent : List Char → Prop where
  | absent : IsExponent []
  | present {marker : Char} {sign ds : List Char} (hmarker : marker = 'e' ∨ marker = 'E')
    (hsign : sign = [] ∨ sign = ['+'] ∨ sign = ['-']) (hds : AllDigits ds) (hne : ds ≠ []) :
    IsExponent (marker :: (sign ++ ds))

/-- `digits[.digits*][exponent]` or `.digits[exponent]`. -/
inductive IsNumber : List Char → Prop where
  | whole {ds ex : List Char} (hds : AllDigits ds) (hne : ds ≠ []) (hex : IsExponent ex) :
    IsNumber (ds ++ ex)
  | pointed {ds fs ex : List Char} (hds : AllDigits ds) (hne : ds ≠ []) (hfs : AllDigits fs)
    (hex : IsExponent ex) : IsNumber (ds ++ '.' :: (fs ++ ex))
  | fraction {fs ex : List Char} (hfs : AllDigits fs) (hne : fs ≠ []) (hex : IsExponent ex) :
    IsNumber ('.' :: (fs ++ ex))

/-! ## Digits at the front -/

theorem allDigits_leadingDigits (cs : List Char) : AllDigits (leadingDigits cs) :=
  fun _ hc => List.mem_takeWhile_imp hc

theorem leadingDigits_cons {c : Char} (h : c.isDigit = true) (cs : List Char) :
    leadingDigits (c :: cs) = c :: leadingDigits cs ∧ afterDigits (c :: cs) = afterDigits cs := by
  simp [leadingDigits, afterDigits, h]

theorem leadingDigits_of_not_isDigit {c : Char} (h : c.isDigit = false) (cs : List Char) :
    leadingDigits (c :: cs) = [] ∧ afterDigits (c :: cs) = c :: cs := by
  simp [leadingDigits, afterDigits, h]

/-- Digits and something else at the front: either there is nothing else, or the digits are all that
stand there. -/
theorem digits_isPrefix {ds more cs : List Char} (hds : AllDigits ds)
    (hmore : ∀ c ∈ more.head?, c.isDigit = false) (h : ds ++ more <+: cs) :
    more = [] ∧ ds.length ≤ (leadingDigits cs).length ∨
      ds = leadingDigits cs ∧ more <+: afterDigits cs := by
  -- on the digits of the prefix, which are read one by one
  induction ds generalizing cs with
  | nil =>
    cases more with
    | nil => exact .inl ⟨rfl, Nat.zero_le _⟩
    | cons c more =>
      obtain ⟨rest, rfl⟩ := h
      have hc : c.isDigit = false := hmore c rfl
      have hfront := leadingDigits_of_not_isDigit hc (more ++ rest)
      exact .inr ⟨hfront.1.symm, by rw [List.nil_append, List.cons_append, hfront.2]; simp⟩
  | cons d ds ih =>
    obtain ⟨rest, rfl⟩ := h
    have hd : d.isDigit = true := hds d (List.mem_cons_self ..)
    have htail : AllDigits ds := fun c hc => hds c (List.mem_cons_of_mem d hc)
    have hfront := leadingDigits_cons hd (ds ++ more ++ rest)
    have hrest := ih htail (List.prefix_append (ds ++ more) rest)
    rw [List.cons_append, List.cons_append, hfront.1, hfront.2]
    rcases hrest with ⟨hnil, hlength⟩ | ⟨heq, hpre⟩
    · exact .inl ⟨hnil, Nat.succ_le_succ hlength⟩
    · exact .inr ⟨congrArg (d :: ·) heq, hpre⟩

/-! ## Exponents -/

/-- No exponent begins with a digit or a point. -/
theorem IsExponent.head {ex : List Char} (h : IsExponent ex) :
    ∀ c ∈ ex.head?, c.isDigit = false ∧ c ≠ '.' := by
  cases h with
  | absent => exact nofun
  | present hmarker hsign hds hne =>
    intro c hc
    obtain rfl := Option.some.inj hc
    rcases hmarker with rfl | rfl <;> decide

/-- The text of the exponent at the front, if one stands there. -/
def exponentText (cs : List Char) : List Char := (Exponent.scan? cs).elim [] (·.1.text)

/-- No digit is a sign, so in front of digits no sign is read. -/
theorem Exponent.splitSign_of_digits {ds : List Char} (hds : AllDigits ds) (hne : ds ≠ [])
    (rest : List Char) : splitSign (ds ++ rest) = (none, ds ++ rest) := by
  obtain ⟨d, ds, rfl⟩ := List.exists_cons_of_ne_nil hne
  have hd : d.isDigit = true := hds d (List.mem_cons_self ..)
  unfold splitSign
  split
  · next heq =>
    obtain ⟨rfl, -⟩ := List.cons.inj heq
    exact absurd hd (by decide)
  · next heq =>
    obtain ⟨rfl, -⟩ := List.cons.inj heq
    exact absurd hd (by decide)
  · rfl

/-- With a marker, perhaps a sign, and a digit, all of these are read as the exponent, and all
digits there. -/
theorem exponentText_eq {marker : Char} {cs rest : List Char} {sign : Option Char}
    (hmarker : marker = 'e' ∨ marker = 'E') (hsplit : Exponent.splitSign cs = (sign, rest))
    (hne : leadingDigits rest ≠ []) :
    exponentText (marker :: cs) = marker :: sign.toList ++ leadingDigits rest := by
  have hscan : Exponent.scan? (marker :: cs) =
      some (⟨marker, sign, leadingDigits rest⟩, afterDigits rest) := by
    simp only [Exponent.scan?, hsplit]
    rw [if_pos ⟨hmarker, hne⟩]
  rw [exponentText, hscan]
  rfl

/-- Every exponent at the front is a part of the one that is read there. -/
theorem IsExponent.length_le {ex cs : List Char} (h : IsExponent ex) (hpre : ex <+: cs) :
    ex.length ≤ (exponentText cs).length := by
  cases h with
  | absent => exact Nat.zero_le _
  | @present marker sign ds hmarker hsign hds hne =>
    obtain ⟨rest, rfl⟩ := hpre
    -- the digits of the exponent are among those that are read
    have hlength : ds.length ≤ (leadingDigits (ds ++ rest)).length := by
      have hpre : ds ++ [] <+: ds ++ rest := by
        rw [List.append_nil]
        exact List.prefix_append ds rest
      rcases digits_isPrefix hds (by simp) hpre with ⟨-, hle⟩ | ⟨heq, -⟩
      · exact hle
      · exact (congrArg List.length heq).le
    have hne' : leadingDigits (ds ++ rest) ≠ [] := by
      have hpos := List.length_pos_iff.2 hne
      exact List.length_pos_iff.1 (by omega)
    have hread : ∃ found : Option Char, found.toList = sign ∧
        Exponent.splitSign (sign ++ ds ++ rest) = (found, ds ++ rest) := by
      rcases hsign with rfl | rfl | rfl
      · exact ⟨none, rfl, Exponent.splitSign_of_digits hds hne rest⟩
      · exact ⟨some '+', rfl, rfl⟩
      · exact ⟨some '-', rfl, rfl⟩
    obtain ⟨found, rfl, hsplit⟩ := hread
    rw [List.cons_append, exponentText_eq hmarker hsplit hne']
    simp only [List.length_cons, List.length_append]
    omega

/-- What is read as an exponent has the form of one. A marker without digits behind it is not read
at all. -/
theorem isExponent_exponentText (cs : List Char) : IsExponent (exponentText cs) := by
  unfold exponentText
  cases hscan : Exponent.scan? cs with
  | none => exact .absent
  | some found =>
    obtain ⟨e, rest⟩ := found
    cases cs with
    | nil => cases hscan
    | cons m cs =>
      simp only [Exponent.scan?] at hscan
      split at hscan
      · next hboth =>
        cases hscan
        -- of a sign there is one character or none
        have hsign : (Exponent.splitSign cs).1.toList = [] ∨
            (Exponent.splitSign cs).1.toList = ['+'] ∨
              (Exponent.splitSign cs).1.toList = ['-'] := by
          unfold Exponent.splitSign
          split
          · exact .inr (.inl rfl)
          · exact .inr (.inr rfl)
          · exact .inl rfl
        exact .present hboth.1 hsign (allDigits_leadingDigits _) hboth.2
      · cases hscan

/-! ## Numbers -/

namespace Literal

/-- The literal at the front, part by part. -/
theorem text_scan_fst (cs : List Char) :
    (scan cs).1.text = leadingDigits cs ++ (fractionText (scanFraction (afterDigits cs)).1 ++
      exponentText (scanFraction (afterDigits cs)).2) := by
  simp only [scan, exponentText]
  cases Exponent.scan? (scanFraction (afterDigits cs)).2 <;> simp [text]

/-- The literal at the front has the form of a number, if a digit stands there, or a point with a
digit behind it. By whether a point follows the digits, and whether there are any. -/
theorem isNumber_scan {cs : List Char}
    (h : leadingDigits cs ≠ [] ∨ ∃ d ds, cs = '.' :: d :: ds ∧ d.isDigit = true) :
    IsNumber (scan cs).1.text := by
  rw [text_scan_fst]
  have hex := isExponent_exponentText (scanFraction (afterDigits cs)).2
  by_cases hpoint : ∃ rest, afterDigits cs = '.' :: rest
  · obtain ⟨rest, hrest⟩ := hpoint
    have hfraction : fractionText (scanFraction (afterDigits cs)).1 =
        '.' :: leadingDigits rest := by
      rw [hrest]
      rfl
    rw [hfraction, List.cons_append]
    rcases h with hne | ⟨d, ds, rfl, hd⟩
    · exact .pointed (allDigits_leadingDigits cs) hne (allDigits_leadingDigits rest) hex
    -- without digits before the point, the point is the first character, and a digit follows it
    · have hfront := leadingDigits_of_not_isDigit (c := '.') (by decide) (d :: ds)
      obtain ⟨-, rfl⟩ := List.cons.inj (hfront.2.symm.trans hrest)
      rw [hfront.1, List.nil_append]
      refine .fraction (allDigits_leadingDigits _) ?_ hex
      rw [(leadingDigits_cons hd ds).1]
      exact List.cons_ne_nil _ _
  · have hfraction : (scanFraction (afterDigits cs)).1 = none := by
      unfold scanFraction
      split
      · next rest heq => exact absurd ⟨rest, heq⟩ hpoint
      · rfl
    rw [hfraction]
    rcases h with hne | ⟨d, ds, rfl, -⟩
    · exact .whole (allDigits_leadingDigits cs) hne hex
    · exact absurd ⟨d :: ds, (leadingDigits_of_not_isDigit (by decide) _).2⟩ hpoint

/-- Digits, a point, more digits and an exponent at the front, some of which may be absent. -/
theorem length_le_scan_of_pointed {ds fs ex cs : List Char} (hds : AllDigits ds)
    (hfs : AllDigits fs) (hex : IsExponent ex) (h : ds ++ '.' :: (fs ++ ex) <+: cs) :
    (ds ++ '.' :: (fs ++ ex)).length ≤ (scan cs).1.text.length := by
  have hpoint : ∀ c ∈ ('.' :: (fs ++ ex)).head?, c.isDigit = false := by
    intro c hc
    obtain rfl := Option.some.inj hc
    decide
  obtain ⟨hnil, -⟩ | ⟨hwhole, rest, hrest⟩ := digits_isPrefix hds hpoint h
  · cases hnil
  rw [text_scan_fst, ← hwhole, ← hrest]
  have hfraction : scanFraction ('.' :: (fs ++ ex) ++ rest) =
      (some (leadingDigits (fs ++ ex ++ rest)), afterDigits (fs ++ ex ++ rest)) := rfl
  rw [hfraction]
  -- the digits behind the point end where the exponent begins, or are not all that stand there
  have htail : fs.length + ex.length ≤ (leadingDigits (fs ++ ex ++ rest)).length +
      (exponentText (afterDigits (fs ++ ex ++ rest))).length := by
    have hstop : ∀ c ∈ ex.head?, c.isDigit = false := fun c hc => (hex.head c hc).1
    obtain ⟨rfl, hle⟩ | ⟨heq, hpre⟩ := digits_isPrefix hfs hstop (List.prefix_append _ rest)
    · simp only [List.length_nil]
      omega
    · have hlength := hex.length_le hpre
      rw [← heq]
      omega
  simp only [fractionText, Option.elim_some, List.length_append, List.length_cons]
  omega

/-- Every text of a number at the front is a part of the literal there. -/
theorem length_le_scan {cs text : List Char} (h : IsNumber text) (hpre : text <+: cs) :
    text.length ≤ (scan cs).1.text.length := by
  cases h with
  | pointed hds hne hfs hex => exact length_le_scan_of_pointed hds hfs hex hpre
  | fraction hfs hne hex =>
    have hempty : AllDigits [] := by simp [AllDigits]
    exact length_le_scan_of_pointed hempty hfs hex hpre
  | @whole ds ex hds hne hex =>
    have hstop : ∀ c ∈ ex.head?, c.isDigit = false := fun c hc => (hex.head c hc).1
    rw [text_scan_fst]
    simp only [List.length_append]
    obtain ⟨rfl, hle⟩ | ⟨heq, hpre⟩ := digits_isPrefix hds hstop hpre
    · simp only [List.length_nil]
      omega
    · have hlength := hex.length_le hpre
      -- an exponent is no point, so none is read in front of it
      have hfraction : ex = [] ∨ (scanFraction (afterDigits cs)).2 = afterDigits cs := by
        cases ex with
        | nil => exact .inl rfl
        | cons marker ex =>
          obtain ⟨rest, hrest⟩ := hpre
          rw [← hrest, List.cons_append]
          unfold scanFraction
          split
          · next htail =>
            obtain ⟨rfl, -⟩ := List.cons.inj htail
            exact absurd rfl (hex.head '.' rfl).2
          · exact .inr rfl
      rcases hfraction with rfl | hsame
      · simp only [List.length_nil, heq]
        omega
      · rw [hsame, heq]
        omega

end Literal

end FormulaMachine.Decimal
