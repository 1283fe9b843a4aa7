import FormulaMachine.Decimal.Reading
import FormulaMachine.Proofs.Decimal.Longest

/-!
# Literals are told by their texts

A literal that was read is read again from its own text, whatever stands behind it, as long as that
does not continue it. So the number at the front of a text stays the same wherever behind it the text
is cut off, and a number that stands alone is a number to every reader.

* `Exponent.IsSpelled`, `Literal.IsSpelled`: the parts hold what they stand for.
* `EndsLiteral`: what comes next continues no literal.
* **`Literal.scan_append`**: a spelled literal in front of such a text is read as it stands.
* **`Literal.scan_cut`**: the number at the front, with less of the text behind it.
* **`ofText?_of_isNumber`**: the text of a number is accepted as one.
-/

namespace FormulaMachine

/-- Characters that are taken, in front of one that is not: they are what is taken, and the rest is
left. -/
theorem takeWhile_dropWhile_append {p : Char → Bool} {cs rest : List Char}
    (hcs : ∀ c ∈ cs, p c = true) (hrest : ∀ c ∈ rest.head?, p c = false) :
    (cs ++ rest).takeWhile p = cs ∧ (cs ++ rest).dropWhile p = rest := by
  rw [List.takeWhile_append_of_pos hcs, List.dropWhile_append_of_pos hcs]
  cases rest with
  | nil => simp
  | cons c rest => simp [hrest c rfl]

namespace Decimal

/-- Digits in front of something else are the leading digits. -/
theorem digits_append {cs rest : List Char} (hcs : AllDigits cs)
    (hrest : ∀ c ∈ rest.head?, c.isDigit = false) :
    leadingDigits (cs ++ rest) = cs ∧ afterDigits (cs ++ rest) = rest :=
  takeWhile_dropWhile_append hcs hrest

/-! ## Parts of a literal -/

/-- A marker, perhaps a sign, and a digit at least. -/
structure Exponent.IsSpelled (e : Exponent) : Prop where
  marker : e.marker = 'e' ∨ e.marker = 'E'
  sign : e.sign = none ∨ e.sign = some '+' ∨ e.sign = some '-'
  digits : AllDigits e.digits
  nonempty : e.digits ≠ []

/-- Digits, perhaps a point and digits, perhaps an exponent. -/
structure Literal.IsSpelled (l : Literal) : Prop where
  whole : AllDigits l.whole
  fraction : ∀ ds ∈ l.fraction, AllDigits ds
  exponent : ∀ e ∈ l.exponent, e.IsSpelled

/-- At the front stands nothing that continues a literal. -/
def EndsLiteral (cs : List Char) : Prop :=
  ∀ c ∈ cs.head?, c.isDigit = false ∧ c ≠ '.' ∧ c ≠ 'e' ∧ c ≠ 'E'

theorem endsLiteral_nil : EndsLiteral [] := nofun

theorem EndsLiteral.not_isDigit {cs : List Char} (h : EndsLiteral cs) :
    ∀ c ∈ cs.head?, c.isDigit = false := fun c hc => (h c hc).1

/-- Without a point there is no fraction. -/
theorem scanFraction_of_ne {cs : List Char} (h : ∀ c ∈ cs.head?, c ≠ '.') :
    scanFraction cs = (none, cs) := by
  unfold scanFraction
  split
  · exact absurd rfl (h '.' rfl)
  · rfl

/-- A fraction in front of what does not continue it is read as it stands. -/
theorem scanFraction_append {fraction : Option (List Char)} {rest : List Char}
    (hfraction : ∀ ds ∈ fraction, AllDigits ds)
    (hrest : ∀ c ∈ rest.head?, c.isDigit = false ∧ c ≠ '.') :
    scanFraction (fractionText fraction ++ rest) = (fraction, rest) := by
  cases fraction with
  | none => exact scanFraction_of_ne fun c hc => (hrest c hc).2
  | some ds =>
    have hdigits := digits_append (hfraction ds rfl) fun c hc => (hrest c hc).1
    show (some (leadingDigits (ds ++ rest)), afterDigits (ds ++ rest)) = _
    rw [hdigits.1, hdigits.2]

namespace Exponent

/-- No exponent begins with what ends a literal. -/
theorem scan?_of_ends {cs : List Char} (h : EndsLiteral cs) : scan? cs = none := by
  cases cs with
  | nil => rfl
  | cons c cs =>
    obtain ⟨-, -, he, hE⟩ := h c rfl
    have hmarker : ¬ (c = 'e' ∨ c = 'E') := by
      rintro (rfl | rfl)
      · exact he rfl
      · exact hE rfl
    simp only [scan?]
    rw [if_neg fun hboth => hmarker hboth.1]

/-- An exponent in front of no digit is read as it stands. -/
theorem scan?_append {e : Exponent} (he : e.IsSpelled) {rest : List Char}
    (hrest : ∀ c ∈ rest.head?, c.isDigit = false) : scan? (e.text ++ rest) = some (e, rest) := by
  obtain ⟨marker, sign, ds⟩ := e
  obtain ⟨hmarker, hsign, hds, hne⟩ := he
  have hdigits := digits_append hds hrest
  -- the sign is found, or none where a digit follows the marker
  have hsplit : splitSign (sign.toList ++ ds ++ rest) = (sign, ds ++ rest) := by
    rcases hsign with rfl | rfl | rfl
    · exact splitSign_of_digits hds hne rest
    · rfl
    · rfl
  show scan? (marker :: (sign.toList ++ ds ++ rest)) = _
  simp only [scan?, hsplit, hdigits.1, hdigits.2]
  rw [if_pos ⟨hmarker, hne⟩]

/-- An exponent that was read is spelled. -/
theorem isSpelled_of_scan? {cs rest : List Char} {e : Exponent} (h : scan? cs = some (e, rest)) :
    e.IsSpelled := by
  cases cs with
  | nil => cases h
  | cons m cs =>
    simp only [scan?] at h
    split at h
    · next hboth =>
      cases h
      refine ⟨hboth.1, ?_, allDigits_leadingDigits _, hboth.2⟩
      unfold splitSign
      split
      · exact .inr (.inl rfl)
      · exact .inr (.inr rfl)
      · exact .inl rfl
    · cases h

end Exponent

/-! ## Literals -/

namespace Literal

/-- The parts of the literal at the front. -/
theorem scan_fst (cs : List Char) :
    (scan cs).1.whole = leadingDigits cs ∧
      (scan cs).1.fraction = (scanFraction (afterDigits cs)).1 ∧
      (scan cs).1.exponent =
        (Exponent.scan? (scanFraction (afterDigits cs)).2).map Prod.fst := by
  simp only [scan]
  cases Exponent.scan? (scanFraction (afterDigits cs)).2 <;> exact ⟨rfl, rfl, rfl⟩

/-- A literal that was read is spelled, part by part. -/
theorem isSpelled_scan (cs : List Char) : (scan cs).1.IsSpelled := by
  obtain ⟨hwhole, hfraction, hexponent⟩ := scan_fst cs
  refine ⟨?_, fun ds hds => ?_, fun e he => ?_⟩
  · rw [hwhole]
    exact allDigits_leadingDigits cs
  · rw [hfraction] at hds
    unfold scanFraction at hds
    split at hds
    · cases hds
      exact allDigits_leadingDigits _
    · cases hds
  · rw [hexponent] at he
    obtain ⟨found, hfound, rfl⟩ := Option.map_eq_some_iff.1 he
    exact Exponent.isSpelled_of_scan? hfound

/-- A spelled literal in front of what does not continue it is read as it stands. Each part is read
in front of the next one, and that does not continue it either. -/
theorem scan_append {l : Literal} (h : l.IsSpelled) {rest : List Char} (hrest : EndsLiteral rest) :
    scan (l.text ++ rest) = (l, rest) := by
  obtain ⟨whole, fraction, exponent⟩ := l
  obtain ⟨hwhole, hfraction, hexponent⟩ := h
  simp only at hwhole hfraction hexponent
  -- what stands behind the digits and the point
  have htail : ∃ tail, exponent.elim [] Exponent.text ++ rest = tail ∧
      Exponent.scan? tail = exponent.map (·, rest) ∧
      ∀ c ∈ tail.head?, c.isDigit = false ∧ c ≠ '.' := by
    refine ⟨_, rfl, ?_⟩
    cases exponent with
    | none => exact ⟨Exponent.scan?_of_ends hrest, fun c hc => ⟨(hrest c hc).1, (hrest c hc).2.1⟩⟩
    | some e =>
      have he := hexponent e rfl
      refine ⟨Exponent.scan?_append he hrest.not_isDigit, fun c hc => ?_⟩
      obtain rfl : e.marker = c := Option.some.inj hc
      rcases he.marker with hmarker | hmarker <;> rw [hmarker] <;> decide
  obtain ⟨tail, htext, hscan, hhead⟩ := htail
  have hfront : scanFraction (fractionText fraction ++ tail) = (fraction, tail) :=
    scanFraction_append hfraction hhead
  -- the digits in front end at the point, at the exponent or at what follows the literal
  have hpoint : ∀ c ∈ (fractionText fraction ++ tail).head?, c.isDigit = false := by
    intro c hc
    cases fraction with
    | none => exact (hhead c hc).1
    | some ds =>
      obtain rfl : '.' = c := Option.some.inj hc
      rfl
  have hdigits := digits_append hwhole hpoint
  have hwritten : text ⟨whole, fraction, exponent⟩ ++ rest =
      whole ++ (fractionText fraction ++ tail) := by
    simp only [text, List.append_assoc, htext]
  rw [hwritten]
  simp only [scan, hdigits.1, hdigits.2, hfront, hscan]
  cases exponent with
  | none => rw [← htext]; rfl
  | some e => rfl

/-- A literal that was read is read again from its own text. -/
theorem scan_text (cs : List Char) : scan (scan cs).1.text = ((scan cs).1, []) := by
  have hself := scan_append (isSpelled_scan cs) endsLiteral_nil
  rwa [List.append_nil] at hself

end Literal

/-! ## Numbers -/

/-- A number begins with a digit, or with a point and a digit. -/
theorem IsNumber.begins {cs : List Char} (h : IsNumber cs) :
    leadingDigits cs ≠ [] ∨ ∃ d ds, cs = '.' :: d :: ds ∧ d.isDigit = true := by
  have hdigits {ds : List Char} (hds : AllDigits ds) (hne : ds ≠ []) (more : List Char) :
      leadingDigits (ds ++ more) ≠ [] := by
    obtain ⟨d, ds, rfl⟩ := List.exists_cons_of_ne_nil hne
    rw [List.cons_append, (leadingDigits_cons (hds d (List.mem_cons_self ..)) _).1]
    exact List.cons_ne_nil _ _
  cases h with
  | whole hds hne hex => exact .inl (hdigits hds hne _)
  | pointed hds hne hfs hex => exact .inl (hdigits hds hne _)
  | @fraction fs ex hfs hne hex =>
    obtain ⟨d, fs, rfl⟩ := List.exists_cons_of_ne_nil hne
    exact .inr ⟨d, fs ++ ex, rfl, hfs d (List.mem_cons_self ..)⟩

/-- Whatever stands behind it, the beginning is the same. -/
theorem begins_append {cs : List Char}
    (h : leadingDigits cs ≠ [] ∨ ∃ d ds, cs = '.' :: d :: ds ∧ d.isDigit = true)
    (more : List Char) :
    leadingDigits (cs ++ more) ≠ [] ∨ ∃ d ds, cs ++ more = '.' :: d :: ds ∧ d.isDigit = true := by
  rcases h with hne | ⟨d, ds, rfl, hd⟩
  · left
    cases cs with
    | nil => exact absurd rfl hne
    | cons c cs =>
      -- digits are read, so the first character is one
      have hc : c.isDigit = true := by
        by_contra hc
        exact hne (leadingDigits_of_not_isDigit (Bool.eq_false_iff.2 hc) cs).1
      rw [List.cons_append, (leadingDigits_cons hc _).1]
      exact List.cons_ne_nil _ _
  · exact .inr ⟨d, ds ++ more, rfl, hd⟩

namespace Literal

/-- The number at the front does not depend on how much of the text stands behind it: it is the
longest one there, in the whole text and in the part. -/
theorem scan_cut {cs before behind : List Char} {l : Literal}
    (h : scan cs = (l, before ++ behind)) (hnumber : IsNumber l.text) :
    scan (l.text ++ before) = (l, before) := by
  have hwhole : l.text ++ (before ++ behind) = cs := by
    have htext := text_scan cs
    rwa [h] at htext
  have hpart := text_scan (l.text ++ before)
  -- the number in the part is a number in the whole text, and the other way round
  have hnumber' : IsNumber (scan (l.text ++ before)).1.text :=
    isNumber_scan (begins_append hnumber.begins before)
  have hle : l.text.length ≤ (scan (l.text ++ before)).1.text.length :=
    length_le_scan hnumber (List.prefix_append ..)
  -- neither of the two is longer than the other, since each is the longest in its text
  have hge : (scan (l.text ++ before)).1.text.length ≤ l.text.length := by
    have hprefix : (scan (l.text ++ before)).1.text <+: cs := by
      refine ⟨(scan (l.text ++ before)).2 ++ behind, ?_⟩
      rw [← List.append_assoc, hpart, List.append_assoc, hwhole]
    have hlongest := length_le_scan hnumber' hprefix
    rwa [h] at hlongest
  obtain ⟨htext, hrest⟩ := List.append_inj hpart (Nat.le_antisymm hge hle)
  have hsame : (scan (l.text ++ before)).1 = l := by
    have hself := scan_text (l.text ++ before)
    have hself' := scan_text cs
    rw [htext] at hself
    rw [h] at hself'
    exact congrArg Prod.fst (hself.symm.trans hself')
  exact Prod.ext hsame hrest

end Literal

/-- The text of a number, and nothing else, is read as that number. -/
theorem scan_of_isNumber {cs : List Char} (h : IsNumber cs) :
    (Literal.scan cs).1.text = cs ∧ (Literal.scan cs).2 = [] := by
  have hlongest := Literal.length_le_scan h List.prefix_rfl
  have htext := Literal.text_scan cs
  -- the longest number at the front is the whole text
  have hlength := congrArg List.length htext
  rw [List.length_append] at hlength
  have hrest : (Literal.scan cs).2 = [] := List.length_eq_zero_iff.1 (by omega)
  rw [hrest, List.append_nil] at htext
  exact ⟨htext, hrest⟩

/-- The text of a number is accepted without a sign: it has a digit, and nothing is left behind it.
-/
theorem ofUnsigned?_of_isNumber {cs : List Char} (h : IsNumber cs) :
    ofUnsigned? cs = some (Literal.scan cs).1.value := by
  -- the digits in front of the point or those behind it are there
  have hdigit : (Literal.scan cs).1.whole ++ (Literal.scan cs).1.fraction.getD [] ≠ [] := by
    obtain ⟨hwhole, hfraction, -⟩ := Literal.scan_fst cs
    rw [hwhole, hfraction]
    rcases h.begins with hne | ⟨d, ds, rfl, hd⟩
    · exact List.append_ne_nil_of_left_ne_nil hne _
    · have hpoint := leadingDigits_of_not_isDigit (c := '.') (by decide) (d :: ds)
      rw [hpoint.1, hpoint.2]
      show leadingDigits (d :: ds) ≠ []
      rw [(leadingDigits_cons hd ds).1]
      exact List.cons_ne_nil _ _
  simp only [ofUnsigned?]
  rw [if_pos ⟨(scan_of_isNumber h).2, hdigit⟩]

/-- The text of a number is accepted, with the value that the number has in a formula. -/
theorem ofText?_of_isNumber {cs : List Char} (h : IsNumber cs) :
    ofText? (String.ofList cs) = some (Literal.scan cs).1.value := by
  rw [← ofUnsigned?_of_isNumber h, ofText?, String.toList_ofList]
  -- a number has no sign in front
  split
  · obtain hne | ⟨d, ds, heq, -⟩ := h.begins
    · exact absurd (leadingDigits_of_not_isDigit (by decide) _).1 hne
    · exact absurd (List.cons.inj heq).1 (by decide)
  · obtain hne | ⟨d, ds, heq, -⟩ := h.begins
    · exact absurd (leadingDigits_of_not_isDigit (by decide) _).1 hne
    · exact absurd (List.cons.inj heq).1 (by decide)
  · rfl

end Decimal

end FormulaMachine
