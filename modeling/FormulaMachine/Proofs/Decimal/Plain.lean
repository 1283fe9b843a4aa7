import FormulaMachine.Decimal.Reading
import FormulaMachine.Proofs.Token.Reading

/-!
# The positional text of a double is a literal

Positional form writes digits, perhaps with a point among them. For a finite double without a minus
sign that is the text of a literal, and reading the text as a number reads that literal.

* `Scientific.literal`: the literal that positional form writes.
* **`exists_literal_of_finite`**: the text of a double is that of a plain literal.
* **`Literal.value_of_ofText?`**: a plain literal has the value that its text is read as.
-/

namespace FormulaMachine

namespace Decimal

/-! ## Digits -/

namespace Scientific

/-- The digits of a scientific form are digits, the zeros in front of them included. -/
theorem isDigit_of_mem_digitText (s : Scientific) : ∀ c ∈ s.digitText, c.isDigit = true := by
  intro c hc
  rw [digitText, List.mem_append] at hc
  rcases hc with hzero | hdigit
  · rw [(List.mem_replicate.1 hzero).2]
    rfl
  · exact Nat.isDigit_of_mem_toDigits (by decide) (by decide) hdigit

/-- There is a digit at least, also for zero. -/
theorem digitText_ne_nil (s : Scientific) : s.digitText ≠ [] := by
  rw [digitText, ne_eq, List.append_eq_nil_iff]
  exact fun hnil => Nat.toDigits_ne_nil hnil.2

/-- The literal that positional form writes. Zeros fill up to the point on either side. -/
def literal (s : Scientific) : Literal :=
  match s.exponent with
  | .negSucc n => ⟨['0'], some (List.replicate n '0' ++ s.digitText), none⟩
  | .ofNat n =>
    if s.places ≤ n then ⟨s.digitText ++ List.replicate (n - s.places) '0', none, none⟩
    else ⟨s.digitText.take (n + 1), some (s.digitText.drop (n + 1)), none⟩

/-- The literal has the text that positional form writes. -/
theorem text_literal (s : Scientific) : s.literal.text = s.plain := by
  rw [literal, plain]
  cases s.exponent with
  | negSucc n => simp [Literal.text, fractionText]
  | ofNat n =>
    simp only
    split <;> simp [Literal.text, fractionText]

/-- It is a plain one: digits, perhaps a point and more digits, and no exponent. There is always a
digit before the point. -/
theorem isPlain_literal (s : Scientific) : s.literal.IsPlain := by
  have hdigits := s.isDigit_of_mem_digitText
  have hzeros : ∀ n, ∀ c ∈ List.replicate n '0', c.isDigit = true := by
    intro n c hc
    rw [(List.mem_replicate.1 hc).2]
    rfl
  -- digits of the number, and zeros that fill up to the point
  have hpadded : ∀ n, ∀ c, c ∈ s.digitText ∨ c ∈ List.replicate n '0' → c.isDigit = true :=
    fun n c hc => hc.elim (hdigits c) (hzeros n c)
  simp only [literal]
  split
  · next n _ =>
    refine ⟨List.cons_ne_nil _ _, ?_, ?_, rfl⟩
    · intro c hc
      rw [List.mem_singleton.1 hc]
      rfl
    · rintro ds ⟨⟩ c hc
      exact hpadded n c (List.mem_append.1 hc).symm
  · next n _ =>
    split
    · refine ⟨?_, fun c hc => hpadded _ c (List.mem_append.1 hc), nofun, rfl⟩
      simp [s.digitText_ne_nil]
    · refine ⟨?_, fun c hc => hdigits c (List.mem_of_mem_take hc), ?_, rfl⟩
      · simp [s.digitText_ne_nil]
      · rintro ds ⟨⟩ c hc
        exact hdigits c (List.mem_of_mem_drop hc)

end Scientific

/-- A finite double that has no minus sign is written as a plain literal. -/
theorem exists_literal_of_finite {x : Float} (hfinite : x.isFinite = true)
    (hsign : Binary64.isNegative x = false) :
    ∃ l : Literal, l.IsPlain ∧ (plain x).toList = l.text := by
  have hunpack : (Binary64.unpack x).isFinite = true := hfinite
  rw [Binary64.isNegative] at hsign
  rw [plain, signedText]
  generalize Binary64.unpack x = u at hunpack hsign
  -- of the finite doubles without a sign, positive zero is written like the others
  cases u with
  | notANumber => cases hunpack
  | infinity s => cases hunpack
  | zero s =>
    cases s with
    | negative => cases hsign
    | positive =>
      refine ⟨(shortestOrZero 0 0).literal, Scientific.isPlain_literal _, ?_⟩
      rw [Scientific.text_literal]
      exact String.toList_ofList
  | finite s m e hm =>
    cases s with
    | negative => cases hsign
    | positive =>
      refine ⟨(shortestOrZero m e).literal, Scientific.isPlain_literal _, ?_⟩
      rw [Scientific.text_literal]
      exact String.toList_ofList

/-- Reading the text of a plain literal as a number is reading the literal. -/
theorem Literal.value_of_ofText? {l : Literal} (hl : l.IsPlain) {text : String} {x : Float}
    (htext : text.toList = l.text) (h : ofText? text = some x) : l.value = x := by
  have hscan := scan_append hl.isSpelled endsLiteral_nil
  rw [List.append_nil] at hscan
  obtain ⟨c, cs, hwhole⟩ := List.exists_cons_of_ne_nil hl.nonempty
  have hdigit : c.isDigit = true := hl.whole c (by rw [hwhole]; exact List.mem_cons_self ..)
  obtain ⟨cs', hcs⟩ : ∃ cs', l.text = c :: cs' := by
    rw [Literal.text, hwhole]
    exact ⟨_, rfl⟩
  have hsome : l.whole ++ l.fraction.getD [] ≠ [] := by
    rw [hwhole, List.cons_append]
    exact List.cons_ne_nil _ _
  -- without a sign, the whole text is one literal, with a digit in it
  have hunsigned : ofUnsigned? l.text = some l.value := by
    simp only [ofUnsigned?, hscan]
    rw [if_pos ⟨trivial, hsome⟩]
  rw [ofText?, htext, hcs] at h
  rw [hcs] at hunsigned
  -- no sign stands before the first digit
  split at h
  · next heq =>
    rw [(List.cons.inj heq).1] at hdigit
    cases hdigit
  · next heq =>
    rw [(List.cons.inj heq).1] at hdigit
    cases hdigit
  · exact Option.some.inj (hunsigned.symm.trans h)

end Decimal

end FormulaMachine
