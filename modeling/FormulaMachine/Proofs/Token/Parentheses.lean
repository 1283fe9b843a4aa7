import FormulaMachine.Token.Basic
import Mathlib

/-!
# Parentheses without a partner

The scanner counts open parentheses and lets a surplus closing one be. The count tells whether some
parenthesis is open, which can be said without counting from the start: the parentheses behind it
close no more than they open.

* **`Unclosed`**: some opening parenthesis has no partner behind it.
* **`unclosed_iff`**: that is when the scanner's count is positive.
-/

namespace FormulaMachine

namespace TokenKind

/-- Whether the token opens a parenthesis. -/
def opens : TokenKind → Bool
  | openParen => true
  | _ => false

/-- Whether the token closes a parenthesis. -/
def closes : TokenKind → Bool
  | closeParen => true
  | _ => false

end TokenKind

/-- Nowhere in `kinds` are `n` more parentheses closed than opened: of `n` parentheses that are open
before, the outermost stays open. -/
def Outlasts (n : Nat) (kinds : List TokenKind) : Prop :=
  ∀ part, part <+: kinds → part.countP TokenKind.closes < part.countP TokenKind.opens + n

/-- Some opening parenthesis is not closed behind it: up to no place there are more parentheses
closed than opened. Closing parentheses before it are of no account. -/
def Unclosed (kinds : List TokenKind) : Prop :=
  ∃ before after, kinds = before ++ .openParen :: after ∧
    ∀ part, part <+: after → part.countP TokenKind.closes ≤ part.countP TokenKind.opens

/-- How many parentheses are open behind the tokens, by the scanner's count. -/
def openCount (kinds : List TokenKind) : Nat := kinds.foldl TokenKind.depthAfter 0

/-- What holds of every front part of a list holds of the empty one and of those with the first
entry. -/
theorem forall_isPrefix_cons {α : Type} {P : List α → Prop} {a : α} {as : List α} :
    (∀ part, part <+: a :: as → P part) ↔ P [] ∧ ∀ part, part <+: as → P (a :: part) := by
  constructor
  · intro h
    exact ⟨h [] List.nil_prefix, fun part hpart => h _ (List.cons_prefix_cons.2 ⟨rfl, hpart⟩)⟩
  · rintro ⟨hnil, hcons⟩ part hpart
    rcases List.prefix_cons_iff.1 hpart with rfl | ⟨rest, rfl, hrest⟩
    · exact hnil
    · exact hcons rest hrest

/-- A parenthesis must be open before the first token; then what is asked of the front parts is
asked of those with this token. -/
theorem outlasts_cons {n : Nat} {k : TokenKind} {ks : List TokenKind} :
    Outlasts n (k :: ks) ↔ 0 < n ∧ ∀ part, part <+: ks →
      (k :: part).countP TokenKind.closes < (k :: part).countP TokenKind.opens + n := by
  unfold Outlasts
  rw [forall_isPrefix_cons]
  simp

/-- An opening parenthesis adds one that later tokens may close first. -/
theorem outlasts_openParen_cons {n : Nat} {ks : List TokenKind} :
    Outlasts n (.openParen :: ks) ↔ 0 < n ∧ Outlasts (n + 1) ks := by
  rw [outlasts_cons]
  refine and_congr_right fun _ => forall₂_congr fun part _ => ?_
  simp only [List.countP_cons, TokenKind.opens, TokenKind.closes, if_true, Bool.false_eq_true,
    if_false]
  omega

/-- A closing parenthesis closes one of those open before. With only the outermost open it is that
one. -/
theorem outlasts_closeParen_cons {n : Nat} {ks : List TokenKind} :
    Outlasts n (.closeParen :: ks) ↔ 0 < n ∧ Outlasts (n - 1) ks := by
  rw [outlasts_cons]
  refine and_congr_right fun hpos => forall₂_congr fun part _ => ?_
  simp only [List.countP_cons, TokenKind.opens, TokenKind.closes, if_true, Bool.false_eq_true,
    if_false]
  omega

theorem Outlasts.pos {n : Nat} {kinds : List TokenKind} (h : Outlasts n kinds) : 0 < n := by
  simpa using h [] List.nil_prefix

/-- With more parentheses open before, the outermost outlasts all the more. -/
theorem Outlasts.mono {n m : Nat} {kinds : List TokenKind} (h : Outlasts n kinds) (hle : n ≤ m) :
    Outlasts m kinds := fun part hpart => by
  have hn := h part hpart
  omega

/-- Either the first token opens the parenthesis that stays open, or a later one does. -/
theorem unclosed_cons {k : TokenKind} {ks : List TokenKind} :
    Unclosed (k :: ks) ↔ k = .openParen ∧ Outlasts 1 ks ∨ Unclosed ks := by
  constructor
  · rintro ⟨before, after, hsplit, hafter⟩
    cases before with
    | nil =>
      obtain ⟨rfl, rfl⟩ := List.cons.inj hsplit
      exact .inl ⟨rfl, fun part hpart => Nat.lt_succ_of_le (hafter part hpart)⟩
    | cons first before =>
      obtain ⟨rfl, rfl⟩ := List.cons.inj hsplit
      exact .inr ⟨before, after, rfl, hafter⟩
  · rintro (⟨rfl, hlast⟩ | ⟨before, after, rfl, hafter⟩)
    · exact ⟨[], ks, rfl, fun part hpart => Nat.le_of_lt_succ (hlast part hpart)⟩
    · exact ⟨k :: before, after, rfl, hafter⟩

/-- The count behind the tokens is positive if one of them opens a parenthesis that stays open, or
if one of those open before does. -/
theorem foldl_depthAfter_pos {n : Nat} {kinds : List TokenKind} :
    0 < kinds.foldl TokenKind.depthAfter n ↔ Unclosed kinds ∨ Outlasts n kinds := by
  -- the count `n` changes with each parenthesis, so the induction is for all of them
  induction kinds generalizing n with
  | nil => simp [Unclosed, Outlasts]
  | cons k ks ih =>
    rw [List.foldl_cons, ih, unclosed_cons]
    cases k with
    | openParen =>
      show Unclosed ks ∨ Outlasts (n + 1) ks ↔ _
      rw [outlasts_openParen_cons]
      have hmono : Outlasts 1 ks → Outlasts (n + 1) ks := fun h => h.mono (Nat.le_add_left 1 n)
      -- with no parenthesis open before, it is this one that may stay open
      rcases Nat.eq_zero_or_pos n with rfl | hpos
      · simp [or_comm]
      · simp only [hpos, true_and]
        tauto
    | closeParen =>
      show Unclosed ks ∨ Outlasts (n - 1) ks ↔ _
      rw [outlasts_closeParen_cons]
      have hpos (hlast : Outlasts (n - 1) ks) : 0 < n := by
        have hlt := hlast.pos
        omega
      -- a surplus closing parenthesis lets nothing that was open before stay open, and opens
      -- nothing
      have hne : TokenKind.closeParen ≠ .openParen := nofun
      tauto
    | _ =>
      show Unclosed ks ∨ Outlasts n ks ↔ _
      rw [outlasts_cons]
      have hsame : Outlasts n ks ↔ 0 < n ∧ Outlasts n ks :=
        ⟨fun hlast => ⟨hlast.pos, hlast⟩, And.right⟩
      simpa [TokenKind.closes, TokenKind.opens, Outlasts] using or_congr Iff.rfl hsame

/-- The scanner's count is positive exactly if a parenthesis is open. At the start no parenthesis is
open that could outlast the tokens, so it is one of them that opens it. -/
theorem unclosed_iff {kinds : List TokenKind} : Unclosed kinds ↔ 0 < openCount kinds := by
  have hnone : ¬ Outlasts 0 kinds := fun hlast => by simpa using hlast [] List.nil_prefix
  rw [openCount, foldl_depthAfter_pos, or_iff_left hnone]

end FormulaMachine
