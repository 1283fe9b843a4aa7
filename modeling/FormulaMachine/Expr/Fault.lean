import FormulaMachine.Token.Scan

/-!
# Faults in the text of a formula

A fault names its cause and its place. Nothing else is kept of it; the wording is one function of
the two.
-/

namespace FormulaMachine

/-- What a formula may go on with where it does not. -/
inductive Expected where
  | expression
  | closeParen
  | commaOrCloseParen
  | operatorOrEnd
  deriving DecidableEq, Repr

namespace Expected

def describe : Expected → String
  | expression => "expression"
  | closeParen => "`)`"
  | commaOrCloseParen => "`,` or `)`"
  | operatorOrEnd => "operator or end of statement"

end Expected

/-- Why a text is no formula. -/
inductive SyntaxCause where
  /-- a character that starts no token -/
  | unexpectedCharacter (c : Char)
  /-- a token, or the end of input, that cannot stand there -/
  | unexpectedNext (expected : Expected) (found : Option TokenKind)
  /-- more phrases within each other than are accepted -/
  | nestedTooDeeply

/-- A cause and its place. -/
structure SyntaxFault where
  cause : SyntaxCause
  position : Position

namespace SyntaxCause

def text : SyntaxCause → String
  | unexpectedCharacter c => "unexpected character `" ++ String.singleton c ++ "`"
  | unexpectedNext expected found =>
    "expected " ++ expected.describe ++ ", found " ++ describeNext found
  | nestedTooDeeply => "expression nested too deeply"

end SyntaxCause

namespace SyntaxFault

def message (fault : SyntaxFault) : String :=
  fault.position.text ++ ": " ++ fault.cause.text

end SyntaxFault

namespace StrayCharacter

def fault (stray : StrayCharacter) : SyntaxFault :=
  ⟨.unexpectedCharacter stray.character, stray.position⟩

end StrayCharacter

end FormulaMachine
