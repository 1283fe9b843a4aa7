import FormulaMachine.Decimal.Text

/-!
# Tokens

A formula is read as a stream of tokens, each with its text and the place where it starts. What
follows the last token is the end of input, which has a place too but is no token.

* `Position.after`: where the text that follows a given text starts.
* `TokenKind.describe`, `describeNext`: how messages call a token or the end of input.
-/

namespace FormulaMachine

/-! ## Places in a text -/

/-- A place in a text: line and column, both counted from one. -/
structure Position where
  line : Nat
  column : Nat
  deriving DecidableEq, Repr

namespace Position

def start : Position := ⟨1, 1⟩

/-- The place after the character `c`: a line feed starts the next line. -/
def next (p : Position) (c : Char) : Position :=
  if c = '\n' then ⟨p.line + 1, 1⟩ else ⟨p.line, p.column + 1⟩

def after (p : Position) (cs : List Char) : Position := cs.foldl next p

@[simp] theorem after_nil (p : Position) : p.after [] = p := rfl

@[simp] theorem after_cons (p : Position) (c : Char) (cs : List Char) :
    p.after (c :: cs) = (p.next c).after cs := rfl

theorem after_append (p : Position) (cs ds : List Char) :
    p.after (cs ++ ds) = (p.after cs).after ds := by
  simp [after]

/-- Line and column, with a colon between them. -/
def text (p : Position) : String := s!"{p.line}:{p.column}"

end Position

/-! ## Tokens -/

/-- What a token is. A terminator ends a statement; it is written `;` or as a line break outside
parentheses. -/
inductive TokenKind where
  | number (value : Float)
  | identifier (name : String)
  | plus
  | minus
  | star
  | slash
  | caret
  | assign
  | openParen
  | closeParen
  | comma
  | terminator

namespace TokenKind

/-- The kind of token that a single character makes up. -/
def ofMark? : Char → Option TokenKind
  | '+' => some plus
  | '-' => some minus
  | '*' => some star
  | '/' => some slash
  | '^' => some caret
  | '=' => some assign
  | '(' => some openParen
  | ')' => some closeParen
  | ',' => some comma
  | ';' => some terminator
  | _ => none

/-- How a message calls the token. Numbers are written out without an exponent. -/
def describe : TokenKind → String
  | number value => "number `" ++ Decimal.plain value ++ "`"
  | identifier name => "identifier `" ++ name ++ "`"
  | plus => "`+`"
  | minus => "`-`"
  | star => "`*`"
  | slash => "`/`"
  | caret => "`^`"
  | assign => "`=`"
  | openParen => "`(`"
  | closeParen => "`)`"
  | comma => "`,`"
  | terminator => "end of statement"

def isTerminator : TokenKind → Bool
  | terminator => true
  | _ => false

/-- How many parentheses are open after the token, if `depth` were open before it. A closing
parenthesis without a partner is not counted. -/
def depthAfter (depth : Nat) : TokenKind → Nat
  | openParen => depth + 1
  | closeParen => depth - 1
  | _ => depth

end TokenKind

/-- A token: what it is, the text that writes it, and where that text starts. -/
structure Token where
  kind : TokenKind
  lexeme : String
  position : Position

/-- How a message calls what comes next: a token or the end of input. -/
def describeNext : Option TokenKind → String
  | some kind => kind.describe
  | none => "end of input"

/-- The tokens of a text, and the place where the text ends. -/
structure TokenStream where
  tokens : List Token
  finish : Position

namespace TokenStream

/-- The stream with one more token, if there is one, in front. -/
def prepend (token? : Option Token) (stream : TokenStream) : TokenStream :=
  ⟨token?.toList ++ stream.tokens, stream.finish⟩

end TokenStream

end FormulaMachine
