import Eleu.Span

/-! # Tokens

    The smallest meaningful pieces of a source text: symbols, keywords, names, literals, and the
    mark that closes every token list, which is either the end of the text or the lexical error
    that stopped the scan. -/

namespace Eleu

/-- Punctuation and operators. -/
inductive Symbol where
  | leftParen | rightParen | leftBrace | rightBrace | leftBracket | rightBracket
  | comma | dot | semicolon
  | bang | minus | plus | slash | star | percent
  | bangEqual | equalEqual | greater | greaterEqual | less | lessEqual
  | equal
deriving DecidableEq

namespace Symbol

/-- The symbols whose first character already decides them. -/
def ofChar? (c : Char) : Option Symbol :=
  match c with
  | '(' => some .leftParen
  | ')' => some .rightParen
  | '\x7b' => some .leftBrace
  | '\x7d' => some .rightBrace
  | '[' => some .leftBracket
  | ']' => some .rightBracket
  | ',' => some .comma
  | '.' => some .dot
  | '-' => some .minus
  | '+' => some .plus
  | ';' => some .semicolon
  | '*' => some .star
  | '%' => some .percent
  | _ => none

/-- The symbols that an equals sign may extend: the short form, then the extended one. -/
def ofExtensible? (c : Char) : Option (Symbol × Symbol) :=
  match c with
  | '!' => some (.bang, .bangEqual)
  | '=' => some (.equal, .equalEqual)
  | '>' => some (.greater, .greaterEqual)
  | '<' => some (.less, .lessEqual)
  | _ => none

end Symbol

/-- Reserved words. -/
inductive Keyword where
  | and | assert | break | continue | else | false | fun | for | if | nil | or
  | repeat | return | super | this | true | var | while
  | class : Keyword
deriving DecidableEq

/-- The keyword that a word is, if it is one. A function may be declared with either of two words. -/
def Keyword.ofWord? (word : String) : Option Keyword :=
  match word with
  | "and" => some .and
  | "assert" => some .assert
  | "break" => some .break
  | "class" => some .class
  | "continue" => some .continue
  | "else" => some .else
  | "false" => some .false
  | "fun" => some .fun
  | "function" => some .fun
  | "for" => some .for
  | "if" => some .if
  | "nil" => some .nil
  | "or" => some .or
  | "repeat" => some .repeat
  | "return" => some .return
  | "super" => some .super
  | "this" => some .this
  | "true" => some .true
  | "var" => some .var
  | "while" => some .while
  | _ => none

/-- Why a scan stopped before the end of the text. -/
inductive LexicalError where
  | unexpectedCharacter
  | unterminatedString
deriving DecidableEq

/-- The wording of a lexical error. -/
def LexicalError.message : LexicalError → String
  | .unexpectedCharacter => "unexpected character"
  | .unterminatedString => "unterminated string"

/-- What a token is. -/
inductive TokenKind where
  | symbol (s : Symbol)
  | keyword (k : Keyword)
  | name
  | string
  | number
  | invalid (e : LexicalError)
  | endOfFile
deriving DecidableEq

namespace TokenKind

/-- The two kinds that close a token list. -/
def closes : TokenKind → Bool
  | .invalid _ => true
  | .endOfFile => true
  | _ => false

/-- Whether the token is a reserved word. -/
def isKeyword : TokenKind → Bool
  | .keyword _ => true
  | _ => false

end TokenKind

/-- A token with its place. The lexeme is the source text of the token; that of a string goes without
    the quotes, and the closing token carries a description instead. -/
structure Token where
  kind : TokenKind
  lexeme : String
  span : Span
deriving DecidableEq

end Eleu
