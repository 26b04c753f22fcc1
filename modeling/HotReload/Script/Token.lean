import HotReload.Text.Bytes

/-!
# Tokens of scripts

A token is a word, a piece of punctuation, a literal, or the end of the text, together with the
bytes that it takes and whether a line end stands before it, on which the insertion of semicolons
depends.
-/

namespace HotReload
namespace Script

/-- Operators between two operands, from the loosest to the tightest. -/
inductive Operator where
  | coalesce
  | or
  | and
  | bitOr
  | bitXor
  | bitAnd
  | equal
  | notEqual
  | same
  | notSame
  | less
  | greater
  | lessOrEqual
  | greaterOrEqual
  /-- The word `in`. -/
  | within
  /-- The word `instanceof`. -/
  | instanceOf
  | shiftLeft
  | shiftRight
  | shiftRightZero
  | plus
  | minus
  | times
  | divide
  | remainder
  | power
  deriving DecidableEq, Repr

/-- How tightly an operator binds; an operator with a higher level takes its operands first. -/
def Operator.level : Operator → Nat
  | .coalesce => 1
  | .or => 2
  | .and => 3
  | .bitOr => 4
  | .bitXor => 5
  | .bitAnd => 6
  | .equal | .notEqual | .same | .notSame => 7
  | .less | .greater | .lessOrEqual | .greaterOrEqual | .within | .instanceOf => 8
  | .shiftLeft | .shiftRight | .shiftRightZero => 9
  | .plus | .minus => 10
  | .times | .divide | .remainder => 11
  | .power => 12

/-- Punctuation. -/
inductive Mark where
  | openBrace
  | closeBrace
  | openParen
  | closeParen
  | openBracket
  | closeBracket
  | dot
  | ellipsis
  | semicolon
  | comma
  | colon
  | question
  | questionDot
  | arrow
  | decorator
  | not
  | complement
  | increment
  | decrement
  | assign
  /-- An assignment that applies an operator first. -/
  | assignWith (op : Operator)
  | operator (op : Operator)
  deriving DecidableEq, Repr

/-- What a token is. -/
inductive Kind where
  /-- An identifier or a keyword, its escapes resolved. -/
  | word (name : String) (escaped : Bool)
  /-- A name that starts with a number sign. -/
  | privateName (name : String)
  | mark (m : Mark)
  | number
  /-- A string literal with its value; `alone` says that a surrogate without its partner occurs. -/
  | text (value : String) (alone : Bool)
  /-- A stretch of a template up to its end or to the next substitution. -/
  | template (last : Bool) (wellFormed : Bool)
  /-- A regular expression. -/
  | pattern
  | finish
  deriving DecidableEq, Repr

/-- A token and its place. -/
structure Token where
  kind : Kind
  start : Nat
  stop : Nat
  /-- A line end stands between the token before and this one. -/
  afterLine : Bool
  /-- The characters of the token. -/
  text : List Char
  deriving Repr

/-- Whether a token is a given keyword, written without escapes. -/
def Token.isWord (t : Token) (w : String) : Bool := t.kind == .word w false

/-- Whether a token is a given mark. -/
def Token.isMark (t : Token) (m : Mark) : Bool := t.kind == .mark m

/-- Whether a token is a word, whichever one. -/
def Token.hasWord (t : Token) : Bool :=
  match t.kind with
  | .word _ _ => true
  | _ => false

/-- Whether a token is a stroke, which may turn out to start a regular expression. -/
def Token.isStroke (t : Token) : Bool :=
  t.isMark (.operator .divide) || t.isMark (.assignWith .divide)

/-- Why a text is no script. -/
inductive Cause where
  | unexpectedToken
  | unexpectedCharacter
  | unterminatedText
  | unterminatedComment
  | unterminatedTemplate
  | unterminatedPattern
  | badPatternFlags
  | badEscape
  | badNumber
  | missingSemicolon
  | invalidTarget
  | invalidParameters
  | shorthandInitializer
  | mixedCoalesce
  | unaryBeforePower
  | reservedWord
  | missingInitializer
  | returnOutsideFunction
  | lineEndAfterThrow
  | declarationNotAllowed
  | duplicateAttribute
  | duplicateExport
  | loneSurrogate
  | invalidClassMember
  | nestedTooDeeply
  deriving DecidableEq, Repr

/-- The wording of a cause. -/
def Cause.message : Cause → String
  | .unexpectedToken => "unexpected token"
  | .unexpectedCharacter => "unexpected character"
  | .unterminatedText => "unterminated string"
  | .unterminatedComment => "unterminated comment"
  | .unterminatedTemplate => "unterminated template"
  | .unterminatedPattern => "unterminated regular expression"
  | .badPatternFlags => "invalid regular expression flags"
  | .badEscape => "invalid escape sequence"
  | .badNumber => "invalid number"
  | .missingSemicolon => "expected a semicolon"
  | .invalidTarget => "cannot assign to this expression"
  | .invalidParameters => "invalid parameters"
  | .shorthandInitializer => "an initializer is not allowed here"
  | .mixedCoalesce => "operators that need parentheses are mixed"
  | .unaryBeforePower => "a unary operand of a power needs parentheses"
  | .reservedWord => "a reserved word is no name"
  | .missingInitializer => "missing initializer"
  | .returnOutsideFunction => "return outside of a function"
  | .lineEndAfterThrow => "line end after throw"
  | .declarationNotAllowed => "a declaration is not allowed here"
  | .duplicateAttribute => "duplicate attribute"
  | .duplicateExport => "duplicate export"
  | .loneSurrogate => "a name holds a surrogate without its partner"
  | .invalidClassMember => "invalid class member"
  | .nestedTooDeeply => "nested too deeply"

/-- A cause and the byte offset at which it was found. -/
structure Fault where
  offset : Nat
  cause : Cause
  deriving DecidableEq, Repr

/-- The wording of a fault. -/
def Fault.message (f : Fault) : String :=
  f.cause.message ++ " at byte " ++ String.ofList (Text.decimal f.offset)

end Script
end HotReload
