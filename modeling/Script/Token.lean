import Script.Integer
import Script.Text.Quoted

/-!
# Tokens

A token is one word, number, string or sign of a script. Keywords and symbols have a fixed spelling
each; the three other kinds of token carry what they say.

* `Token.literal`: a token as it is written in a script.
* `Token.debug`: a token by the name of its kind, with what it carries.
* `Keyword.ofText?`: the words that are keywords, and no others.
-/

namespace Script

/-! ### Keywords -/

/-- A reserved word. -/
inductive Keyword where
  | functionWord
  | letWord
  | trueWord
  | falseWord
  | ifWord
  | elseWord
  | returnWord
deriving DecidableEq, Repr

namespace Keyword

/-- The spelling of a keyword. -/
def text : Keyword → String
  | functionWord => "fn"
  | letWord => "let"
  | trueWord => "true"
  | falseWord => "false"
  | ifWord => "if"
  | elseWord => "else"
  | returnWord => "return"

/-- The name of a keyword's kind. -/
def label : Keyword → String
  | functionWord => "Function"
  | letWord => "Let"
  | trueWord => "True"
  | falseWord => "False"
  | ifWord => "If"
  | elseWord => "Else"
  | returnWord => "Return"

/-- All keywords. -/
def all : List Keyword :=
  [functionWord, letWord, trueWord, falseWord, ifWord, elseWord, returnWord]

/-- The keyword with a given spelling, if there is one. -/
def ofText? (word : String) : Option Keyword :=
  all.find? (·.text == word)

theorem mem_all (k : Keyword) : k ∈ all := by
  cases k <;> simp [all]

end Keyword

/-! ### Symbols -/

/-- An operator or a delimiter. -/
inductive Symbol where
  | plus
  | minus
  | asterisk
  | slash
  | equal
  | notEqual
  | lessThan
  | greaterThan
  | bang
  | assign
  | comma
  | colon
  | semicolon
  | leftParen
  | rightParen
  | leftBrace
  | rightBrace
  | leftBracket
  | rightBracket
deriving DecidableEq, Repr

namespace Symbol

/-- The characters of a symbol. -/
def chars : Symbol → List Char
  | plus => ['+']
  | minus => ['-']
  | asterisk => ['*']
  | slash => ['/']
  | equal => ['=', '=']
  | notEqual => ['!', '=']
  | lessThan => ['<']
  | greaterThan => ['>']
  | bang => ['!']
  | assign => ['=']
  | comma => [',']
  | colon => [':']
  | semicolon => [';']
  | leftParen => ['(']
  | rightParen => [')']
  | leftBrace => ['{']
  | rightBrace => ['}']
  | leftBracket => ['[']
  | rightBracket => [']']

/-- The spelling of a symbol. -/
def text (s : Symbol) : String :=
  String.ofList s.chars

/-- The name of a symbol's kind. -/
def label : Symbol → String
  | plus => "Plus"
  | minus => "Minus"
  | asterisk => "Asterisk"
  | slash => "Slash"
  | equal => "Equal"
  | notEqual => "NotEqual"
  | lessThan => "LessThan"
  | greaterThan => "GreaterThan"
  | bang => "Bang"
  | assign => "Assign"
  | comma => "Comma"
  | colon => "Colon"
  | semicolon => "Semicolon"
  | leftParen => "LParen"
  | rightParen => "RParen"
  | leftBrace => "LBrace"
  | rightBrace => "RBrace"
  | leftBracket => "LBracket"
  | rightBracket => "RBracket"

/-- The longest symbol at the front of a text, with the text after it. -/
def longest? : List Char → Option (Symbol × List Char)
  | '=' :: '=' :: rest => some (equal, rest)
  | '!' :: '=' :: rest => some (notEqual, rest)
  | '+' :: rest => some (plus, rest)
  | '-' :: rest => some (minus, rest)
  | '*' :: rest => some (asterisk, rest)
  | '/' :: rest => some (slash, rest)
  | '<' :: rest => some (lessThan, rest)
  | '>' :: rest => some (greaterThan, rest)
  | '!' :: rest => some (bang, rest)
  | '=' :: rest => some (assign, rest)
  | ',' :: rest => some (comma, rest)
  | ':' :: rest => some (colon, rest)
  | ';' :: rest => some (semicolon, rest)
  | '(' :: rest => some (leftParen, rest)
  | ')' :: rest => some (rightParen, rest)
  | '{' :: rest => some (leftBrace, rest)
  | '}' :: rest => some (rightBrace, rest)
  | '[' :: rest => some (leftBracket, rest)
  | ']' :: rest => some (rightBracket, rest)
  | _ => none

/-- The symbol found stands at the front of the text. -/
theorem chars_append_of_longest? {cs rest : List Char} {s : Symbol}
    (h : longest? cs = some (s, rest)) : s.chars ++ rest = cs := by
  unfold longest? at h
  split at h <;> cases h <;> rfl

end Symbol

/-! ### Tokens -/

/-- A token. Comments count as tokens while a text is read; `eof` stands for its end. -/
inductive Token where
  | name (text : String)
  | integer (value : Integer)
  | string (value : String)
  | comment
  | keyword (word : Keyword)
  | symbol (sign : Symbol)
  | eof
deriving DecidableEq, Repr

namespace Token

/-- A reserved word is a keyword. -/
def isReserved : Token → Bool
  | keyword _ => true
  | _ => false

/-- A token as it is written; comments and the end of the text are described. -/
def literal : Token → String
  | name text => text
  | integer value => value.text
  | string value => Text.quote value
  | comment => "comment"
  | keyword word => word.text
  | symbol sign => sign.text
  | eof => "end of input"

/-- The name of a token's kind. -/
def label : Token → String
  | name _ => "Ident"
  | integer _ => "Int"
  | string _ => "String"
  | comment => "Comment"
  | keyword word => word.label
  | symbol sign => sign.label
  | eof => "Eof"

/-- A token by its kind, followed in parentheses by what it carries. -/
def debug : Token → String
  | name text => "Ident(" ++ Text.quote text ++ ")"
  | integer value => "Int(" ++ value.text ++ ")"
  | string value => "String(" ++ Text.quote value ++ ")"
  | token => token.label

/-- A token as a phrase, for messages that say what was found. -/
def phrase : Token → String
  | integer _ => "an Int"
  | string _ => "a String"
  | name _ => "an Identifier"
  | keyword word => "the keyword `" ++ word.text ++ "`"
  | token => "`" ++ token.literal ++ "`"

end Token

end Script
