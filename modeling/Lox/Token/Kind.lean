/-!
# Kinds of tokens

A token is one of nineteen symbols, a number, a string, an identifier, one of sixteen reserved
words, or the end of the input. `Kind.name` is the name in listings, `Kind.detail` the one in
detailed text.
-/

namespace Lox

/-- Punctuation and operators, each with a single spelling. -/
inductive Symbol where
  | leftParen | rightParen | leftBrace | rightBrace | comma | dot | minus | plus | semicolon | star
  | bang | bangEqual | equal | equalEqual | less | lessEqual | greater | greaterEqual | slash
deriving DecidableEq, Inhabited

namespace Symbol

def all : List Symbol :=
  [leftParen, rightParen, leftBrace, rightBrace, comma, dot, minus, plus, semicolon, star,
    bang, bangEqual, equal, equalEqual, less, lessEqual, greater, greaterEqual, slash]

def text : Symbol → String
  | leftParen => "("
  | rightParen => ")"
  | leftBrace => "\x7b"
  | rightBrace => "\x7d"
  | comma => ","
  | dot => "."
  | minus => "-"
  | plus => "+"
  | semicolon => ";"
  | star => "*"
  | bang => "!"
  | bangEqual => "!="
  | equal => "="
  | equalEqual => "=="
  | less => "<"
  | lessEqual => "<="
  | greater => ">"
  | greaterEqual => ">="
  | slash => "/"

def name : Symbol → String
  | leftParen => "LEFT_PAREN"
  | rightParen => "RIGHT_PAREN"
  | leftBrace => "LEFT_BRACE"
  | rightBrace => "RIGHT_BRACE"
  | comma => "COMMA"
  | dot => "DOT"
  | minus => "MINUS"
  | plus => "PLUS"
  | semicolon => "SEMICOLON"
  | star => "STAR"
  | bang => "BANG"
  | bangEqual => "BANG_EQUAL"
  | equal => "EQUAL"
  | equalEqual => "EQUAL_EQUAL"
  | less => "LESS"
  | lessEqual => "LESS_EQUAL"
  | greater => "GREATER"
  | greaterEqual => "GREATER_EQUAL"
  | slash => "SLASH"

def detail : Symbol → String
  | leftParen => "LeftParenthesis"
  | rightParen => "RightParenthesis"
  | leftBrace => "LeftBrace"
  | rightBrace => "RightBrace"
  | comma => "Comma"
  | dot => "Dot"
  | minus => "Minus"
  | plus => "Plus"
  | semicolon => "Semicolon"
  | star => "Star"
  | bang => "Bang"
  | bangEqual => "BangEqual"
  | equal => "Equal"
  | equalEqual => "EqualEqual"
  | less => "LessThan"
  | lessEqual => "LessThanEqual"
  | greater => "GreaterThan"
  | greaterEqual => "GreaterThanEqual"
  | slash => "Slash"

end Symbol

inductive Keyword where
  | andWord | classWord | elseWord | falseWord | forWord | funWord | ifWord | nilWord
  | orWord | printWord | returnWord | superWord | thisWord | trueWord | varWord | whileWord
deriving DecidableEq, Inhabited

namespace Keyword

/-- All reserved words in alphabetical order. -/
def all : List Keyword :=
  [andWord, classWord, elseWord, falseWord, forWord, funWord, ifWord, nilWord,
    orWord, printWord, returnWord, superWord, thisWord, trueWord, varWord, whileWord]

def text : Keyword → String
  | andWord => "and"
  | classWord => "class"
  | elseWord => "else"
  | falseWord => "false"
  | forWord => "for"
  | funWord => "fun"
  | ifWord => "if"
  | nilWord => "nil"
  | orWord => "or"
  | printWord => "print"
  | returnWord => "return"
  | superWord => "super"
  | thisWord => "this"
  | trueWord => "true"
  | varWord => "var"
  | whileWord => "while"

def name : Keyword → String
  | andWord => "AND"
  | classWord => "CLASS"
  | elseWord => "ELSE"
  | falseWord => "FALSE"
  | forWord => "FOR"
  | funWord => "FUN"
  | ifWord => "IF"
  | nilWord => "NIL"
  | orWord => "OR"
  | printWord => "PRINT"
  | returnWord => "RETURN"
  | superWord => "SUPER"
  | thisWord => "THIS"
  | trueWord => "TRUE"
  | varWord => "VAR"
  | whileWord => "WHILE"

def detail : Keyword → String
  | andWord => "KeywordAnd"
  | classWord => "KeywordClass"
  | elseWord => "KeywordElse"
  | falseWord => "KeywordFalse"
  | forWord => "KeywordFor"
  | funWord => "KeywordFun"
  | ifWord => "KeywordIf"
  | nilWord => "KeywordNil"
  | orWord => "KeywordOr"
  | printWord => "KeywordPrint"
  | returnWord => "KeywordReturn"
  | superWord => "KeywordSuper"
  | thisWord => "KeywordThis"
  | trueWord => "KeywordTrue"
  | varWord => "KeywordVar"
  | whileWord => "KeywordWhile"

/-- The reserved word spelled exactly like this. -/
def ofText? (word : String) : Option Keyword :=
  all.find? (·.text == word)

/-- Words that open a declaration or a statement. -/
def startsDeclaration : Keyword → Bool
  | classWord | funWord | varWord | forWord | ifWord | whileWord | printWord | returnWord => true
  | _ => false

end Keyword

inductive Kind where
  | symbol (s : Symbol)
  | number
  | string
  | ident
  | keyword (k : Keyword)
  | eof
deriving DecidableEq, Inhabited

namespace Kind

def all : List Kind :=
  Symbol.all.map symbol ++ [number, string, ident] ++ Keyword.all.map keyword ++ [eof]

def name : Kind → String
  | symbol s => s.name
  | number => "NUMBER"
  | string => "STRING"
  | ident => "IDENTIFIER"
  | keyword k => k.name
  | eof => "EOF"

def detail : Kind → String
  | symbol s => s.detail
  | number => "NumericLiteral"
  | string => "StringLiteral"
  | ident => "Ident"
  | keyword k => k.detail
  | eof => "Eof"

def ofName? (name : String) : Option Kind :=
  all.find? (·.name == name)

/-- Tokens at which reading may resume after an error. -/
def startsDeclaration : Kind → Bool
  | keyword k => k.startsDeclaration
  | _ => false

def ofWord (word : String) : Kind :=
  match Keyword.ofText? word with
  | some k => keyword k
  | none => ident

end Kind
end Lox
