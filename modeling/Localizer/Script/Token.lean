/-!
# Tokens

The words of a script. Keywords are not told apart from identifiers here: which
word is reserved depends on where it stands.
-/

namespace Localizer.Script

inductive Token where
  /-- An identifier or keyword; `escaped` if it was spelled with an escape. -/
  | word (sym : String) (escaped : Bool)
  | number (raw : String)
  | string (value raw : String)
  | punct (text : String)
  /-- What stands between tags. -/
  | jsxText
  | eof
  /-- What is not a token. -/
  | bad
  deriving DecidableEq, Repr, Inhabited

/-- Punctuation of more than one character, longest first. -/
def longPuncts : List String :=
  [">>>=", "...", "===", "!==", "**=", "<<=", ">>=", ">>>", "&&=", "||=", "??=", "=>", "==", "!=",
   "<=", ">=", "&&", "||", "??", "++", "--", "+=", "-=", "*=", "/=", "%=", "&=", "|=", "^=", "**",
   "<<", ">>"]

def shortPuncts : List Char :=
  ['\x7b', '\x7d', '(', ')', '[', ']', ';', ',', '<', '>', '+', '-', '*', '/', '%', '&', '|', '^',
   '!', '~', '?', ':', '=', '@', '#', '.', '\x60']

/-- Words that can never be identifiers in a module. -/
def keywords : List String :=
  ["break", "case", "catch", "class", "const", "continue", "debugger", "default", "delete", "do",
   "else", "enum", "export", "extends", "false", "finally", "for", "function", "if", "import", "in",
   "instanceof", "new", "null", "return", "super", "switch", "this", "throw", "true", "try",
   "typeof", "var", "void", "while", "with"]

/-- Words that are reserved in strict code only. -/
def strictWords : List String :=
  ["implements", "interface", "package", "private", "protected", "public"]

/-- Words that are keywords in every file. -/
def operatorWords : List String := keywords ++ ["await", "let", "yield"]

/-- Words that may not hold an escape. -/
def reservedWords : List String := keywords ++ strictWords ++ ["let", "await", "yield", "static"]

/-- Words that have a meaning of their own in some places only. -/
def contextualWords : List String :=
  ["abstract", "accessor", "any", "as", "assert", "asserts", "async", "bigint", "boolean",
   "declare", "from", "get", "global", "infer", "intrinsic", "is", "keyof", "namespace", "never",
   "number", "object", "of", "out", "override", "readonly", "require", "satisfies", "set", "static",
   "string", "symbol", "target", "type", "undefined", "unique", "unknown", "using"]

/-- Operators with two operands that are spelled with punctuation. -/
def binaryPuncts : List String :=
  ["??", "||", "&&", "|", "^", "&", "==", "!=", "===", "!==", "<", ">", "<=", ">=", "<<", ">>",
   ">>>", "+", "-", "*", "/", "%", "**"]

def assignPuncts : List String :=
  ["=", "+=", "-=", "*=", "/=", "%=", "**=", "<<=", ">>=", ">>>=", "&=", "|=", "^=", "&&=", "||=",
   "??="]

/-- How tightly a binary operator binds. -/
def precedence (op : String) : Nat :=
  if op == "??" || op == "||" then 1
  else if op == "&&" then 2
  else if op == "|" then 3
  else if op == "^" then 4
  else if op == "&" then 5
  else if ["==", "!=", "===", "!=="].contains op then 6
  else if ["<", ">", "<=", ">=", "in", "instanceof"].contains op then 7
  else if ["<<", ">>", ">>>"].contains op then 8
  else if ["+", "-"].contains op then 9
  else if ["*", "/", "%"].contains op then 10
  else 11

namespace Token

/-- The name of a token in the text of a fault. -/
def label : Token → String
  | word sym escaped =>
    if escaped || !(operatorWords ++ strictWords ++ contextualWords).contains sym then "ident"
    else if sym == "instanceof" then "instanceOf"
    else sym
  | number raw => if raw.endsWith "n" then "bigint literal" else "numeric literal"
  | string _ _ => "string literal"
  | punct text => if text == "*=" then "*" else text
  | jsxText => "jsx text"
  | eof => "<eof>"
  | bad => "<error token>"

/-- Whether a block comment on the same line belongs to this token. -/
def takesTrailingBlock : Token → Bool
  | word sym _ => !operatorWords.contains sym || sym == "enum"
  | number _ => true
  | string _ _ => true
  | punct text => ["\x7d", "\x7b", ";"].contains text
  | jsxText => false
  | eof => false
  | bad => false

/-- Whether a line comment on the same line belongs to this token. -/
def takesTrailingLine : Token → Bool
  | punct text => !binaryPuncts.contains text
  | _ => true

end Token

end Localizer.Script
