/-!
# Quoted strings

A string as a single-quoted script literal.
-/

namespace Localizer.Template

/-- The spelling of a character inside single quotes. -/
def quoteChar (c : Char) : List Char :=
  match c with
  | '\\' => ['\\', '\\']
  | '\'' => ['\\', '\'']
  | '\n' => ['\\', 'n']
  | '\r' => ['\\', 'r']
  | '\u2028' => ['\\', 'u', '2', '0', '2', '8']
  | '\u2029' => ['\\', 'u', '2', '0', '2', '9']
  | c => [c]

/-- A value as a single-quoted string literal. -/
def quote (value : String) : String :=
  String.ofList ('\'' :: value.toList.flatMap quoteChar ++ ['\''])

end Localizer.Template
