import Localizer.Script.Lexer

/-!
# Parser state

A parser stands on a token. It remembers where the token before it ended, which
comments were met, and what the surroundings of the token permit. States are
plain values, so looking ahead and trying a reading need no bookkeeping.
-/

namespace Localizer.Script

/-- Which language extensions a file may use. -/
structure Dialect where
  typed : Bool
  jsx : Bool
  deriving DecidableEq, Repr, Inhabited

/-- What the surroundings of a token permit. -/
structure Surroundings where
  inFunction : Bool := false
  inParams : Bool := false
  /-- Whether this is the head of a `for` loop. -/
  inForHead : Bool := false
  inAsync : Bool := false
  inGenerator : Bool := false
  inDeclare : Bool := false
  inStaticBlock : Bool := false
  /-- Whether this belongs to a member of a class or to a method of an object. -/
  inMember : Bool := false
  /-- Whether `in` is an operator here. -/
  withIn : Bool := true
  /-- Whether this is a branch of a conditional expression. -/
  inConditional : Bool := false
  /-- Whether a colon must follow the expression. -/
  colonFollows : Bool := false
  /-- Whether `extends` may not start a conditional type. -/
  noConditionalType : Bool := false
  deriving Inhabited

/-- Comments by the position they are attached to. -/
structure Comments where
  leading : List (Nat × Comment)
  trailing : List (Nat × Comment)
  deriving Inhabited

namespace Comments

def empty : Comments := ⟨[], []⟩

def leadingAt (cs : Comments) (pos : Nat) : List Comment :=
  cs.leading.filterMap fun (p, c) => if p == pos then some c else none

end Comments

structure ParserState where
  dialect : Dialect
  token : Token
  /-- The fault of a token that is none. -/
  badToken : Option Fault
  /-- Whether a line ends between the token before this one and this one. -/
  lineBreak : Bool
  /-- In front of the token. -/
  here : Cursor
  /-- Behind the token. -/
  next : Cursor
  /-- Where the token before this one ended. -/
  prevStop : Nat
  /-- The comments so far, last first. -/
  comments : Comments
  /-- Where an arrow function may start. -/
  arrowStart : Nat
  around : Surroundings
  deriving Inhabited

abbrev P := EStateM Fault ParserState

/-- Attaches the comments in front of a token; at the end of a file they trail the last token. -/
def attachComments (cs : Comments) (t : Trivia) (prevStop : Nat) (atEnd isFirst : Bool) :
    Comments :=
  t.comments.foldr (fun (c, forNext) cs =>
    if forNext && !(atEnd && !isFirst) then { cs with leading := (t.cursor.pos, c) :: cs.leading }
    else { cs with trailing := (prevStop, c) :: cs.trailing }) cs

/-- Stands on the token behind `from`; `prev` is the token that ends there. -/
def ParserState.readFrom (s : ParserState) (start : Cursor) (prev : Option Token) : ParserState :=
  let bad (f : Fault) : ParserState :=
    { s with token := .bad, badToken := some f, here := start, next := ⟨[], start.pos⟩,
             prevStop := start.pos }
  match skipTrivia prev prev.isNone [] start with
  | .error f => bad f
  | .ok t =>
    match readTokenBehind t with
    | .error f => { bad f with here := t.cursor, lineBreak := t.lineBreak }
    | .ok (token, n) =>
      { s with
        token
        badToken := none
        lineBreak := t.lineBreak
        here := t.cursor
        next := t.cursor.drop n
        prevStop := start.pos
        comments := attachComments s.comments t start.pos (token == .eof) prev.isNone }

/-- The state in front of a file. -/
def ParserState.initial (dialect : Dialect) (source : List Char) : ParserState :=
  let empty : ParserState :=
    { dialect, token := .eof, badToken := none, lineBreak := true, here := ⟨source, 1⟩,
      next := ⟨source, 1⟩, prevStop := 1, comments := .empty, arrowStart := 0, around := {} }
  empty.readFrom ⟨source, 1⟩ none

namespace P

/-! ## Looking at the token -/

def token : P Token := return (← get).token

def start : P Nat := return (← get).here.pos

def prevStop : P Nat := return (← get).prevStop

def lineBreak : P Bool := return (← get).lineBreak

def typed : P Bool := return (← get).dialect.typed

def around : P Surroundings := return (← get).around

/-- From a position to the end of the token before this one. -/
def spanFrom (lo : Nat) : P Span := return ⟨lo, (← get).prevStop⟩

def tokenSpan : P Span := do
  let s ← get
  return ⟨s.here.pos, s.next.pos⟩

def isPunct (text : String) : P Bool := return (← get).token == .punct text

def isAnyPunct (texts : List String) : P Bool :=
  return match (← get).token with
    | .punct t => texts.contains t
    | _ => false

def isWord (sym : String) : P Bool := return (← get).token == .word sym false

def isAnyWord (syms : List String) : P Bool :=
  return match (← get).token with
    | .word s false => syms.contains s
    | _ => false

def isEof : P Bool := return (← get).token == .eof

/-- The word that is the token, if it is one. -/
def word? : P (Option String) :=
  return match (← get).token with
    | .word s _ => some s
    | _ => none

/-- How the token is written. -/
def spelling : P String := do
  let s ← get
  return String.ofList (Text.takeBytes (s.next.pos - s.here.pos) s.here.rest)

/-- The name that a word is read as; a contextual word that holds an escape keeps it. -/
def wordName? : P (Option String) := do
  match (← get).token with
  | .word s true => return some s
  | .word s false => if contextualWords.contains s then return some (← spelling) else return some s
  | _ => return none

def isString : P Bool :=
  return match (← get).token with
    | .string .. => true
    | _ => false

/-! ## Moving on -/

/-- Behind a template, from behind its opening backtick on, or behind where it is interrupted. -/
def behindTemplate (c : Cursor) : Cursor :=
  let (body, behind) := quasiBody c.rest
  c.drop (body.length + (if behind.head? == some '\x60' then 1 else 2))

/-- Steps over the token; a template without substitutions, or the head of another, is one. -/
def advance : P Unit := modify fun s =>
  s.readFrom (if s.token == .punct "\x60" then behindTemplate s.next else s.next) (some s.token)

def eat (text : String) : P Bool := do
  if ← isPunct text then
    advance
    return true
  return false

def eatWord (sym : String) : P Bool := do
  if ← isWord sym then
    advance
    return true
  return false

/-- Steps over a token that only typed files have. -/
def eatTyped (text : String) : P Bool := do
  if ← typed then eat text else return false

/-! ## Faults -/

def failAt (span : Span) (kind : FaultKind) : P α := throw ⟨span, kind⟩

def fail (kind : FaultKind) : P α := do failAt (← tokenSpan) kind

/-- The name of the token in the text of a fault; a template is told by how it goes on. -/
def tokenLabel : P String := do
  let s ← get
  match s.token with
  | .punct "\x60" =>
    return match (quasiBody s.next.rest).2 with
      | '\x60' :: _ => "no substitution template literal"
      | '$' :: _ => "template head"
      | _ => Token.bad.label
  | t => return t.label

def unexpected (wanted : String) : P α := do fail (.unexpected (← tokenLabel) wanted)

/-- No expression starts here; a token that is none has a fault of its own. -/
def failExpression : P α := do
  match (← get).badToken with
  | some f => throw f
  | none => fail .expressionExpected

def expect (text : String) : P Unit := do
  unless ← eat text do fail (.expected text (← tokenLabel))

def expectWord (sym : String) : P Unit := do
  unless ← eatWord sym do fail (.expected sym (← tokenLabel))

/-! ## Looking ahead -/

/-- The result of a reading, from which the parser comes back. -/
def lookAhead (p : P α) (d : α) : P α := fun s =>
  match p s with
  | .ok a _ => .ok a s
  | .error _ _ => .ok d s

/-- Takes a reading if it succeeds with a result; otherwise nothing has happened. -/
def attempt (p : P (Option α)) : P (Option α) := fun s =>
  match p s with
  | .ok (some a) s' => .ok (some a) s'
  | .ok none _ => .ok none s
  | .error _ _ => .ok none s

/-- Whether the token behind this one satisfies `p`. -/
def peek (p : P Bool) : P Bool := lookAhead (do advance; p) false

/-- Steps over a question mark and a point behind it, which make a link of an optional chain. -/
def eatQuestionDot : P Bool := do
  if (← isPunct "?") && (← peek (isPunct ".")) then
    advance
    advance
    return true
  return false

/-! ## Surroundings -/

/-- Parses in other surroundings. -/
def within (f : Surroundings → Surroundings) (p : P α) : P α := fun s =>
  match p { s with around := f s.around } with
  | .ok a s' => .ok a { s' with around := s.around }
  | .error e s' => .error e { s' with around := s.around }

def withIn : P α → P α := within fun a => { a with withIn := true }

def outsideConditional : P α → P α := within fun a => { a with colonFollows := false }

/-! ## Repetition -/

/-- Repeats a step until it yields a result; `n` bounds the number of rounds. -/
def rounds (step : σ → P (σ ⊕ β)) : Nat → σ → P β
  | 0, _ => fail (.plain "TooDeep")
  | n + 1, a => do
    match ← step a with
    | .inl a' => rounds step n a'
    | .inr b => return b

/-- Repeats a step that moves on in every round but the last. -/
def repeatFrom (a : σ) (step : σ → P (σ ⊕ β)) : P β := do
  rounds step ((← get).here.rest.length + 2) a

/-- Collects nodes until a step yields none. -/
def many (step : P (Option Node)) : P (List Node) :=
  repeatFrom [] fun acc => do
    match ← step with
    | some n => return .inl (n :: acc)
    | none => return .inr acc.reverse

/-- Collects items separated by commas up to `close`, which may follow a comma and is eaten. -/
def commaSeparated (close : String) (item : P Node) : P (List Node) :=
  repeatFrom [] fun acc => do
    if ← eat close then return .inr acc.reverse
    let n ← item
    if ← eat close then return .inr (n :: acc).reverse
    expect ","
    return .inl (n :: acc)

/-! ## Ends of statements -/

/-- Whether a statement may end here without a semicolon. -/
def canEndStatement : P Bool := do
  return (← isPunct "\x7d") || (← isEof) || (← lineBreak)

def atStatementEnd : P Bool := do return (← isPunct ";") || (← canEndStatement)

/-- Ends a statement, with a semicolon where there is one. -/
def eatSemicolon : P Bool := do
  if ← eat ";" then return true
  canEndStatement

def expectSemicolon : P Unit := do
  unless ← eatSemicolon do fail (.expected ";" (← tokenLabel))

/-! ## Making nodes -/

def node (kind : Kind) (lo : Nat) (parts : List Node) : P Node :=
  return ⟨kind, ← spanFrom lo, parts⟩

/-- A node that takes up the current token. -/
def tokenNode (kind : Kind) : P Node := do
  let span ← tokenSpan
  advance
  return ⟨kind, span, []⟩

end P

end Localizer.Script
