/-!
# Wildcard patterns

A question mark stands for one character, a star for any number of them, and
brackets for one of some characters. Two stars stand for any number of
directories and must be all there is between two slashes.
-/

namespace Localizer.Glob

/-- A character, or a range of them, between brackets. -/
inductive Choice where
  | one (c : Char)
  | range (first last : Char)
  deriving DecidableEq, Repr

namespace Choice

def holds (c : Char) : Choice → Bool
  | one d => c == d
  | range first last => first ≤ c && c ≤ last

/-- What stands between brackets. -/
def ofChars : List Char → List Choice
  | a :: '-' :: b :: rest => range a b :: ofChars rest
  | a :: rest => one a :: ofChars rest
  | [] => []

end Choice

inductive Token where
  | char (c : Char)
  | anyChar
  | anySequence
  | anyDirectories
  | within (choices : List Choice)
  | except (choices : List Choice)
  deriving DecidableEq, Repr

/-- What is wrong with a pattern. -/
inductive FaultKind where
  | tooManyStars
  | directoriesInName
  | invalidRange
  deriving DecidableEq, Repr

namespace FaultKind

def text : FaultKind → String
  | tooManyStars => "wildcards are either regular \x60*\x60 or recursive \x60**\x60"
  | directoriesInName => "recursive wildcards must form a single path component"
  | invalidRange => "invalid range pattern"

end FaultKind

structure Fault where
  /-- How many characters are in front of the fault. -/
  position : Nat
  kind : FaultKind
  deriving DecidableEq, Repr

namespace Fault

def text (f : Fault) : String :=
  "Pattern syntax error near position " ++ toString f.position ++ ": " ++ f.kind.text

end Fault

structure Pattern where
  tokens : List Token
  deriving DecidableEq, Repr

namespace Pattern

/-! ## Reading -/

/-- The choices of a bracket and the text behind it; the first choice may be a closing bracket. -/
def brackets? : List Char → Option (Token × List Char)
  | '!' :: c :: rest =>
    match rest.dropWhile (· != ']') with
    | _ :: behind => some (.except (Choice.ofChars (c :: rest.takeWhile (· != ']'))), behind)
    | [] => none
  | '!' :: [] => none
  | c :: rest =>
    match rest.dropWhile (· != ']') with
    | _ :: behind => some (.within (Choice.ofChars (c :: rest.takeWhile (· != ']'))), behind)
    | [] => none
  | [] => none

/-- Two stars after two stars say no more; at the very start they are kept. -/
def pushDirectories : List Token → List Token
  | .anyDirectories :: t :: before => .anyDirectories :: t :: before
  | before => .anyDirectories :: before

/--
Reads a pattern; `position` counts the characters so far, of which `last` is the
last one, and the tokens so far are in reverse.
-/
def readFrom (position : Nat) (last : Option Char) (before : List Token) (text : List Char) :
    Except Fault (List Token) :=
  match text with
  | [] => .ok before.reverse
  | '?' :: rest => readFrom (position + 1) (some '?') (.anyChar :: before) rest
  | '*' :: '*' :: '*' :: _ => .error ⟨position + 2, .tooManyStars⟩
  | '*' :: '*' :: rest =>
    if last == none || last == some '/' then
      match rest with
      | [] => .ok (pushDirectories before).reverse
      | '/' :: rest => readFrom (position + 3) (some '/') (pushDirectories before) rest
      | _ => .error ⟨position + 2, .directoriesInName⟩
    else .error ⟨position - 1, .directoriesInName⟩
  | '*' :: rest => readFrom (position + 1) (some '*') (.anySequence :: before) rest
  | '[' :: rest =>
    match brackets? rest with
    | some (token, behind) =>
      if behind.length < rest.length then
        readFrom (position + 1 + (rest.length - behind.length)) (some ']') (token :: before) behind
      else .error ⟨position, .invalidRange⟩
    | none => .error ⟨position, .invalidRange⟩
  | c :: rest => readFrom (position + 1) (some c) (.char c :: before) rest
termination_by text.length

def parse (text : String) : Except Fault Pattern := do
  return ⟨← readFrom 0 none [] text.toList⟩

/-! ## Matching -/

/-- How a text fits what is left of a pattern. -/
inductive Fit where
  | fits
  | differs
  /-- The text ended too early; no shorter rest of it can fit. -/
  | tooShort
  deriving DecidableEq, Repr

/-- Whether a token that stands for one character stands for this one. -/
def accepts (c : Char) : Token → Bool
  | .char d => c == d
  | .anyChar => true
  | .within choices => choices.any (·.holds c)
  | .except choices => !choices.any (·.holds c)
  | .anySequence => false
  | .anyDirectories => false

/--
Tries the rest of a pattern here and behind every further character, or only
behind every slash; in the end it is tried on nothing.
-/
def tryBehind (onlySlashes : Bool) (next : List Char → Fit) (isHere : Bool) :
    List Char → Fit
  | [] => next []
  | c :: cs =>
    match (if isHere then next (c :: cs) else .differs) with
    | .differs => tryBehind onlySlashes next (!onlySlashes || c == '/') cs
    | fit => fit

def fit : List Token → List Char → Fit
  | [], text => if text.isEmpty then .fits else .differs
  | .anySequence :: ts, text => tryBehind false (fit ts) true text
  | .anyDirectories :: ts, text => tryBehind true (fit ts) true text
  | _ :: _, [] => .tooShort
  | t :: ts, c :: cs => if accepts c t then fit ts cs else .differs

/-- Whether a pattern stands for a whole text. -/
def holds (p : Pattern) (text : String) : Bool := fit p.tokens text.toList == .fits

def isRecursive (p : Pattern) : Bool := p.tokens.contains .anyDirectories

/-- The character that a token alone stands for. -/
def charOf? : Token → Option Char
  | .char c => some c
  | _ => none

/-- The text that a pattern alone stands for, if it has no wildcards. -/
def literal? (p : Pattern) : Option String := (p.tokens.mapM charOf?).map String.ofList

end Pattern

/-- Whether a text is meant as a pattern; brackets alone do not make it one. -/
def isPattern (text : String) : Bool := text.toList.any fun c => c == '*' || c == '?'

end Localizer.Glob
