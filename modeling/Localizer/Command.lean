/-!
# Commands

The words of a command line: a command, then its flags. Every flag is given at
most once, and the value of a flag is settled when the next known flag or the
end of the words is reached.
-/

namespace Localizer

/-- What the commands that work on a project have in common. -/
structure Options where
  /-- The configuration file; the nearest one if none is named. -/
  config : Option String
  verbose : Bool
  deriving DecidableEq, Repr

inductive Command where
  /-- Write the messages of a program for translators. -/
  | extract (options : Options)
  /-- Write a program in its target locales. -/
  | build (options : Options)
  /-- Write a configuration file. -/
  | init
  deriving DecidableEq, Repr

/-- Why words are not a command. -/
inductive UsageError where
  | helpRequested
  | versionRequested
  | unknownArgument
  | unknownCommand
  | repeatedFlag
  /-- A flag without the value that it needs. -/
  | missingValue
  /-- A value for a flag that takes none. -/
  | unneededValue
  deriving DecidableEq, Repr

namespace Command

/-! ## Words -/

/-- A word by its form. -/
inductive Word where
  /-- Two dashes; no flag follows. -/
  | separator
  | long (name : List Char) (value : Option (List Char))
  /-- Flags of one letter each. -/
  | short (letters : List Char)
  | plain (text : List Char)
  deriving DecidableEq, Repr

namespace Word

def ofChars : List Char → Word
  | ['-', '-'] => .separator
  | '-' :: '-' :: rest =>
    match rest.dropWhile (· != '=') with
    | _ :: value => .long (rest.takeWhile (· != '=')) (some value)
    | [] => .long rest none
  | '-' :: c :: rest => .short (c :: rest)
  | text => .plain text

def ofString (s : String) : Word := ofChars s.toList

end Word

inductive Flag where
  | config
  | verbose
  | help
  | version
  deriving DecidableEq, Repr

namespace Flag

def name : Flag → String
  | config => "config"
  | verbose => "verbose"
  | help => "help"
  | version => "version"

def letter? : Flag → Option Char
  | config => none
  | verbose => some 'v'
  | help => some 'h'
  | version => some 'V'

def ofName? (flags : List Flag) (name : List Char) : Option Flag :=
  flags.find? (·.name.toList == name)

def ofLetter? (flags : List Flag) (letter : Char) : Option Flag :=
  flags.find? (·.letter? == some letter)

end Flag

/-! ## Flags of a command -/

/-- What the words so far say. -/
structure Reader where
  options : Options
  /-- A flag `config` that is not settled yet, with its value once it was met. -/
  pending : Option (Option (List Char))
  deriving DecidableEq, Repr

namespace Reader

def start : Reader := ⟨⟨none, false⟩, none⟩

/-- Settles a value of the flag `config`. -/
def setConfig (r : Reader) (value : List Char) : Except UsageError Reader :=
  if r.options.config.isSome then .error .repeatedFlag
  else if value.isEmpty then .error .missingValue
  else .ok { r with options := { r.options with config := some (String.ofList value) } }

/-- Settles what is pending. -/
def settle (r : Reader) : Except UsageError Reader :=
  match r.pending with
  | none => .ok r
  | some none => .error .missingValue
  | some (some value) => { r with pending := none }.setConfig value

/-- A flag without a value of its own. -/
def flag (r : Reader) (f : Flag) : Except UsageError Reader := do
  let r ← r.settle
  match f with
  | .config => return { r with pending := some none }
  | .verbose =>
    if r.options.verbose then throw .repeatedFlag
    else return { r with options := { r.options with verbose := true } }
  | .help => throw .helpRequested
  | .version => throw .versionRequested

/-- A flag with the value that is attached to it. -/
def flagWith (r : Reader) (f : Flag) (value : List Char) : Except UsageError Reader :=
  match f with
  | .config => do (← r.settle).setConfig value
  | _ => .error .unneededValue

/-- Flags of one letter each. -/
def letters (flags : List Flag) (r : Reader) : List Char → Except UsageError Reader
  | [] => .ok r
  | c :: cs =>
    match Flag.ofLetter? flags c with
    | some f => do letters flags (← r.flag f) cs
    | none => .error .unknownArgument

/-- A word that is no flag can only be a value. -/
def plain (r : Reader) (text : List Char) : Except UsageError Reader :=
  match r.pending with
  | some none => .ok { r with pending := some (some text) }
  | _ => .error .unknownArgument

/-- Reads the words behind a command. -/
def words (flags : List Flag) (r : Reader) : List String → Except UsageError Options
  | [] => return (← r.settle).options
  | w :: ws => do
    match Word.ofString w with
    | .separator =>
      if ws.isEmpty then return (← r.settle).options else throw .unknownArgument
    | .long name value =>
      match Flag.ofName? flags name, value with
      | some f, some v => words flags (← r.flagWith f v) ws
      | some f, none => words flags (← r.flag f) ws
      | none, _ => throw .unknownArgument
    | .short cs => words flags (← letters flags r cs) ws
    | .plain text => words flags (← r.plain text) ws

end Reader

/-! ## Commands -/

def names : List String := ["extract", "build", "init", "help"]

/-- The flags of the commands that work on a project. -/
def projectFlags : List Flag := [.config, .verbose, .help]

/-- Asks for help on a command; only the command `help` itself and those of `names` have some. -/
def helpOn : List String → UsageError
  | [] => .helpRequested
  | [name] => if names.contains name then .helpRequested else .unknownCommand
  | _ => .unknownCommand

/-- Reads a command and its flags. -/
def ofName (name : String) (words : List String) : Except UsageError Command :=
  match name with
  | "extract" => return .extract (← Reader.start.words projectFlags words)
  | "build" => return .build (← Reader.start.words projectFlags words)
  | "init" => do
    let _ ← Reader.start.words [.help] words
    return .init
  | "help" => .error (helpOn words)
  | _ => .error .unknownCommand

/-- Reads a command line; none if it is empty. -/
def ofWords : List String → Except UsageError (Option Command)
  | [] => .ok none
  | w :: ws =>
    match Word.ofString w with
    | .plain _ => return some (← ofName w ws)
    | .separator =>
      match ws with
      | [] => .ok none
      | next :: _ => .error (if names.contains next then .unknownArgument else .unknownCommand)
    | .long name value =>
      match Flag.ofName? [.help, .version] name, value with
      | some _, some _ => .error .unneededValue
      | some .help, none => .error .helpRequested
      | some _, none => .error .versionRequested
      | none, _ => .error .unknownArgument
    | .short cs =>
      match cs.head?.bind (Flag.ofLetter? [.help, .version]) with
      | some .help => .error .helpRequested
      | some _ => .error .versionRequested
      | none => .error .unknownArgument

/-- How to use the program. -/
def usage : String :=
  "A fast build-time localization compiler for Lit templates\n\n" ++
    "Usage: litloc [COMMAND]\n\n" ++
    "Commands:\n" ++
    "  extract  Extract messages from source files into interchange files\n" ++
    "  build    Build localized output from source files and translations\n" ++
    "  init     Initialize a new lit-localize.json configuration file\n" ++
    "  help     Print this message or the help of the given subcommand(s)\n\n" ++
    "Options:\n" ++
    "  -h, --help     Print help\n" ++
    "  -V, --version  Print version\n"

def version : String := "litloc 0.4.0\n"

end Command

namespace UsageError

/-- What is wrong with a command line; nothing if it asks for information. -/
def text? : UsageError → Option String
  | helpRequested => none
  | versionRequested => none
  | unknownArgument => some "unexpected argument"
  | unknownCommand => some "unrecognized subcommand"
  | repeatedFlag => some "an option is used more than once"
  | missingValue => some "a value is required for '--config <CONFIG>'"
  | unneededValue => some "an option does not take a value"

end UsageError

end Localizer
