import Localizer.Interchange.Files

/-!
# Sessions

A run sees the files as they are, changes them, and says something on two
channels. What was done before a failure stays done. A run need not come to an
end.
-/

namespace Localizer

structure Session where
  files : FileTree
  /-- What was printed. -/
  output : String
  /-- What was said about the run itself. -/
  log : String

/-- A run over a session, which may fail; no outcome when it goes on for ever. -/
abbrev Run := ExceptT Failure (StateT Session Option)

namespace Run

def files : Run FileTree := return (← get).files

def print (text : String) : Run Unit := modify fun s => { s with output := s.output ++ text }

def log (text : String) : Run Unit := modify fun s => { s with log := s.log ++ text }

/-- Says something if details are wanted. -/
def detail (isVerbose : Bool) (label text : String) : Run Unit :=
  if isVerbose then log (label ++ ": " ++ text ++ "\n") else return

/-- Goes on with a result. -/
def ofExcept (r : Except Failure α) : Run α :=
  match r with
  | .ok a => return a
  | .error f => throw f

/-- Goes on with what was come to; goes on for ever where nothing is. -/
def ofOption (o : Option α) : Run α := monadLift o

/-- Makes a directory with all directories on the way to it. -/
def makeDirectories (what : String) (p : Path) : Run Unit := do
  let (files, fault) := (← files).makeDirectories p
  modify fun s => { s with files }
  match fault with
  | none => return
  | some fault => throw ⟨[what ++ p.text, fault.text]⟩

/-- Writes a file. -/
def writeFile (what : String) (p : Path) (text : String) : Run Unit := do
  match (← files).writeFile p text.toUTF8 with
  | .ok files => modify fun s => { s with files }
  | .error fault => throw ⟨[what ++ p.text, fault.text]⟩

/-- Writes a file in a directory that is made where it is missing. -/
def save (whatDirectory whatFile : String) (o : Interchange.Output) : Run Unit := do
  match o.path.parent? with
  | some parent => makeDirectories whatDirectory parent
  | none => pure ()
  writeFile whatFile o.path o.text

end Run

end Localizer
