import Localizer.Run

/-!
# The program

Takes the files around the current directory into a session, runs a command over
it, and writes back what has changed.
-/

namespace Localizer.Main

/-- The entry of a name in a directory. -/
def entryAt (dir name : String) : IO.FS.DirEntry := { root := dir, fileName := name }

def existsAt (dir name : String) : IO Bool := (entryAt dir name).path.pathExists

/-- The files at or below an entry; repositories are not looked into. -/
partial def entriesAt (location : Location) (e : IO.FS.DirEntry) : IO (List (Location × Entry)) := do
  let here := location ++ [e.fileName]
  try
    if ← e.path.isDir then
      if e.fileName == ".git" then return [(here, .directory)]
      else
        let mut all := [(here, .directory)]
        for child in ← e.path.readDir do
          all := all ++ (← entriesAt here child)
        return all
    else return [(here, .file (← IO.FS.readBinFile e.path))]
  catch _ => return []

/-- The location of a path from the root. -/
def locationOf (p : Path) : Location := p.segments.filter (!·.isEmpty)

def pathOf (l : Location) : String := "/" ++ "/".intercalate l

/-- The outermost directory that matters to a run in a directory. -/
def outermost : List Path → IO (Option Path)
  | [] => return none
  | dir :: outer => do
    if ← existsAt dir.text Config.fileName then return some dir
    else if ← existsAt dir.text ".git" then return some dir
    else outermost outer

/-- The entries of a directory and of the directories on the way to it. -/
def entriesOf (dir : Location) : IO (List (Location × Entry)) := do
  match dir.getLast? with
  | none => return []
  | some name =>
    let outer := dir.dropLast
    let way := (List.range outer.length).map fun n => (outer.take (n + 1), Entry.directory)
    return way ++ (← entriesAt outer (entryAt (pathOf outer) name))

/-- Adds entries that are not there yet. -/
def addMissing (t : FileTree) (entries : List (Location × Entry)) : FileTree :=
  entries.foldl (fun t (l, e) => if (t.entry? l).isSome then t else t.set l e) t

/-- The files that a run in a directory can see. -/
def visibleFiles (start : Path) (config : Option String) : IO FileTree := do
  let root := (← outermost start.ancestors).getD start
  let t := addMissing .empty (← entriesOf (locationOf root))
  match config with
  | none => return t
  | some named => return addMissing t (← entriesOf (locationOf (Config.directoryOf (start.join named))))

/-- Writes the entries that have changed. -/
def writeBack (before after : FileTree) : IO Unit :=
  for (l, e) in after.entries do
    if before.entry? l != some e then
      match e with
      | .directory => IO.FS.createDirAll (pathOf l)
      | .file content => IO.FS.writeBinFile (pathOf l) content

/-- The options of a command with the configuration file of the environment. -/
def withDefault (config : Option String) : Command → Command
  | .extract o => .extract { o with config := o.config <|> config }
  | .build o => .build { o with config := o.config <|> config }
  | .init => .init

def configOf : Option Command → Option String
  | some (.extract o) => o.config
  | some (.build o) => o.config
  | _ => none

/-- Runs a command in the current directory. -/
def runCommand (command : Option Command) : IO UInt32 := do
  let start : Path := ⟨(← IO.currentDir).toString⟩
  let files ← visibleFiles start (configOf command)
  match (Run.command start command).run ⟨files, "", ""⟩ with
  | none => return ExitStatus.error.code.toUInt32
  | some (result, session) =>
    writeBack files session.files
    IO.eprint session.log
    IO.print session.output
    match result with
    | .ok status => return status.code.toUInt32
    | .error failure =>
      IO.eprintln ("Error: " ++ failure.text)
      return ExitStatus.error.code.toUInt32

/-- Answers words that are no command. -/
def explain (e : UsageError) : IO UInt32 := do
  match e.text? with
  | some text =>
    IO.eprint ("error: " ++ text ++ "\n\n" ++ Command.usage)
    return ExitStatus.error.code.toUInt32
  | none =>
    IO.print (if e == .versionRequested then Command.version else Command.usage)
    return ExitStatus.success.code.toUInt32

end Localizer.Main

def main (words : List String) : IO UInt32 := do
  match Localizer.Command.ofWords words with
  | .error e => Localizer.Main.explain e
  | .ok command =>
    let config ← IO.getEnv "LITLOC_CONFIG"
    Localizer.Main.runCommand (command.map (Localizer.Main.withDefault config))
