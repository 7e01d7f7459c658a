import Localizer.Config
import Localizer.Json.Reader

/-!
# Reading configurations

Every field of a configuration may be left out, and fields of other names are
passed over. Where files go is said by a variant with fields of its own, which
are looked at once all of them are read.
-/

namespace Localizer

open Json (Reader)

/-! ## Fields of variants -/

namespace Json

/-- A field of a variant of which the rest is decoded into a state. -/
structure ValueField (σ : Type) where
  name : String
  isRequired : Bool
  decode : Json → σ → Except Cause σ

namespace ValueField

/-- Values by position; one that is left over is too much. -/
def byPosition (wanted : String) : List (ValueField σ) → Nat → List Json → σ → Except Cause σ
  | [], _, [], s => .ok s
  | [], index, v :: vs, _ =>
    .error (.wrongLength (index + (v :: vs).length)
      (Reader.counted index "element" ++ " in sequence"))
  | f :: fs, index, [], s =>
    if f.isRequired then .error (.wrongLength index wanted)
    else byPosition wanted fs (index + 1) [] s
  | f :: fs, index, v :: vs, s =>
    (f.decode v s).bind (byPosition wanted fs (index + 1) vs)

/-- Values by name; those of other names are passed over. -/
def byName (fs : List (ValueField σ)) (met : List String) :
    List (String × Json) → σ → Except Cause σ
  | [], s =>
    match fs.find? fun f => f.isRequired && !met.contains f.name with
    | some f => .error (.missingField f.name)
    | none => .ok s
  | (k, v) :: rest, s =>
    match fs.find? (·.name == k) with
    | some f =>
      if met.contains k then .error (.duplicateField k)
      else (f.decode v s).bind (byName fs (k :: met) rest)
    | none => byName fs met rest s

/-- The fields of a variant; `label` says which one. -/
def decodeAll (label : String) (fs : List (ValueField σ)) (start : σ) : Json → Except Cause σ
  | .array vs =>
    byPosition ("struct variant " ++ label ++ " with " ++ Reader.counted fs.length "element")
      fs 0 vs start
  | .object kvs => byName fs [] kvs start
  | v => .error (.wrongType v.found ("struct variant " ++ label))

end ValueField

def asString : Json → Except Cause String
  | .string s => .ok s
  | v => .error (.wrongType v.found "a string")

def asOptionalString : Json → Except Cause (Option String)
  | .null => .ok none
  | v => (asString v).map some

/-- What may stand beside the name of a variant that has no fields. -/
def asNothing : Json → Except Cause Unit
  | .null => .ok ()
  | .object [] => .ok ()
  | v => .error (.wrongType v.found "unit")

end Json

namespace Interchange.PlaceholderStyle

def ofName : String → Except Json.Cause PlaceholderStyle
  | "x" => .ok x
  | "ph" => .ok ph
  | name => .error (.unknownVariant name (Reader.choice ["x", "ph"]))

/-- A style is given by its name, or by an object with its name as the only key. -/
def ofJson : Json → Except Json.Cause PlaceholderStyle
  | .string name => ofName name
  | .object [(name, v)] => do
    let style ← ofName name
    Json.asNothing v
    return style
  | .object _ => .error (.wrongValue .map "map with a single key")
  | v => .error (.wrongType v.found "string or map")

end Interchange.PlaceholderStyle

/-! ## Variants -/

namespace InterchangeConfig

def xlbFields : List (Json.ValueField (String × String)) :=
  [⟨"outputFile", true, fun v s => return (← v.asString, s.2)⟩,
   ⟨"translationsGlob", true, fun v s => return (s.1, ← v.asString)⟩]

def xliffFields : List (Json.ValueField (String × Interchange.PlaceholderStyle)) :=
  [⟨"xliffDir", true, fun v s => return (← v.asString, s.2)⟩,
   ⟨"placeholderStyle", false, fun v s =>
     return (s.1, ← Interchange.PlaceholderStyle.ofJson v)⟩]

/-- The fields of a variant by its name. -/
def ofFields (name : String) (v : Json) : Except Json.Cause InterchangeConfig :=
  if name == "xlb" then do
    let (file, glob) ← Json.ValueField.decodeAll "InterchangeConfig::Xlb" xlbFields ("", "") v
    return .xlb file glob
  else do
    let (directory, style) ←
      Json.ValueField.decodeAll "InterchangeConfig::Xliff" xliffFields ("", .x) v
    return .xliff directory style

end InterchangeConfig

namespace OutputConfig

def runtimeFields : List (Json.ValueField (String × Option String)) :=
  [⟨"outputDir", true, fun v s => return (← v.asString, s.2)⟩,
   ⟨"localeCodesModule", false, fun v s => return (s.1, ← v.asOptionalString)⟩]

def transformFields : List (Json.ValueField String) :=
  [⟨"outputDir", true, fun v _ => v.asString⟩]

def ofFields (name : String) (v : Json) : Except Json.Cause OutputConfig :=
  if name == "runtime" then do
    let (directory, module) ←
      Json.ValueField.decodeAll "OutputConfig::Runtime" runtimeFields ("", none) v
    return .runtime directory module
  else return .transform (← Json.ValueField.decodeAll "OutputConfig::Transform" transformFields "" v)

end OutputConfig

/-! ## Configurations -/

namespace Config

/-- Goes on with a decoded value; a fault of it is placed later. -/
def decoded (r : Except Json.Cause α) : Reader α :=
  match r with
  | .ok a => return a
  | .error cause => Reader.mismatch cause

def readString : Reader String := Reader.string "a string"

def readStrings (depth : Nat) : Reader (List String) := Reader.list (fun _ => readString) depth

def readInterchange (depth : Nat) : Reader InterchangeConfig := do
  let (name, v) ← Reader.tagged "InterchangeConfig" "format" ["xlb", "xliff"] depth
  decoded (InterchangeConfig.ofFields name v)

def readOutput (depth : Nat) : Reader OutputConfig := do
  let (name, v) ← Reader.tagged "OutputConfig" "mode" ["runtime", "transform"] depth
  decoded (OutputConfig.ofFields name v)

def patchFields : List (Reader.Field Patch) :=
  [⟨"before", true, fun _ p => return { p with before := ← readString }⟩,
   ⟨"after", true, fun _ p => return { p with after := ← readString }⟩]

def readPatches (depth : Nat) : Reader Patches :=
  Reader.map (Reader.map (Reader.list (Reader.record "struct Patch" patchFields ⟨"", ""⟩))) depth

def fields : List (Reader.Field Config) :=
  [⟨"sourceLocale", false, fun _ c => return { c with sourceLocale := ← readString }⟩,
   ⟨"targetLocales", false, fun d c => return { c with targetLocales := ← readStrings d }⟩,
   ⟨"inputFiles", false, fun d c => return { c with inputFiles := ← readStrings d }⟩,
   ⟨"ignores", false, fun d c => return { c with ignores := ← readStrings d }⟩,
   ⟨"apiModules", false, fun d c => return { c with apiModules := ← readStrings d }⟩,
   ⟨"interchange", false, fun d c => return { c with interchange := ← readInterchange d }⟩,
   ⟨"output", false, fun d c => return { c with output := ← readOutput d }⟩,
   ⟨"patches", false, fun d c => return { c with patches := ← readPatches d }⟩]

/-- Reads a configuration. -/
def parse (text : String) : Except Json.Fault Config :=
  Reader.run (Reader.record "struct Config" fields default Reader.maxDepth) text

end Config

end Localizer
