import Localizer.Coverage
import Localizer.Patch
import Localizer.Template.Escape
import Localizer.Template.Quoted

/-!
# Locale modules

In runtime mode each locale gets one module: a table from message names to
template expressions. Translations come first, in name order; canonical messages
without translation follow with their own text. There is no module where the
patches of one of them never come to an end.
-/

namespace Localizer

open Template

/-- The head of every generated module. -/
def generatedHeader : String :=
  "// Do not modify this file by hand!\n// Re-generate this file by running litloc\n"

/-- The template expression that is written for a message around its source. -/
def ProgramMessage.expression (m : ProgramMessage) (source : String) : String :=
  let template := (if m.isTemplate then "html" else "") ++ "\x60" ++ source ++ "\x60"
  match m.params with
  | some params => "(" ++ ", ".intercalate params ++ ") => " ++ template
  | none => template

/--
A template expression for a message: its contents stitched, patched and wrapped;
none when the patches never come to an end.
-/
def messageExpression (contents : List Content) (canonical : ProgramMessage) (locale : String)
    (patches : Patches) : Option String :=
  (patches.apply locale canonical.name (stitch contents)).map canonical.expression

structure LocaleModule where
  locale : String
  /-- The table: a name with its expression, in output order. -/
  entries : List (String × String)
  /-- Whether some message needs the `html` tag. -/
  importsHtml : Bool
  issues : List Issue

namespace LocaleModule

/-- Goes through translations in name order; `seen` holds the canonical names so far. -/
def translatedFrom (canonical : List ProgramMessage) (seen : List String) :
    List Message → List (Message × ProgramMessage)
  | [] => []
  | m :: ms =>
    match ProgramMessage.last? canonical m.name with
    | none => translatedFrom canonical seen ms
    | some c =>
      if seen.contains m.name then translatedFrom canonical seen ms
      else (m, c) :: translatedFrom canonical (m.name :: seen) ms

/-- Translations in name order; those of one name keep their order. -/
def sortTranslations (translations : List Message) : List Message :=
  translations.mergeSort fun a b => compare a.name b.name != .gt

/-- The translations of canonical messages that go into the table, with these messages. -/
def translated (translations : List Message) (canonical : List ProgramMessage) :
    List (Message × ProgramMessage) :=
  translatedFrom canonical [] (sortTranslations translations)

/--
What the table is made of, in output order: translations with the messages they
are of, and then each canonical message that is left, with itself.
-/
def chosen (translations : List Message) (canonical : List ProgramMessage) :
    List (Message × ProgramMessage) :=
  let done := translated translations canonical
  done ++ (canonical.filter fun c => !done.any (·.1.name == c.name)).map fun c =>
    (c.toMessage, c)

/-- The table of a locale; none when the patches of an entry never come to an end. -/
def tableEntries (locale : String) (translations : List Message) (canonical : List ProgramMessage)
    (patches : Patches) : Option (List (String × String)) :=
  (chosen translations canonical).mapM fun (m, c) =>
    (messageExpression m.contents c locale patches).map (m.name, ·)

/-- Builds the table of a locale; none when the patches of an entry never come to an end. -/
def generate (locale : String) (translations : List Message) (canonical : List ProgramMessage)
    (patches : Patches) : Option LocaleModule :=
  (tableEntries locale translations canonical patches).map fun entries =>
    { locale, entries
      importsHtml := canonical.any (·.isTemplate)
      issues := coverageIssues locale translations canonical }

/-- The source text of the module. -/
def source (m : LocaleModule) : String :=
  generatedHeader ++ "\n" ++
    (if m.importsHtml then "import \x7bhtml\x7d from 'lit';\n\n" else "") ++
    "/* eslint-disable no-irregular-whitespace */\n" ++
    "/* eslint-disable @typescript-eslint/no-explicit-any */\n\n" ++
    "export const templates = \x7b\n" ++
    String.join (m.entries.map fun (name, expr) => "  " ++ quote name ++ ": " ++ expr ++ ",\n") ++
    "\x7d;\n"

end LocaleModule

/-- One quoted locale code per line. -/
def localeList (codes : List String) : String :=
  String.join (codes.map fun code => "  " ++ quote code ++ ",\n")

/-- The module that exports the locale codes of a project. -/
def localeCodesSource (sourceLocale : String) (targetLocales : List String) : String :=
  generatedHeader ++
    "\n/**\n * The locale code that templates in this source code are written in.\n */\n" ++
    "export const sourceLocale = " ++ quote sourceLocale ++ ";\n" ++
    "\n/**\n * The other locale codes that this application is localized into. Sorted\n" ++
    " * lexicographically.\n */\n" ++
    "export const targetLocales = [\n" ++ localeList (sortNames targetLocales) ++
    "] as const;\n" ++
    "\n/**\n * All valid project locale codes. Sorted lexicographically.\n */\n" ++
    "export const allLocales = [\n" ++ localeList (sortNames (sourceLocale :: targetLocales)) ++
    "] as const;\n"

end Localizer
