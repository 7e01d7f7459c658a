import Localizer.Issue

/-!
# Coverage and placeholders

Compares translations with the canonical messages: which names are missing or
unknown, and whether each translation carries the canonical placeholders.
-/

namespace Localizer

/-- Translations of all locales, keyed by locale. -/
abbrev Translations := List (String × List Message)

namespace Translations

/-- The translations of a locale. -/
def of (t : Translations) (locale : String) : List Message := (t.lookup locale).getD []

/-- Adds messages behind those of the same locale. -/
def add (t : Translations) (locale : String) (messages : List Message) : Translations :=
  match t with
  | [] => [(locale, messages)]
  | (l, ms) :: rest =>
    if l == locale then (l, ms ++ messages) :: rest else (l, ms) :: add rest locale messages

/-- Groups bundles by locale; those of one locale are joined in order. -/
def ofBundles (bundles : List Bundle) : Translations :=
  bundles.foldl (fun t b => t.add b.locale b.messages) []

end Translations

/-- Names in increasing order, each once. -/
def sortNames (names : List String) : List String :=
  (names.mergeSort (fun a b => compare a b != .gt)).eraseReps

/-- Names with a translation but no canonical message, in increasing order. -/
def orphanNames (translations : List Message) (canonical : List ProgramMessage) : List String :=
  sortNames ((translations.map (·.name)).filter fun n => !canonical.any (·.name == n))

/--
The warnings for one locale: orphan translations by name, then the canonical
messages without translation in their own order.
-/
def coverageIssues (locale : String) (translations : List Message)
    (canonical : List ProgramMessage) : List Issue :=
  (orphanNames translations canonical).map (Issue.orphanTranslation locale) ++
    (canonical.filter fun m => !translations.any (·.name == m.name)).map fun m =>
      Issue.missingTranslation m.location locale m.name

/-- The placeholders that are left over when each of `used` takes one equal placeholder away. -/
def placeholdersBeyond (available : List String) : List String → List String
  | [] => []
  | p :: used =>
    if available.contains p then placeholdersBeyond (available.erase p) used
    else p :: placeholdersBeyond available used

/-- What is left of the available placeholders when each of `used` takes an equal one away. -/
def placeholdersLeft (available used : List String) : List String := used.foldl List.erase available

/-- Takes the placeholders of the source from the available ones, and lists those that are there. -/
def placeholdersTaken (available : List String) : List String → List String
  | [] => []
  | p :: source =>
    if available.contains p then p :: placeholdersTaken (available.erase p) source
    else placeholdersTaken available source

/-- The canonical placeholders that the translated ones do not take away, in source order. -/
def placeholdersLacking (canonical translated : List String) : List String :=
  placeholdersTaken (placeholdersLeft canonical translated) canonical

/--
Reports the placeholders of a translation beyond the canonical ones as
unexpected, then the canonical ones that it lacks as missing, in source order.
-/
def comparePlaceholders (locale : String) (source : ProgramMessage) (translation : Message) :
    List Issue :=
  let canonical := source.placeholders
  let translated := translation.placeholders
  let issue kind p := Issue.placeholderMismatch source.location locale source.name p kind
  (placeholdersBeyond canonical translated).map (issue .unexpected) ++
    (placeholdersLacking canonical translated).map (issue .missing)

/-- Checks the placeholders of every translation of a canonical message, by locale. -/
def validatePlaceholders (canonical : List ProgramMessage) (translations : Translations) :
    List Issue :=
  (sortNames (translations.map (·.1))).flatMap fun locale =>
    (translations.of locale).flatMap fun translation =>
      match ProgramMessage.last? canonical translation.name with
      | some source => comparePlaceholders locale source translation
      | none => []

end Localizer
