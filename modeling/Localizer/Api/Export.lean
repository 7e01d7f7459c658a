import Localizer.Text.FileName

/-!
# The localization API

The exports of the API that have a meaning here, and which modules are the API.
-/

namespace Localizer.Api

inductive Export where
  /-- The function that marks a message. -/
  | msg
  | configureTransformLocalization
  | configureLocalization
  | updateWhenLocaleChanges
  /-- The class mixin. -/
  | localizedMixin
  /-- The class decorator. -/
  | localizedDecorator
  | localeStatusEvent
  deriving DecidableEq, Repr

namespace Export

/-- The export of a name. -/
def ofName? : String → Option Export
  | "msg" => some msg
  | "configureTransformLocalization" => some configureTransformLocalization
  | "configureLocalization" => some configureLocalization
  | "updateWhenLocaleChanges" => some updateWhenLocaleChanges
  | "Localized" => some localizedMixin
  | "localized" => some localizedDecorator
  | "LOCALE_STATUS_EVENT" => some localeStatusEvent
  | _ => none

end Export

/-- The event that is dispatched when the locale changes. -/
def localeStatusEventName : String := "lit-localize-status"

/-- Whether a module specifier names the localization API. -/
def isApiModule (specifier : String) (apiModules : List String) : Bool :=
  apiModules.contains specifier ||
    Text.stem (Text.lastSegment specifier.toList) == "lit-localize".toList

end Localizer.Api
