/-!
# Failures

A run that cannot go on fails. A failure is told from the outside in: what was
being done, then why it could not be done.
-/

namespace Localizer

structure Failure where
  causes : List String
  deriving DecidableEq, Repr

namespace Failure

/-- A failure without further cause. -/
def ofText (text : String) : Failure := ⟨[text]⟩

def text (f : Failure) : String := ": ".intercalate f.causes

end Failure

/-- Says what was being done when something failed. -/
def whileDoing (what : String) (r : Except Failure α) : Except Failure α :=
  match r with
  | .ok a => .ok a
  | .error f => .error ⟨what :: f.causes⟩

end Localizer
