import XsPrep.Ordered.Table

/-!
# Macros

Macros bind names to replacement texts.  The texts are never looked into and
may be empty.
-/

namespace XsPrep

/-- The macros that are bound, with their values. -/
abbrev Macros := Table Text

namespace Macros

/-- The macros with `name` bound to `value`. -/
def define (macros : Macros) (name value : Text) : Macros := macros.insert name value

/-- The macros without `name`, if it is bound. -/
def undefine? (macros : Macros) (name : Text) : Option Macros :=
  if macros.contains name then some (macros.erase name) else none

end Macros

end XsPrep
