import XsPrep.Text.Basic

/-!
# Directives

A directive is a `#` with a keyword.  There are five keywords.
-/

namespace XsPrep

/-- The directives of the preprocessor. -/
inductive Directive where
  /-- Reads another file in place of the line. -/
  | includeFile
  /-- Binds a macro. -/
  | define
  /-- Removes the binding of a macro. -/
  | undefine
  /-- Opens a block that is read only if a macro is bound. -/
  | ifDefined
  /-- Closes the innermost block. -/
  | endIf
deriving DecidableEq, Repr

namespace Directive

/-- The directives in the order of their numbers. -/
def all : List Directive := [.includeFile, .define, .undefine, .ifDefined, .endIf]

/-- The number of a directive. -/
def number : Directive → Nat
  | .includeFile => 0
  | .define => 1
  | .undefine => 2
  | .ifDefined => 3
  | .endIf => 4

/-- The keyword of a directive. -/
def keyword : Directive → Text
  | .includeFile => bytes "include"
  | .define => bytes "define"
  | .undefine => bytes "undef"
  | .ifDefined => bytes "ifdef"
  | .endIf => bytes "endif"

/-- The directive with a keyword. -/
def ofKeyword? (keyword : Text) : Option Directive :=
  all.find? fun d => d.keyword == keyword

/-- The directive as messages show it. -/
def text (d : Directive) : Text := bytes "#" ++ d.keyword

/-- What messages show for a directive number. -/
def textOfNumber (n : Int) : Text :=
  match all.find? fun d => n == d.number with
  | some d => d.text
  | none => bytes "unknown directive"

end Directive

end XsPrep
