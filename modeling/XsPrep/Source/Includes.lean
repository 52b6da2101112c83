import XsPrep.Source.Construct

/-!
# The includes a source mentions

The includes of a source can be listed without preprocessing it.  Literals and
comments are skipped as the preprocessor skips them, but no block is evaluated
and no file is read, so the includes of every block are listed.

A flaw outside all blocks ends the listing.  Inside a block the preprocessor
may never read the text with the flaw, so only the rest of its line is given
up.  Either way every round of the listing goes forward (`look_shorter`).
-/

namespace XsPrep

/-- An include as a source mentions it. -/
structure Mention where
  /-- The name of the included file, with escapes resolved. -/
  name : Text
  /-- Where the quoted name stands. -/
  position : Position
deriving DecidableEq, Repr

/-- The includes a source mentions, and the flaw that ended the listing early. -/
structure Listing where
  /-- The includes, in the order of the source. -/
  includes : List Mention
  /-- The flaw, if there was one outside all blocks. -/
  error : Option SourceError
deriving DecidableEq, Repr

namespace Listing

/-- What a round of the listing comes upon. -/
inductive Sight where
  /-- The opening of a block. -/
  | opening
  /-- The closing of a block. -/
  | closing
  /-- An include. -/
  | mention (m : Mention)
  /-- Anything else. -/
  | nothing
deriving DecidableEq, Repr

/-- The directive at a reader that sees `#`.  A directive takes its whole
line. -/
def lookDirective (r : Reader) : Except SourceError Sight × Reader :=
  let (keyword, behind) := r.readKeyword
  match Directive.ofKeyword? keyword with
  | some .ifDefined => (.ok .opening, behind.skipLine)
  | some .endIf => (.ok .closing, behind.skipLine)
  | some .includeFile =>
    let r := behind.skipBlanks
    match r.readLiteral with
    | (.error e, behind) => (.error e, behind)
    | (.ok literal, behind) =>
      if literal.value.isEmpty then (.ok .nothing, behind.skipLine)
      else (.ok (.mention ⟨literal.value, r.position⟩), behind.skipLine)
  | _ => (.ok .nothing, behind.skipLine)

/-- One round at a reader that is not at the end. -/
def look (r : Reader) : Except SourceError Sight × Reader :=
  if r.sees Code.quote then
    match r.readLiteral with
    | (.error e, behind) => (.error e, behind)
    | (.ok _, behind) => (.ok .nothing, behind)
  else if r.seesPair Code.slash Code.slash then (.ok .nothing, r.skipLine)
  else if r.seesPair Code.slash Code.star then
    match r.skipComment with
    | (.error e, behind) => (.error e, behind)
    | (.ok (), behind) => (.ok .nothing, behind)
  else if r.sees Code.hash then lookDirective r
  else (.ok .nothing, r.skip 1)

theorem lookDirective_shorter {r : Reader} (hr : r.rest ≠ []) :
    (lookDirective r).2.rest.length < r.rest.length := by
  have hk := Reader.length_readKeyword_lt hr
  have hl := Reader.length_skipLine_le r.readKeyword.2
  unfold lookDirective
  dsimp only
  split
  · simp only; omega
  · simp only; omega
  · have hb := Reader.length_skipBlanks_le r.readKeyword.2
    have hq := Reader.length_readLiteral_le r.readKeyword.2.skipBlanks
    split
    · rename_i e behind heq
      rw [heq] at hq
      simp only at hq ⊢
      omega
    · rename_i literal behind heq
      rw [heq] at hq
      have hs := Reader.length_skipLine_le behind
      split <;> (simp only at hq ⊢; omega)
  · simp only; omega

/-- A round of the listing leaves less to read. -/
theorem look_shorter {r : Reader} (hr : r.rest ≠ []) :
    (look r).2.rest.length < r.rest.length := by
  have hpos := List.length_pos_iff.mpr hr
  unfold look
  split
  · rename_i hq
    have hlt := Reader.length_readLiteral_lt hq
    split <;> (rename_i heq; rw [heq] at hlt; exact hlt)
  split
  · exact Reader.length_skipLine_lt hr
  split
  · rename_i hp
    have hlt := Reader.length_skipComment_lt hp
    split <;> (rename_i heq; rw [heq] at hlt; exact hlt)
  split
  · exact lookDirective_shorter hr
  · simp only [Reader.length_skip]; omega

/-- The number of open blocks after a round inside `depth` blocks.  A closing
outside all blocks changes nothing. -/
def Sight.depth (depth : Nat) : Sight → Nat
  | .opening => depth + 1
  | .closing => depth - 1
  | _ => depth

/-- The includes found after a round, newest first. -/
def Sight.collect (found : List Mention) : Sight → List Mention
  | .mention m => m :: found
  | _ => found

set_option linter.unusedVariables false in
/-- The listing from a reader on, inside `depth` blocks.  `found` holds the
includes so far, newest first. -/
def continueFrom (depth : Nat) (found : List Mention) (r : Reader) : Listing :=
  if hr : r.rest = [] then ⟨found.reverse, none⟩
  else
    match h : look r with
    | (.error e, _) =>
      if depth = 0 then ⟨found.reverse, some e⟩ else continueFrom depth found r.skipLine
    | (.ok sight, behind) => continueFrom (sight.depth depth) (sight.collect found) behind
termination_by r.rest.length
decreasing_by
  · exact Reader.length_skipLine_lt hr
  · have hlt := look_shorter hr
    rw [h] at hlt
    exact hlt

/-- The includes a source text mentions. -/
def ofText (t : Text) : Listing := continueFrom 0 [] (Reader.ofText t)

end Listing

end XsPrep
