import XsPrep.Proofs.Document.Layout
import XsPrep.Proofs.Files.Addresses
import XsPrep.Proofs.Files.Writing
import XsPrep.Proofs.Ordered.Tables
import XsPrep.Proofs.Ordered.Traversals
import XsPrep.IncludeIndex.Stored
import Mathlib.Data.List.TakeDrop

/-!
# Stored include indexes are read back

The two layouts of an index differ only in white space, so both spell the same tokens
(`spells_compact`, `spells_indented`) and are read as the same value.  The value has the
include paths in their order with the texts of their labels, and reading the labels gives
the index again.  A label that can be read back has single bytes only
(`Label.ascii_of_parse`), so it needs no condition on its text.
-/

namespace XsPrep

/-! ## Labels are made of single bytes -/

namespace Label

theorem ascii_of_isNameByte {b : UInt8} (h : isNameByte b = true) : b < 0x80 := by
  simp only [isNameByte, Bool.and_eq_true, decide_eq_true_eq, UInt8.le_iff_toNat_le,
    UInt8.reduceToNat] at h
  rw [UInt8.lt_iff_toNat_lt]
  show b.toNat < 0x80
  omega

theorem ascii_of_isRepositoryByte {b : UInt8} (h : isRepositoryByte b = true) : b < 0x80 := by
  simp only [isRepositoryByte, Byte.underscore, Byte.dot, Byte.dash, Bool.or_eq_true,
    Bool.and_eq_true, decide_eq_true_eq, beq_iff_eq, UInt8.le_iff_toNat_le, ← UInt8.toNat_inj,
    UInt8.reduceToNat] at h
  rw [UInt8.lt_iff_toNat_lt]
  show b.toNat < 0x80
  omega

theorem ascii_of_isRepository {t : Text} (h : isRepository t = true) : ∀ b ∈ t, b < 0x80 := by
  rw [isRepository, Bool.or_eq_true, decide_eq_true_eq] at h
  rcases h with rfl | h
  · decide +kernel
  · intro b hb
    exact ascii_of_isRepositoryByte (List.all_eq_true.mp h b hb)

/-- The split at a package loses nothing but the mark before it. -/
theorem mem_splitPackage {t : Text} {b : UInt8} (hb : b ∈ t) :
    b = Byte.slash ∨ b ∈ (splitPackage t).1.getD [] ∨ b ∈ (splitPackage t).2 := by
  rw [splitPackage, Text.without?]
  by_cases hmark : packageMark.isPrefixOf t = true
  · rw [if_pos hmark]
    dsimp only
    have happend := List.prefix_iff_eq_append.mp (List.isPrefixOf_iff_prefix.mp hmark)
    rw [← happend] at hb
    rcases List.mem_append.mp hb with hb | hb
    · have hslash : ∀ b ∈ packageMark, b = Byte.slash := by decide +kernel
      exact .inl (hslash b hb)
    · refine .inr ?_
      rcases Text.cut_cases Byte.colon (t.drop packageMark.length) with
        hcut | ⟨package, name, hcut, hparts⟩
      · rw [hcut]
        exact .inl hb
      · rw [hcut]
        rw [hparts] at hb
        exact List.mem_append.mp hb
  · rw [if_neg hmark]
    exact .inr (.inr hb)

/-- The split at a repository loses nothing behind its mark. -/
theorem mem_splitRepository {t : Text} {b : UInt8} (hb : b ∈ t.drop 1) :
    b ∈ (splitRepository t).1 ∨ b ∈ (splitRepository t).2 := by
  rw [splitRepository]
  split
  · exact .inr hb
  · rename_i n _ _
    rw [← List.take_append_drop n t, List.drop_append] at hb
    rcases List.mem_append.mp hb with hb | hb
    · exact .inl hb
    · exact .inr (List.mem_of_mem_drop hb)
  · exact .inl hb

/-- A name loses nothing but the colon before it. -/
theorem mem_without?_colon {t : Text} {b : UInt8} (hb : b ∈ t) :
    b = Byte.colon ∨ b ∈ (Text.without? [Byte.colon] t).getD t := by
  rw [Text.without?]
  split
  · rename_i hmark
    have happend := List.prefix_iff_eq_append.mp (List.isPrefixOf_iff_prefix.mp hmark)
    rw [← happend] at hb
    rcases List.mem_append.mp hb with hb | hb
    · exact .inl (List.mem_singleton.mp hb)
    · exact .inr hb
  · exact .inr hb

theorem ascii_of_parseLocal {repository : Option Text} {isCanonical : Bool} {t : Text}
    {label : Label} (h : parseLocal repository isCanonical t = .ok label) : ∀ b ∈ t, b < 0x80 := by
  intro b hb
  have hsplit := mem_splitPackage hb
  rw [parseLocal] at h
  generalize splitPackage t = parts at h hsplit
  obtain ⟨package, rest⟩ := parts
  dsimp only at h hsplit
  split at h
  · cases h
  rename_i hpackage
  split at h
  · cases h
  split at h
  · cases h
  rename_i hname
  simp only [Bool.not_eq_true', Bool.not_eq_false] at hpackage hname
  rcases hsplit with rfl | hb | hb
  · decide
  · exact ascii_of_isNameByte (List.all_eq_true.mp hpackage b hb)
  · rcases mem_without?_colon hb with rfl | hb
    · decide
    · exact ascii_of_isNameByte (List.all_eq_true.mp hname b hb)

/-- A text has single bytes if it begins with the mark of a repository and the rest has. -/
theorem ascii_of_startsWith {t : Text} (hmark : Text.startsWith repositoryMark t = true)
    (h : ∀ b ∈ t.drop 1, b < 0x80) : ∀ b ∈ t, b < 0x80 := by
  have happend := List.prefix_iff_eq_append.mp (List.isPrefixOf_iff_prefix.mp hmark)
  intro b hb
  rw [← happend] at hb
  rcases List.mem_append.mp hb with hb | hb
  · have hascii : ∀ b ∈ repositoryMark, b < 0x80 := by decide +kernel
    exact hascii b hb
  · exact h b hb

/-- A text that is read as a label has single bytes only. -/
theorem ascii_of_parse {t : Text} {label : Label} (h : parse t = .ok label) :
    ∀ b ∈ t, b < 0x80 := by
  rw [parse] at h
  generalize hcanonical : Text.startsWith (bytes "@@") t = isCanonical at h
  -- The marks of a canonical repository are single bytes.
  have hinner : (∀ b ∈ (if isCanonical then t.drop 1 else t), b < 0x80) → ∀ b ∈ t, b < 0x80 := by
    cases isCanonical with
    | false => exact id
    | true =>
      refine ascii_of_startsWith (List.isPrefixOf_iff_prefix.mpr ?_)
      have hmarks : repositoryMark <+: bytes "@@" := by decide
      exact hmarks.trans (List.isPrefixOf_iff_prefix.mp hcanonical)
  apply hinner
  dsimp only at h
  generalize (if isCanonical then t.drop 1 else t) = inner at h
  split at h
  · rename_i label' hresult
    split at hresult
    · rename_i hmark
      refine ascii_of_startsWith hmark fun b hb => ?_
      split at hresult
      · rename_i hrepository
        rcases mem_splitRepository hb with hb | hb
        · exact ascii_of_isRepository hrepository b hb
        · exact ascii_of_parseLocal hresult b hb
      · cases hresult
    · exact ascii_of_parseLocal hresult
  · cases h

end Label

namespace IncludeIndex

open Document

/-! ## The tokens of an index -/

/-- The tokens of a list of labels. -/
def labelTokens (labels : List Text) : List Document.Token :=
  .openArray :: separated (labels.map fun label => [.string label]) ++ [.closeArray]

/-- The tokens of an index. -/
def tokens (index : IncludeIndex) : List Document.Token :=
  .openObject :: separated (index.written.map fun (path, labels) =>
    memberTokens path (labelTokens labels)) ++ [.closeObject]

/-- The value of the document of an index. -/
def value (index : IncludeIndex) : Value :=
  .object (index.written.map fun (path, labels) => (path, .array (labels.map .string)))

theorem tells_tokens (index : IncludeIndex) : Tells 2 index.tokens index.value :=
  Tells.object Prod.fst fun _ _ => Tells.array fun label _ => Tells.string label

section Layout

variable {α : Type} {part : α → Text} {told : α → List Document.Token} {xs : List α}
  {opening closing : String} {first last : Document.Token} {indent : Text}

theorem spells_enclosed {before separator behind : Text} (hbefore : Spells before [first])
    (hseparator : Spells separator [.comma]) (hbehind : Spells behind [last])
    (hparts : ∀ x ∈ xs, Spells (part x) (told x)) :
    Spells (before ++ Text.joined separator (xs.map part) ++ behind)
      (first :: separated (xs.map told) ++ [last]) :=
  (hbefore.append (Spells.joined hseparator hparts)).append hbehind

theorem spells_compactList (hopening : Spells (bytes opening) [first])
    (hclosing : Spells (bytes closing) [last]) (hparts : ∀ x ∈ xs, Spells (part x) (told x)) :
    Spells (compactList opening closing (xs.map part))
      (first :: separated (xs.map told) ++ [last]) :=
  spells_enclosed hopening (.mark rfl rfl (by decide)) hclosing hparts

theorem spells_indentedList (hindent : Spells indent []) (hopening : Spells (bytes opening) [first])
    (hclosing : Spells (bytes closing) [last]) (hparts : ∀ x ∈ xs, Spells (part x) (told x)) :
    Spells (indentedList indent opening closing (xs.map part))
      (first :: separated (xs.map told) ++ [last]) := by
  rw [indentedList]
  split
  · rename_i hempty
    obtain rfl : xs = [] := by simpa using hempty
    exact hopening.append hclosing
  · have hline : Spells (bytes "\n") [] := .spaces (by decide +kernel)
    have hmargin : Spells (bytes "  ") [] := .spaces (by decide +kernel)
    have hcomma : Spells (bytes ",\n") [.comma] :=
      Spells.append (.mark rfl rfl (by decide) : Spells (bytes ",") [.comma]) hline
    have hbefore : Spells (bytes opening ++ bytes "\n") [first] := hopening.append hline
    have hbehind : Spells (bytes "\n" ++ indent ++ bytes closing) [last] :=
      (hline.append hindent).append hclosing
    have hlines : ∀ x ∈ xs, Spells (indent ++ bytes "  " ++ part x) (told x) := fun x hx =>
      (hindent.append hmargin).append (hparts x hx)
    have henclosed := spells_enclosed hbefore hcomma hbehind hlines
    rw [List.map_map]
    simpa only [List.append_assoc, Function.comp_def] using henclosed

end Layout

variable {index : IncludeIndex}

/-- Every text in the index is valid. -/
def IsValid (index : IncludeIndex) : Prop :=
  ∀ member ∈ index.written, member.1.IsValid ∧ ∀ label ∈ member.2, Text.IsValid label

theorem spells_compact (h : index.IsValid) : Spells index.compact index.tokens := by
  refine spells_compactList (.mark rfl rfl (by decide)) (.mark rfl rfl (by decide)) ?_
  intro member hmember
  obtain ⟨hpath, hlabels⟩ := h member hmember
  have hcolon : Spells (bytes ":") [.colon] := .mark rfl rfl (by decide)
  have hlist : Spells (compactList "[" "]" (member.2.map Document.written))
      (labelTokens member.2) :=
    spells_compactList (.mark rfl rfl (by decide)) (.mark rfl rfl (by decide))
      fun label hlabel => .written (hlabels label hlabel)
  exact ((Spells.written hpath).append hcolon).append hlist

theorem spells_indented (h : index.IsValid) : Spells index.indented index.tokens := by
  refine spells_indentedList .nil (.mark rfl rfl (by decide)) (.mark rfl rfl (by decide)) ?_
  intro member hmember
  obtain ⟨hpath, hlabels⟩ := h member hmember
  have hcolon : Spells (bytes ": ") [.colon] :=
    Spells.append (.mark rfl rfl (by decide) : Spells (bytes ":") [.colon])
      (.spaces (by decide +kernel) : Spells (bytes " ") [])
  have hlist : Spells (indentedList (bytes "  ") "[" "]" (member.2.map Document.written))
      (labelTokens member.2) :=
    spells_indentedList (.spaces (by decide +kernel)) (.mark rfl rfl (by decide))
      (.mark rfl rfl (by decide)) fun label hlabel => .written (hlabels label hlabel)
  exact ((Spells.written hpath).append hcolon).append hlist

/-! ## Reading the value -/

/-- The labels of the index can be read back from their texts. -/
def ReadsLabels (index : IncludeIndex) : Prop :=
  ∀ entry ∈ index.entries, ∀ label ∈ entry.2, Label.parse label.text = .ok label

theorem isValid_of_labels (hpaths : ∀ path ∈ index.keys, path.IsValid)
    (hlabels : index.ReadsLabels) : index.IsValid := by
  intro member hmember
  obtain ⟨entry, hentry, rfl⟩ := List.mem_map.mp hmember
  refine ⟨hpaths _ (List.mem_map_of_mem hentry), fun text htext => ?_⟩
  obtain ⟨label, hlabel, rfl⟩ := List.mem_map.mp htext
  exact .of_ascii (Label.ascii_of_parse (hlabels entry hentry label hlabel))

theorem readTargets_of_labels {labels : List Label}
    (h : ∀ label ∈ labels, Label.parse label.text = .ok label) :
    readTargets (.array ((labels.map Label.text).map .string)) = .ok (some labels) := by
  have hread : ((labels.map Label.text).map Value.string).mapM readLabel =
      .ok (labels.map some) := by
    rw [List.map_map, List.mapM_map]
    refine mapM_of_forall fun label hlabel => ?_
    show readLabel (.string label.text) = _
    rw [readLabel, h label hlabel]
    rfl
  rw [readTargets, hread]
  show Except.ok ((labels.map some).mapM id) = _
  rw [mapM_some]

/-- The value of an index is read as the index. -/
theorem readValue_value (h : index.ReadsLabels) : readValue index.value = .ok index := by
  rw [value, readValue, written, List.map_map, List.mapM_map]
  rw [mapM_of_forall (g := some) ?entry, pure_bind, mapM_some]
  · exact congrArg Except.ok index.ofList_entries
  case entry =>
    intro entry hentry
    obtain ⟨path, targets⟩ := entry
    show (readTargets (.array ((targets.map Label.text).map .string)) >>= _) = _
    rw [readTargets_of_labels (h _ hentry)]
    rfl

theorem read_of_spells {t : Text} (ht : Spells t index.tokens) (h : index.ReadsLabels) :
    read t = .ok index := by
  rw [read, Value.parse?_of_spells ht index.tells_tokens (by decide)]
  exact readValue_value h

/-! ## Indexes in files -/

/-- An index is read back from its document in either layout, and from every file it can be
stored in. -/
theorem storing_reads_back (index : IncludeIndex) (hpaths : ∀ path ∈ index.keys, path.IsValid)
    (hlabels : index.ReadsLabels) :
    read index.compact = .ok index ∧
      ∀ disk path, Files.Disk.IsWritable disk path →
        ∃ disk', index.store disk path = .ok disk' ∧ load disk' path = .ok index := by
  have hvalid := isValid_of_labels hpaths hlabels
  refine ⟨read_of_spells (spells_compact hvalid) hlabels, fun disk path hwritable => ?_⟩
  obtain ⟨disk', hwrite⟩ := hwritable.write index.indented
  refine ⟨disk', ?_, ?_⟩
  · rw [store, hwrite]
  · rw [load, Files.Disk.read_of_write hwrite]
    dsimp only
    rw [read_of_spells (spells_indented hvalid) hlabels]

/-- A path with a quote, a backslash, control characters, markup, a separator of lines and a
character outside the first plane. -/
def trickyPath : Text := Text.ofCodes [0x22, 0x5C, 0x07, 0x0A, 0x3C, 0x2028, 0x1F600, 0xFFFD]

/-- An index with a path without targets, and labels that leave out a name, name a repository
or are relative. -/
def tricky : IncludeIndex where
  entries := [([], []), (trickyPath, [⟨[], bytes "a/b", bytes "b", false, false⟩,
    ⟨bytes "r", bytes "a", bytes "x", false, true⟩, ⟨[], [], bytes "x", true, false⟩])]
  ascending := by unfold Ascending; decide +kernel

/-- A disk with one directory. -/
def shelf : Files.Disk where
  workingDirectory := [bytes "s"]
  nodes := [([bytes "s"], .directory)]

theorem storing_reads_back_tricky :
    ((∀ path ∈ tricky.keys, path.IsValid) ∧ tricky.ReadsLabels ∧
      shelf.IsWritable (bytes "i.json")) ∧
    read tricky.compact = .ok tricky ∧
      ∃ disk', tricky.store shelf (bytes "i.json") = .ok disk' ∧
        load disk' (bytes "i.json") = .ok tricky := by
  have hpaths : ∀ path ∈ tricky.keys, path.IsValid := by
    intro path hpath
    rcases List.mem_pair.mp hpath with rfl | rfl
    · exact .nil
    · exact ⟨_, by decide, rfl⟩
  have hlabels : tricky.ReadsLabels := by
    unfold ReadsLabels
    decide +kernel
  have hwritable : shelf.IsWritable (bytes "i.json") := ⟨[], _, rfl⟩
  obtain ⟨hread, hstore⟩ := storing_reads_back tricky hpaths hlabels
  exact ⟨⟨hpaths, hlabels, hwritable⟩, hread, hstore shelf (bytes "i.json") hwritable⟩

end IncludeIndex

end XsPrep
