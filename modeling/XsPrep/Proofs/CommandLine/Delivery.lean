import XsPrep.CommandLine.Preprocess
import XsPrep.Proofs.CommandLine.Arguments
import XsPrep.Proofs.Files.Writing
import XsPrep.Proofs.Ordered.Traversals

/-!
# What the preprocessor writes

The items of a command line say which script is to be preprocessed, where its includes are
searched, which macros it starts with and where the output goes (`Asks`).  They say it by
themselves: the last output file counts, patterns and macros are taken in their order, and of a
switch the last setting counts.  The options that the flags leave behind are these views of the
items (`foldl_apply_eq`).

A run changes the disk only to deliver the output of such a command line, and then nothing but the
output file (`run_writes_on_success`).
-/

namespace XsPrep.CommandLine.Preprocess

open Files (Disk)

/-! ## The views of a command line -/

/-- The names of the output file. -/
def outNames : List Text := [bytes "out", bytes "o"]

/-- The names of the patterns of include directories. -/
def pathNames : List Text := [bytes "paths", bytes "p"]

/-- The names of the definitions of macros. -/
def defineNames : List Text := [bytes "D"]

/-- The names of the switch that leaves out the library. -/
def libraryNames : List Text := [bytes "no-libs"]

/-- The names of the switch that asks for the version. -/
def versionNames : List Text := [bytes "version", bytes "v"]

/-- The output file that the items name, and no path if they name none. -/
def outOf (items : List Item) : Text := (items.filterMap (Item.given? outNames)).getLast?.getD []

/-- The patterns of include directories among the items. -/
def pathsOf (items : List Item) : List Text := items.filterMap (Item.given? pathNames)

/-- The definitions of macros among the items. -/
def definesOf (items : List Item) : List Text := items.filterMap (Item.given? defineNames)

/-- Whether a switch is on behind the items. -/
def isOn (names : List Text) (items : List Item) : Bool :=
  (items.filterMap (Item.switched? names)).getLast?.getD false

/-- The operands among the items. -/
def operandsOf (items : List Item) : List Text := items.filterMap Item.operand?

/-! ## Options are these views -/

theorem hasFlagNames : HasFlagNames flags := by
  unfold HasFlagNames
  decide

/-- The names of all flags. -/
def flagNames : List Text := flags.map fun flag => bytes flag.name

theorem findFlag?_eq_none {name : Text} (h : name ∉ flagNames) : findFlag? flags name = none := by
  simp only [findFlag?, List.find?_eq_none, decide_eq_true_eq]
  intro flag hflag hname
  exact h (List.mem_map.mpr ⟨flag, hflag, hname⟩)

theorem mem_flagNames : ∀ names ∈ [outNames, pathNames, defineNames, libraryNames, versionNames],
    ∀ name ∈ names, name ∈ flagNames := by
  decide

/-- What one item does to each option. -/
theorem apply_eq (item : Item) (options : Options) :
    ∃ verbose, item.apply flags options = {
      out := (item.given? outNames).getD options.out
      paths := (item.given? pathNames).elim options.paths (options.paths ++ [·])
      defines := (item.given? defineNames).elim options.defines (options.defines ++ [·])
      withoutLibrary := (item.switched? libraryNames).getD options.withoutLibrary
      version := (item.switched? versionNames).getD options.version
      verbose } := by
  have hnone : ∀ {name : Text}, name ∉ flagNames →
      ∀ names ∈ [outNames, pathNames, defineNames, libraryNames, versionNames], name ∉ names :=
    fun hname names hnames hmem => hname (mem_flagNames names hnames _ hmem)
  cases item with
  | operand text => exact ⟨_, rfl⟩
  | switch name on =>
    by_cases hname : name ∈ flagNames
    · simp only [flagNames, flags, List.map_cons, List.map_nil, List.mem_cons, List.not_mem_nil,
        or_false] at hname
      rcases hname with rfl | rfl | rfl | rfl | rfl | rfl | rfl | rfl | rfl <;> exact ⟨_, rfl⟩
    · simp only [Item.given?, Item.switched?, if_neg (hnone hname _ (by simp : libraryNames ∈ _)),
        if_neg (hnone hname _ (by simp : versionNames ∈ _))]
      rw [Item.apply, findFlag?_eq_none hname]
      exact ⟨_, rfl⟩
  | value name text =>
    by_cases hname : name ∈ flagNames
    · simp only [flagNames, flags, List.map_cons, List.map_nil, List.mem_cons, List.not_mem_nil,
        or_false] at hname
      rcases hname with rfl | rfl | rfl | rfl | rfl | rfl | rfl | rfl | rfl <;> exact ⟨_, rfl⟩
    · simp only [Item.given?, Item.switched?, if_neg (hnone hname _ (by simp : outNames ∈ _)),
        if_neg (hnone hname _ (by simp : pathNames ∈ _)),
        if_neg (hnone hname _ (by simp : defineNames ∈ _))]
      rw [Item.apply, findFlag?_eq_none hname]
      exact ⟨_, rfl⟩

section Views

variable {α β : Type} (f : α → Option β) (x : α) (xs : List α)

theorem getLast?_filterMap_cons (b : β) :
    ((x :: xs).filterMap f).getLast?.getD b = (xs.filterMap f).getLast?.getD ((f x).getD b) := by
  cases h : f x with
  | none => rw [List.filterMap_cons_none h, Option.getD_none]
  | some y =>
    rw [List.filterMap_cons_some h, List.getLast?_cons, Option.getD_some, Option.getD_some]

theorem append_filterMap_cons (ys : List β) :
    ys ++ (x :: xs).filterMap f = (f x).elim ys (ys ++ [·]) ++ xs.filterMap f := by
  cases h : f x with
  | none => rw [List.filterMap_cons_none h, Option.elim_none]
  | some y => rw [List.filterMap_cons_some h, Option.elim_some, List.append_assoc]; rfl

end Views

theorem foldl_apply_eq (items : List Item) (options : Options) :
    ∃ verbose, items.foldl (Item.apply flags) options = {
      out := (items.filterMap (Item.given? outNames)).getLast?.getD options.out
      paths := options.paths ++ pathsOf items
      defines := options.defines ++ definesOf items
      withoutLibrary :=
        (items.filterMap (Item.switched? libraryNames)).getLast?.getD options.withoutLibrary
      version := (items.filterMap (Item.switched? versionNames)).getLast?.getD options.version
      verbose } := by
  induction items generalizing options with
  | nil =>
    refine ⟨options.verbose, ?_⟩
    simp [pathsOf, definesOf]
  | cons item items ih =>
    obtain ⟨verbose, hitem⟩ := apply_eq item options
    rw [List.foldl_cons, hitem]
    simp only [pathsOf, definesOf, getLast?_filterMap_cons, append_filterMap_cons]
    exact ih _

/-- The options that the items of a command line set. -/
def optionsOf (items : List Item) (verbose : Bool) : Options where
  out := outOf items
  paths := pathsOf items
  defines := definesOf items
  withoutLibrary := isOn libraryNames items
  version := isOn versionNames items
  verbose := verbose

theorem version_optionsOf (items : List Item) (verbose : Bool) :
    (optionsOf items verbose).version = isOn versionNames items := rfl

theorem parseAll_eq_optionsOf {arguments : List Text} {items : List Item}
    (h : Spells flags arguments items) :
    ∃ verbose, parseAll flags arguments {} = .ok (optionsOf items verbose, operandsOf items) := by
  obtain ⟨verbose, hoptions⟩ := foldl_apply_eq items {}
  refine ⟨verbose, ?_⟩
  rw [parseAll_of_spells hasFlagNames h, Item.results, hoptions]
  rfl

/-! ## The checks before a run -/

/-- A pattern of include directories stands for the paths it matches, and these are
directories. -/
def Expands (disk : Disk) (pattern : Text) (paths : List Text) : Prop :=
  Glob.expand disk pattern = some paths ∧ paths ≠ [] ∧ ∀ path ∈ paths, disk.isDirectory path = true

theorem expandPath_eq_ok_iff {disk : Disk} {pattern : Text} {paths : List Text} :
    expandPath disk pattern = .ok paths ↔ Expands disk pattern paths := by
  rw [expandPath, Expands]
  split
  · rename_i hexpand
    simp [hexpand]
  · rename_i hexpand
    simp +contextual [hexpand]
  · rename_i found hfound hexpand
    rw [hexpand, Option.some_inj]
    split
    · rename_i path hpath
      have hbad : disk.isDirectory path = false := by simpa using List.find?_some hpath
      refine ⟨fun h => (nomatch h), ?_⟩
      rintro ⟨rfl, -, hall⟩
      rw [hall path (List.mem_of_find?_eq_some hpath)] at hbad
      cases hbad
    · rename_i hnone
      have hall : ∀ path ∈ found, disk.isDirectory path = true := by
        simpa using List.find?_eq_none.mp hnone
      rw [Except.ok.injEq]
      constructor
      · rintro rfl
        exact ⟨rfl, hfound, hall⟩
      · exact fun h => h.1

/-- The items of a command line ask for a run over a script, with the directories where its
includes are searched and the macros it starts with.  The library comes first among the directories
unless it is left out or there is none. -/
structure Asks (disk : Disk) (library : Text) (items : List Item) (script : Text)
    (directories : List Text) (macros : Macros) : Prop where
  /-- The script is the only operand. -/
  operand : operandsOf items = [script]
  /-- The script is a file. -/
  isFile : (disk.regularFile? script).isSome
  /-- The directories of the patterns follow one another in the order of the patterns. -/
  expands : ∃ expansions, List.Forall₂ (Expands disk) (pathsOf items) expansions ∧
    directories =
      (if isOn libraryNames items ∨ library = [] then [] else [library]) ++ expansions.flatten
  /-- The output file has the extension of a script. -/
  isScript : Path.extension (outOf items) = bytes ".xs"
  /-- All definitions are accepted. -/
  accepted : Definition.parseAll (definesOf items) = (macros, [])

theorem checkScript_eq_ok_iff {disk : Disk} {script : Text} :
    checkScript disk script = .ok () ↔ (disk.regularFile? script).isSome := by
  rw [checkScript, Disk.leadsSomewhere, Disk.regularFile?]
  cases disk.address script with
  | error fault => simp [Except.isOk, Except.toBool]
  | ok address =>
    cases disk.files.find? fun e => e.1 == address with
    | none => simp [Except.isOk, Except.toBool]
    | some file => simp [Except.isOk, Except.toBool]

theorem checkOut_eq_ok_iff {out : Text} :
    checkOut out = .ok () ↔ Path.extension out = bytes ".xs" := by
  rw [checkOut]
  cases out with
  | nil =>
    have hnil : Path.extension [] ≠ bytes ".xs" := by decide
    simp [hnil]
  | cons b out =>
    rw [List.isEmpty_cons, if_neg Bool.false_ne_true]
    split
    · rename_i hother
      exact iff_of_false (fun h => (nomatch h)) hother
    · rename_i hscript
      exact iff_of_true rfl (Decidable.not_not.mp hscript)

theorem predefined_eq_ok_iff {options : Options} {macros : Macros} :
    predefined options = .ok macros ↔ Definition.parseAll options.defines = (macros, []) := by
  rw [predefined]
  split
  · rename_i hparse
    simp [hparse]
  · rename_i refusals hrefusals hparse
    rw [hparse, Prod.mk.injEq]
    exact iff_of_false (fun h => (nomatch h)) fun h => hrefusals h.2

theorem prepare_eq_ok_iff {disk : Disk} {library : Text} {items : List Item} {verbose : Bool}
    {script : Text} {directories : List Text} {macros : Macros}
    (hoperand : operandsOf items = [script]) :
    prepare disk (optionsOf items verbose) script library = .ok (directories, macros) ↔
      Asks disk library items script directories macros := by
  simp only [prepare, bind_eq_ok_iff, includeDirectories, mapM_eq_ok_iff, expandPath_eq_ok_iff,
    predefined_eq_ok_iff, Except.ok.injEq, Prod.mk.injEq]
  constructor
  · rintro ⟨_, hscript, _, ⟨expansions, hexpansions, rfl⟩, _, hout, _, hmacros, rfl, rfl⟩
    exact ⟨hoperand, checkScript_eq_ok_iff.mp hscript,
      ⟨expansions, hexpansions, by simp [optionsOf]⟩, checkOut_eq_ok_iff.mp hout, hmacros⟩
  · rintro ⟨-, hfile, ⟨expansions, hexpansions, rfl⟩, hscript, hmacros⟩
    exact ⟨(), checkScript_eq_ok_iff.mpr hfile, _, ⟨expansions, hexpansions, rfl⟩, (),
      checkOut_eq_ok_iff.mpr hscript, _, hmacros, by simp [optionsOf], rfl⟩

/-! ## The run -/

/-- A run over a script ends without a problem and has the given output. -/
def Yields (disk : Disk) (directories : List Text) (macros : Macros) (script content : Text) :
    Prop :=
  ∃ session, (Session.new disk directories macros).process disk script = (none, session) ∧
    session.run.output = content

/-- The disk afterwards has the output of what the items ask for. -/
structure Delivers (disk : Disk) (library : Text) (items : List Item) (script : Text)
    (directories : List Text) (macros : Macros) (content : Text) (after : Disk) : Prop where
  /-- This is what they ask for. -/
  asks : Asks disk library items script directories macros
  /-- The run over the disk before it was changed has this output. -/
  yields : Yields disk directories macros script content
  /-- The output can be written, and this is the disk with it. -/
  write : disk.write (outOf items) content = .ok after

variable {disk : Disk} {library : Text} {arguments : List Text} {items : List Item}

theorem execute_cases (disk : Disk) (options : Options) (script : Text) (directories : List Text)
    (macros : Macros) :
    ((execute disk options script directories macros).code = failure ∧
      (execute disk options script directories macros).disk = disk) ∨
    ∃ content, Yields disk directories macros script content ∧
      disk.write options.out content =
        .ok (execute disk options script directories macros).disk := by
  unfold execute
  generalize hprocess : (Session.new disk directories macros).process disk script = result
  obtain ⟨stop, session⟩ := result
  cases stop with
  | some stop => exact .inl ⟨rfl, rfl⟩
  | none =>
    dsimp only
    cases hwrite : disk.write options.out session.run.output with
    | error failure => exact .inl ⟨rfl, rfl⟩
    | ok after => exact .inr ⟨_, ⟨session, hprocess, rfl⟩, hwrite⟩

theorem execute_of_yields {options : Options} {script content : Text} {directories : List Text}
    {macros : Macros} {after : Disk} (h : Yields disk directories macros script content)
    (hwrite : disk.write options.out content = .ok after) :
    (execute disk options script directories macros).code = success ∧
      (execute disk options script directories macros).disk = after := by
  obtain ⟨session, hprocess, rfl⟩ := h
  unfold execute
  rw [hprocess]
  dsimp only
  rw [hwrite]
  exact ⟨rfl, rfl⟩

/-- The command line asks for the usage. -/
def AsksUsage (arguments : List Text) : Prop := parseAll flags arguments {} = .error .help

/-- The command line asks for the version. -/
def AsksVersion (arguments : List Text) : Prop :=
  ∃ items, Spells flags arguments items ∧ isOn versionNames items = true

/-- All items that the arguments spell agree on the version. -/
theorem asksVersion_iff (h : Spells flags arguments items) :
    AsksVersion arguments ↔ isOn versionNames items = true := by
  refine ⟨?_, fun hversion => ⟨items, h, hversion⟩⟩
  rintro ⟨others, hothers, hversion⟩
  obtain ⟨verbose, hparse⟩ := parseAll_eq_optionsOf h
  obtain ⟨verbose', hparse'⟩ := parseAll_eq_optionsOf hothers
  rw [hparse, Except.ok.injEq, Prod.mk.injEq] at hparse'
  rw [← version_optionsOf items verbose, hparse'.1, version_optionsOf, hversion]

theorem run_of_refused {refusal : Refusal} (h : parseAll flags arguments {} = .error refusal) :
    (run disk library arguments).disk = disk ∧
      ((run disk library arguments).code = success ↔ refusal = .help) := by
  rw [run, h]
  cases refusal <;> simp [Outcome.refused, Refusal.message?, success, wrongUsage]

theorem run_of_version (h : Spells flags arguments items) (hversion : isOn versionNames items) :
    (run disk library arguments).code = success ∧ (run disk library arguments).disk = disk := by
  obtain ⟨verbose, hparse⟩ := parseAll_eq_optionsOf h
  rw [run, hparse]
  dsimp only
  rw [version_optionsOf, if_pos hversion]
  exact ⟨rfl, rfl⟩

/-- A run that is not asked for the version fails and changes nothing, or it delivers what it is
asked for. -/
theorem run_cases (h : Spells flags arguments items) (hversion : ¬isOn versionNames items) :
    ((run disk library arguments).code ≠ success ∧ (run disk library arguments).disk = disk) ∨
    ∃ script directories macros content,
      Delivers disk library items script directories macros content
        (run disk library arguments).disk := by
  have hfailure : failure ≠ success := by decide
  have hwrong : wrongUsage ≠ success := by decide
  obtain ⟨verbose, hparse⟩ := parseAll_eq_optionsOf h
  rw [run, hparse]
  dsimp only
  rw [version_optionsOf, if_neg hversion]
  split
  · rename_i script hoperand
    cases hprepare : prepare disk (optionsOf items verbose) script library with
    | error complaint => exact .inl ⟨hfailure, rfl⟩
    | ok prepared =>
      obtain ⟨directories, macros⟩ := prepared
      have hasks := (prepare_eq_ok_iff hoperand).mp hprepare
      rcases execute_cases disk (optionsOf items verbose) script directories macros with
        ⟨hcode, hdisk⟩ | ⟨content, hyields, hwrite⟩
      · exact .inl ⟨hcode ▸ hfailure, hdisk⟩
      · exact .inr ⟨script, directories, macros, content, hasks, hyields, hwrite⟩
  · exact .inl ⟨hwrong, rfl⟩

theorem run_of_delivers {script content : Text} {directories : List Text} {macros : Macros}
    {after : Disk} (h : Spells flags arguments items) (hversion : ¬isOn versionNames items)
    (hdelivers : Delivers disk library items script directories macros content after) :
    (run disk library arguments).code = success ∧ (run disk library arguments).disk = after := by
  obtain ⟨hasks, hyields, hwrite⟩ := hdelivers
  obtain ⟨verbose, hparse⟩ := parseAll_eq_optionsOf h
  rw [run, hparse]
  dsimp only
  rw [version_optionsOf, if_neg hversion, hasks.operand]
  dsimp only
  rw [(prepare_eq_ok_iff hasks.operand).mpr hasks]
  exact execute_of_yields hyields hwrite

/-- The preprocessor writes its output exactly on success.  A run that fails, or that is asked for
the usage or the version, leaves the disk as it is.  Any other run creates or changes nothing but
the output file, whose content is the output of the run over the disk before.  Whenever there is
such an output and it can be written, the run succeeds. -/
theorem run_writes_on_success (disk : Disk) (library : Text) (arguments : List Text) :
    ((run disk library arguments).code ≠ success → (run disk library arguments).disk = disk) ∧
    (AsksUsage arguments ∨ AsksVersion arguments →
      (run disk library arguments).code = success ∧ (run disk library arguments).disk = disk) ∧
    ((run disk library arguments).code = success →
      ¬AsksUsage arguments → ¬AsksVersion arguments →
      ∃ items script directories macros content, Spells flags arguments items ∧
        Delivers disk library items script directories macros content
          (run disk library arguments).disk ∧
        disk.ChangesOnly (run disk library arguments).disk (outOf items) content) ∧
    ∀ items script directories macros content after, Spells flags arguments items →
      ¬AsksVersion arguments →
      Delivers disk library items script directories macros content after →
      (run disk library arguments).code = success ∧ (run disk library arguments).disk = after := by
  refine ⟨?failed, ?asked, ?delivered, ?delivers⟩
  case failed =>
    intro hcode
    cases hparse : parseAll flags arguments {} with
    | error refusal => exact (run_of_refused hparse).1
    | ok r =>
      obtain ⟨items, hitems, -⟩ := (parseAll_eq_ok_iff hasFlagNames).mp hparse
      by_cases hversion : isOn versionNames items
      · exact (run_of_version hitems hversion).2
      · rcases run_cases hitems hversion with ⟨-, hdisk⟩ | ⟨_, _, _, _, hdelivers⟩
        · exact hdisk
        · exact absurd (run_of_delivers hitems hversion hdelivers).1 hcode
  case asked =>
    rintro (husage | ⟨items, hitems, hversion⟩)
    · obtain ⟨hdisk, hcode⟩ := run_of_refused husage
      exact ⟨hcode.mpr rfl, hdisk⟩
    · exact run_of_version hitems hversion
  case delivered =>
    intro hcode husage hversion
    cases hparse : parseAll flags arguments {} with
    | error refusal =>
      obtain rfl := (run_of_refused hparse).2.mp hcode
      exact absurd hparse husage
    | ok r =>
      obtain ⟨items, hitems, -⟩ := (parseAll_eq_ok_iff hasFlagNames).mp hparse
      rcases run_cases hitems (mt (asksVersion_iff hitems).mpr hversion) with
        ⟨hfailed, -⟩ | ⟨script, directories, macros, content, hdelivers⟩
      · exact absurd hcode hfailed
      · exact ⟨items, script, directories, macros, content, hitems, hdelivers,
          Disk.changesOnly_of_write hdelivers.write⟩
  case delivers =>
    intro items script directories macros content after hitems hversion hdelivers
    exact run_of_delivers hitems (mt (asksVersion_iff hitems).mpr hversion) hdelivers

/-- A disk with a script that includes a file of the library and one of another directory. -/
def bench : Disk where
  workingDirectory := [bytes "w"]
  nodes := [([bytes "w"], .directory), ([bytes "w", bytes "lib"], .directory),
    ([bytes "w", bytes "inc"], .directory),
    ([bytes "w", bytes "lib", bytes "a.xs"], .file (bytes "a\n")),
    ([bytes "w", bytes "inc", bytes "a.xs"], .file (bytes "never\n")),
    ([bytes "w", bytes "inc", bytes "b.xs"], .file (bytes "#ifdef X\nb\n#endif\n")),
    ([bytes "w", bytes "main.xs"],
      .file (bytes "#include \"a.xs\"\n#include \"b.xs\"\n"))]

/-- A command line that names the script as its output, behind another output file. -/
def inPlace : List Text :=
  [bytes "-o", bytes "other.xs", bytes "-p", bytes "inc", bytes "main.xs", bytes "--D=X",
    bytes "-out=main.xs"]

/-- The items of `inPlace`. -/
def inPlaceItems : List Item :=
  [.value (bytes "o") (bytes "other.xs"), .value (bytes "p") (bytes "inc"),
    .operand (bytes "main.xs"), .value (bytes "D") (bytes "X"),
    .value (bytes "out") (bytes "main.xs")]

theorem spells_inPlace : Spells flags inPlace inPlaceItems := by
  have hone : bytes "-" ∈ dashes := by simp [dashes]
  have htwo : bytes "--" ∈ dashes := by simp [dashes]
  show Spells flags [bytes "-" ++ bytes "o", bytes "other.xs", bytes "-" ++ bytes "p", bytes "inc",
    bytes "main.xs", bytes "--" ++ bytes "D" ++ Byte.equals :: bytes "X",
    bytes "-" ++ bytes "out" ++ Byte.equals :: bytes "main.xs"] inPlaceItems
  refine .valueNext hone ⟨_, _, rfl⟩ (.valueNext hone ⟨_, _, rfl⟩ (.operand (by decide) ?_))
  exact .valueBehind htwo ⟨_, _, rfl⟩ (.valueBehind hone ⟨_, _, rfl⟩ .nil)

theorem delivers_inPlace :
    Delivers bench (bytes "lib") inPlaceItems (bytes "main.xs") [bytes "lib", bytes "inc"]
      (Macros.define .empty (bytes "X") []) (bytes "a\nb\n")
      (bench.put [bytes "w", bytes "main.xs"] (.file (bytes "a\nb\n"))) where
  asks := {
    operand := rfl
    isFile := by decide +kernel
    expands := by
      have hexpand : Glob.expand bench (bytes "inc") = some [bytes "inc"] := by decide +kernel
      have hdirectory : bench.isDirectory (bytes "inc") = true := by decide +kernel
      refine ⟨[[bytes "inc"]], .cons ⟨hexpand, by simp, by simpa using hdirectory⟩ .nil, ?_⟩
      decide +kernel
    isScript := by decide +kernel
    accepted := by
      have hparse : Definition.parse (bytes "X") = .ok ⟨bytes "X", []⟩ := by decide +kernel
      show Definition.parseAll [bytes "X"] = _
      rw [Definition.parseAll, List.foldl_cons, List.foldl_nil, hparse] }
  yields := by
    refine ⟨_, Prod.ext (?_ : _ = none) rfl, ?_⟩
    · decide +kernel
    · decide +kernel
  write := by decide +kernel

/-- The output file can be the script. -/
theorem run_writes_on_success_in_place :
    (¬AsksUsage inPlace ∧ ¬AsksVersion inPlace ∧
      (run bench (bytes "lib") inPlace).code = success ∧
      (run bench (bytes "lib") inPlace).disk =
        bench.put [bytes "w", bytes "main.xs"] (.file (bytes "a\nb\n"))) ∧
    ∃ items script directories macros content, Spells flags inPlace items ∧
      Delivers bench (bytes "lib") items script directories macros content
        (run bench (bytes "lib") inPlace).disk ∧
      bench.ChangesOnly (run bench (bytes "lib") inPlace).disk (outOf items) content := by
  have husage : ¬AsksUsage inPlace := by
    rw [AsksUsage, parseAll_of_spells hasFlagNames spells_inPlace]
    exact fun h => (nomatch h)
  have hversion : ¬AsksVersion inPlace := by
    rw [asksVersion_iff spells_inPlace]
    decide +kernel
  obtain ⟨-, -, hdelivered, hdelivers⟩ := run_writes_on_success bench (bytes "lib") inPlace
  obtain ⟨hcode, hdisk⟩ :=
    hdelivers _ _ _ _ _ _ spells_inPlace hversion delivers_inPlace
  exact ⟨⟨husage, hversion, hcode, hdisk⟩, hdelivered hcode husage hversion⟩

end XsPrep.CommandLine.Preprocess
