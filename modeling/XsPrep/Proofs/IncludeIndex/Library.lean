import XsPrep.IncludeIndex.Library
import XsPrep.Proofs.Build.Generation
import XsPrep.Proofs.Glob.Listing
import XsPrep.Proofs.IncludeIndex.Additions

/-!
# What the index of a library lists

The index of a library is made by additions in which a path always has the same target.  However
often it is added, the path then has this one target (`targetsAdded_map`).  So the index has the
listed files that are not private, each with the target of its directory (`get?_ofLibrary`).

The target of a file is told by its names: its package are the names before the last one
(`libraryTarget_ofParts`).  The rules that are generated for this package agree with it
(`index_agrees_with_rules`).
-/

namespace XsPrep.IncludeIndex

open Files (Address Node Disk)
open Path (IsName relative ofParts join)

/-! ## Adding one target for each path -/

/-- A path for which always the same target is added has this target, however often it is added. -/
theorem targetsAdded_map (target : Text → Label) (paths : List Text) (path : Text) :
    targetsAdded (paths.map fun path => (path, target path)) path =
      if path ∈ paths then [target path] else [] := by
  have hmem : ∀ label, label ∈ targetsAdded (paths.map fun path => (path, target path)) path ↔
      path ∈ paths ∧ label = target path := by
    simp [mem_targetsAdded, eq_comm]
  split
  · rename_i hpath
    refine List.perm_singleton.mp ((List.perm_ext_iff_of_nodup (nodup_eraseDups _)
      (List.nodup_singleton _)).mpr fun label => (hmem label).trans ?_)
    rw [List.mem_singleton, and_iff_right hpath]
  · rename_i hpath
    exact List.eq_nil_iff_forall_not_mem.mpr fun label hlabel => hpath ((hmem label).mp hlabel).1

/-- The paths of the sources of a library. -/
def listed (disk : Disk) (root : Text) : List Text :=
  (Glob.expandBelow disk root true sourcePattern).getD []

variable {disk : Disk} {root repository rootTarget path : Text} {base : Address}

theorem get?_ofLibrary :
    (ofLibrary disk root repository rootTarget).get? path =
      if path ∈ listed disk root ∧ isPrivate path = false then
        some [libraryTarget repository rootTarget path] else none := by
  have hadditions : ofLibrary disk root repository rootTarget =
      ofAdditions (((listed disk root).filter (!isPrivate ·)).map fun path =>
        (path, libraryTarget repository rootTarget path)) := by
    rw [ofAdditions, List.foldl_map]
    rfl
  rw [hadditions, get?_ofAdditions, targetsAdded_map]
  simp only [List.mem_filter, Bool.not_eq_true']
  split
  · rw [if_neg (List.cons_ne_nil _ _)]
  · rw [if_pos rfl]

theorem mem_keys_ofLibrary :
    path ∈ (ofLibrary disk root repository rootTarget).keys ↔
      path ∈ listed disk root ∧ isPrivate path = false := by
  rw [← Table.contains_iff_mem_keys, Table.contains, get?_ofLibrary]
  split
  · rename_i h
    simp [h]
  · rename_i h
    simp [h]

theorem lookup_ofLibrary (h : path ∈ (ofLibrary disk root repository rootTarget).keys) :
    (ofLibrary disk root repository rootTarget).lookup path =
      .unique (libraryTarget repository rootTarget path) := by
  rw [lookup, targets, get?_ofLibrary, if_pos (mem_keys_ofLibrary.mp h)]
  rfl

theorem isPrivate_eq_false_iff :
    isPrivate path = false ↔
      ∀ part ∈ Path.parts path, part.head? ≠ some Byte.dot ∧ part.head? ≠ some Byte.underscore := by
  simp [isPrivate, isPrivatePart]

/-! ## Targets -/

variable {names : List Text} {name : Text}

theorem relative_eq_here_iff (hnames : Address.Proper names) :
    relative names = Path.here ↔ names = [] := by
  constructor
  · intro h
    by_contra hne
    have hparts := Path.parts_ofParts hnames hne
    rw [← Path.relative_eq hne, h] at hparts
    have hmem : Path.here ∈ names := hparts ▸ List.mem_cons_self
    exact (hnames _ hmem).2.1 rfl
  · rintro rfl
    rfl

/-- The directory of a file of a library, seen from the directory of the library. -/
def packageOf (path : Text) : Text :=
  if Path.directory path = Path.here then [] else Path.directory path

theorem packageOf_ofParts (hnames : Address.Proper names) (hname : IsName name) :
    packageOf (ofParts (names ++ [name])) = ofParts names := by
  rw [packageOf, Path.directory_ofParts hnames hname]
  by_cases hne : names = []
  · rw [hne]
    exact if_pos rfl
  · rw [if_neg (mt (relative_eq_here_iff hnames).mp hne), Path.relative_eq hne]

theorem libraryTarget_ofParts (hnames : Address.Proper names) (hname : IsName name) :
    libraryTarget repository rootTarget (ofParts (names ++ [name])) =
      ⟨repository, ofParts names, if names = [] then rootTarget else Path.base (ofParts names),
        false, false⟩ := by
  rw [libraryTarget, Path.directory_ofParts hnames hname]
  by_cases hne : names = []
  · rw [hne]
    exact if_pos rfl
  · rw [if_neg (mt (relative_eq_here_iff hnames).mp hne), Path.relative_eq hne, if_neg hne]

/-- With the target of the root named like its directory, all targets are named like theirs. -/
theorem libraryTarget_eq (h : disk.LeadsTo root base) (hnames : Address.Proper names)
    (hname : IsName name) :
    libraryTarget repository (Path.base root) (ofParts (names ++ [name])) =
      ⟨repository, ofParts names, Path.base (join [root, ofParts names]), false, false⟩ := by
  rw [libraryTarget_ofParts hnames hname]
  rcases List.eq_nil_or_concat' names with rfl | ⟨front, last, rfl⟩
  · have hjoin : join [root, ofParts []] = root := h.join_nil
    rw [hjoin, if_pos rfl]
  · have hlast : IsName last := hnames last (by simp)
    rw [if_neg (by simp), h.join_eq hnames, ← List.append_assoc, Path.base_path hlast,
      Path.base_ofParts hlast]

/-! ## Rules -/

open Build (Package Rule generate)

/-- Among the rules of a package there is a library with the given name, and it offers the file of
the package under the given path. -/
def IsOffered (repository : Build.Repository) (settings : Build.Settings) (package : Package)
    (target file path : Text) : Prop :=
  ∃ rule ∈ (generate repository settings package).value, rule.kind = .library ∧
    rule.name = target ∧ ∃ sources offered, rule.sources = some sources ∧
      rule.offers? package.path = some offered ∧ (file, path) ∈ sources.zip offered

theorem isOffered_of_isLibraryFile {repository : Build.Repository} {settings : Build.Settings}
    {package : Package} {file : Text}
    (h : Build.IsLibraryFile repository settings package file) :
    IsOffered repository settings package (Path.base (package.directory repository)) file
      (join [package.path, file]) := by
  have hmem := Build.mem_libraryOf.mpr h
  have hrule : (generate repository settings package).value = _ := Build.generate_value
  rw [if_neg (List.ne_nil_of_mem hmem)] at hrule
  refine ⟨_, hrule ▸ List.mem_append_left _ (List.mem_singleton_self _), rfl, rfl, _, _, rfl, rfl,
    ?_⟩
  show (file, join [package.path, file]) ∈ (Build.libraryOf repository settings package).zip
    ((Build.libraryOf repository settings package).map fun source => join [package.path, source])
  rw [← List.map_prod_left_eq_zip]
  exact List.mem_map_of_mem hmem

theorem hasSourceExtension_of_endsWith {file : Text}
    (h : Text.endsWith Glob.sourceEnding file = true) : Build.hasSourceExtension file = true := by
  rw [Text.endsWith, List.isSuffixOf_iff_suffix] at h
  obtain ⟨front, rfl⟩ := h
  have hextension : Path.extension (front ++ bytes ".xs") = bytes ".xs" :=
    Path.extension_append front (by decide) (by decide)
  rw [Glob.sourceEnding, Build.hasSourceExtension, hextension]
  decide

theorem mem_regularFiles (hdisk : disk.WellFormed) (h : disk.LeadsTo root base) {content : Text}
    (hmem : (base ++ (names ++ [name]), Node.file content) ∈ disk.nodes) :
    name ∈ Package.regularFiles disk (join [root, ofParts names]) := by
  rw [← List.append_assoc] at hmem
  have hnode := hdisk.node?_above hmem (List.cons_ne_nil _ _)
  rw [Package.regularFiles, h.address_join (hdisk.proper_of_directory hnode)
    (hdisk.walkWith_of_directory hnode)]
  exact List.mem_filterMap.mpr ⟨(name, .file content), hdisk.mem_entries.mpr hmem, rfl⟩

/-- A source in a directory that is searched for included files is offered under its path. -/
theorem isOffered_of_mem (hdisk : disk.WellFormed) (h : disk.LeadsTo root base) {content : Text}
    (hmem : (base ++ (names ++ [name]), Node.file content) ∈ disk.nodes)
    (hending : Text.endsWith Glob.sourceEnding name = true) {settings : Build.Settings}
    {package : Package} (hpath : package.path = ofParts names) (hlisted : package.listed = none)
    (hsearch : settings.isSearchDirectory package.path = true)
    (hexcluded : settings.isExcluded (ofParts (names ++ [name])) = false)
    (hparses : ∃ mentions,
      Build.parseSource disk (join [root, ofParts (names ++ [name])]) = .ok mentions) :
    IsOffered ⟨disk, root⟩ settings package (Path.base (join [root, ofParts names])) name
      (ofParts (names ++ [name])) := by
  have hproper : Address.Proper (names ++ [name]) := fun n hn =>
    hdisk.proper _ hmem n (List.mem_append_right _ hn)
  obtain ⟨hnames, hname⟩ := Path.proper_concat_iff.mp hproper
  have hjoin : join [package.path, name] = ofParts (names ++ [name]) := by
    rw [hpath, Path.join_ofParts hnames hname]
  have hdirectory : package.directory ⟨disk, root⟩ = join [root, ofParts names] := by
    rw [Package.directory, hpath]
  have hfile : join [package.directory ⟨disk, root⟩, name] =
      join [root, ofParts (names ++ [name])] := by
    rw [hdirectory, ← hjoin, hpath]
    refine (Path.join_join h.isAbsolute (Path.isAbsolute_ofParts hnames) ?_).symm
    have habsolute := Path.isAbsolute_ofParts hname.proper
    rwa [Path.ofParts_singleton] at habsolute
  obtain ⟨mentions, hparses⟩ := hparses
  have hsource : Build.IsSource ⟨disk, root⟩ settings package name (mentions.map Mention.name) := by
    refine ⟨?_, hasSourceExtension_of_endsWith hending, by rw [hjoin, hexcluded], ?_⟩
    · rw [Package.files, hlisted, hdirectory]
      exact mem_regularFiles hdisk h hmem
    · rw [Build.mentioned?, hfile, hparses]
      rfl
  have hoffered := isOffered_of_isLibraryFile ⟨⟨_, hsource⟩, .inl hsearch⟩
  rwa [hdirectory, hjoin] at hoffered

/-- The listing of a library has the regular files below its directory that have the ending of a
source. -/
def ListsSources (disk : Disk) (root : Text) (base : Address) : Prop :=
  ∀ path, path ∈ listed disk root ↔ Glob.IsSourceFile disk base path

theorem listsSources_of_plain (hdisk : disk.WellFormed) (h : disk.LeadsTo root base)
    (hplain : Glob.IsPlainTree disk base) : ListsSources disk root base :=
  fun _ => Glob.mem_expandBelow_of_plain hdisk h hplain

/-- The index of a library has the regular files with the ending of a source of which no component
is hidden or private.  Each has one target, and where rules are generated for its directory as one
that is searched, this is the library that offers the file. -/
theorem index_agrees_with_rules {disk : Disk} {directory : Text} {base : Address}
    (hdisk : disk.WellFormed) (hbase : disk.address (disk.absolute directory) = .ok base)
    (hdirectory : disk.node? base = some .directory)
    (hlists : ListsSources disk (disk.absolute directory) base) (repository : Text) :
    (∀ path, path ∈ (ofLibrary disk (disk.absolute directory) repository
        (Path.base (disk.absolute directory))).keys ↔
      Glob.IsSourceFile disk base path ∧
        ∀ part ∈ Path.parts path, part.head? ≠ some Byte.dot ∧ part.head? ≠ some Byte.underscore) ∧
    ∀ path ∈ (ofLibrary disk (disk.absolute directory) repository
        (Path.base (disk.absolute directory))).keys,
      ∃ target,
        (ofLibrary disk (disk.absolute directory) repository
          (Path.base (disk.absolute directory))).lookup path =
            .unique ⟨repository, packageOf path, target, false, false⟩ ∧
        ∀ (settings : Build.Settings) (package : Package), package.path = packageOf path →
          package.listed = none → settings.isSearchDirectory package.path = true →
          settings.isExcluded path = false →
          (∃ mentions, Build.parseSource disk (join [disk.absolute directory, path]) =
            .ok mentions) →
          IsOffered ⟨disk, disk.absolute directory⟩ settings package target (Path.base path)
            path := by
  have hleads := Disk.leadsTo_absolute hbase hdirectory
  have hkeys : ∀ path, path ∈ (ofLibrary disk (disk.absolute directory) repository
      (Path.base (disk.absolute directory))).keys ↔
      Glob.IsSourceFile disk base path ∧ isPrivate path = false := fun path => by
    rw [mem_keys_ofLibrary, hlists path]
  refine ⟨fun path => by rw [hkeys, isPrivate_eq_false_iff], fun path hpath => ?_⟩
  obtain ⟨⟨names, content, rfl, hmem, hending⟩, -⟩ := (hkeys path).mp hpath
  rcases List.eq_nil_or_concat' names with rfl | ⟨names, name, rfl⟩
  · -- A directory stands at the base.
    rw [List.append_nil] at hmem
    rw [hdisk.node?_of_mem hmem] at hdirectory
    cases hdirectory
  · have hproper : Address.Proper (names ++ [name]) := fun n hn =>
      hdisk.proper _ hmem n (List.mem_append_right _ hn)
    obtain ⟨hnames, hname⟩ := Path.proper_concat_iff.mp hproper
    have hslash : Byte.slash ∉ Glob.sourceEnding := by decide +kernel
    rw [Glob.endsWith_ofParts hslash] at hending
    rw [packageOf_ofParts hnames hname, Path.base_ofParts hname]
    refine ⟨Path.base (join [disk.absolute directory, ofParts names]), ?_, ?_⟩
    · rw [lookup_ofLibrary hpath, libraryTarget_eq hleads hnames hname]
    · intro settings package hpackage hlisted hsearch hexcluded hparses
      exact isOffered_of_mem hdisk hleads hmem hending hpackage hlisted hsearch hexcluded hparses

/-- A library with two packages of the same name, one below the other, and with private files. -/
def nested : Disk where
  workingDirectory := [bytes "w"]
  nodes := [([bytes "w"], .directory), ([bytes "w", bytes "lib"], .directory),
    ([bytes "w", bytes "lib", bytes "core.xs"], .file []),
    ([bytes "w", bytes "lib", bytes "ai"], .directory),
    ([bytes "w", bytes "lib", bytes "ai", bytes "ai"], .directory),
    ([bytes "w", bytes "lib", bytes "ai", bytes "a.xs"], .file []),
    ([bytes "w", bytes "lib", bytes "ai", bytes "ai", bytes "a.xs"],
      .file (bytes "#include \"core.xs\"\n")),
    ([bytes "w", bytes "lib", bytes "ai", bytes "_draft.xs"], .file []),
    ([bytes "w", bytes "lib", bytes ".git"], .directory),
    ([bytes "w", bytes "lib", bytes ".git", bytes "hook.xs"], .file [])]

theorem isPlainTree_nested : Glob.IsPlainTree nested [bytes "w", bytes "lib"] where
  noLink := by simp [nested]
  isValid := by
    have hascii : ∀ e ∈ nested.nodes, ∀ name ∈ e.1, ∀ b ∈ name, b < 0x80 := by decide +kernel
    intro names node hmem name hname
    exact .of_ascii (hascii _ hmem name (List.mem_append_right _ hname))

/-- The settings of a repository where all directories of `nested` are searched. -/
def searched : Build.Settings :=
  { Build.Settings.empty with includeDirectories := [[], bytes "ai", bytes "ai/ai"] }

/-- The inner one of the packages with the same name. -/
theorem index_agrees_with_rules_nested :
    (nested.WellFormed ∧
      nested.address (nested.absolute (bytes "lib")) = .ok [bytes "w", bytes "lib"] ∧
      nested.node? [bytes "w", bytes "lib"] = some .directory ∧
      ListsSources nested (nested.absolute (bytes "lib")) [bytes "w", bytes "lib"]) ∧
    (∃ target,
      (ofLibrary nested (nested.absolute (bytes "lib")) (bytes "r")
        (Path.base (nested.absolute (bytes "lib")))).lookup (bytes "ai/ai/a.xs") =
          .unique ⟨bytes "r", bytes "ai/ai", target, false, false⟩ ∧
      IsOffered ⟨nested, nested.absolute (bytes "lib")⟩ searched { path := bytes "ai/ai" } target
        (bytes "a.xs") (bytes "ai/ai/a.xs")) := by
  have hdisk : nested.WellFormed := by decide +kernel
  have hbase : nested.address (nested.absolute (bytes "lib")) = .ok [bytes "w", bytes "lib"] := by
    decide +kernel
  have hdirectory : nested.node? [bytes "w", bytes "lib"] = some .directory := by decide +kernel
  have hlists := listsSources_of_plain hdisk (Disk.leadsTo_absolute hbase hdirectory)
    isPlainTree_nested
  refine ⟨⟨hdisk, hbase, hdirectory, hlists⟩, ?_⟩
  obtain ⟨hkeys, hrules⟩ := index_agrees_with_rules hdisk hbase hdirectory hlists (bytes "r")
  have hsource : Glob.IsSourceFile nested [bytes "w", bytes "lib"] (bytes "ai/ai/a.xs") := by
    refine ⟨[bytes "ai", bytes "ai", bytes "a.xs"], bytes "#include \"core.xs\"\n", ?_⟩
    decide +kernel
  have hkey := (hkeys (bytes "ai/ai/a.xs")).mpr ⟨hsource, by decide +kernel⟩
  have hpackage : packageOf (bytes "ai/ai/a.xs") = bytes "ai/ai" := by decide +kernel
  have hname : Path.base (bytes "ai/ai/a.xs") = bytes "a.xs" := by decide +kernel
  obtain ⟨target, hlookup, hoffered⟩ := hrules _ hkey
  rw [hpackage] at hlookup hoffered
  rw [hname] at hoffered
  refine ⟨target, hlookup, hoffered searched { path := bytes "ai/ai" } rfl rfl ?_ ?_ ?_⟩
  · decide +kernel
  · decide +kernel
  · refine ⟨[⟨bytes "core.xs", ⟨9, 1, 10⟩⟩], ?_⟩
    decide +kernel

end XsPrep.IncludeIndex
