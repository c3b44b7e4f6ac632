import ModuleAudit.Proofs.Graph.Build
import ModuleAudit.Proofs.Scan

/-
One name for each file.

Files are named in two places.  A scan puts the path of a file together from the directory and the
names on the way down.  A relative specifier is joined to the folder of the importing file, collapsed,
and completed with an index file or an extension.  Both end at a canonical path below the same root,
and a canonical path has one text.  So a specifier that leads to a file of the scan gives the very text
that the scan lists.
-/

namespace ModuleAudit

open Session

/-- A file that a scan of the directory is to list: it lies behind folders that are not skipped and
has one of the extensions. -/
structure Scan.Eligible (disk : Disk) (f : Filter) (directory : Path) (file : String) : Prop where
  isFile : disk.isFile file = true
  below : ∃ folders name, (Path.ofString file).names = directory.names ++ (folders ++ [name]) ∧
    ∀ folder ∈ folders, f.skipsFolder folder = false
  taken : (Path.ofString file).suffix ∈ f.extensions

section

variable {disk : Disk} (hd : disk.WellFormed) {f : Scan.Filter} {path : String}

include hd

theorem Scan.Eligible.mem_directory {p : Path} (hp : p.Canonical)
    (hroot : p.root = (disk.cwd.absolute (.ofString path)).root)
    (h : Eligible disk f (disk.cwd.absolute (.ofString path)) p.toString) :
    p.toString ∈ (directory disk f path).1 := by
  obtain ⟨hfile, ⟨folders, name, hnames, hfolders⟩, htaken⟩ := h
  rw [Path.ofString_toString hp.proper] at hnames htaken
  have hextend : p = (disk.cwd.absolute (.ofString path)).extend (folders ++ [name]) := by
    rw [Path.extend, ← hroot, ← hnames]
  refine (mem_directory_iff hd).mpr ⟨folders ++ [name], ?_, ?_, ⟨?_, ?_⟩, ?_⟩
  · exact List.append_ne_nil_of_right_ne_nil _ (List.cons_ne_nil _ _)
  · rw [← hnames]
    exact (hd.isFile_toString_iff hp).mp hfile
  · rw [List.dropLast_concat]
    exact hfolders
  · rw [← hextend]
    exact List.contains_iff_mem.mpr htaken
  · rw [← hextend]

theorem Specifier.exists_identity_of_mem_directory
    (hext : ∀ ext ∈ f.extensions, '/' ∉ ext.toList) {base : String}
    (hbase : base ∈ (Scan.directory disk f path).1) {specifier : String}
    (hrel : isRelative specifier = true) :
    ∃ p : Path, p.Canonical ∧ p.root = (disk.cwd.absolute (.ofString path)).root ∧
      (locate disk f.extensions base specifier).identity = p.toString := by
  obtain ⟨q, hq, rfl⟩ := Scan.exists_source_of_mem_directory hd hbase
  obtain ⟨p, hp, hroot, hidentity⟩ := exists_canonical_identity hd hext q.toString hrel
  rw [Path.ofString_toString hq.canonical.proper, hq.canonical.absolute_eq] at hroot
  exact ⟨p, hp, hroot.trans hq.root_eq, hidentity⟩

/-- An import that is to be listed is listed. -/
theorem Specifier.identity_mem_directory
    (hext : ∀ ext ∈ f.extensions, '/' ∉ ext.toList) {base : String}
    (hbase : base ∈ (Scan.directory disk f path).1) {specifier : String}
    (hrel : isRelative specifier = true)
    (h : Scan.Eligible disk f (disk.cwd.absolute (.ofString path))
      (locate disk f.extensions base specifier).identity) :
    (locate disk f.extensions base specifier).identity ∈ (Scan.directory disk f path).1 := by
  obtain ⟨p, hp, hroot, hidentity⟩ := exists_identity_of_mem_directory hd hext hbase hrel
  rw [hidentity] at h ⊢
  exact Scan.Eligible.mem_directory hd hp hroot h

end

namespace Specifier

theorem run_resolve (disk : Disk) (extensions : List String) (prefetch : Bool)
    (base specifier : String) (s : Session) :
    ((resolve disk extensions prefetch base specifier).run s).1 =
      (locate disk extensions base specifier).identity :=
  (Imports.meets_resolve (stable_true disk) extensions prefetch base specifier s trivial).1

/-- Resolving and scanning agree on the names of files.  From a file of a scan, a relative specifier
gives an absolute path in normal form.  If the file there is one that the scan is to list, the scan lists
this very path, and so every import of such a file leads to a module that the graph holds. -/
theorem resolve_mem_directory {disk : Disk} (hd : disk.WellFormed) {config : Config}
    (hext : ∀ ext ∈ config.filter.extensions, '/' ∉ ext.toList) :
    (∀ base ∈ (Scan.directory disk config.filter config.sourceDir).1, ∀ specifier,
      isRelative specifier = true → ∀ prefetch s, ∃ r,
        ((resolve disk config.filter.extensions prefetch base specifier).run s).1 = r ∧
        (Path.ofString r).isRooted = true ∧ Path.normalize r = r ∧
        (Scan.Eligible disk config.filter (disk.cwd.absolute (.ofString config.sourceDir)) r →
          r ∈ (Scan.directory disk config.filter config.sourceDir).1)) ∧
    ∀ strategy s s' files g,
      (Analysis.scanAndBuild disk strategy config).run.run s = (.ok (files, g), s') →
        ∀ m d, g.Edge m d →
          Scan.Eligible disk config.filter (disk.cwd.absolute (.ofString config.sourceDir)) d →
            g.contains d = true := by
  constructor
  · intro base hbase specifier hrel prefetch s
    obtain ⟨p, hp, -, hidentity⟩ := exists_identity_of_mem_directory hd hext hbase hrel
    refine ⟨_, run_resolve disk _ prefetch base specifier s, ?_, ?_, ?_⟩
    · rw [hidentity, Path.ofString_toString hp.proper]
      exact hp.rooted
    · rw [hidentity, hp.normalize_toString]
    · exact identity_mem_directory hd hext hbase hrel
  · intro strategy s s' files g hbuild m d hedge heligible
    obtain ⟨rfl, hg⟩ := Graph.scanned_of_scanAndBuild hbuild
    have hm : m ∈ (Scan.directory disk config.filter config.sourceDir).1 :=
      (hg.contains_iff m).mp hedge.contains
    obtain ⟨specifier, hrel, rfl⟩ := hg.imports m hm d hedge
    exact (hg.contains_iff _).mpr (identity_mem_directory hd hext hm hrel heligible)

/-- A folder with an index file and a file beside it, and a file above the folder. -/
def library : Disk where
  root := .folder [("src", .folder [("index.js", .file []),
    ("lib", .folder [("x.js", .file []), ("index.js", .file [])])])]
  cwd := ⟨.slash, ["src"]⟩

/-- The usual settings, for the working directory. -/
def libraryConfig : Config := {}

theorem wellFormed_library : library.WellFormed :=
  Disk.wellFormed_of_isWellFormed rfl (by decide) (by decide)

theorem absolute_library :
    library.cwd.absolute (.ofString libraryConfig.sourceDir) = ⟨.slash, ["src"]⟩ := by
  decide

theorem mem_directory_library (names : List String) (hne : names ≠ [])
    (hfile : library.root.HoldsFile ("src" :: names))
    (hpasses : Scan.Passes libraryConfig.filter ⟨.slash, ["src"]⟩ names) :
    Path.toString ⟨.slash, "src" :: names⟩ ∈
      (Scan.directory library libraryConfig.filter libraryConfig.sourceDir).1 := by
  refine (Scan.mem_directory_iff wellFormed_library).mpr ⟨names, hne, ?_⟩
  rw [absolute_library]
  exact ⟨hfile, hpasses, rfl⟩

/-- Three specifiers for one file, and the scan lists it under the name that they all give. -/
theorem resolve_mem_directory_library :
    library.WellFormed ∧ (∀ ext ∈ libraryConfig.filter.extensions, '/' ∉ ext.toList) ∧
      (∀ p ∈ [("/src/index.js", "./lib"), ("/src/lib/x.js", "./index.js"),
          ("/src/index.js", "./lib/../lib/index")],
        p.1 ∈ (Scan.directory library libraryConfig.filter libraryConfig.sourceDir).1 ∧
        isRelative p.2 = true ∧
        ((resolve library Scan.sourceExtensions true p.1 p.2).run (.ofCache (.empty 500))).1 =
          "/src/lib/index.js") ∧
      Scan.Eligible library libraryConfig.filter
        (library.cwd.absolute (.ofString libraryConfig.sourceDir)) "/src/lib/index.js" ∧
      "/src/lib/index.js" ∈
        (Scan.directory library libraryConfig.filter libraryConfig.sourceDir).1 := by
  have hext : ∀ ext ∈ libraryConfig.filter.extensions, '/' ∉ ext.toList := by decide
  have hlib : libraryConfig.filter.skipsFolder "lib" = false := by decide +kernel
  have hindex : "/src/index.js" ∈
      (Scan.directory library libraryConfig.filter libraryConfig.sourceDir).1 :=
    mem_directory_library ["index.js"] (by decide) ⟨[], rfl⟩ ⟨by decide, by decide⟩
  have hx : "/src/lib/x.js" ∈
      (Scan.directory library libraryConfig.filter libraryConfig.sourceDir).1 :=
    mem_directory_library ["lib", "x.js"] (by decide) ⟨[], rfl⟩
      ⟨List.forall_mem_singleton.mpr hlib, by decide⟩
  have heligible : Scan.Eligible library libraryConfig.filter
      (library.cwd.absolute (.ofString libraryConfig.sourceDir)) "/src/lib/index.js" := by
    rw [absolute_library]
    exact ⟨by decide, ⟨["lib"], "index.js", by decide, List.forall_mem_singleton.mpr hlib⟩,
      by decide⟩
  have hresolve : ((resolve library Scan.sourceExtensions true "/src/index.js" "./lib").run
      (.ofCache (.empty 500))).1 = "/src/lib/index.js" := by
    rw [run_resolve]
    decide
  have hup : ((resolve library Scan.sourceExtensions true "/src/lib/x.js" "./index.js").run
      (.ofCache (.empty 500))).1 = "/src/lib/index.js" := by
    rw [run_resolve]
    decide
  have haround : ((resolve library Scan.sourceExtensions true "/src/index.js"
      "./lib/../lib/index").run (.ofCache (.empty 500))).1 = "/src/lib/index.js" := by
    rw [run_resolve]
    decide
  obtain ⟨r, hr, -, -, hlisted⟩ := (resolve_mem_directory wellFormed_library hext).1
    "/src/index.js" hindex "./lib" rfl true (.ofCache (.empty 500))
  have hsame : r = "/src/lib/index.js" := hr.symm.trans hresolve
  refine ⟨wellFormed_library, hext, ?_, heligible, hsame ▸ hlisted (hsame ▸ heligible)⟩
  simp only [List.forall_mem_cons, List.not_mem_nil, false_implies, implies_true, and_true]
  exact ⟨⟨hindex, rfl, hresolve⟩, ⟨hx, rfl, hup⟩, hindex, rfl, haround⟩

end Specifier
end ModuleAudit
