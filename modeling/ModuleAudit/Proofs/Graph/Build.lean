import ModuleAudit.Analysis
import ModuleAudit.Proofs.Graph.Addition
import ModuleAudit.Proofs.Imports
import ModuleAudit.Proofs.Scan

/-
The graph that is built of some files.

Such a graph comes from adding the files one after the other, each with its imports: `Assembled` says
so, for a property `Q` of a file and its imports.  `Built` is what is left of this without the order:
the graph holds the files and nothing else.  The property is what the disk gives where the cache can be
trusted, and what every run gives otherwise.
-/

namespace ModuleAudit
namespace Graph

open Session

/-- The graph holds `files`, and `Q` relates every one of them to its imports. -/
structure Built (files : List String) (Q : String → List String → Prop) (g : Graph) : Prop where
  contains_iff : ∀ m, g.contains m = true ↔ m ∈ files
  imports : ∀ m ∈ files, Q m (g.dependencies m)

theorem exists_canonical_resolveEntry {disk : Disk} (hd : disk.WellFormed) (entry dir : String) :
    ∃ p : Path, p.Canonical ∧ resolveEntry disk.cwd entry dir = p.toString :=
  ⟨_, Path.canonical_collapse_join (hd.cwd.absolute (Path.proper_ofString dir))
    (Path.proper_ofString entry), rfl⟩

theorem resolveEntry_toString {p : Path} (hp : p.Canonical) (cwd : Path) (dir : String) :
    resolveEntry cwd p.toString dir = p.toString := by
  rw [resolveEntry, Path.ofString_toString hp.proper, Path.join, if_pos hp.rooted, hp.collapse_eq]

/-- The way from the source directory to a path, looked up from the source directory. -/
theorem resolveEntry_relative {cwd p : Path} (hcwd : cwd.Canonical) (hp : p.Canonical) {dir : String}
    (hroot : (cwd.absolute (.ofString dir)).root = p.root) :
    resolveEntry cwd (Path.relative cwd p.toString dir) dir = p.toString := by
  have hdir : (cwd.absolute (.ofString dir)).Canonical := hcwd.absolute (Path.proper_ofString dir)
  rw [resolveEntry, hp.relative_toString, Path.ofString_toString (Path.proper_relativeTo hp _),
    Path.join_relativeTo hp hdir hroot]

theorem contains_empty (files : List String) (version : Int) (m : String) :
    (Graph.empty files version).contains m = false := rfl

/-- The graph was given `files` one after the other, each with imports that `Q` relates to it. -/
def Assembled (files : List String) (Q : String → List String → Prop) (g : Graph) : Prop :=
  ∃ version, ∃ additions : List Addition, additions.map (·.name) = files ∧
    (∀ a ∈ additions, Q a.name a.imports) ∧ g = (empty files version).addAll additions

theorem Assembled.built {files : List String} {Q : String → List String → Prop} {g : Graph}
    (h : Assembled files Q g) : Built files Q g := by
  obtain ⟨version, additions, rfl, himports, rfl⟩ := h
  refine ⟨fun m => ?_, fun m hm => ?_⟩
  · rw [contains_addAll, contains_empty, or_iff_right Bool.false_ne_true]
  · obtain ⟨a, ha, rfl⟩ := List.mem_map.mp hm
    have hne : listsOf a.name additions ≠ [] :=
      List.ne_nil_of_mem (mem_listsOf.mpr ⟨a, ha, rfl, rfl⟩)
    obtain ⟨b, hb, hname, hlast⟩ := mem_listsOf.mp (List.getLast_mem hne)
    rw [dependencies_addAll, List.getLast?_eq_some_getLast hne, Option.getD_some, ← hlast, ← hname]
    exact himports b hb

section

variable {disk : Disk} {I : Session → Prop} {E : Prop} {extensions : List String}
  {strategy : Strategy} {Q : String → List String → Prop}

theorem returns_addFiles {files : List String}
    (hfile : ∀ f ∈ files, Returns I E (Imports.ofFile disk extensions strategy f) (Q f))
    (g : Graph) :
    Returns I E (addFiles disk extensions strategy g files) fun built =>
      ∃ additions : List Addition, additions.map (·.name) = files ∧
        (∀ a ∈ additions, Q a.name a.imports) ∧ built = g.addAll additions := by
  induction files generalizing g with
  | nil => exact Returns.pure ⟨[], rfl, fun a ha => absurd ha List.not_mem_nil, rfl⟩
  | cons file rest ih =>
    refine (hfile file List.mem_cons_self).bind fun imports hQ => ?_
    refine (ih (fun f hf => hfile f (List.mem_cons_of_mem _ hf)) _).mono ?_
    rintro built ⟨additions, hnames, himports, hbuilt⟩
    refine ⟨⟨g.version + 1, file, imports⟩ :: additions, ?_, ?_, hbuilt⟩
    · rw [List.map_cons, hnames]
    · exact List.forall_mem_cons.mpr ⟨hQ, himports⟩

theorem returns_build (hI : Stable disk I) {files : List String}
    (hfile : ∀ f ∈ files, Returns I E (Imports.ofFile disk extensions strategy f) (Q f)) :
    Returns I E (build disk extensions strategy files) (Assembled files Q) := by
  refine (returns_addFiles hfile _).bind ?_
  rintro g ⟨additions, hnames, himports, hg⟩
  exact (Returns.lift (hI.meets_note _)).bind fun _ _ =>
    Returns.pure ⟨1, additions, hnames, himports, hg⟩

theorem returns_scanAndBuild_assembled (hI : Stable disk I) {config : Config}
    (hfile : ∀ f,
      Returns I E (Imports.ofFile disk config.filter.extensions strategy f) (Q f)) :
    Returns I E (Analysis.scanAndBuild disk strategy config) fun found =>
      found.1 = (Scan.directory disk config.filter config.sourceDir).1 ∧
        Assembled found.1 Q found.2 := by
  unfold Analysis.scanAndBuild
  generalize Scan.directory disk config.filter config.sourceDir = scan
  refine (Returns.lift (hI.meets_note _)).bind fun _ _ => ?_
  refine (returns_build hI fun f _ => hfile f).bind fun g hg => ?_
  exact Returns.pure ⟨rfl, hg⟩

theorem returns_scanAndBuild (hI : Stable disk I) {config : Config}
    (hfile : ∀ f,
      Returns I E (Imports.ofFile disk config.filter.extensions strategy f) (Q f)) :
    Returns I E (Analysis.scanAndBuild disk strategy config) fun found =>
      found.1 = (Scan.directory disk config.filter config.sourceDir).1 ∧
        Built found.1 Q found.2 :=
  (returns_scanAndBuild_assembled hI hfile).mono fun _ h => ⟨h.1, h.2.built⟩

end

/-- Through a cache that agrees with the disk, the imports in the graph are those on disk. -/
theorem returns_ofFile_onDisk {disk : Disk} {strategy : Strategy} (htotal : strategy.Total)
    (extensions : List String) (f : String) :
    Returns (fun s => s.cache.Faithful disk) False (Imports.ofFile disk extensions strategy f)
      (· = Imports.onDisk disk extensions strategy f) := by
  refine (Imports.gives_ofFile disk extensions strategy f).returns ?_
  rw [Imports.direct_eq_onDisk htotal]
  exact .ok rfl

/-- Every import is what a relative specifier stands for in the file. -/
def Specified (disk : Disk) (extensions : List String) (f : String) (imports : List String) :
    Prop :=
  ∀ d ∈ imports, ∃ specifier, Specifier.isRelative specifier = true ∧
    (Specifier.locate disk extensions f specifier).identity = d

/-- Whatever the cache holds, imports come from relative specifiers. -/
theorem returns_ofFile_specified (disk : Disk) (extensions : List String) (strategy : Strategy)
    (f : String) :
    Returns (fun _ => True) True (Imports.ofFile disk extensions strategy f)
      (Specified disk extensions f) := by
  refine Imports.returns_ofFile (stable_true disk) extensions strategy f ?_ ?_
  · exact fun d hd => absurd hd List.not_mem_nil
  · intro content
    cases htext : Imports.ofText disk extensions strategy f content with
    | error fault => exact .error trivial
    | ok imports => exact .ok fun d hd => Imports.exists_specifier_of_ofText htext hd

theorem scanned_of_scanAndBuild {disk : Disk} {strategy : Strategy} {config : Config}
    {s s' : Session} {files : List String} {g : Graph}
    (h : (Analysis.scanAndBuild disk strategy config).run.run s = (.ok (files, g), s')) :
    files = (Scan.directory disk config.filter config.sourceDir).1 ∧
      Built files (Specified disk config.filter.extensions) g := by
  have hbuilt := (returns_scanAndBuild (stable_true disk)
    (returns_ofFile_specified disk config.filter.extensions strategy) s trivial).1
  rw [h] at hbuilt
  cases hbuilt with
  | ok hfound => exact hfound

theorem Built.normalize_of_edge {disk : Disk} (hd : disk.WellFormed) {extensions : List String}
    (hext : ∀ ext ∈ extensions, '/' ∉ ext.toList) {files : List String} {g : Graph}
    (h : Built files (Specified disk extensions) g) {m d : String} (he : g.Edge m d) :
    Path.normalize d = d := by
  have hm : m ∈ files := (h.contains_iff m).mp he.contains
  obtain ⟨specifier, hrel, rfl⟩ := h.imports m hm d he
  obtain ⟨p, hp, -, hidentity⟩ := Specifier.exists_canonical_identity hd hext _ hrel
  rw [hidentity, hp.normalize_toString]

/-- The imports of a built graph are those of its files. -/
theorem Built.edge_iff {files : List String} {imports : String → List String} {g : Graph}
    (h : Built files (fun m found => found = imports m) g) {m d : String} :
    g.Edge m d ↔ m ∈ files ∧ d ∈ imports m := by
  constructor
  · intro he
    have hm : m ∈ files := (h.contains_iff m).mp he.contains
    rw [← h.imports m hm]
    exact ⟨hm, he⟩
  · rintro ⟨hm, hd⟩
    rw [Edge, h.imports m hm]
    exact hd

/-! ## Straight from disk -/

section

variable (disk : Disk) (extensions : List String) (strategy : Strategy)

/-- Adds files to a graph, with every read going to disk. -/
def addDirect (g : Graph) : List String → Except Strategy.Fault Graph
  | [] => .ok g
  | file :: rest => do
    let imports ← Imports.direct disk extensions strategy file
    addDirect (g.addModule (g.version + 1) file imports) rest

def direct (files : List String) : Except Strategy.Fault Graph :=
  addDirect disk extensions strategy (.empty files 1) files

theorem gives_addFiles (g : Graph) (files : List String) :
    Gives (fun s => s.cache.Faithful disk) (addFiles disk extensions strategy g files)
      (addDirect disk extensions strategy g files) := by
  induction files generalizing g with
  | nil => exact Gives.pure g
  | cons file rest ih =>
    exact (Imports.gives_ofFile disk extensions strategy file).bind fun imports => ih _

theorem gives_build (files : List String) :
    Gives (fun s => s.cache.Faithful disk) (build disk extensions strategy files)
      (direct disk extensions strategy files) := by
  have hadd := (gives_addFiles disk extensions strategy (.empty files 1) files).bind fun g =>
    ((stable_faithful disk).gives_note
      [.graphBuilt g.version.toNat g.forward.length g.edgeCount]).bind fun _ => Gives.pure g
  have hsame : (direct disk extensions strategy files >>= fun g => (.ok () >>= fun _ => .ok g)) =
      direct disk extensions strategy files := by
    cases direct disk extensions strategy files <;> rfl
  rw [← hsame]
  exact hadd

end

theorem exists_additions_of_addDirect {disk : Disk} {extensions : List String} {strategy : Strategy}
    {g built : Graph} {files : List String}
    (h : addDirect disk extensions strategy g files = .ok built) :
    ∃ additions : List Addition, additions.map (·.name) = files ∧ built = g.addAll additions := by
  induction files generalizing g with
  | nil =>
    cases h
    exact ⟨[], rfl, rfl⟩
  | cons file rest ih =>
    rw [addDirect] at h
    cases himports : Imports.direct disk extensions strategy file with
    | error fault =>
      rw [himports] at h
      cases h
    | ok imports =>
      rw [himports] at h
      obtain ⟨additions, hnames, hbuilt⟩ := ih h
      refine ⟨⟨g.version + 1, file, imports⟩ :: additions, ?_, hbuilt⟩
      rw [List.map_cons, hnames]

theorem built_of_direct {disk : Disk} {extensions : List String} {strategy : Strategy} {g : Graph}
    {files : List String} (h : direct disk extensions strategy files = .ok g) :
    g.Built files fun _ _ => True := by
  obtain ⟨additions, hnames, hg⟩ := exists_additions_of_addDirect h
  exact Assembled.built ⟨1, additions, hnames, fun _ _ => trivial, hg⟩

end Graph
end ModuleAudit
