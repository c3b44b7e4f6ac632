import ModuleAudit.Analysis
import ModuleAudit.Proofs.Cycle.Complete
import ModuleAudit.Proofs.Package
import ModuleAudit.Proofs.Rendering

/-
What an analysis finds, said without its graph, its session and its searches.

The findings are stated about the files of the scan and the imports that are on disk: whether the
imports among the files go round, which files no chain of imports from the entry comes to, and
which packages no file mentions.
-/

namespace ModuleAudit
namespace Analysis

open Session

/-- The files that are analysed. -/
def scanned (disk : Disk) (config : Config) : List String :=
  (Scan.directory disk config.filter config.sourceDir).1

/-- The modules that a file imports. -/
def imported (disk : Disk) (strategy : Strategy) (config : Config) (file : String) : List String :=
  Imports.onDisk disk config.filter.extensions strategy file

def sourceDir (disk : Disk) (config : Config) : String :=
  (disk.cwd.absolute (.ofString config.sourceDir)).toString

/-- The module that chains of imports start from. -/
def entry (disk : Disk) (config : Config) (manifest : Option Manifest) : String :=
  Graph.resolveEntry disk.cwd (Manifest.entryPoint manifest config.entryPoint)
    (sourceDir disk config)

/-- A scanned file imports a scanned file. -/
def Links (disk : Disk) (strategy : Strategy) (config : Config) (f d : String) : Prop :=
  f ∈ scanned disk config ∧ d ∈ scanned disk config ∧ d ∈ imported disk strategy config f

/-- The imports among the scanned files go round. -/
def HasCycle (disk : Disk) (strategy : Strategy) (config : Config) : Prop :=
  ∃ f, Relation.TransGen (Links disk strategy config) f f

/-- A chain from the entry, over modules on disk, ends at `f`.  Before its end it runs through
scanned files, and `names` says which module an imported identity stands for. -/
def Reached (names : String → String) (disk : Disk) (strategy : Strategy) (config : Config)
    (manifest : Option Manifest) (f : String) : Prop :=
  Chain (disk.holds · = true)
    (fun m n => m ∈ scanned disk config ∧ ∃ d ∈ imported disk strategy config m, names d = n)
    (entry disk config manifest) f

def isTest (disk : Disk) (config : Config) (f : String) : Bool :=
  TestFile.isTest disk.cwd f config.testDir (sourceDir disk config)

/-- A scanned file that is no test and that no chain ends at. -/
def HasDeadFile (names : String → String) (disk : Disk) (strategy : Strategy) (config : Config)
    (manifest : Option Manifest) : Prop :=
  ∃ f ∈ scanned disk config, isTest disk config f = false ∧
    ¬ Reached names disk strategy config manifest f

/-- A declared package that no scanned file mentions, of those that can be read. -/
def HasUnusedPackage (disk : Disk) (config : Config) (manifest : Option Manifest) : Prop :=
  ∃ name ∈ Manifest.dependencies manifest, ∀ f ∈ scanned disk config, ∀ text,
    disk.readText f = .ok text → ¬ Package.Mentions text name

/-- The report shows what is to be found. -/
structure Found (disk : Disk) (strategy : Strategy) (config : Config)
    (manifest : Option Manifest) (r : Report) : Prop where
  cycles : r.cycles ≠ [] ↔ HasCycle disk strategy config
  unusedModules : r.unusedModules ≠ [] ↔
    HasDeadFile Path.normalize disk strategy config manifest
  unusedPackages : r.unusedPackages ≠ [] ↔ HasUnusedPackage disk config manifest

section

variable {disk : Disk} (hd : disk.WellFormed) {strategy : Strategy} {config : Config}
  {manifest : Option Manifest} {g : Graph}
  (hg : g.Built (scanned disk config) fun m found => found = imported disk strategy config m)

include hg

theorem links_of_edges {f d : String} (h : Relation.TransGen g.Edge f d)
    (hd : d ∈ scanned disk config) : Relation.TransGen (Links disk strategy config) f d := by
  induction h with
  | single he =>
    obtain ⟨hf, himported⟩ := hg.edge_iff.mp he
    exact .single ⟨hf, hd, himported⟩
  | tail _ he ih =>
    obtain ⟨hf, himported⟩ := hg.edge_iff.mp he
    exact .tail (ih hf) ⟨hf, hd, himported⟩

theorem all_ne_nil_iff : Cycle.all g ≠ [] ↔ HasCycle disk strategy config := by
  rw [Ne, Cycle.all_eq_nil_iff, not_forall]
  refine exists_congr fun f => ?_
  rw [not_not, Graph.Cyclic]
  constructor
  · intro h
    obtain ⟨d, he, -⟩ := Relation.TransGen.head'_iff.mp h
    exact links_of_edges hg h (hg.edge_iff.mp he).1
  · exact Relation.TransGen.mono (fun _ _ hl => hg.edge_iff.mpr ⟨hl.1, hl.2.2⟩) _ _

theorem leads_iff {m n : String} :
    g.Leads m n ↔ m ∈ scanned disk config ∧
      ∃ d ∈ imported disk strategy config m, Path.normalize d = n := by
  constructor
  · rintro ⟨d, hd, hn⟩
    obtain ⟨hm, hd⟩ := hg.edge_iff.mp hd
    exact ⟨hm, d, hd, hn⟩
  · rintro ⟨hm, d, hd, hn⟩
    exact ⟨d, hg.edge_iff.mpr ⟨hm, hd⟩, hn⟩

include hd

/-- The trace of the graph comes to the files that chains of imports come to. -/
theorem mem_trace_iff {f : String} :
    f ∈ g.trace disk.holds (entry disk config manifest) [] ↔
      Reached Path.normalize disk strategy config manifest f := by
  obtain ⟨p, hp, hentry⟩ := Graph.exists_canonical_resolveEntry hd
    (Manifest.entryPoint manifest config.entryPoint) (sourceDir disk config)
  have hnormal : Path.normalize (entry disk config manifest) = entry disk config manifest := by
    rw [entry, hentry, hp.normalize_toString]
  rw [Graph.mem_trace, or_iff_right List.not_mem_nil, hnormal]
  constructor
  · intro h
    exact (h.mono (fun _ hx => hx.1) fun _ _ _ hxy _ => (leads_iff hg).mp hxy).1
  · intro h
    exact (h.mono (fun _ hx => ⟨hx, List.not_mem_nil⟩) fun _ _ _ hxy _ => (leads_iff hg).mpr hxy).1

theorem mem_unused_iff {f : String} :
    f ∈ TestFile.unused disk.cwd (scanned disk config)
        (g.trace disk.holds (entry disk config manifest) []) config.testDir
        (sourceDir disk config) ↔
      f ∈ scanned disk config ∧ isTest disk config f = false ∧
        ¬ Reached Path.normalize disk strategy config manifest f := by
  rw [scanned, TestFile.mem_unused_iff hd, mem_trace_iff hd hg]
  rfl

end

theorem ne_nil_iff_exists {α : Type} {l : List α} : l ≠ [] ↔ ∃ a, a ∈ l := by
  rw [← List.isEmpty_eq_false_iff, List.isEmpty_eq_false_iff_exists_mem]

/-- A report that is put together from the searches shows what is to be found. -/
theorem found_of_searches {disk : Disk} (hd : disk.WellFormed) {strategy : Strategy}
    {config : Config} {manifest : Option Manifest} {g : Graph}
    (hg : g.Built (scanned disk config) fun m found => found = imported disk strategy config m)
    {r : Report} (hcycles : r.cycles = Cycle.all g)
    (hunused : r.unusedModules = TestFile.unused disk.cwd (scanned disk config)
      (g.trace disk.holds (entry disk config manifest) []) config.testDir (sourceDir disk config))
    (hpackages : ∀ name, name ∈ r.unusedPackages ↔ name ∈ Manifest.dependencies manifest ∧
      ∀ f ∈ scanned disk config, ∀ text, disk.readText f = .ok text →
        ¬ Package.Mentions text name) :
    Found disk strategy config manifest r where
  cycles := by
    rw [hcycles]
    exact all_ne_nil_iff hg
  unusedModules := by
    rw [hunused, ne_nil_iff_exists]
    exact exists_congr fun f => mem_unused_iff hd hg
  unusedPackages := by
    rw [ne_nil_iff_exists]
    exact exists_congr hpackages

/-- An analysis reports what is to be found, whatever the strategy makes of the files, as long as
the manifest can be read through. -/
theorem returns_report {disk : Disk} (hd : disk.WellFormed) {strategy : Strategy}
    (htotal : strategy.Total) {config : Config} {manifest : Option Manifest} {noted : List Event}
    (hm : Manifest.load disk (sourceDir disk config) = .ok (manifest, noted)) :
    Returns (fun s => s.cache.Faithful disk) False (report disk strategy config)
      (Found disk strategy config manifest) := by
  have hI := stable_faithful disk
  have hdir : (disk.cwd.absolute (.ofString config.sourceDir)).toString = sourceDir disk config :=
    rfl
  have hstaged := announceable_faithful disk
  have hload : OrElse False (· = (manifest, noted))
      ((Manifest.load disk (sourceDir disk config)).mapError Failure.manifest) := by
    rw [hm]
    exact .ok rfl
  unfold report
  dsimp only
  rw [hdir]
  refine (Returns.liftExcept hload).bind ?_
  rintro _ rfl
  refine (Returns.lift (hI.meets_note _)).bind fun _ _ => ?_
  refine (Returns.lift (hI.meets_note _)).bind fun _ _ => ?_
  have hbuild := Graph.returns_scanAndBuild hI fun f =>
    Graph.returns_ofFile_onDisk htotal config.filter.extensions f
  refine (hstaged.returns_staged _ (hbuild.adapt Failure.strategy)).bind ?_
  rintro ⟨files, g⟩ ⟨hfiles, hg⟩
  replace hfiles : files = scanned disk config := hfiles
  subst hfiles
  dsimp only at hg ⊢
  have hrender : ∀ start, OrElse False (fun _ => True)
      ((Rendering.ofEntry disk.cwd g start (sourceDir disk config)).mapError
        Failure.unspecified) := by
    intro start
    obtain ⟨r, hr, -⟩ := Rendering.exists_ofEntry hd hg start (sourceDir disk config)
    rw [hr]
    exact .ok trivial
  refine (hstaged.returns_staged _ (Returns.pure rfl)).bind ?_
  rintro _ rfl
  refine (Returns.liftExcept (hrender _)).bind fun tree _ => ?_
  -- the tree of the first test, if there is one, does not bear on the findings
  split
  · refine (Returns.pure trivial).bind fun text (_ : True) => ?_
    refine (Returns.lift (Package.meets_unused _ _ _)).bind fun p hp => Returns.pure ?_
    refine found_of_searches hd hg ?_ ?_ hp
    · rfl
    · dsimp only
      rfl
  · refine ((Returns.liftExcept (hrender _)).map fun _ _ => trivial).bind fun text (_ : True) => ?_
    refine (Returns.lift (Package.meets_unused _ _ _)).bind fun p hp => Returns.pure ?_
    refine found_of_searches hd hg ?_ ?_ hp
    · rfl
    · dsimp only
      rfl

end Analysis
end ModuleAudit
