import ModuleAudit.Proofs.Analysis.Verdict

/-
The analysis without its cache.

`direct` is the analysis with every read going to disk.  It has no session: nothing that was read
before bears on what comes next.  A run through a cache of any capacity comes to the same report, or
to the same failure.
-/

namespace ModuleAudit
namespace Analysis

open Session

/-- The report on a graph of the scanned files. -/
def reportOn (disk : Disk) (config : Config) (manifest : Option Manifest) (g : Graph) :
    Except Failure Report := do
  let dir := sourceDir disk config
  let files := scanned disk config
  let reachable := g.trace disk.holds (entry disk config manifest) []
  let testFiles := TestFile.among disk.cwd files config.testDir dir
  let render := fun (start : String) =>
    (Rendering.ofEntry disk.cwd g start dir).mapError Failure.unspecified
  let tree ← render (entry disk config manifest)
  let testTreeText ← match testFiles with
    | [] => pure ""
    | first :: _ => (Rendering.text ·) <$> render first
  return {
    sourceDir := dir
    entryPoint := Manifest.entryPoint manifest config.entryPoint
    files, reachable
    unusedModules := TestFile.unused disk.cwd files reachable config.testDir dir
    testFiles
    cycles := Cycle.all g
    treeText := tree.text
    treeCircular := tree.circular
    testTreeText
    unusedPackages := Package.direct disk (Manifest.dependencies manifest) files }

/-- The outcome of an analysis, with every read going to disk. -/
def direct (disk : Disk) (strategy : Strategy) (config : Config) : Except Failure Report := do
  let manifest ←
    ((Manifest.load disk (sourceDir disk config)).map Prod.fst).mapError Failure.manifest
  let g ← (Graph.direct disk config.filter.extensions strategy (scanned disk config)).mapError
    Failure.strategy
  reportOn disk config manifest g

theorem gives_scanAndBuild (disk : Disk) (strategy : Strategy) (config : Config) :
    Gives (fun s => s.cache.Faithful disk) (scanAndBuild disk strategy config)
      ((scanned disk config, ·) <$>
        Graph.direct disk config.filter.extensions strategy (scanned disk config)) := by
  unfold scanAndBuild scanned
  generalize Scan.directory disk config.filter config.sourceDir = scan
  refine Gives.bind_ok ((stable_faithful disk).gives_note scan.2) ?_
  exact (Graph.gives_build disk config.filter.extensions strategy scan.1).map _

theorem gives_report (disk : Disk) (strategy : Strategy) (config : Config) :
    Gives (fun s => s.cache.Faithful disk) (report disk strategy config)
      (direct disk strategy config) := by
  have hI := stable_faithful disk
  have hstaged := announceable_faithful disk
  have hdir : (disk.cwd.absolute (.ofString config.sourceDir)).toString = sourceDir disk config :=
    rfl
  unfold report direct
  dsimp only
  rw [hdir]
  cases hload : Manifest.load disk (sourceDir disk config) with
  | error fault => exact Gives.bind_error (Gives.liftExcept _)
  | ok loaded =>
    refine Gives.bind_ok (Gives.liftExcept (.ok loaded)) ?_
    refine Gives.bind_ok (hI.gives_note _) ?_
    refine Gives.bind_ok (hI.gives_note _) ?_
    have hbuild := hstaged.gives_staged "Scanning"
      ((gives_scanAndBuild disk strategy config).adapt Failure.strategy)
    cases hg : Graph.direct disk config.filter.extensions strategy (scanned disk config) with
    | error fault =>
      rw [hg] at hbuild
      exact Gives.bind_error hbuild
    | ok g =>
      rw [hg] at hbuild
      refine Gives.bind_ok hbuild ?_
      show Gives _ _ (reportOn disk config loaded.1 g)
      unfold reportOn entry
      dsimp only
      -- what the report is made of plays no part from here on
      generalize scanned disk config = files
      generalize sourceDir disk config = dir
      generalize Graph.resolveEntry disk.cwd _ dir = start
      refine Gives.bind_ok (hstaged.gives_staged _ (Gives.pure (Cycle.all g))) ?_
      refine (Gives.liftExcept _).bind fun tree => ?_
      have hpackages := Gives.lift (ε := Failure)
        (Package.meets_unused_direct disk (Manifest.dependencies loaded.1) files)
      generalize TestFile.among disk.cwd files config.testDir dir = tests
      cases tests with
      | nil =>
        refine (Gives.pure "").bind fun text => ?_
        exact Gives.bind_ok hpackages (Gives.pure _)
      | cons first others =>
        refine ((Gives.liftExcept _).map _).bind fun text => ?_
        exact Gives.bind_ok hpackages (Gives.pure _)

theorem run_eq_direct (disk : Disk) (strategy : Strategy) (config : Config)
    (h : 1 ≤ config.cacheSize) : (run disk strategy config).1 = direct disk strategy config := by
  rw [run_eq disk strategy h, Prod.map_fst, id]
  exact (gives_report disk strategy config _ (TextCache.faithful_empty disk _)).1

/-- Only the cache reads its capacity. -/
theorem direct_cacheSize (disk : Disk) (strategy : Strategy) (config : Config) (k : Int) :
    direct disk strategy { config with cacheSize := k } = direct disk strategy config := by
  simp only [direct, reportOn, scanned, sourceDir, entry]

/-- The cache is transparent: its capacity has no bearing on the outcome of an analysis, and the
imports of files that are asked one after the other are those of reads straight from disk. -/
theorem run_cacheSize (disk : Disk) (strategy : Strategy) {k₁ k₂ : Int} (h₁ : 1 ≤ k₁)
    (h₂ : 1 ≤ k₂) :
    (∀ config : Config, (run disk strategy { config with cacheSize := k₁ }).1 =
      (run disk strategy { config with cacheSize := k₂ }).1) ∧
    ∀ extensions paths,
      ((Imports.ofFiles disk extensions strategy paths).run (.ofCache (.empty k₁.toNat))).1 =
        paths.map (Imports.direct disk extensions strategy) := by
  refine ⟨fun config => ?_, fun extensions paths => ?_⟩
  · have hfirst := run_eq_direct disk strategy { config with cacheSize := k₁ } h₁
    have hsecond := run_eq_direct disk strategy { config with cacheSize := k₂ } h₂
    rw [hfirst, hsecond, direct_cacheSize _ _ config k₁, direct_cacheSize _ _ config k₂]
  · exact (Imports.meets_ofFiles disk extensions strategy paths _
      (TextCache.faithful_empty disk k₁.toNat)).1

theorem run_cacheSize_shared :
    (1 : Int) ≤ 1 ∧ (1 : Int) ≤ 500 ∧
      (run Rendering.shared (.fixed ["./b.ts"]) { cacheSize := 1 }).1 =
        (run Rendering.shared (.fixed ["./b.ts"]) { cacheSize := 500 }).1 ∧
      ((Imports.ofFiles Rendering.shared [".ts"] (.fixed ["./b"])
        ["/src/a.ts", "/src/b.ts", "/src/d.ts", "/src/a.ts"]).run (.ofCache (.empty 1))).1 =
          [.ok ["/src/b.ts"], .ok ["/src/b.ts"], .ok [], .ok ["/src/b.ts"]] := by
  have hfirst : (1 : Int) ≤ 1 := by decide
  have hsecond : (1 : Int) ≤ 500 := by decide
  refine ⟨hfirst, hsecond, (run_cacheSize _ _ hfirst hsecond).1 {}, ?_⟩
  rw [show 1 = (1 : Int).toNat from rfl, (run_cacheSize _ _ hfirst hsecond).2]
  decide +kernel

end Analysis
end ModuleAudit
