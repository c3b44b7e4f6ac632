import ModuleAudit.Proofs.Analysis.Findings
import ModuleAudit.Proofs.Manifest

/-
The verdict on a project is the one that its files call for.

`due` is the verdict in terms of the files alone.  The chains of imports in it go from one module
to the next by normal forms of imported identities.  As long as no extension has a slash, imported
identities are normal forms already and the chains are chains of the identities themselves; a
project with the extension `//b.js` shows that this is not so in general.

The reader of the manifest refuses a value that is nested too deep, and then there is no report.  This
is the one limit on depth.  Folders, combinations of strategies and chains of imports may be as deep as
they come, so the stack of whatever runs the analysis counts as unbounded there.
-/

namespace ModuleAudit
namespace Analysis

open Session

open Classical in
/-- The verdict that the enabled checks give on what is to be found. -/
noncomputable def due (names : String → String) (disk : Disk) (strategy : Strategy)
    (config : Config) (manifest : Option Manifest) : Verdict :=
  .ofFailures
    { circular := config.enabled.circular && decide (HasCycle disk strategy config)
      unused := config.enabled.unused && decide (HasDeadFile names disk strategy config manifest)
      packages := config.enabled.packages && decide (HasUnusedPackage disk config manifest) }

theorem not_isEmpty_eq_decide {α : Type} {l : List α} {p : Prop} [Decidable p]
    (h : l ≠ [] ↔ p) : (!l.isEmpty) = decide p := by
  rw [Bool.eq_iff_iff, decide_eq_true_iff, ← h]
  simp

open Classical in
theorem verdict_of_found {disk : Disk} {strategy : Strategy} {config : Config}
    {manifest : Option Manifest} {r : Report} (h : Found disk strategy config manifest r) :
    r.verdict config = due Path.normalize disk strategy config manifest := by
  unfold Report.verdict Report.findings due Checks.both
  dsimp only
  rw [not_isEmpty_eq_decide h.cycles, not_isEmpty_eq_decide h.unusedModules,
    not_isEmpty_eq_decide h.unusedPackages]

theorem run_eq (disk : Disk) (strategy : Strategy) {config : Config}
    (h : 1 ≤ config.cacheSize) :
    run disk strategy config =
      Prod.map id Session.events
        (((report disk strategy config).run).run (.ofCache (.empty config.cacheSize.toNat))) := by
  have hcache : TextCache.ofCapacity config.cacheSize = .ok (.empty config.cacheSize.toNat) := by
    rw [TextCache.ofCapacity, if_neg (by omega)]
  unfold run perform
  rw [hcache]
  dsimp only
  generalize ((report disk strategy config).run).run (.ofCache (.empty config.cacheSize.toNat)) = x
  rfl

/-- An analysis comes to an end and reports what is to be found. -/
theorem run_found {disk : Disk} (hd : disk.WellFormed) {strategy : Strategy}
    (htotal : strategy.Total) {config : Config} (hcache : 1 ≤ config.cacheSize)
    {manifest : Option Manifest} {noted : List Event}
    (hm : Manifest.load disk (sourceDir disk config) = .ok (manifest, noted)) :
    ∃ r events, run disk strategy config = (.ok r, events) ∧
      Found disk strategy config manifest r := by
  obtain ⟨hresult, -⟩ := returns_report hd htotal hm
    (.ofCache (.empty config.cacheSize.toNat)) (TextCache.faithful_empty disk _)
  obtain ⟨r, hr, hfound⟩ := hresult.exists_ok
  have hfst : (run disk strategy config).1 = .ok r := by
    rw [run_eq disk strategy hcache, Prod.map_fst, hr, id]
  exact ⟨r, (run disk strategy config).2, Prod.ext hfst rfl, hfound⟩

theorem reached_id_iff {disk : Disk} (hd : disk.WellFormed) {strategy : Strategy}
    {config : Config} (hext : ∀ ext ∈ config.filter.extensions, '/' ∉ ext.toList)
    {manifest : Option Manifest} {f : String} :
    Reached Path.normalize disk strategy config manifest f ↔
      Reached id disk strategy config manifest f := by
  have hnormal : ∀ m, ∀ d ∈ imported disk strategy config m, Path.normalize d = d := by
    intro m d hmem
    obtain ⟨p, hp, rfl⟩ := Imports.exists_canonical_of_mem_onDisk hd hext hmem
    exact hp.normalize_toString
  constructor
  · intro h
    refine (h.mono (fun _ hx => hx) ?_).1
    rintro m n - ⟨hm, d, hd, hn⟩ -
    exact ⟨hm, d, hd, (hnormal m d hd).symm.trans hn⟩
  · intro h
    refine (h.mono (fun _ hx => hx) ?_).1
    rintro m n - ⟨hm, d, hd, hn⟩ -
    exact ⟨hm, d, hd, (hnormal m d hd).trans hn⟩

theorem due_normalize_eq {disk : Disk} (hd : disk.WellFormed) {strategy : Strategy}
    {config : Config} (hext : ∀ ext ∈ config.filter.extensions, '/' ∉ ext.toList)
    {manifest : Option Manifest} :
    due Path.normalize disk strategy config manifest = due id disk strategy config manifest := by
  have hdead : HasDeadFile Path.normalize disk strategy config manifest ↔
      HasDeadFile id disk strategy config manifest := by
    refine exists_congr fun f => and_congr_right fun _ => and_congr_right fun _ => not_congr ?_
    exact reached_id_iff hd hext
  unfold due
  congr! 3
  exact decide_eq_decide.mpr hdead

/-- The exit code is exact.  Every analysis with room in its cache ends with a report, and the
verdict on the report is the one due to the files. -/
theorem run_verdict {disk : Disk} (hd : disk.WellFormed) {strategy : Strategy}
    (htotal : strategy.Total) {config : Config} (hcache : 1 ≤ config.cacheSize)
    {manifest : Option Manifest} {noted : List Event}
    (hm : Manifest.load disk (sourceDir disk config) = .ok (manifest, noted)) :
    ∃ r events, run disk strategy config = (.ok r, events) ∧
      r.verdict config = due Path.normalize disk strategy config manifest ∧
      ((∀ ext ∈ config.filter.extensions, '/' ∉ ext.toList) →
        r.verdict config = due id disk strategy config manifest) := by
  obtain ⟨r, events, hrun, hfound⟩ := run_found hd htotal hcache hm
  have hverdict := verdict_of_found hfound
  exact ⟨r, events, hrun, hverdict, fun hext => hverdict.trans (due_normalize_eq hd hext)⟩

/-! ## Two projects -/

/-- A file below a folder, and a file that imports the folder. -/
def nested : Disk where
  root := .folder [("src", .folder
    [("index.js", .file [0x61]), ("a", .folder [("b.js", .file [])])])]
  cwd := ⟨.slash, ["src"]⟩

theorem wellFormed_nested : nested.WellFormed :=
  Disk.wellFormed_of_isWellFormed rfl (by decide) (by decide)

theorem total_fixed (specifiers : List String) : (Strategy.fixed specifiers).Total :=
  fun _ _ => ⟨specifiers, rfl⟩

/-- Every check counts, and the entry point is asked for. -/
def strict : Config where
  entryPoint := some "index.js"
  ci := true

theorem load_nested : ∃ noted, Manifest.load nested "/src" = .ok (none, noted) := ⟨_, rfl⟩

theorem run_verdict_nested :
    nested.WellFormed ∧ Strategy.standard.Total ∧ 1 ≤ strict.cacheSize ∧
      (∃ noted, Manifest.load nested (sourceDir nested strict) = .ok (none, noted)) ∧
      (∀ ext ∈ strict.filter.extensions, '/' ∉ ext.toList) ∧
      ∃ r events, run nested .standard strict = (.ok r, events) ∧
        r.verdict strict = due Path.normalize nested .standard strict none ∧
        r.verdict strict = due id nested .standard strict none := by
  have hdir : sourceDir nested strict = "/src" := by decide +kernel
  have hcache : 1 ≤ strict.cacheSize := by decide
  have hext : ∀ ext ∈ strict.filter.extensions, '/' ∉ ext.toList := by decide
  obtain ⟨noted, hload⟩ := load_nested
  rw [← hdir] at hload
  obtain ⟨r, events, hrun, hverdict, htexts⟩ :=
    run_verdict wellFormed_nested Strategy.total_standard hcache hload
  exact ⟨wellFormed_nested, Strategy.total_standard, hcache, ⟨noted, hload⟩, hext, r, events, hrun,
    hverdict, htexts hext⟩

/-- Only unused modules count, and an import of `a` is tried as `a//b.js`. -/
def slashed : Config where
  entryPoint := some "index.js"
  failOn := { unused := true }
  filter := { skip := [], extensions := [".js", "//b.js"] }

theorem mem_scanned_nested {f : String} :
    f ∈ scanned nested slashed ↔ f = "/src/index.js" ∨ f = "/src/a/b.js" := by
  have hdir : nested.cwd.absolute (.ofString slashed.sourceDir) = ⟨.slash, ["src"]⟩ := by
    decide
  have hlookup : nested.lookup (Path.toString ⟨.slash, ["src"]⟩) =
      .ok (.folder [("index.js", .file [0x61]), ("a", .folder [("b.js", .file [])])]) := rfl
  have hindex : f ∈ Scan.ofEntry slashed.filter ⟨.slash, ["src", "index.js"]⟩ (.file [0x61]) ↔
      f = "/src/index.js" := by
    rw [Scan.mem_ofEntry_file]
    exact and_iff_right (by decide)
  have hb : f ∈ Scan.ofEntry slashed.filter ⟨.slash, ["src", "a", "b.js"]⟩ (.file []) ↔
      f = "/src/a/b.js" := by
    rw [Scan.mem_ofEntry_file]
    exact and_iff_right (by decide)
  have ha : f ∈ Scan.ofEntry slashed.filter ⟨.slash, ["src", "a"]⟩
      (.folder [("b.js", .file [])]) ↔ f = "/src/a/b.js" := by
    have hskip : slashed.filter.skipsFolder (Path.name ⟨.slash, ["src", "a"]⟩) = false := rfl
    rw [Scan.mem_ofEntry_folder, and_iff_right hskip, Scan.mem_inOrder_ofEntries, ← hb]
    simp [Path.child]
  rw [scanned, Scan.mem_directory, hdir, hlookup, ← hindex, ← ha]
  simp [Scan.mem_inOrder_ofEntries, Path.child, or_and_right, exists_or]

theorem imported_nested :
    imported nested (.fixed ["./a"]) slashed "/src/index.js" = ["/src/a//b.js"] := by
  decide

theorem entry_nested : entry nested slashed none = "/src/index.js" := by
  decide

/-- By their texts, chains end at the identity that `index.js` imports, which is no scanned file. -/
theorem hasDeadFile_id_nested : HasDeadFile id nested (.fixed ["./a"]) slashed none := by
  refine ⟨"/src/a/b.js", mem_scanned_nested.mpr (Or.inr rfl), by decide, fun h => ?_⟩
  have hends : ∀ f, Reached id nested (.fixed ["./a"]) slashed none f →
      f = "/src/index.js" ∨ f = "/src/a//b.js" := by
    intro f hf
    induction hf with
    | start _ => exact Or.inl entry_nested
    | step _ hnext _ ih =>
      obtain ⟨hm, d, hd, rfl⟩ := hnext
      rcases ih with rfl | rfl
      · rw [imported_nested, List.mem_singleton] at hd
        exact Or.inr hd
      · exact absurd (mem_scanned_nested.mp hm) (by decide)
  exact absurd (hends _ h) (by decide)

/-- By their normal forms, chains end at both files. -/
theorem not_hasDeadFile_nested :
    ¬ HasDeadFile Path.normalize nested (.fixed ["./a"]) slashed none := by
  have hindex : Reached Path.normalize nested (.fixed ["./a"]) slashed none "/src/index.js" := by
    rw [Reached, entry_nested]
    exact .start (by decide)
  have hnext : "/src/a//b.js" ∈ imported nested (.fixed ["./a"]) slashed "/src/index.js" := by
    rw [imported_nested]
    exact List.mem_cons_self
  have hb : Reached Path.normalize nested (.fixed ["./a"]) slashed none "/src/a/b.js" :=
    hindex.step ⟨mem_scanned_nested.mpr (Or.inl rfl), _, hnext, by decide⟩
      (by decide)
  rintro ⟨f, hf, -, hno⟩
  rcases mem_scanned_nested.mp hf with rfl | rfl
  · exact hno hindex
  · exact hno hb

theorem due_nested (names : String → String) :
    due names nested (.fixed ["./a"]) slashed none = .unused ↔
      HasDeadFile names nested (.fixed ["./a"]) slashed none := by
  have henabled : slashed.enabled = { unused := true } := rfl
  unfold due
  rw [henabled]
  by_cases h : HasDeadFile names nested (.fixed ["./a"]) slashed none <;>
    simp [h, Verdict.ofFailures]

/-- A manifest of more opening brackets than are followed. -/
def bracketed : Disk where
  root := .folder [("package.json", .file (List.replicate (Json.depthLimit + 1) 0x5B))]
  cwd := ⟨.slash, []⟩

theorem wellFormed_bracketed : bracketed.WellFormed :=
  Disk.wellFormed_of_isWellFormed rfl (by decide) (by decide)

theorem load_bracketed (config : Config) (h : config.sourceDir = ".") :
    Manifest.load bracketed (sourceDir bracketed config) = .error ⟨.array⟩ := by
  have hdir : sourceDir bracketed config = "/" := by
    rw [sourceDir, h]
    decide
  have hpath : (Path.ofString (Manifest.location "/")).toString = "/package.json" := by
    decide
  rw [hdir]
  refine Manifest.load_brackets (Disk.readText_brackets ?_) (Nat.lt_succ_self _)
  rw [hpath]
  rfl

theorem run_eq_error {disk : Disk} (strategy : Strategy) {config : Config}
    (hcache : 1 ≤ config.cacheSize) {fault : Json.TooDeep}
    (hm : Manifest.load disk (sourceDir disk config) = .error fault) :
    (run disk strategy config).1 = .error (.manifest fault) := by
  rw [run_eq disk strategy hcache, Prod.map_fst, id]
  unfold report
  dsimp only
  rw [show (disk.cwd.absolute (.ofString config.sourceDir)).toString = sourceDir disk config from rfl,
    hm]
  rfl

/-- The verdict is not the one that chains of the identities themselves would give, and a manifest
that is nested too deep leaves no verdict at all. -/
theorem run_verdict_not_by_texts :
    (nested.WellFormed ∧ (Strategy.fixed ["./a"]).Total ∧ 1 ≤ slashed.cacheSize ∧
      (∃ noted, Manifest.load nested (sourceDir nested slashed) = .ok (none, noted)) ∧
      ¬ ∃ r events, run nested (.fixed ["./a"]) slashed = (.ok r, events) ∧
        r.verdict slashed = due id nested (.fixed ["./a"]) slashed none) ∧
    bracketed.WellFormed ∧ 1 ≤ strict.cacheSize ∧
      ¬ ∃ r events, run bracketed .standard strict = (.ok r, events) := by
  have hdir : sourceDir nested slashed = "/src" := by decide +kernel
  have hcache : 1 ≤ slashed.cacheSize := by decide
  obtain ⟨noted, hload⟩ := load_nested
  rw [← hdir] at hload
  refine ⟨⟨wellFormed_nested, total_fixed _, hcache, ⟨noted, hload⟩, ?_⟩,
    wellFormed_bracketed, by decide, ?_⟩
  · rintro ⟨r, events, hrun, hdue⟩
    obtain ⟨r', events', hrun', hfound⟩ :=
      run_found wellFormed_nested (total_fixed ["./a"]) hcache hload
    have hsame : r = r' := by
      rw [hrun, Prod.mk.injEq, Except.ok.injEq] at hrun'
      exact hrun'.1
    rw [hsame, verdict_of_found hfound, (due_nested id).mpr hasDeadFile_id_nested,
      due_nested] at hdue
    exact not_hasDeadFile_nested hdue
  · rintro ⟨r, events, hrun⟩
    have hcache : 1 ≤ strict.cacheSize := by decide
    have herror := run_eq_error .standard hcache (load_bracketed strict rfl)
    rw [hrun] at herror
    cases herror

end Analysis
end ModuleAudit
