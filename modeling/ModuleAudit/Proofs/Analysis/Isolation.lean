import ModuleAudit.Proofs.Analysis.Direct
import ModuleAudit.Proofs.Disk.Blanked

/-
Files that are no text count as empty ones.

A file that cannot be decoded is met when its imports are asked for, when its text is searched for
packages, and when it is the manifest.  Each of the three comes to what it would come to on an empty
file.  A file that is imported is also fetched ahead: the cache then has the text of an empty file,
and nothing of one that is no text, but what it has makes no difference to the report.  So an
analysis comes to the same on two disks that `Blanked` relates.
-/

namespace ModuleAudit

section

variable {disk disk' : Disk} (h : disk.Blanked disk')

include h

theorem Imports.direct_blanked (extensions : List String) (strategy : Strategy) (path : String) :
    Imports.direct disk' extensions strategy path = Imports.direct disk extensions strategy path := by
  have htext : ∀ content, Imports.ofText disk' extensions strategy path content =
      Imports.ofText disk extensions strategy path content := by
    intro content
    unfold Imports.ofText Imports.specified
    rw [Specifier.locate_blanked h]
  unfold Imports.direct
  rw [h.isFile_eq]
  rcases h.readText path with hread | ⟨⟨fault, hfault⟩, hempty⟩
  · simp only [hread, htext]
  · rw [hfault, hempty]
    rfl

theorem Graph.addDirect_blanked (extensions : List String) (strategy : Strategy) (g : Graph)
    (files : List String) :
    Graph.addDirect disk' extensions strategy g files =
      Graph.addDirect disk extensions strategy g files := by
  induction files generalizing g with
  | nil => rfl
  | cons file rest ih => simp only [Graph.addDirect, Imports.direct_blanked h, ih]

theorem Package.direct_blanked (declared files : List String) :
    Package.direct disk' declared files = Package.direct disk declared files := by
  unfold Package.direct
  refine List.filter_congr fun name _ => congrArg not (Bool.eq_iff_iff.mpr ?_)
  rw [Package.isUsed_readable_iff, Package.isUsed_readable_iff]
  refine exists_congr fun file => and_congr_right fun _ => ?_
  rcases h.readText file with hread | ⟨⟨fault, hfault⟩, hempty⟩
  · rw [hread]
  · -- what the second disk has instead of the fault mentions nothing
    rw [hfault, hempty]
    simp [Package.not_mentions_empty]

end

namespace Analysis

theorem reportOn_blanked {disk disk' : Disk} (h : disk.Blanked disk') (config : Config)
    (manifest : Option Manifest) (g : Graph) :
    reportOn disk' config manifest g = reportOn disk config manifest g := by
  simp only [reportOn, scanned, sourceDir, entry, h.cwd, h.holds_eq, Scan.directory_blanked h,
    Package.direct_blanked h]

theorem direct_blanked {disk disk' : Disk} (h : disk.Blanked disk') (strategy : Strategy)
    (config : Config) : direct disk' strategy config = direct disk strategy config := by
  simp only [direct, Graph.direct, scanned, sourceDir, h.cwd, Scan.directory_blanked h,
    Manifest.load_blanked h, Graph.addDirect_blanked h, reportOn_blanked h]

/-- Files that are no text are isolated: whichever of the files they are, an analysis returns a
report, and the report is the one on empty files in their place. -/
theorem run_emptied {disk : Disk} (hd : disk.WellFormed) {strategy : Strategy}
    (htotal : strategy.Total) {config : Config} (hcache : 1 ≤ config.cacheSize)
    {manifest : Option Manifest} {noted : List Event}
    (hm : Manifest.load disk (sourceDir disk config) = .ok (manifest, noted)) {bad : List Path}
    (hbad : ∀ p ∈ bad, p.Canonical ∧ disk.Undecodable p) :
    (∀ p ∈ bad, (disk.emptied bad).lookup p.toString = .ok (.file [])) ∧
    ∃ r events events', run disk strategy config = (.ok r, events) ∧
      run (disk.emptied bad) strategy config = (.ok r, events') := by
  have hfiles : ∀ p ∈ bad, p.Canonical ∧ disk.Blankable p :=
    fun p hp => (hbad p hp).imp_right Disk.Undecodable.blankable
  have hblanked := (Disk.Blanked.refl disk).emptied hd.folder hfiles
  obtain ⟨r, events, hrun, -⟩ := run_found hd htotal hcache hm
  have hdirect : direct disk strategy config = .ok r := by
    rw [← run_eq_direct disk strategy config hcache, hrun]
  have hempty : (run (disk.emptied bad) strategy config).1 = .ok r := by
    rw [run_eq_direct _ strategy config hcache, direct_blanked hblanked, hdirect]
  refine ⟨fun p hp => Disk.lookup_emptied hd.folder hfiles hp, r, events,
    (run (disk.emptied bad) strategy config).2, hrun, ?_⟩
  exact Prod.ext hempty rfl

/-- The entry point and the manifest are no text. -/
def damaged : Disk where
  root := .folder [("src", .folder
    [("index.js", .file [0xff]), ("b.js", .file [0x61]), ("package.json", .file [0x7b, 0xff])])]
  cwd := ⟨.slash, ["src"]⟩

/-- The files of `damaged` that are no text. -/
def damages : List Path := [⟨.slash, ["src", "index.js"]⟩, ⟨.slash, ["src", "package.json"]⟩]

theorem wellFormed_damaged : damaged.WellFormed :=
  Disk.wellFormed_of_isWellFormed rfl (by decide) (by decide)

theorem undecodable_damages : ∀ p ∈ damages, p.Canonical ∧ damaged.Undecodable p := by
  intro p hp
  simp only [damages, List.mem_cons, List.not_mem_nil, or_false] at hp
  have hcanonical : p.Canonical := by
    rcases hp with rfl | rfl <;> exact ⟨rfl, by decide⟩
  refine ⟨hcanonical, ?_⟩
  unfold Disk.Undecodable
  rw [wellFormed_damaged.lookup_toString hcanonical]
  rcases hp with rfl | rfl
  · exact ⟨[0xff], _, rfl, rfl⟩
  · exact ⟨[0x7b, 0xff], _, rfl, rfl⟩

theorem run_emptied_damaged :
    damaged.WellFormed ∧ Strategy.standard.Total ∧ 1 ≤ strict.cacheSize ∧
      (∃ noted, Manifest.load damaged (sourceDir damaged strict) = .ok (none, noted)) ∧
      (∀ p ∈ damages, p.Canonical ∧ damaged.Undecodable p) ∧
      ∃ r events events', run damaged .standard strict = (.ok r, events) ∧
        run (damaged.emptied damages) .standard strict = (.ok r, events') := by
  have hdir : sourceDir damaged strict = "/src" := by decide +kernel
  have hcache : 1 ≤ strict.cacheSize := by decide
  have hload : ∃ noted, Manifest.load damaged "/src" = .ok (none, noted) := ⟨_, rfl⟩
  rw [← hdir] at hload
  obtain ⟨noted, hnoted⟩ := hload
  exact ⟨wellFormed_damaged, Strategy.total_standard, hcache, ⟨noted, hnoted⟩, undecodable_damages,
    (run_emptied wellFormed_damaged Strategy.total_standard hcache hnoted undecodable_damages).2⟩

end Analysis
end ModuleAudit
