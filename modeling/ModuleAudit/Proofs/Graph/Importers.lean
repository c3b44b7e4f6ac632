import Mathlib.Data.Finset.Card
import ModuleAudit.Proofs.Rendering
import ModuleAudit.Proofs.Scan.Order

/-
The importers of a module are the files that import it.

The table of importers grows by one entry for every import and nothing in it is compared with what is
there.  It is right for three reasons that lie elsewhere: a scan lists no file twice, a file imports no
module twice, and the files are added in the order of the scan.  So the importers of a module are the
scanned files that import it, in the order of the scan, and their number, which labels show, counts
different files.
-/

namespace ModuleAudit
namespace Graph

open Session

/-- The files that import a module. -/
def importing (g : Graph) (files : List String) (d : String) : Finset String :=
  files.toFinset.filter fun f => d ∈ g.dependencies f

/-- Both tables of the graph show the imports of `files`, each one once. -/
structure Indexed (files : List String) (g : Graph) : Prop where
  nodup_files : files.Nodup
  keys_forward : g.forward.keys = files
  nodup_imports : ∀ row ∈ g.forward, row.2.Nodup
  get?_reverse : ∀ d, (∃ f ∈ files, d ∈ g.dependencies f) →
    g.reverse.get? d = some (files.filter fun f => d ∈ g.dependencies f)
  referenceCount_eq : ∀ d, g.referenceCount d = (g.importing files d).card

/-! ## From the additions -/

/-- A module that imports nothing twice goes to the importers of `d` at most once. -/
theorem flatMap_replicate_of_nodup {additions : List Addition}
    (h : ∀ a ∈ additions, a.imports.Nodup) (d : String) :
    (additions.flatMap fun a => List.replicate (a.imports.count d) a.name) =
      (additions.filter fun a => d ∈ a.imports).map (·.name) := by
  induction additions with
  | nil => rfl
  | cons a rest ih =>
    obtain ⟨ha, hrest⟩ := List.forall_mem_cons.mp h
    rw [List.flatMap_cons, ih hrest]
    by_cases hd : d ∈ a.imports
    · rw [List.count_eq_one_of_mem ha hd, List.filter_cons, if_pos (decide_eq_true hd)]
      rfl
    · rw [List.count_eq_zero_of_not_mem hd, List.filter_cons, if_neg (by simpa using hd)]
      rfl

section

variable {additions : List Addition} (hnames : (additions.map (·.name)).Nodup)
  (files : List String) (version : Int)

include hnames

theorem forward_of_nodup :
    ((empty files version).addAll additions).forward =
      additions.map fun a => (a.name, a.imports) := by
  rw [forward_addAll]
  · rfl
  · exact hnames

theorem keys_forward_of_nodup :
    ((empty files version).addAll additions).forward.keys = additions.map (·.name) := by
  rw [forward_of_nodup hnames, Table.keys, List.map_map]
  rfl

theorem dependencies_of_mem {a : Addition} (ha : a ∈ additions) :
    ((empty files version).addAll additions).dependencies a.name = a.imports := by
  have hkeys := keys_forward_of_nodup hnames files version
  have hrow : (a.name, a.imports) ∈ ((empty files version).addAll additions).forward := by
    rw [forward_of_nodup hnames]
    exact List.mem_map.mpr ⟨a, ha, rfl⟩
  rw [dependencies, Table.get?_eq_some_of_mem (hkeys ▸ hnames) hrow, Option.getD_some]

theorem importers_eq_filter (himports : ∀ a ∈ additions, a.imports.Nodup) (d : String) :
    ((empty files version).addAll additions).importers d =
      (additions.map (·.name)).filter fun f =>
        d ∈ ((empty files version).addAll additions).dependencies f := by
  have hempty : (empty files version).importers d = [] := rfl
  have hselected : (additions.filter fun a =>
        d ∈ ((empty files version).addAll additions).dependencies a.name) =
      additions.filter fun a => d ∈ a.imports := by
    refine List.filter_congr fun a ha => ?_
    rw [dependencies_of_mem hnames files version ha]
  rw [importers_addAll, hempty, List.nil_append, flatMap_replicate_of_nodup himports,
    List.filter_map]
  exact congrArg (List.map _) hselected.symm

end

theorem Assembled.indexed {files : List String} (hfiles : files.Nodup) {g : Graph}
    (h : Assembled files (fun _ imports => imports.Nodup) g) : Indexed files g := by
  obtain ⟨version, additions, hnames, himports, rfl⟩ := h
  rw [← hnames] at hfiles
  have himporters := fun d => importers_eq_filter hfiles files version himports d
  rw [hnames] at himporters
  refine ⟨hnames ▸ hfiles, ?_, ?_, ?_, ?_⟩
  · rw [keys_forward_of_nodup hfiles, hnames]
  · intro row hrow
    rw [forward_of_nodup hfiles, List.mem_map] at hrow
    obtain ⟨a, ha, rfl⟩ := hrow
    exact himports a ha
  · rintro d ⟨f, hf, hd⟩
    rw [← himporters d, importers]
    -- a module without an entry has no importers, and this one has some
    cases hget : ((empty files version).addAll additions).reverse.get? d with
    | some found => rfl
    | none =>
      have hnone : ((empty files version).addAll additions).importers d = [] := by
        rw [importers, hget, Option.getD_none]
      rw [himporters d, List.filter_eq_nil_iff] at hnone
      exact absurd (decide_eq_true hd) (hnone f hf)
  · intro d
    rw [referenceCount, himporters d, importing, ← List.toFinset_card_of_nodup
      ((hnames ▸ hfiles : files.Nodup).filter _), List.toFinset_filter]
    simp

/-! ## From a scan -/

theorem returns_ofFile_nodup (disk : Disk) (extensions : List String) {strategy : Strategy}
    (htotal : strategy.Total) (f : String) :
    Returns (fun _ => True) False (Imports.ofFile disk extensions strategy f) List.Nodup := by
  refine Imports.returns_ofFile (stable_true disk) extensions strategy f List.nodup_nil ?_
  intro content
  obtain ⟨imports, himports⟩ := Imports.exists_ofText htotal disk extensions f content
  rw [himports]
  exact .ok (Imports.nodup_of_ofText himports)

theorem exists_scanAndBuild {disk : Disk} (hd : disk.WellFormed) {strategy : Strategy}
    (htotal : strategy.Total) (config : Config) (s : Session) :
    ∃ files g s', (Analysis.scanAndBuild disk strategy config).run.run s = (.ok (files, g), s') ∧
      files = (Scan.directory disk config.filter config.sourceDir).1 ∧ Indexed files g := by
  have hreturns := (returns_scanAndBuild_assembled (stable_true disk)
    (returns_ofFile_nodup disk config.filter.extensions htotal) s trivial).1
  have hnodup := Scan.nodup_directory hd config.filter config.sourceDir
  cases hrun : (Analysis.scanAndBuild disk strategy config).run.run s with
  | mk result s' =>
    rw [hrun] at hreturns
    obtain ⟨⟨files, g⟩, hresult, hfiles, hg⟩ := hreturns.exists_ok
    dsimp only at hresult hfiles hg
    rw [← hfiles] at hnodup
    exact ⟨files, g, s', by rw [hresult], hfiles, hg.indexed hnodup⟩

/-- Through a cache that agrees with the disk, the graph shows the imports on disk. -/
theorem dependencies_of_scanAndBuild {disk : Disk} {strategy : Strategy} (htotal : strategy.Total)
    {config : Config} {s s' : Session} (hs : s.cache.Faithful disk) {files : List String}
    {g : Graph}
    (h : (Analysis.scanAndBuild disk strategy config).run.run s = (.ok (files, g), s')) :
    ∀ f ∈ files, g.dependencies f = Imports.onDisk disk config.filter.extensions strategy f := by
  have hfound := (returns_scanAndBuild (stable_faithful disk)
    (returns_ofFile_onDisk htotal config.filter.extensions) s hs).1
  rw [h] at hfound
  cases hfound with
  | ok hg => exact hg.2.imports

/-- What a label shows of a module at a path: the number of files that import it, if there are several. -/
def numbered (path : String) (count : Nat) : String :=
  if 1 < count then path ++ " [ref: " ++ toString count ++ "]" else path

theorem Indexed.label_eq {files : List String} {g : Graph} (h : Indexed files g)
    (shown : String → String) (m : String) :
    Unfolding.label g shown m = numbered (shown m) (g.importing files m).card := by
  rw [Unfolding.label, numbered, h.referenceCount_eq]

/-- Reference counts count files.  Every scan gives a graph of its files, in order, whose tables show
every import once: under each file its imports, and under each imported module the files that import it,
in the order of the scan.  The number in a label is the number of these files. -/
theorem scanAndBuild_indexed {disk : Disk} (hd : disk.WellFormed) {strategy : Strategy}
    (htotal : strategy.Total) (config : Config) (s : Session) :
    ∃ files g s', (Analysis.scanAndBuild disk strategy config).run.run s = (.ok (files, g), s') ∧
      files = (Scan.directory disk config.filter config.sourceDir).1 ∧ Indexed files g ∧
      (s.cache.Faithful disk → ∀ f ∈ files,
        g.dependencies f = Imports.onDisk disk config.filter.extensions strategy f) ∧
      ∀ entry dir, ∃ r, Rendering.ofEntry disk.cwd g entry dir = .ok r ∧
        ∀ l ∈ r.outline.labelsBelow, l = Unfolding.returnMark ∨
          ∃ m ∈ files, l = numbered (Path.relative disk.cwd m dir) (g.importing files m).card := by
  obtain ⟨files, g, s', hbuild, hfiles, hindexed⟩ := exists_scanAndBuild hd htotal config s
  refine ⟨files, g, s', hbuild, hfiles, hindexed,
    fun hs => dependencies_of_scanAndBuild htotal hs hbuild, fun entry dir => ?_⟩
  have hg := (scanned_of_scanAndBuild hbuild).2
  rw [hfiles] at hg
  obtain ⟨r, hr, houtline⟩ := Rendering.exists_ofEntry hd hg entry dir
  refine ⟨r, hr, fun l hl => ?_⟩
  rw [houtline] at hl
  rcases Unfolding.exists_label_of_mem_labels hl with hmark | ⟨m, hm, hlabel⟩
  · exact Or.inl hmark
  · rw [hindexed.label_eq] at hlabel
    rw [contains_iff, hindexed.keys_forward] at hm
    exact Or.inr ⟨m, hm, hlabel.symm⟩

/-- Three files import `b.ts`, one of them `b.ts` itself, and the label says so. -/
theorem scanAndBuild_indexed_shared :
    Rendering.shared.WellFormed ∧ (Strategy.fixed ["./b.ts"]).Total ∧
      (∃ s', (Analysis.scanAndBuild Rendering.shared (.fixed ["./b.ts"]) {}).run.run
          (.ofCache (.empty 500)) =
        (.ok (["/src/a.ts", "/src/b.ts", "/src/c.ts"], Rendering.sharedGraph), s')) ∧
      Rendering.sharedGraph.reverse.get? "/src/b.ts" =
        some ["/src/a.ts", "/src/b.ts", "/src/c.ts"] ∧
      Rendering.sharedGraph.referenceCount "/src/b.ts" =
        (Rendering.sharedGraph.importing ["/src/a.ts", "/src/b.ts", "/src/c.ts"] "/src/b.ts").card ∧
      numbered "b.ts" (Rendering.sharedGraph.importing ["/src/a.ts", "/src/b.ts", "/src/c.ts"]
        "/src/b.ts").card = "b.ts [ref: 3]" := by
  have htotal : (Strategy.fixed ["./b.ts"]).Total := fun _ _ => ⟨["./b.ts"], rfl⟩
  obtain ⟨s', hbuild⟩ := Rendering.scanAndBuild_shared
  obtain ⟨files, g, s'', hrun, -, hindexed, -⟩ := scanAndBuild_indexed Rendering.wellFormed_shared
    htotal {} (.ofCache (.empty 500))
  rw [hbuild, Prod.mk.injEq, Except.ok.injEq, Prod.mk.injEq] at hrun
  obtain ⟨⟨rfl, rfl⟩, -⟩ := hrun
  refine ⟨Rendering.wellFormed_shared, htotal, ⟨s', hbuild⟩, ?_,
    hindexed.referenceCount_eq "/src/b.ts", ?_⟩
  · exact hindexed.get?_reverse "/src/b.ts" ⟨"/src/a.ts", by decide, by decide⟩
  · rw [← hindexed.referenceCount_eq]
    decide

end Graph
end ModuleAudit
