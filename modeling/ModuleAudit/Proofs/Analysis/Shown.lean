import ModuleAudit.CommandLine.Printed
import ModuleAudit.Proofs.Analysis.Direct
import ModuleAudit.Proofs.CommandLine.Arguments
import ModuleAudit.Proofs.Unfolding.Chains

/-
The paths in a report, given back as entry points.

A report shows a module by the way from the source directory to it.  An entry point is looked up from
the source directory, so that way leads back to the module.  The modules that are shown are files of the
scan and the module that the analysis started from.
-/

namespace ModuleAudit

/-! ## The paths of a report -/

namespace Report

/-- The module that the analysis started from. -/
def start (cwd : Path) (r : Report) : String := Graph.resolveEntry cwd r.entryPoint r.sourceDir

/-- The path under which a report shows a module. -/
def pathOf (cwd : Path) (r : Report) (m : String) : String := Path.relative cwd m r.sourceDir

/-- The label of a module in a drawing, alone or with the number of its importers. -/
def IsLabelOf (cwd : Path) (r : Report) (m label : String) : Prop :=
  label = r.pathOf cwd m ∨ ∃ n : Nat, label = r.pathOf cwd m ++ " [ref: " ++ toString n ++ "]"

/-- A drawing of modules with the property `P`, and of remarks on modules that come back. -/
def Draws (cwd : Path) (r : Report) (P : String → Prop) (drawing : String) : Prop :=
  ∃ o : Outline, drawing = Outline.draw [o] ∧
    ∀ label ∈ o.labels, label = Unfolding.returnMark ∨ ∃ m, P m ∧ r.IsLabelOf cwd m label

/-- All that a report shows are paths of modules with the property `P`. -/
structure Shows (cwd : Path) (r : Report) (P : String → Prop) : Prop where
  unusedModules : ∀ m ∈ r.unusedModules, P m ∧ CommandLine.shown cwd r m = .ok (r.pathOf cwd m)
  testFiles : ∀ m ∈ r.testFiles, P m ∧ CommandLine.shown cwd r m = .ok (r.pathOf cwd m)
  cycles : ∀ cycle ∈ r.cycles, (∀ m ∈ cycle, P m) ∧
    Cycle.format cwd r.sourceDir cycle = .ok (Cycle.arrows (cycle.map (r.pathOf cwd)))
  tree : r.Draws cwd P r.treeText
  treeCircular : ∀ text ∈ r.treeCircular, ∃ chain : List String, (∀ m ∈ chain, P m) ∧
    text = Cycle.arrows (chain.map (r.pathOf cwd))
  testTree : r.testTreeText = "" ∨ r.Draws cwd P r.testTreeText

section

variable {cwd : Path} {r : Report} {P Q : String → Prop} (hPQ : ∀ m, P m → Q m)
include hPQ

theorem Draws.mono {drawing : String} (h : r.Draws cwd P drawing) : r.Draws cwd Q drawing := by
  obtain ⟨o, hdrawing, hlabels⟩ := h
  refine ⟨o, hdrawing, fun label hlabel => (hlabels label hlabel).imp_right ?_⟩
  exact fun ⟨m, hm, hlabel⟩ => ⟨m, hPQ m hm, hlabel⟩

theorem Shows.mono (h : r.Shows cwd P) : r.Shows cwd Q where
  unusedModules m hm := (h.unusedModules m hm).imp_left (hPQ m)
  testFiles m hm := (h.testFiles m hm).imp_left (hPQ m)
  cycles cycle hmem := (h.cycles cycle hmem).imp_left fun hcycle m hm => hPQ m (hcycle m hm)
  tree := h.tree.mono hPQ
  treeCircular text htext := by
    obtain ⟨chain, hchain, heq⟩ := h.treeCircular text htext
    exact ⟨chain, fun m hm => hPQ m (hchain m hm), heq⟩
  testTree := h.testTree.imp_right (Draws.mono hPQ)

end

end Report

namespace Analysis

/-- What a report on a graph is made of. -/
structure MadeOf (disk : Disk) (config : Config) (manifest : Option Manifest) (g : Graph)
    (r : Report) : Prop where
  sourceDir : r.sourceDir = sourceDir disk config
  entryPoint : r.entryPoint = Manifest.entryPoint manifest config.entryPoint
  files : r.files = scanned disk config
  unusedModules : r.unusedModules = TestFile.unused disk.cwd r.files
    (g.trace disk.holds (r.start disk.cwd) []) config.testDir r.sourceDir
  testFiles : r.testFiles = TestFile.among disk.cwd r.files config.testDir r.sourceDir
  cycles : r.cycles = Cycle.all g
  tree : ∃ tree, Rendering.ofEntry disk.cwd g (r.start disk.cwd) r.sourceDir = .ok tree ∧
    r.treeText = tree.text ∧ r.treeCircular = tree.circular
  testTree : r.testTreeText = "" ∨ ∃ first ∈ r.testFiles, ∃ tree,
    Rendering.ofEntry disk.cwd g first r.sourceDir = .ok tree ∧ r.testTreeText = tree.text

theorem madeOf_of_reportOn {disk : Disk} {config : Config} {manifest : Option Manifest} {g : Graph}
    {r : Report} (h : reportOn disk config manifest g = .ok r) : MadeOf disk config manifest g r := by
  unfold reportOn entry at h
  dsimp only at h
  -- what was scanned, and from where, plays no part in how the report is put together
  generalize hfiles : scanned disk config = files at h
  generalize hdir : sourceDir disk config = dir at h
  generalize hentry : Manifest.entryPoint manifest config.entryPoint = start at h
  generalize htests : TestFile.among disk.cwd files config.testDir dir = tests at h
  cases htree : Rendering.ofEntry disk.cwd g (Graph.resolveEntry disk.cwd start dir) dir with
  | error fault =>
    rw [htree] at h
    cases h
  | ok tree =>
    rw [htree] at h
    cases tests with
    | nil =>
      cases h
      exact ⟨hdir.symm, hentry.symm, hfiles.symm, rfl, htests.symm, rfl, ⟨tree, htree, rfl, rfl⟩,
        Or.inl rfl⟩
    | cons first others =>
      cases hfirst : Rendering.ofEntry disk.cwd g first dir with
      | error fault =>
        simp only [hfirst] at h
        cases h
      | ok below =>
        simp only [hfirst] at h
        cases h
        exact ⟨hdir.symm, hentry.symm, hfiles.symm, rfl, htests.symm, rfl, ⟨tree, htree, rfl, rfl⟩,
          Or.inr ⟨first, List.mem_cons_self, below, hfirst, rfl⟩⟩

theorem cacheSize_of_run {disk : Disk} {strategy : Strategy} {config : Config} {r : Report}
    (h : (run disk strategy config).1 = .ok r) : 1 ≤ config.cacheSize := by
  by_contra hsize
  have hcache : TextCache.ofCapacity config.cacheSize = .error ⟨config.cacheSize⟩ :=
    if_pos (by omega)
  unfold run perform at h
  rw [hcache] at h
  cases h

theorem exists_madeOf {disk : Disk} {strategy : Strategy} {config : Config} {r : Report}
    (h : (run disk strategy config).1 = .ok r) :
    ∃ loaded g, Manifest.load disk (sourceDir disk config) = .ok loaded ∧
      g.Built (scanned disk config) (fun _ _ => True) ∧ MadeOf disk config loaded.1 g r := by
  rw [run_eq_direct disk strategy config (cacheSize_of_run h)] at h
  unfold direct at h
  cases hload : Manifest.load disk (sourceDir disk config) with
  | error fault =>
    rw [hload] at h
    cases h
  | ok loaded =>
    cases hg : Graph.direct disk config.filter.extensions strategy (scanned disk config) with
    | error fault =>
      rw [hload, hg] at h
      cases h
    | ok g =>
      rw [hload, hg] at h
      exact ⟨loaded, g, rfl, Graph.built_of_direct hg, madeOf_of_reportOn h⟩

/-! ## The modules behind the paths -/

section Drawn

variable {cwd : Path} {g : Graph} {r : Report} {P : String → Prop} {start : String}
  {tree : Rendering} (hstart : Graph.resolveEntry cwd start r.sourceDir = start)
  (h : Rendering.ofEntry cwd g start r.sourceDir = .ok tree)
include hstart h

theorem rendering_eq : tree =
    { outline := (Unfolding.ofEntry g start).outline g (r.pathOf cwd)
      circular := Unfolding.distinct (((Unfolding.ofEntry g start).returns []).map fun chain =>
        Cycle.arrows (chain.map (r.pathOf cwd))) } := by
  rcases Rendering.ofEntry_cases cwd g start r.sourceDir with ⟨-, herror⟩ | ⟨-, hok⟩
  · rw [herror] at h
    cases h
  · rw [hok, hstart] at h
    exact (Except.ok.inj h).symm

variable (hP : P start) (hg : ∀ m, g.contains m = true → P m)
include hP hg

theorem draws_of_ofEntry : r.Draws cwd P tree.text := by
  rw [rendering_eq hstart h]
  refine ⟨_, rfl, fun label hlabel => ?_⟩
  rw [Unfolding.outline, Outline.labels, List.mem_cons, Unfolding.ofEntry,
    Unfolding.name_ofModule] at hlabel
  rcases hlabel with htop | hbelow
  · exact Or.inr ⟨start, hP, Or.inl htop⟩
  · refine (Unfolding.exists_label_of_mem_labels hbelow).imp_right ?_
    rintro ⟨m, hm, hlabel⟩
    refine ⟨m, hg m hm, ?_⟩
    unfold Unfolding.label at hlabel
    dsimp only at hlabel
    split at hlabel
    · exact Or.inr ⟨_, hlabel.symm⟩
    · exact Or.inl hlabel.symm

theorem chain_of_mem_circular {text : String} (htext : text ∈ tree.circular) :
    ∃ chain : List String, (∀ m ∈ chain, P m) ∧ text = Cycle.arrows (chain.map (r.pathOf cwd)) := by
  rw [rendering_eq hstart h, Unfolding.mem_distinct, List.mem_map] at htext
  obtain ⟨chain, hchain, rfl⟩ := htext
  refine ⟨chain, ?_, rfl⟩
  obtain ⟨hhead, hlinked, -⟩ := (Unfolding.mem_returns_ofEntry.mp hchain).1
  cases chain with
  | nil => cases hhead
  | cons first rest =>
    cases hhead
    exact List.forall_mem_cons.mpr ⟨hP, fun m hm => hg m (Graph.contains_of_linked hlinked m hm)⟩

end Drawn

section Made

variable {disk : Disk} (hd : disk.WellFormed) {config : Config} {manifest : Option Manifest}
  {g : Graph} {r : Report} (h : MadeOf disk config manifest g r)
include hd h

theorem MadeOf.exists_canonical {m : String} (hm : m ∈ r.files) :
    ∃ p : Path, p.Canonical ∧ p.root = (disk.cwd.absolute (.ofString config.sourceDir)).root ∧
      m = p.toString := by
  rw [h.files, scanned] at hm
  obtain ⟨p, hp, hpm⟩ := Scan.exists_source_of_mem_directory hd hm
  exact ⟨p, hp.canonical, hp.root_eq, hpm.symm⟩

theorem MadeOf.resolveEntry_eq {m : String} (hm : m = r.start disk.cwd ∨ m ∈ r.files) :
    Graph.resolveEntry disk.cwd m r.sourceDir = m := by
  have hpath : ∃ p : Path, p.Canonical ∧ m = p.toString := by
    rcases hm with hm | hm
    · rw [hm]
      exact Graph.exists_canonical_resolveEntry hd r.entryPoint r.sourceDir
    · obtain ⟨p, hp, -, hpm⟩ := h.exists_canonical hd hm
      exact ⟨p, hp, hpm⟩
  obtain ⟨p, hp, hpm⟩ := hpath
  rw [hpm, Graph.resolveEntry_toString hp]

/-- A report shows files of the scan and the module that the analysis started from. -/
theorem MadeOf.shows {Q : String → List String → Prop} (hg : g.Built (scanned disk config) Q) :
    r.Shows disk.cwd fun m => m = r.start disk.cwd ∨ m ∈ r.files := by
  have hne : ∀ m ∈ r.files, m ≠ "" := by
    intro m hm
    obtain ⟨p, hp, -, hpm⟩ := h.exists_canonical hd hm
    rw [hpm]
    exact Path.toString_ne_empty hp.proper
  have hfile : ∀ m, g.contains m = true → m ∈ r.files := by
    intro m hm
    rw [h.files]
    exact (hg.contains_iff m).mp hm
  have htest : ∀ m ∈ r.testFiles, m ∈ r.files := by
    intro m hm
    rw [h.testFiles] at hm
    exact (List.mem_filter.mp hm).1
  have hcycle : ∀ cycle ∈ r.cycles, ∀ m ∈ cycle, m ∈ r.files := by
    -- a module on a cycle imports the next one, so it was given to the graph
    intro cycle hmem m hm
    rw [h.cycles] at hmem
    obtain ⟨x, back, rfl, hchain, -⟩ := Cycle.roundTrip_of_mem_all hmem
    obtain ⟨z, hz⟩ := Cycle.exists_edge_of_mem_roundTrip hchain hm
    exact hfile m hz.contains
  have hstart := h.resolveEntry_eq hd (Or.inl rfl)
  have hinner : ∀ m, g.contains m = true → m = r.start disk.cwd ∨ m ∈ r.files :=
    fun m hm => Or.inr (hfile m hm)
  obtain ⟨tree, htree, htext, hcircular⟩ := h.tree
  constructor
  · intro m hm
    rw [h.unusedModules] at hm
    have hm : m ∈ r.files := (List.mem_filter.mp hm).1
    exact ⟨Or.inr hm, Path.relative?_of_ne (hne m hm) _ _⟩
  · exact fun m hm => ⟨Or.inr (htest m hm), Path.relative?_of_ne (hne m (htest m hm)) _ _⟩
  · intro cycle hmem
    exact ⟨fun m hm => Or.inr (hcycle cycle hmem m hm),
      Cycle.format_of_ne (fun m hm => hne m (hcycle cycle hmem m hm)) _ _⟩
  · rw [htext]
    exact draws_of_ofEntry hstart htree (Or.inl rfl) hinner
  · rw [hcircular]
    exact fun text => chain_of_mem_circular hstart htree (Or.inl rfl) hinner
  · refine h.testTree.imp_right ?_
    rintro ⟨first, hfirst, below, hbelow, htext⟩
    have hshown : first = r.start disk.cwd ∨ first ∈ r.files := Or.inr (htest first hfirst)
    rw [htext]
    exact draws_of_ofEntry (h.resolveEntry_eq hd hshown) hbelow hshown hinner

end Made

/-! ## Given back as entry points -/

/-- Given back as entry point, the text leads to the module.  Left over behind the directory, it is taken
as entry point just when it does not start with a dash, and so it is behind the arguments of a command
line that is read by any reader that keeps words. -/
structure LeadsBack (disk : Disk) (config : Config) (text m : String) : Prop where
  asked : ∀ manifest, entry disk { config with entryPoint := some text } manifest = m
  leftOver : ∀ a : CommandLine.Arguments, a.positional = [config.sourceDir] →
    ((a.addWords [text]).entryPoint = some text ∧
        (∀ manifest, entry disk (a.addWords [text]).config manifest = m) ↔
      CommandLine.Arguments.isUnknownOption text = false)
  onCommandLine : ∀ parse, CommandLine.Arguments.KeepsWord parse → ∀ args a, parse args = .ok a →
    a.positional = [config.sourceDir] →
      ((∃ b, parse (args ++ [text]) = .ok b ∧ b.entryPoint = some text ∧
        ∀ manifest, entry disk b.config manifest = m) ↔
          CommandLine.Arguments.isUnknownOption text = false)

theorem entry_eq_of_asked (disk : Disk) (config : Config) (manifest : Option Manifest) {text : String}
    (hne : text ≠ "") (h : config.entryPoint = some text) :
    entry disk config manifest = Graph.resolveEntry disk.cwd text (sourceDir disk config) := by
  have hasked : (some text).filter (· != "") = some text := by simp [Option.filter, hne]
  rw [entry, h, Manifest.entryPoint, hasked]

theorem leadsBack_relative {disk : Disk} (hd : disk.WellFormed) {config : Config} {p : Path}
    (hp : p.Canonical) (hroot : (disk.cwd.absolute (.ofString config.sourceDir)).root = p.root) :
    LeadsBack disk config (Path.relative disk.cwd p.toString (sourceDir disk config)) p.toString := by
  have hdir : (disk.cwd.absolute (.ofString config.sourceDir)).Canonical :=
    hd.cwd.absolute (Path.proper_ofString _)
  have hback : Graph.resolveEntry disk.cwd
      (Path.relative disk.cwd p.toString (sourceDir disk config)) (sourceDir disk config) =
        p.toString := by
    apply Graph.resolveEntry_relative hd.cwd hp
    rw [sourceDir, Path.ofString_toString hdir.proper, hdir.absolute_eq, hroot]
  have hne : Path.relative disk.cwd p.toString (sourceDir disk config) ≠ "" := by
    rw [hp.relative_toString]
    exact Path.toString_ne_empty (Path.proper_relativeTo hp _)
  generalize Path.relative disk.cwd p.toString (sourceDir disk config) = text at hback hne
  have hleft : ∀ a : CommandLine.Arguments, a.positional = [config.sourceDir] →
      CommandLine.Arguments.isUnknownOption text = false →
        (a.addWords [text]).entryPoint = some text ∧
          ∀ manifest, entry disk (a.addWords [text]).config manifest = p.toString := by
    intro a hpositional htext
    obtain ⟨hsource, hentry⟩ := CommandLine.Arguments.addWords_of_directory hpositional htext
    refine ⟨hentry, fun manifest => ?_⟩
    rw [entry_eq_of_asked disk _ manifest hne hentry, sourceDir, CommandLine.Arguments.config, hsource]
    exact hback
  refine ⟨fun manifest => ?_, fun a hpositional => ⟨fun h => ?_, hleft a hpositional⟩,
    fun parse hparse args a hargs hpositional => ⟨?_, fun htext => ?_⟩⟩
  · rw [entry_eq_of_asked disk _ manifest hne rfl]
    exact hback
  · exact CommandLine.Arguments.not_isUnknownOption_of_entryPoint h.1
  · rintro ⟨b, -, hentry, -⟩
    exact CommandLine.Arguments.not_isUnknownOption_of_entryPoint hentry
  · exact ⟨_, hparse args a text hargs htext, hleft a hpositional htext⟩

/-- The way from a directory to a path leads back from the directory to the path, so ways tell paths
apart.  And so a path in a report leads back to its module when it is given as entry point.  The reader
of the command line is one that keeps words. -/
theorem run_shows_paths_leading_back {disk : Disk} (hd : disk.WellFormed) :
    CommandLine.Arguments.KeepsWord CommandLine.Arguments.parse ∧
    (∀ (dir : String) (p : Path), (disk.cwd.absolute (.ofString dir)).root = .slash →
      p.Canonical → p.root = .slash →
        Graph.resolveEntry disk.cwd (Path.relative disk.cwd p.toString dir) dir = p.toString) ∧
    (∀ (dir : String) (p q : Path), p.Canonical → q.Canonical → p.root = .slash →
      q.root = .slash →
        Path.relative disk.cwd p.toString dir = Path.relative disk.cwd q.toString dir →
          p.toString = q.toString) ∧
    ∀ (strategy : Strategy) (config : Config) (r : Report),
      (run disk strategy config).1 = .ok r →
      (disk.cwd.absolute (.ofString config.sourceDir)).root = .slash →
        r.Shows disk.cwd fun m =>
          m ∈ r.files ∧ LeadsBack disk config (r.pathOf disk.cwd m) m ∨
          m = r.start disk.cwd ∧
            ((Path.ofString m).root = .slash → LeadsBack disk config (r.pathOf disk.cwd m) m) := by
  refine ⟨CommandLine.Arguments.keepsWord_parse, fun dir p hdir hp hroot => ?_,
    fun dir p q hp hq hproot hqroot h => ?_, fun strategy config r hrun hdir => ?_⟩
  · exact Graph.resolveEntry_relative hd.cwd hp (hdir.trans hroot.symm)
  · rw [Path.relative_inj hp hq (hproot.trans hqroot.symm) h]
  · obtain ⟨loaded, g, -, hg, hr⟩ := exists_madeOf hrun
    refine Report.Shows.mono (fun m hm => ?_) (hr.shows hd hg)
    rw [Report.pathOf, hr.sourceDir]
    rcases hm with hm | hm
    · refine Or.inr ⟨hm, fun hroot => ?_⟩
      obtain ⟨p, hp, hpm⟩ := Graph.exists_canonical_resolveEntry hd r.entryPoint r.sourceDir
      replace hpm : m = p.toString := hm.trans hpm
      rw [hpm, Path.ofString_toString hp.proper] at hroot
      rw [hpm]
      exact leadsBack_relative hd hp (hdir.trans hroot.symm)
    · obtain ⟨p, hp, hroot, hpm⟩ := hr.exists_canonical hd hm
      refine Or.inl ⟨hm, ?_⟩
      rw [hpm]
      exact leadsBack_relative hd hp hroot.symm

/-! ## A project with a dash -/

def dashedEntries : List (String × Entry) := [("a.js", .file []), ("-x.js", .file [])]

/-- Two files without imports.  The name of one starts with a dash. -/
def dashed : Disk where
  root := .folder [("src", .folder dashedEntries)]
  cwd := ⟨.slash, []⟩

theorem wellFormed_dashed : dashed.WellFormed :=
  Disk.wellFormed_of_isWellFormed rfl (by decide) (by decide)

theorem sourceDir_dashed : sourceDir dashed { sourceDir := "src" } = "/src" := by decide

theorem load_dashed : ∃ noted, Manifest.load dashed "/src" = .ok (none, noted) := ⟨_, rfl⟩

theorem scanned_dashed : scanned dashed { sourceDir := "src" } = ["/src/-x.js", "/src/a.js"] := by
  have hroot : dashed.cwd.absolute (.ofString "src") = ⟨.slash, ["src"]⟩ := by decide
  have hlist : dashed.list (Path.toString ⟨.slash, ["src"]⟩) = .ok dashedEntries := rfl
  have hentries : Scan.ofEntries {} ⟨.slash, ["src"]⟩ dashedEntries =
      [("a.js", ["/src/a.js"]), ("-x.js", ["/src/-x.js"])] := by
    decide
  unfold scanned Scan.directory
  rw [hroot]
  dsimp only
  rw [hlist]
  dsimp only
  rw [hentries]
  simp [Scan.inOrder, List.mergeSort, List.MergeSort.Internal.splitInTwo]

/-- The usual entry point is not there, so both files are unused. -/
theorem exists_run_dashed : ∃ r, (run dashed .standard { sourceDir := "src" }).1 = .ok r ∧
    r.sourceDir = "/src" ∧ "/src/-x.js" ∈ r.unusedModules ∧ "/src/a.js" ∈ r.unusedModules := by
  obtain ⟨noted, hload⟩ := load_dashed
  rw [← sourceDir_dashed] at hload
  obtain ⟨r, events, hrun, -⟩ :=
    run_found wellFormed_dashed Strategy.total_standard (by decide) hload
  have hok : (run dashed .standard { sourceDir := "src" }).1 = .ok r := by rw [hrun]
  obtain ⟨loaded, g, hloaded, -, hr⟩ := exists_madeOf hok
  rw [hload] at hloaded
  cases hloaded
  have hdir : r.sourceDir = "/src" := hr.sourceDir.trans sourceDir_dashed
  have hstart : r.start dashed.cwd = "/src/src/index.js" := by
    rw [Report.start, hr.entryPoint, hdir]
    dsimp only
    decide
  have htrace : g.trace dashed.holds "/src/src/index.js" [] = [] := by
    refine List.eq_nil_iff_forall_not_mem.mpr fun m hm => ?_
    have hchain := (Graph.mem_trace.mp hm).resolve_left List.not_mem_nil
    exact absurd hchain.first.1 (by decide)
  refine ⟨r, hok, hdir, ?_⟩
  rw [hr.unusedModules, hr.files, scanned_dashed, hstart, htrace, hdir]
  decide

theorem run_shows_paths_leading_back_dashed :
    dashed.WellFormed ∧ (dashed.cwd.absolute (.ofString "src")).root = .slash ∧
      Graph.resolveEntry dashed.cwd (Path.relative dashed.cwd "/b.js" "src") "src" = "/b.js" ∧
      ∃ r, (run dashed .standard { sourceDir := "src" }).1 = .ok r ∧
        "/src/a.js" ∈ r.unusedModules ∧
        CommandLine.shown dashed.cwd r "/src/a.js" = .ok "a.js" ∧
        LeadsBack dashed { sourceDir := "src" } "a.js" "/src/a.js" := by
  obtain ⟨-, hback, -, hreport⟩ := run_shows_paths_leading_back wellFormed_dashed
  have hsrc : (dashed.cwd.absolute (.ofString "src")).root = .slash := by decide
  have hb : Path.toString ⟨.slash, ["b.js"]⟩ = "/b.js" := by decide
  obtain ⟨r, hrun, hdir, -, hunused⟩ := exists_run_dashed
  have hpath : r.pathOf dashed.cwd "/src/a.js" = "a.js" := by
    rw [Report.pathOf, hdir]
    decide
  have hshows := hreport .standard { sourceDir := "src" } r hrun hsrc
  obtain ⟨hleads, hshown⟩ := hshows.unusedModules "/src/a.js" hunused
  rw [hpath] at hleads hshown
  refine ⟨wellFormed_dashed, hsrc, ?_, r, hrun, hunused, hshown, ?_⟩
  · rw [← hb]
    exact hback "src" ⟨.slash, ["b.js"]⟩ hsrc ⟨rfl, by decide⟩ rfl
  · rcases hleads with ⟨-, hleads⟩ | ⟨-, hleads⟩
    · exact hleads
    · exact hleads (by decide)

/-- The path of the other file starts with a dash.  Given back, it is an unknown option, and the
analysis starts from the usual entry point. -/
theorem entry_dashed_path :
    ∃ r, (run dashed .standard { sourceDir := "src" }).1 = .ok r ∧
      "/src/-x.js" ∈ r.unusedModules ∧
      CommandLine.shown dashed.cwd r "/src/-x.js" = .ok "-x.js" ∧
      ∃ b, CommandLine.Arguments.parse ["src", "-x.js"] = .ok b ∧ b.directory = "src" ∧
        b.unknownOptions = ["-x.js"] ∧ (∃ noted, Manifest.load dashed "/src" = .ok (none, noted)) ∧
        entry dashed b.config none = "/src/src/index.js" := by
  obtain ⟨r, hrun, hdir, hunused, -⟩ := exists_run_dashed
  refine ⟨r, hrun, hunused, ?_, { words := ["src", "-x.js"] }, rfl, rfl, rfl, load_dashed,
    by decide⟩
  rw [CommandLine.shown, hdir]
  decide

end Analysis
end ModuleAudit
