import ModuleAudit.Proofs.Graph.Build
import ModuleAudit.Proofs.Graph.Trace
import ModuleAudit.Proofs.Outline
import ModuleAudit.Proofs.Path.Relative

/-
The rendering of an entry shows what a trace from it comes to.

The rendering goes down every chain of imports between modules of the graph and cuts it where it
comes back to itself.  The trace visits each module once and asks the disk.  Both come to the same
modules of the graph, and the labels of these tell them apart: the path of a source file ends in its
extension, so it does not end like the number of importers behind another path.
-/

namespace ModuleAudit
namespace Unfolding

variable {g : Graph} {shown : String → String}

/-! ## Labels -/

theorem append_cons_left_inj {before before' after after' : List Char} {c : Char}
    (hafter : c ∉ after) (hafter' : c ∉ after')
    (h : before ++ c :: after = before' ++ c :: after') : before = before' := by
  have hnil : ∀ {rest l l' : List Char}, c ∉ l → c :: l = rest ++ c :: l' → rest = [] := by
    intro rest l l' hl hrest
    cases rest with
    | nil => rfl
    | cons a rest =>
      rw [List.cons_append, List.cons.injEq] at hrest
      exact absurd (hrest.2 ▸ List.mem_append_right _ List.mem_cons_self) hl
  rcases List.append_eq_append_iff.mp h with ⟨rest, hbefore, hrest⟩ | ⟨rest, hbefore, hrest⟩
  · rw [hbefore, hnil hafter hrest, List.append_nil]
  · rw [hbefore, hnil hafter' hrest, List.append_nil]

theorem label_of_le {m : String} (h : g.referenceCount m ≤ 1) : label g shown m = shown m :=
  if_neg (by omega)

theorem toList_label_of_lt {m : String} (h : 1 < g.referenceCount m) :
    (label g shown m).toList = ((shown m).toList ++ " [ref:".toList) ++
      ' ' :: ((toString (g.referenceCount m)).toList ++ [']']) := by
  rw [label, if_pos h, String.toList_append, String.toList_append, String.toList_append]
  simp

theorem space_notMem_count (n : Nat) : ' ' ∉ (toString n).toList ++ [']'] := by
  intro h
  rcases List.mem_append.mp h with h | h
  · have hdigit : (' ').isDigit = true :=
      Nat.isDigit_of_mem_toDigits (by decide) (by decide) (Nat.toList_repr ▸ h)
    exact absurd hdigit (by decide)
  · exact absurd h (by decide)

theorem getLast?_label_of_lt {m : String} (h : 1 < g.referenceCount m) :
    (label g shown m).toList.getLast? = some ']' := by
  rw [toList_label_of_lt h, ← List.cons_append, ← List.append_assoc, List.getLast?_concat]

/-- Labels show their paths, as long as no path ends like a number of importers. -/
theorem shown_eq_of_label_eq {a b : String} (h : label g shown a = label g shown b)
    (ha : (shown a).toList.getLast? ≠ some ']') (hb : (shown b).toList.getLast? ≠ some ']') :
    shown a = shown b := by
  by_cases hcount : 1 < g.referenceCount a
  · by_cases hcount' : 1 < g.referenceCount b
    · -- behind the last space there are only digits and the bracket
      have hlists := congrArg String.toList h
      rw [toList_label_of_lt hcount, toList_label_of_lt hcount'] at hlists
      have hpaths := append_cons_left_inj (space_notMem_count _) (space_notMem_count _) hlists
      exact String.toList_inj.mp (List.append_cancel_right hpaths)
    · rw [label_of_le (Nat.le_of_not_lt hcount')] at h
      exact absurd (h ▸ getLast?_label_of_lt hcount) hb
  · rw [label_of_le (Nat.le_of_not_lt hcount)] at h
    by_cases hcount' : 1 < g.referenceCount b
    · exact absurd (h ▸ getLast?_label_of_lt hcount') ha
    · rwa [label_of_le (Nat.le_of_not_lt hcount')] at h

theorem label_ne_returnMark {m : String} (hm : (shown m).toList.getLast? ≠ some 'e') :
    label g shown m ≠ returnMark := by
  intro h
  by_cases hcount : 1 < g.referenceCount m
  · have hlast : (label g shown m).toList.getLast? = some ']' := getLast?_label_of_lt hcount
    rw [h] at hlast
    exact absurd hlast (by decide)
  · rw [label_of_le (Nat.le_of_not_lt hcount)] at h
    exact hm (h ▸ by decide)

end Unfolding

namespace Path

/-- A canonical path whose name ends like an extension of sources. -/
structure EndsLikeSource (p : Path) : Prop where
  canonical : p.Canonical
  last : p.name.toList.getLast? ∈ Scan.sourceExtensions.map (·.toList.getLast?)

namespace EndsLikeSource

variable {g : Graph} {p q : Path} {cwd : Path} {dir : String}

/-- The way to such a path ends in a dot or like an extension. -/
theorem getLast?_relative (hp : p.EndsLikeSource) (cwd : Path) (dir : String) :
    (relative cwd p.toString dir).toList.getLast? ∈
      some '.' :: Scan.sourceExtensions.map (·.toList.getLast?) := by
  rcases Path.getLast?_relative hp.canonical cwd dir with hdot | hname
  · rw [hdot]
    exact List.mem_cons_self
  · rw [hname]
    exact List.mem_cons_of_mem _ hp.last

/-- Labels tell such paths apart. -/
theorem eq_of_label_eq (hp : p.EndsLikeSource) (hq : q.EndsLikeSource) (hroot : p.root = q.root)
    (h : Unfolding.label g (relative cwd · dir) p.toString =
      Unfolding.label g (relative cwd · dir) q.toString) : p = q := by
  have hends : ∀ {x : Path}, x.EndsLikeSource →
      (relative cwd x.toString dir).toList.getLast? ≠ some ']' := by
    intro x hx e
    have hmem := hx.getLast?_relative cwd dir
    rw [e] at hmem
    exact absurd hmem (by decide)
  have hpaths := Unfolding.shown_eq_of_label_eq h (hends hp) (hends hq)
  exact relative_inj hp.canonical hq.canonical hroot hpaths

theorem label_ne_returnMark (hp : p.EndsLikeSource) :
    Unfolding.label g (relative cwd · dir) p.toString ≠ Unfolding.returnMark := by
  apply Unfolding.label_ne_returnMark
  intro e
  have hmem := hp.getLast?_relative cwd dir
  rw [e] at hmem
  exact absurd hmem (by decide)

end EndsLikeSource

end Path

theorem Scan.Source.endsLikeSource {disk : Disk} {f : Filter} {directory p : Path}
    (h : Source disk f directory p) (hext : f.extensions = sourceExtensions) :
    p.EndsLikeSource where
  canonical := h.canonical
  last := by
    have hsuffix : p.suffix ∈ sourceExtensions := hext ▸ List.contains_iff_mem.mp h.taken
    have hne : ∀ ext ∈ sourceExtensions, ext ≠ "" := by decide
    obtain ⟨before, hname⟩ := Path.exists_name_eq_append_suffix (hne _ hsuffix)
    have hnil : p.suffix.toList ≠ [] := fun e => hne _ hsuffix (String.toList_eq_nil_iff.mp e)
    rw [hname, List.getLast?_append_of_ne_nil _ hnil]
    exact List.mem_map_of_mem hsuffix

namespace Graph

/-! ## What is reached -/

/-- Between modules of the graph, a trace follows the imports as they are. -/
theorem mem_trace_iff_reaches {g : Graph} {onDisk : String → Bool}
    (hnormal : ∀ m d, g.Edge m d → Path.normalize d = d)
    (hdisk : ∀ m, g.contains m = true → onDisk m = true) {entry : String}
    (hentry : Path.normalize entry = entry) {m : String} (hm : g.contains m = true) :
    m ∈ g.trace onDisk entry [] ↔ Relation.ReflTransGen g.Inner entry m := by
  rw [mem_trace, or_iff_right List.not_mem_nil, hentry]
  constructor
  · intro h
    induction h with
    | start _ => exact .refl
    | step _ hnext _ ih =>
      obtain ⟨d, hd, rfl⟩ := hnext
      rw [hnormal _ d hd] at hm ⊢
      exact .tail (ih hd.contains) ⟨hd, hm⟩
  · intro h
    -- an entry with an import was given to the graph, so it is on disk
    have hcontains : g.contains entry = true := by
      rcases Relation.ReflTransGen.cases_head h with rfl | ⟨d, hd, _⟩
      · exact hm
      · exact hd.1.contains
    clear hm
    induction h with
    | refl => exact .start ⟨hdisk _ hcontains, List.not_mem_nil⟩
    | tail _ hd ih =>
      exact ih.step ⟨_, hd.1, hnormal _ _ hd.1⟩ ⟨hdisk _ hd.2, List.not_mem_nil⟩

end Graph

namespace Rendering

/-- No module of a scan has an empty name, so every rendering succeeds. -/
theorem exists_ofEntry {disk : Disk} (hd : disk.WellFormed) {f : Scan.Filter} {path : String}
    {g : Graph} {Q : String → List String → Prop} (hg : g.Built (Scan.directory disk f path).1 Q)
    (entry dir : String) :
    ∃ r, ofEntry disk.cwd g entry dir = .ok r ∧
      r.outline = (Unfolding.ofEntry g (Graph.resolveEntry disk.cwd entry dir)).outline g
        (Path.relative disk.cwd · dir) := by
  apply ofEntry_eq
  · obtain ⟨p, hp, hentry⟩ := Graph.exists_canonical_resolveEntry hd entry dir
    rw [hentry]
    exact Path.toString_ne_empty hp.proper
  · rw [← Bool.not_eq_true, hg.contains_iff]
    intro hmem
    obtain ⟨p, hp, hempty⟩ := Scan.exists_source_of_mem_directory hd hmem
    exact Path.toString_ne_empty hp.canonical.proper hempty

section

variable {disk : Disk} (hd : disk.WellFormed) {f : Scan.Filter}
  (hext : f.extensions = Scan.sourceExtensions) {path : String} {g : Graph} {cwd : Path}
  {dir : String}

include hd hext

/-- Labels tell the files of a scan apart. -/
theorem eq_of_label_eq {a b : String} (ha : a ∈ (Scan.directory disk f path).1)
    (hb : b ∈ (Scan.directory disk f path).1)
    (h : Unfolding.label g (Path.relative cwd · dir) a =
      Unfolding.label g (Path.relative cwd · dir) b) : a = b := by
  obtain ⟨p, hp, rfl⟩ := Scan.exists_source_of_mem_directory hd ha
  obtain ⟨q, hq, rfl⟩ := Scan.exists_source_of_mem_directory hd hb
  have hroot : p.root = q.root := hp.root_eq.trans hq.root_eq.symm
  rw [(hp.endsLikeSource hext).eq_of_label_eq (hq.endsLikeSource hext) hroot h]

theorem label_ne_returnMark {m : String} (hm : m ∈ (Scan.directory disk f path).1) :
    Unfolding.label g (Path.relative cwd · dir) m ≠ Unfolding.returnMark := by
  obtain ⟨p, hp, rfl⟩ := Scan.exists_source_of_mem_directory hd hm
  exact (hp.endsLikeSource hext).label_ne_returnMark

variable (hg : g.Built (Scan.directory disk f path).1 (Graph.Specified disk f.extensions))

include hg

theorem mem_trace_iff_of_mem_directory {m : String} (hm : m ∈ (Scan.directory disk f path).1)
    (entry : String) :
    m ∈ g.trace disk.holds (Graph.resolveEntry disk.cwd entry dir) [] ↔
      Relation.ReflTransGen g.Inner (Graph.resolveEntry disk.cwd entry dir) m := by
  have hslash : ∀ ext ∈ f.extensions, '/' ∉ ext.toList := by
    rw [hext]
    decide
  apply Graph.mem_trace_iff_reaches
  · exact fun _ _ he => hg.normalize_of_edge hd hslash he
  · intro n hn
    obtain ⟨p, hp, rfl⟩ := Scan.exists_source_of_mem_directory hd ((hg.contains_iff n).mp hn)
    exact Disk.holds_of_isFile hp.isFile
  · obtain ⟨p, hp, hentry⟩ := Graph.exists_canonical_resolveEntry hd entry dir
    rw [hentry, hp.normalize_toString]
  · exact (hg.contains_iff m).mpr hm

end

/-- Of the graph that a scan builds, the rendering of an entry shows below its top the modules that
the trace from the entry comes to.  So it shows none that is reported as unused. -/
theorem label_mem_iff_mem_trace {disk : Disk} (hd : disk.WellFormed) {strategy : Strategy}
    {config : Config} (hext : config.filter.extensions = Scan.sourceExtensions)
    {s s' : Session} {files : List String} {g : Graph}
    (hbuild : (Analysis.scanAndBuild disk strategy config).run.run s = (.ok (files, g), s'))
    (entry dir : String) :
    ∃ r, ofEntry disk.cwd g entry dir = .ok r ∧
      (∀ m ∈ files, m ≠ Graph.resolveEntry disk.cwd entry dir →
        (Unfolding.label g (Path.relative disk.cwd · dir) m ∈ r.outline.labelsBelow ↔
          m ∈ g.trace disk.holds (Graph.resolveEntry disk.cwd entry dir) [])) ∧
      ∀ testDir sourceDir, ∀ m ∈ TestFile.unused disk.cwd files
          (g.trace disk.holds (Graph.resolveEntry disk.cwd entry dir) []) testDir sourceDir,
        m ≠ Graph.resolveEntry disk.cwd entry dir ∧
          Unfolding.label g (Path.relative disk.cwd · dir) m ∉ r.outline.labelsBelow := by
  obtain ⟨rfl, hg⟩ := Graph.scanned_of_scanAndBuild hbuild
  obtain ⟨r, hr, houtline⟩ := exists_ofEntry hd hg entry dir
  have hinj : ∀ a b, g.contains a = true → g.contains b = true →
      Unfolding.label g (Path.relative disk.cwd · dir) a =
        Unfolding.label g (Path.relative disk.cwd · dir) b → a = b := fun a b ha hb h =>
    eq_of_label_eq hd hext ((hg.contains_iff a).mp ha) ((hg.contains_iff b).mp hb) h
  have hshown : ∀ m ∈ (Scan.directory disk config.filter config.sourceDir).1,
      m ≠ Graph.resolveEntry disk.cwd entry dir →
        (Unfolding.label g (Path.relative disk.cwd · dir) m ∈ r.outline.labelsBelow ↔
          m ∈ g.trace disk.holds (Graph.resolveEntry disk.cwd entry dir) []) := by
    intro m hm hne
    rw [houtline, mem_trace_iff_of_mem_directory hd hext hg hm]
    exact Unfolding.label_mem_labelsBelow_iff hinj ((hg.contains_iff m).mpr hm)
      (label_ne_returnMark hd hext hm) hne
  refine ⟨r, hr, hshown, fun testDir sourceDir m hunused => ?_⟩
  obtain ⟨hm, -, hno⟩ := (TestFile.mem_unused_iff hd).mp hunused
  have hne : m ≠ Graph.resolveEntry disk.cwd entry dir := by
    rintro rfl
    exact hno ((mem_trace_iff_of_mem_directory hd hext hg hm entry).mpr .refl)
  exact ⟨hne, fun hlabel => hno ((hshown m hm hne).mp hlabel)⟩

def sharedEntries : List (String × Entry) :=
  [("a.ts", .file [0x61]), ("b.ts", .file [0x61]), ("c.ts", .file [0x61])]

/-- Three files.  Each of them is made to import `b.ts`. -/
def shared : Disk where
  root := .folder [("src", .folder sharedEntries)]
  cwd := ⟨.slash, ["src"]⟩

theorem wellFormed_shared : shared.WellFormed :=
  Disk.wellFormed_of_isWellFormed rfl (by decide) (by decide)

def sharedGraph : Graph where
  files := ["/src/a.ts", "/src/b.ts", "/src/c.ts"]
  forward := [("/src/a.ts", ["/src/b.ts"]), ("/src/b.ts", ["/src/b.ts"]),
    ("/src/c.ts", ["/src/b.ts"])]
  reverse := [("/src/b.ts", ["/src/a.ts", "/src/b.ts", "/src/c.ts"])]
  version := 4

theorem directory_shared :
    Scan.directory shared {} "." = (["/src/a.ts", "/src/b.ts", "/src/c.ts"], []) := by
  have hroot : shared.cwd.absolute (.ofString ".") = ⟨.slash, ["src"]⟩ := by decide
  have hlist : shared.list (Path.toString ⟨.slash, ["src"]⟩) = .ok sharedEntries := rfl
  have hentries : Scan.ofEntries {} ⟨.slash, ["src"]⟩ sharedEntries =
      [("a.ts", ["/src/a.ts"]), ("b.ts", ["/src/b.ts"]), ("c.ts", ["/src/c.ts"])] := by
    decide
  unfold Scan.directory
  rw [hroot]
  dsimp only
  rw [hlist]
  dsimp only
  rw [hentries, Scan.inOrder, List.mergeSort_of_pairwise]
  · rfl
  · decide

theorem scanAndBuild_shared :
    ∃ s', (Analysis.scanAndBuild shared (.fixed ["./b.ts"]) {}).run.run (.ofCache (.empty 500)) =
      (.ok (["/src/a.ts", "/src/b.ts", "/src/c.ts"], sharedGraph), s') := by
  unfold Analysis.scanAndBuild
  dsimp only
  rw [directory_shared]
  exact ⟨_, rfl⟩

/-- From `a.ts`, the file that imports itself is shown, and the one that nobody imports is not. -/
theorem label_mem_iff_mem_trace_shared :
    shared.WellFormed ∧ (Config.filter {}).extensions = Scan.sourceExtensions ∧
      (∃ s', (Analysis.scanAndBuild shared (.fixed ["./b.ts"]) {}).run.run (.ofCache (.empty 500)) =
        (.ok (["/src/a.ts", "/src/b.ts", "/src/c.ts"], sharedGraph), s')) ∧
      ∃ r, ofEntry shared.cwd sharedGraph "a.ts" "." = .ok r ∧
        "b.ts [ref: 3]" ∈ r.outline.labelsBelow ∧ "c.ts" ∉ r.outline.labelsBelow := by
  obtain ⟨s', hbuild⟩ := scanAndBuild_shared
  obtain ⟨r, hr, hshown, hunused⟩ :=
    label_mem_iff_mem_trace wellFormed_shared rfl hbuild "a.ts" "."
  have hb : Unfolding.label sharedGraph (Path.relative shared.cwd · ".") "/src/b.ts" =
      "b.ts [ref: 3]" := by decide +kernel
  have hc : Unfolding.label sharedGraph (Path.relative shared.cwd · ".") "/src/c.ts" = "c.ts" := by
    decide +kernel
  refine ⟨wellFormed_shared, rfl, ⟨s', hbuild⟩, r, hr, ?_, ?_⟩
  · rw [← hb, hshown "/src/b.ts" (by decide) (by decide +kernel)]
    decide +kernel
  · rw [← hc]
    exact (hunused none none "/src/c.ts" (by decide +kernel)).2

end Rendering
end ModuleAudit
