import ModuleAudit.Proofs.Pattern.Words
import ModuleAudit.Proofs.TestFile
import ModuleAudit.Scan

/-
Files that are marked as tests in their names.

A name such as `a.test.js` is found at the end of the path that is compared with the patterns, so it
decides alone, unless the source directory is the file itself or lies below it: then the path to the file
has no name in it.  The patterns spell the extensions out.  They leave out two of the extensions of source
files, and a marked file with one of these is a test only if something else says so.
-/

namespace ModuleAudit
namespace TestFile

open ModuleAudit.Path Pattern

/-! ## What the patterns find -/

def marks : List String := [".test", ".spec"]

/-- The extensions that the patterns look for behind a mark. -/
def scripts : List String := [".js", ".jsx", ".ts", ".tsx"]

/-- A marked name may stand before a newline that ends the path. -/
def endingsOf (mark : String) : List (List Char) :=
  scripts.flatMap fun ext => [[], ['\n']].map fun after => (mark ++ ext).toList ++ after

def endings : List (List Char) := marks.flatMap endingsOf

theorem mem_endingsOf {mark : String} {ending : List Char} :
    ending ∈ endingsOf mark ↔ ∃ ext ∈ scripts, ∃ after, (after = [] ∨ after = ['\n']) ∧
      ending = (mark ++ ext).toList ++ after := by
  simp only [endingsOf, List.mem_flatMap, List.mem_map, List.mem_cons, List.not_mem_nil, or_false,
    eq_comm]

theorem reads_marked_iff {mark : String} {before : Option Char} {word after : List Char}
    {caught : Option (List Char)} :
    (marked (mark ++ ".")).Reads before word after caught ↔
      (∃ ext ∈ scripts, word = (mark ++ ext).toList) ∧ (after = [] ∨ after = ['\n']) ∧
        caught = none := by
  constructor
  · intro h
    obtain ⟨_, _, _, _, rfl, ⟨rfl, rfl⟩, h, rfl⟩ := h
    obtain ⟨_, _, _, _, rfl, ⟨⟨c, rfl, hc⟩, rfl⟩, h, rfl⟩ := h
    obtain ⟨_, _, _, _, rfl, ⟨rfl, rfl⟩, h, rfl⟩ := h
    obtain ⟨x, _, _, _, rfl, hx, h, rfl⟩ := h
    obtain ⟨_, _, _, _, rfl, ⟨⟨rfl, rfl⟩, hafter⟩, ⟨rfl, rfl⟩, rfl⟩ := h
    have hscript : c = 'j' ∨ c = 't' := by simpa using hc
    rcases hscript with rfl | rfl <;> rcases hx with ⟨rfl, rfl⟩ | ⟨rfl, rfl⟩
    · exact ⟨⟨".jsx", by decide, by simp⟩, hafter, rfl⟩
    · exact ⟨⟨".js", by decide, by simp⟩, hafter, rfl⟩
    · exact ⟨⟨".tsx", by decide, by simp⟩, hafter, rfl⟩
    · exact ⟨⟨".ts", by decide, by simp⟩, hafter, rfl⟩
  · intro ⟨⟨ext, hext, hword⟩, hafter, hcaught⟩
    -- the dot is read with the mark
    have hdot : ∀ e ∈ scripts, e.toList = ['.'] ++ e.toList.tail := by decide
    have hspelled : ∀ e ∈ scripts, (all [one fun c => c == 'j' || c == 't', literal ['s'],
        Pattern.optional (literal ['x'])]).spells e.toList.tail = true := by decide
    have hsplit : word = (mark ++ ".").toList ++ ext.toList.tail := by
      rw [hword, String.toList_append, hdot ext hext, String.toList_append, List.append_assoc]
      rfl
    have hmark : (all [text (mark ++ ".")]).Reads before (mark ++ ".").toList
        (ext.toList.tail ++ after) none :=
      ⟨(mark ++ ".").toList, [], none, none, (List.append_nil _).symm, ⟨rfl, rfl⟩, ⟨rfl, rfl⟩, rfl⟩
    have hfinish : ∀ b, (all [finish]).Reads b [] after none := fun b =>
      ⟨[], [], none, none, rfl, ⟨⟨rfl, rfl⟩, hafter⟩, ⟨rfl, rfl⟩, rfl⟩
    have htail := reads_all_append (reads_of_spells (hspelled ext hext)
      ((mark ++ ".").toList.getLast?.or before) ([] ++ after)) (hfinish _)
    rw [List.append_nil] at htail
    rw [hsplit, hcaught]
    exact reads_all_append hmark htail

theorem isFound_marked_iff {mark : String} {path : List Char} :
    (marked (mark ++ ".")).isFound path = true ↔ ∃ ending ∈ endingsOf mark, ending <:+ path := by
  rw [isFound_iff_reads]
  constructor
  · intro ⟨front, word, after, caught, hpath, hreads⟩
    obtain ⟨⟨ext, hext, hword⟩, hafter, -⟩ := reads_marked_iff.mp hreads
    refine ⟨word ++ after, mem_endingsOf.mpr ⟨ext, hext, after, hafter, ?_⟩, front, hpath.symm⟩
    rw [hword]
  · intro ⟨ending, hending, front, hpath⟩
    obtain ⟨ext, hext, after, hafter, heq⟩ := mem_endingsOf.mp hending
    rw [heq] at hpath
    exact ⟨front, _, after, none, hpath.symm, reads_marked_iff.mpr ⟨⟨ext, hext, rfl⟩, hafter, rfl⟩⟩

/-- A folder for tests is on the path that is compared. -/
def InTestFolder (path : String) : Prop :=
  "__tests__/".toList <:+: path.toList ∨ "/test/".toList <:+: path.toList

theorem looksLikeTest_iff {path : String} :
    looksLikeTest path = true ↔
      (∃ ending ∈ endings, ending <:+ path.toList) ∨ InTestFolder path := by
  have htest : marked ".test." = marked (".test" ++ ".") := rfl
  have hspec : marked ".spec." = marked (".spec" ++ ".") := rfl
  simp only [looksLikeTest, patterns, htest, hspec, List.any_cons, List.any_nil, Bool.or_false,
    Bool.or_eq_true, isFound_marked_iff, isFound_text_iff, endings, marks, List.flatMap_cons,
    List.flatMap_nil, List.append_nil, List.mem_append, or_and_right, exists_or, or_assoc,
    InTestFolder]

/-! ## Marked names -/

theorem take_reverse_of_suffix {l text : List Char} (h : l <:+ text) {k : Nat} (hk : k ≤ l.length) :
    text.reverse.take k = l.reverse.take k := by
  obtain ⟨front, rfl⟩ := h
  rw [List.reverse_append, List.take_append_of_le_length (by rwa [List.length_reverse])]

/-- The extension decides whether a marked name is one that the patterns look for. -/
theorem exists_ending_iff {stem mark ext : String} (hmark : mark ∈ marks)
    (hext : ext ∈ Scan.sourceExtensions) {text : List Char}
    (hends : (stem ++ mark ++ ext).toList <:+ text) :
    (∃ ending ∈ endings, ending <:+ text) ↔ ext ∈ scripts := by
  rw [String.append_assoc, String.toList_append] at hends
  have hmarked : (mark ++ ext).toList <:+ text := (List.suffix_append _ _).trans hends
  constructor
  · intro ⟨ending, hmem, hending⟩
    -- the last three characters tell the extensions apart, newline or not
    have hapart : ∀ e ∈ Scan.sourceExtensions, e ∉ scripts → ∀ ending ∈ endings,
        ending.reverse.take 3 ≠ e.toList.reverse.take 3 := by decide
    have hlong : ∀ ending ∈ endings, 3 ≤ ending.length := by decide
    have hextLong : ∀ e ∈ Scan.sourceExtensions, 3 ≤ e.toList.length := by decide
    rw [String.toList_append] at hmarked
    have hextEnds : ext.toList <:+ text := (List.suffix_append _ _).trans hmarked
    by_contra hno
    refine hapart ext hext hno ending hmem ?_
    rw [← take_reverse_of_suffix hending (hlong ending hmem),
      take_reverse_of_suffix hextEnds (hextLong ext hext)]
  · intro hscript
    have hlisted : ∀ m ∈ marks, ∀ e ∈ scripts, (m ++ e).toList ∈ endings := by decide
    exact ⟨_, hlisted mark hmark ext hscript, hmarked⟩

/-- The source directory is the file itself or lies below it. -/
def Hidden (cwd : Path) (file : String) (sourceDir : Option String) : Prop :=
  ∃ dir ∈ given? sourceDir,
    (cwd.absolute (.ofString file)).names <+: (cwd.absolute (.ofString dir)).names

theorem suffix_comparedPath {cwd : Path} {file : String} {sourceDir : Option String}
    (hfile : (cwd.absolute (.ofString file)).names ≠ []) (h : ¬ Hidden cwd file sourceDir) :
    (cwd.absolute (.ofString file)).name.toList <:+
      (comparedPath cwd (cwd.absolute (.ofString file)) sourceDir).toList := by
  unfold comparedPath
  cases hgiven : given? sourceDir with
  | none => exact suffix_toString hfile
  | some dir =>
    obtain ⟨hne, hname⟩ := name_relativeTo fun hunder => h ⟨dir, hgiven, hunder⟩
    rw [← hname, String.toList_append]
    exact (suffix_toString hne).trans (List.suffix_append _ _)

/-- Nothing is found in the way up to a file. -/
theorem not_looksLikeTest_of_hidden {cwd : Path} {file : String} {sourceDir : Option String}
    (h : Hidden cwd file sourceDir) :
    looksLikeTest (comparedPath cwd (cwd.absolute (.ofString file)) sourceDir) = false := by
  obtain ⟨dir, hdir, hunder⟩ := h
  obtain ⟨up, hway⟩ := relativeTo_above hunder
  have hpath : comparedPath cwd (cwd.absolute (.ofString file)) sourceDir =
      "/" ++ Path.toString ⟨.relative, List.replicate up ".."⟩ := by
    rw [comparedPath, show given? sourceDir = some dir from hdir]
    dsimp only
    rw [hway]
  have hclear : 's' ∉ ("/" ++ Path.toString ⟨.relative, List.replicate up ".."⟩).toList := by
    rw [String.toList_append, List.mem_append, not_or]
    refine ⟨by decide, fun hmem => ?_⟩
    cases up with
    | zero => exact absurd hmem (by decide)
    | succ up =>
      rw [toString_eq (Or.inl (by simp)), Root.text, String.empty_append] at hmem
      rcases mem_intercalate hmem with hc | ⟨n, hn, hc⟩
      · exact absurd hc (by decide)
      · rw [List.eq_of_mem_replicate hn] at hc
        exact absurd hc (by decide)
  have hendings : ∀ ending ∈ endings, 's' ∈ ending := by decide
  rw [hpath, Bool.eq_false_iff, Ne, looksLikeTest_iff]
  rintro (⟨ending, hmem, hending⟩ | hfolder | hfolder)
  · exact hclear (hending.subset (hendings ending hmem))
  · exact hclear (hfolder.subset (by decide))
  · exact hclear (hfolder.subset (by decide))

/-- The name of a marked file stays in its absolute path. -/
theorem exists_names_of_marked {stem mark ext : String} (hmark : mark ∈ marks) {p : Path}
    (hname : p.name = stem ++ mark ++ ext) (cwd : Path) :
    ∃ above, (cwd.absolute p).names = above ++ [stem ++ mark ++ ext] := by
  have hlong : ∀ m ∈ marks, m.toList.length = 5 := by decide
  have hne : ∀ short : String, short.toList.length < 5 → p.name ≠ short := by
    intro short hshort heq
    rw [← heq, hname, String.toList_append, String.toList_append, List.length_append,
      List.length_append, hlong mark hmark] at hshort
    omega
  rw [← hname]
  refine exists_names_absolute cwd (fun hnil => ?_) (hne ".." (by decide))
  refine hne "" (by decide) ?_
  rw [Path.name, hnil]
  rfl

theorem looksLikeTest_of_marked {stem mark ext : String} (hmark : mark ∈ marks)
    (hext : ext ∈ Scan.sourceExtensions) {file : String}
    (hname : (ofString file).name = stem ++ mark ++ ext) (cwd : Path) (sourceDir : Option String) :
    looksLikeTest (comparedPath cwd (cwd.absolute (.ofString file)) sourceDir) = true ↔
      (ext ∈ scripts ∧ ¬ Hidden cwd file sourceDir) ∨
        InTestFolder (comparedPath cwd (cwd.absolute (.ofString file)) sourceDir) := by
  by_cases hhidden : Hidden cwd file sourceDir
  · have hno := not_looksLikeTest_of_hidden hhidden
    rw [Bool.eq_false_iff, Ne, looksLikeTest_iff, not_or] at hno
    simp [looksLikeTest_iff, hno, hhidden]
  · obtain ⟨above, hnames⟩ := exists_names_of_marked hmark hname cwd
    have hlast : (cwd.absolute (.ofString file)).name = stem ++ mark ++ ext := by
      rw [Path.name, hnames, List.getLast?_concat, Option.getD_some]
    have hends := suffix_comparedPath (hnames ▸ List.concat_ne_nil _ _) hhidden
    rw [hlast] at hends
    rw [looksLikeTest_iff, exists_ending_iff hmark hext hends]
    simp [hhidden]

theorem exempt_iff_isTest {files : List String} {file : String} (hfile : file ∈ files) (cwd : Path)
    (testDir sourceDir : Option String) :
    (isTest cwd file testDir sourceDir = true ∧ file ∈ among cwd files testDir sourceDir ∧
      ∀ reachable, file ∉ unused cwd files reachable testDir sourceDir) ↔
      isTest cwd file testDir sourceDir = true := by
  constructor
  · exact fun h => h.1
  · intro htest
    refine ⟨htest, List.mem_filter.mpr ⟨hfile, htest⟩, fun reachable hmem => ?_⟩
    have hno := (List.mem_filter.mp hmem).2
    rw [htest, Bool.not_true, Bool.and_false] at hno
    exact Bool.false_ne_true hno

/-- Which marked files are never reported as unused.  A source file with a mark before its extension is a
test, listed among the tests and left out of the unused files, just when its extension is one that the
patterns spell out and the source directory is neither the file nor below it, or when it is a test whatever
its name: it lies in the test directory, or in a folder for tests. -/
theorem marked_exempt_iff {files : List String} {file : String} (hfile : file ∈ files)
    {stem mark ext : String} (hmark : mark ∈ marks) (hext : ext ∈ Scan.sourceExtensions)
    (hname : (ofString file).name = stem ++ mark ++ ext) (cwd : Path)
    (testDir sourceDir : Option String) :
    (isTest cwd file testDir sourceDir = true ∧ file ∈ among cwd files testDir sourceDir ∧
      ∀ reachable, file ∉ unused cwd files reachable testDir sourceDir) ↔
      (∃ dir ∈ given? testDir, isBelow (cwd.absolute (.ofString file)).toString
        (testRoot cwd dir sourceDir).toString = true) ∨
      (ext ∈ scripts ∧ ¬ Hidden cwd file sourceDir) ∨
        InTestFolder (comparedPath cwd (cwd.absolute (.ofString file)) sourceDir) := by
  rw [exempt_iff_isTest hfile, isTest_eq, Bool.or_eq_true, Option.any_eq_true,
    looksLikeTest_of_marked hmark hext hname]
  rfl

/-- Three marked files, of which the patterns know one. -/
def suite : Disk where
  root := .folder [("src", .folder [("a.test.js", .file []), ("b.test.mjs", .file []),
    ("c.spec.jest", .file [])])]
  cwd := ⟨.slash, ["src"]⟩

theorem directory_suite :
    (Scan.directory suite {} ".").1 = ["/src/a.test.js", "/src/b.test.mjs", "/src/c.spec.jest"] := by
  have hroot : suite.cwd.absolute (.ofString ".") = ⟨.slash, ["src"]⟩ := by decide
  have hlist : suite.list (Path.toString ⟨.slash, ["src"]⟩) = .ok [("a.test.js", .file []),
    ("b.test.mjs", .file []), ("c.spec.jest", .file [])] := rfl
  have hentries : Scan.ofEntries {} ⟨.slash, ["src"]⟩ [("a.test.js", .file []),
      ("b.test.mjs", .file []), ("c.spec.jest", .file [])] =
      [("a.test.js", ["/src/a.test.js"]), ("b.test.mjs", ["/src/b.test.mjs"]),
        ("c.spec.jest", ["/src/c.spec.jest"])] := by decide
  unfold Scan.directory
  rw [hroot]
  dsimp only
  rw [hlist]
  dsimp only
  rw [hentries, Scan.inOrder, List.mergeSort_of_pairwise]
  · rfl
  · decide

theorem marked_exempt_iff_suite :
    "/src/a.test.js" ∈ (Scan.directory suite {} ".").1 ∧ ".test" ∈ marks ∧
      ".js" ∈ Scan.sourceExtensions ∧ (ofString "/src/a.test.js").name = "a" ++ ".test" ++ ".js" ∧
      isTest suite.cwd "/src/a.test.js" none (some "/src") = true ∧
      "/src/a.test.js" ∈ among suite.cwd (Scan.directory suite {} ".").1 none (some "/src") ∧
      ∀ reachable, "/src/a.test.js" ∉
        unused suite.cwd (Scan.directory suite {} ".").1 reachable none (some "/src") := by
  have hfile : "/src/a.test.js" ∈ (Scan.directory suite {} ".").1 := by
    rw [directory_suite]
    decide
  have hmark : ".test" ∈ marks := by decide
  have hext : ".js" ∈ Scan.sourceExtensions := by decide
  have hname : (ofString "/src/a.test.js").name = "a" ++ ".test" ++ ".js" := by decide
  have hseen : ¬ Hidden suite.cwd "/src/a.test.js" (some "/src") := by
    intro ⟨dir, hdir, hunder⟩
    have hsrc : given? (some "/src") = some "/src" := given?_of_ne (by decide)
    rw [← Option.some.inj (hsrc.symm.trans hdir)] at hunder
    exact absurd hunder (by decide)
  have hexempt := (marked_exempt_iff hfile hmark hext hname suite.cwd none (some "/src")).mpr
    (Or.inr (Or.inl ⟨by decide, hseen⟩))
  exact ⟨hfile, hmark, hext, hname, hexempt⟩

/-- The others are no tests and are reported as unused if nothing reaches them. -/
theorem marked_unused_suite :
    "/src/b.test.mjs" ∈ (Scan.directory suite {} ".").1 ∧ ".mjs" ∈ Scan.sourceExtensions ∧
      (ofString "/src/b.test.mjs").name = "b" ++ ".test" ++ ".mjs" ∧
      isTest suite.cwd "/src/b.test.mjs" none (some "/src") = false ∧
      among suite.cwd (Scan.directory suite {} ".").1 none (some "/src") = ["/src/a.test.js"] ∧
      unused suite.cwd (Scan.directory suite {} ".").1 [] none (some "/src") =
        ["/src/b.test.mjs", "/src/c.spec.jest"] := by
  rw [directory_suite]
  decide

end TestFile
end ModuleAudit
