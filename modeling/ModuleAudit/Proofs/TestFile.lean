import ModuleAudit.Proofs.Path.Extend
import ModuleAudit.TestFile

/-
The test directory.

Whether a file lies below the test directory is decided on texts: that of the file has to start with that of
the directory and a slash.  Names hold no slashes, so this is the same as comparing the names along the way,
except for the root directory.  The text of the root ends in a slash of its own, no path goes on from it
with another one, and only the root itself counts as below the root.

Inside a project, neither the test directory nor the patterns look at where the project lies: the verdict
on a file is read off the names below the project (`isTestInside`).
-/

namespace ModuleAudit
namespace TestFile

open ModuleAudit.Path

/-! ## Below a directory -/

/-- The text of a rooted path goes on with a name behind its root. -/
theorem no_slash_behind_root {p : Path} (hp : p.Canonical) :
    ¬ (p.root.text ++ "/").toList <+: p.toString.toList := by
  intro ⟨rest, hrest⟩
  have hnames := takeWhile_slash_intercalate hp.proper
  rw [toString_eq (Or.inr hp.rooted), String.toList_append, String.toList_append, List.append_assoc,
    List.append_cancel_left_eq] at hrest
  rw [← hrest] at hnames
  exact absurd hnames (by simp)

theorem names_of_text_leads {p dir : Path} (hp : p.Canonical) (hdir : dir.Canonical)
    (hroot : p.root = dir.root) (h : (dir.toString ++ "/").toList <+: p.toString.toList) :
    dir.names ≠ [] ∧ dir.names <+: p.names := by
  constructor
  · intro hnil
    have htext : dir.toString = p.root.text := by
      rw [toString_eq (Or.inr hdir.rooted), hnil, String.intercalate_nil, String.append_empty, hroot]
    rw [htext] at h
    exact no_slash_behind_root hp h
  · obtain ⟨rest, hrest⟩ := h
    have htext : p.toString = dir.toString ++ ("/" ++ String.ofList rest) := by
      rw [← String.toList_inj, ← hrest]
      simp
    have hnames := names_ofString_append dir.toString (String.ofList rest)
    rw [← htext, ofString_toString hp.proper, ofString_toString hdir.proper] at hnames
    exact ⟨_, hnames.symm⟩

theorem isBelow_extend_self {dir : Path} (hne : dir.names ≠ []) (rest : List String) :
    isBelow (dir.extend rest).toString dir.toString = true := by
  rw [isBelow, Bool.or_eq_true, beq_iff_eq, List.isPrefixOf_iff_prefix]
  by_cases hrest : rest = []
  · rw [hrest, extend_nil]
    exact Or.inl rfl
  · rw [toString_extend hne hrest]
    exact Or.inr ⟨_, String.toList_append.symm⟩

/-- On texts, only the root itself is below the root. -/
theorem isBelow_toString_iff {p dir : Path} (hp : p.Canonical) (hdir : dir.Canonical)
    (hroot : p.root = dir.root) :
    isBelow p.toString dir.toString = true ↔
      dir.names <+: p.names ∧ (dir.names = [] → p.names = []) := by
  constructor
  · intro h
    rw [isBelow, Bool.or_eq_true, beq_iff_eq, toString_inj hp.proper hdir.proper,
      List.isPrefixOf_iff_prefix] at h
    rcases h with heq | htext
    · rw [heq]
      exact ⟨List.prefix_rfl, id⟩
    · obtain ⟨hne, hnames⟩ := names_of_text_leads hp hdir hroot htext
      exact ⟨hnames, fun hnil => absurd hnil hne⟩
  · intro ⟨⟨rest, hrest⟩, hnil⟩
    have hextend : p = dir.extend rest := by
      rw [extend, ← hroot, hrest]
    by_cases hne : dir.names = []
    · have hnone : rest = [] := by
        rw [hnil hne, hne, List.nil_append] at hrest
        exact hrest
      rw [hextend, hnone, extend_nil, isBelow, beq_self_eq_true, Bool.true_or]
    · rw [hextend]
      exact isBelow_extend_self hne rest

/-! ## The test directory -/

theorem given?_of_ne {directory : String} (h : directory ≠ "") :
    given? (some directory) = some directory := by
  simp [given?, h]

theorem given?_toString {p : Path} (hp : p.Canonical) :
    given? (some p.toString) = some p.toString :=
  given?_of_ne (toString_ne_empty hp.proper)

theorem canonical_testRoot {cwd : Path} (hcwd : cwd.Canonical) (testDir : String)
    (sourceDir : Option String) : (testRoot cwd testDir sourceDir).Canonical := by
  unfold testRoot
  cases given? sourceDir with
  | none =>
    refine canonical_collapse_join ?_ (proper_ofString testDir)
    rw [hcwd.collapse_eq]
    exact hcwd
  | some dir =>
    exact canonical_collapse_join (hcwd.absolute (proper_ofString dir)) (proper_ofString testDir)

theorem isTest_eq (cwd : Path) (file : String) (testDir sourceDir : Option String) :
    isTest cwd file testDir sourceDir =
      ((given? testDir).any (fun dir =>
          isBelow (cwd.absolute (.ofString file)).toString (testRoot cwd dir sourceDir).toString) ||
        looksLikeTest (comparedPath cwd (cwd.absolute (.ofString file)) sourceDir)) := by
  unfold isTest
  cases given? testDir with
  | none => rw [Option.any_none]
  | some dir => rw [Option.any_some]

theorem isTest_none (cwd : Path) (file : String) (sourceDir : Option String) :
    isTest cwd file none sourceDir =
      looksLikeTest (comparedPath cwd (cwd.absolute (.ofString file)) sourceDir) := by
  have hnone : given? none = none := rfl
  rw [isTest_eq, hnone, Option.any_none, Bool.false_or]

theorem isTest_some (cwd : Path) (file : String) {testDir : String} (h : testDir ≠ "")
    (sourceDir : Option String) :
    isTest cwd file (some testDir) sourceDir =
      (isBelow (cwd.absolute (.ofString file)).toString (testRoot cwd testDir sourceDir).toString ||
        isTest cwd file none sourceDir) := by
  rw [isTest_eq, given?_of_ne h, Option.any_some, isTest_none]

/-- A file below the test directory is a test, and for other files the test directory does not matter.
This holds unless the test directory is the root directory; then it holds of the files that are tests
without it, and of the root itself. -/
theorem isTest_testDir_iff {cwd : Path} (hcwd : cwd.Canonical) (file : String) {testDir : String}
    (hne : testDir ≠ "") (sourceDir : Option String)
    (hroot : (cwd.absolute (.ofString file)).root = (testRoot cwd testDir sourceDir).root) :
    (((testRoot cwd testDir sourceDir).names <+: (cwd.absolute (.ofString file)).names →
        isTest cwd file (some testDir) sourceDir = true) ∧
      (¬ (testRoot cwd testDir sourceDir).names <+: (cwd.absolute (.ofString file)).names →
        isTest cwd file (some testDir) sourceDir = isTest cwd file none sourceDir)) ↔
    ((testRoot cwd testDir sourceDir).names = [] →
      (cwd.absolute (.ofString file)).names = [] ∨ isTest cwd file none sourceDir = true) := by
  have hbelow := isBelow_toString_iff (hcwd.absolute (proper_ofString file))
    (canonical_testRoot hcwd testDir sourceDir) hroot
  rw [isTest_some cwd file hne sourceDir]
  generalize (testRoot cwd testDir sourceDir) = dir at hbelow ⊢
  generalize cwd.absolute (.ofString file) = path at hbelow ⊢
  constructor
  · intro ⟨hlaw, _⟩ hnil
    have htest := hlaw (hnil ▸ List.nil_prefix)
    rcases Bool.or_eq_true_iff.mp htest with h | h
    · exact Or.inl ((hbelow.mp h).2 hnil)
    · exact Or.inr h
  · intro hcases
    constructor
    · intro hunder
      rw [Bool.or_eq_true, hbelow]
      by_cases hnil : dir.names = []
      · rcases hcases hnil with hpath | htest
        · exact Or.inl ⟨hunder, fun _ => hpath⟩
        · exact Or.inr htest
      · exact Or.inl ⟨hunder, fun h => absurd h hnil⟩
    · intro hno
      have hnot : isBelow path.toString dir.toString = false := by
        rw [Bool.eq_false_iff]
        exact fun h => hno (hbelow.mp h).1
      rw [hnot, Bool.false_or]

/-- A file below a test directory that is written with dots, and one beside it whose path starts with the
same text. -/
theorem isTest_testDir_iff_besides :
    Canonical ⟨.slash, ["p"]⟩ ∧
      (testRoot ⟨.slash, ["p"]⟩ "../p/./e2e//" (some "/p")).names = ["p", "e2e"] ∧
      isTest ⟨.slash, ["p"]⟩ "e2e/deep/flow.js" (some "../p/./e2e//") (some "/p") = true ∧
      isTest ⟨.slash, ["p"]⟩ "e2e-helpers/x.js" (some "../p/./e2e//") (some "/p") =
        isTest ⟨.slash, ["p"]⟩ "e2e-helpers/x.js" none (some "/p") := by
  have hcwd : Canonical ⟨.slash, ["p"]⟩ := ⟨rfl, by decide⟩
  have hdir : testRoot ⟨.slash, ["p"]⟩ "../p/./e2e//" (some "/p") = ⟨.slash, ["p", "e2e"]⟩ := by decide
  have hinside := (isTest_testDir_iff hcwd "e2e/deep/flow.js" (by decide : "../p/./e2e//" ≠ "")
    (some "/p") (by decide)).mpr (by decide)
  have hbeside := (isTest_testDir_iff hcwd "e2e-helpers/x.js" (by decide : "../p/./e2e//" ≠ "")
    (some "/p") (by decide)).mpr (by decide)
  exact ⟨hcwd, by rw [hdir], hinside.1 (by decide), hbeside.2 (by decide)⟩

/-- With the root directory for a test directory, a file below it is no test. -/
theorem isTest_testDir_root :
    testRoot ⟨.slash, []⟩ "/" (some "/src") = ⟨.slash, []⟩ ∧
      absolute ⟨.slash, []⟩ (.ofString "/src/a.js") = ⟨.slash, ["src", "a.js"]⟩ ∧
      ¬ (([] : List String) <+: ["src", "a.js"] →
        isTest ⟨.slash, []⟩ "/src/a.js" (some "/") (some "/src") = true) := by
  decide

/-! ## Inside a project -/

/-- Whether the file that some names lead to inside a project is a test. -/
def isTestInside (names : List String) (testDir : Option String) : Bool :=
  (given? testDir).any (fun dir => (follow [] (ofString dir).names).any (·.isPrefixOf names)) ||
    looksLikeTest ("/" ++ Path.toString ⟨.relative, names⟩)

section

variable {root : Path} (hroot : root.Canonical)

include hroot

theorem testRoot_extend {dir : String} (hrel : (ofString dir).isRooted = false) {way : List String}
    (hway : follow [] (ofString dir).names = some way) (cwd : Path) :
    testRoot cwd dir (some root.toString) = root.extend way := by
  have hcollapse := collapse_join_extend ((extend_nil root).symm ▸ hroot) hrel hway
  rw [extend_nil] at hcollapse
  unfold testRoot
  rw [given?_toString hroot]
  dsimp only
  rw [ofString_toString hroot.proper, hroot.absolute_eq, hcollapse]

theorem comparedPath_extend (names : List String) (cwd : Path) :
    comparedPath cwd (root.extend names) (some root.toString) =
      "/" ++ Path.toString ⟨.relative, names⟩ := by
  unfold comparedPath
  rw [given?_toString hroot]
  dsimp only
  rw [ofString_toString hroot.proper, hroot.absolute_eq, relativeTo_extend]

omit hroot in
theorem isBelow_extend (hne : root.names ≠ []) {names way : List String}
    (hnames : (root.extend names).Canonical) (hway : (root.extend way).Canonical) :
    isBelow (root.extend names).toString (root.extend way).toString = way.isPrefixOf names := by
  have hsome : (root.extend way).names ≠ [] := List.append_ne_nil_of_left_ne_nil hne way
  rw [Bool.eq_iff_iff, isBelow_toString_iff hnames hway rfl, List.isPrefixOf_iff_prefix]
  simp only [hsome, false_implies, and_true]
  exact List.prefix_append_right_inj root.names

theorem isTest_extend (hne : root.names ≠ []) {names : List String}
    (hnames : ∀ n ∈ names, IsName n) {testDir : Option String}
    (hdir : ∀ dir ∈ testDir, (ofString dir).isRooted = false ∧
      (follow [] (ofString dir).names).isSome = true) (cwd : Path) :
    isTest cwd (root.extend names).toString testDir (some root.toString) =
      isTestInside names testDir := by
  have hfile := hroot.extend hnames
  rw [isTest_eq, ofString_toString hfile.proper, hfile.absolute_eq, comparedPath_extend hroot,
    isTestInside]
  cases hgiven : given? testDir with
  | none => rw [Option.any_none, Option.any_none]
  | some dir =>
    obtain ⟨hrel, hsome⟩ := hdir dir (Option.filter_eq_some_iff.mp hgiven).1
    obtain ⟨way, hway⟩ := Option.isSome_iff_exists.mp hsome
    have hdown : (root.extend way).Canonical := by
      rw [← testRoot_extend hroot hrel hway root]
      exact canonical_testRoot hroot dir (some root.toString)
    rw [Option.any_some, Option.any_some, testRoot_extend hroot hrel hway,
      isBelow_extend hne hfile hdown, hway, Option.any_some]

end

/-- Moving a project does not turn files into tests.  Below any two directories other than the root
directory, whatever their own names, the same file gets the same verdict, with the same test directory
inside the project or none. -/
theorem isTest_extend_eq {root root' : Path} (hroot : root.Canonical) (hroot' : root'.Canonical)
    (hne : root.names ≠ []) (hne' : root'.names ≠ []) {names : List String}
    (hnames : ∀ n ∈ names, IsName n) {testDir : Option String}
    (hdir : ∀ dir ∈ testDir, (ofString dir).isRooted = false ∧
      (follow [] (ofString dir).names).isSome = true) (cwd cwd' : Path) :
    isTest cwd (root.extend names).toString testDir (some root.toString) =
      isTest cwd' (root'.extend names).toString testDir (some root'.toString) := by
  rw [isTest_extend hroot hne hnames hdir, isTest_extend hroot' hne' hnames hdir]

/-- Two projects that lie in folders with the names of test folders. -/
theorem isTest_extend_eq_moved :
    Canonical ⟨.slash, ["home", "test", "proj"]⟩ ∧ Canonical ⟨.slash, ["__tests__", "q"]⟩ ∧
      (∀ dir ∈ some "x/../e2e/", (ofString dir).isRooted = false ∧
        (follow [] (ofString dir).names).isSome = true) ∧
      isTest ⟨.slash, []⟩ "/home/test/proj/src/a.js" (some "x/../e2e/") (some "/home/test/proj") =
        false ∧
      isTest ⟨.slash, []⟩ "/__tests__/q/src/a.js" (some "x/../e2e/") (some "/__tests__/q") = false := by
  have hroot : Canonical ⟨.slash, ["home", "test", "proj"]⟩ := ⟨rfl, by decide⟩
  have hroot' : Canonical ⟨.slash, ["__tests__", "q"]⟩ := ⟨rfl, by decide⟩
  have hdir : ∀ dir ∈ some "x/../e2e/", (ofString dir).isRooted = false ∧
      (follow [] (ofString dir).names).isSome = true := by
    intro dir hmem
    rw [← Option.some.inj hmem]
    decide
  have hnames : ∀ n ∈ ["src", "a.js"], IsName n := by decide
  have hfirst : isTest ⟨.slash, []⟩ "/home/test/proj/src/a.js" (some "x/../e2e/")
      (some "/home/test/proj") = false := by decide
  have hmoved := isTest_extend_eq hroot hroot' (by decide) (by decide) hnames hdir ⟨.slash, []⟩
    ⟨.slash, []⟩
  exact ⟨hroot, hroot', hdir, hfirst, hmoved.symm.trans hfirst⟩

end TestFile
end ModuleAudit
