import ModuleAudit.Proofs.Scan.Order

/-
A scan as the list of the ways down from its directory.

A file that is listed stands for the names that lead to it, folder after folder.  The order of a scan is
that of these names, compared one after the other, and not that of the texts: a folder `a` stands before
the file `a.js`, and so does all it holds, although a slash comes after a dot.
-/

namespace ModuleAudit
namespace Scan

/-- The names that lead from a directory to a file below it. -/
def wayDown (dir : Path) (file : String) : List String :=
  (Path.ofString file).names.drop dir.names.length

theorem wayDown_extend {dir : Path} (hdir : dir.Canonical) {names : List String}
    (hnames : ∀ n ∈ names, Path.IsName n) : wayDown dir (dir.extend names).toString = names := by
  rw [wayDown, Path.ofString_toString (hdir.extend hnames).proper, Path.extend, List.drop_left]

theorem lex_of_lex_append {common a b : List String}
    (h : List.Lex (· < ·) (common ++ a) (common ++ b)) : List.Lex (· < ·) a b := by
  induction common with
  | nil => exact h
  | cons c common ih => exact ih (List.lex_cons_iff.mp h)

theorem lex_of_before {dir : Path} (hdir : dir.Canonical) {a b : List String}
    (ha : ∀ n ∈ a, Path.IsName n) (hb : ∀ n ∈ b, Path.IsName n)
    (h : Before (dir.extend a).toString (dir.extend b).toString) : List.Lex (· < ·) a b := by
  rw [Before, Path.ofString_toString (hdir.extend ha).proper,
    Path.ofString_toString (hdir.extend hb).proper] at h
  exact lex_of_lex_append h

theorem skipsFolder_eq_false_iff {f : Filter} {name : String} :
    f.skipsFolder name = false ↔ ∀ pattern ∈ f.skip, Glob.matches pattern name = false := by
  simp [Filter.skipsFolder]

theorem passes_concat_iff {f : Filter} {dir : Path} {folders : List String} {name : String} :
    Passes f dir (folders ++ [name]) ↔
      String.ofList (Path.nameSuffix name.toList) ∈ f.extensions ∧
        ∀ folder ∈ folders, ∀ pattern ∈ f.skip, Glob.matches pattern folder = false := by
  have hname : (dir.extend (folders ++ [name])).name = name := by
    rw [Path.name, Path.extend, ← List.append_assoc, List.getLast?_concat, Option.getD_some]
  have htaken : f.takesFile (dir.extend (folders ++ [name])) = true ↔
      String.ofList (Path.nameSuffix name.toList) ∈ f.extensions := by
    rw [Filter.takesFile, Path.suffix, hname, List.contains_iff_mem]
  constructor
  · intro h
    have hfolders := h.folders
    rw [List.dropLast_concat] at hfolders
    exact ⟨htaken.mp h.taken, fun folder hmem => skipsFolder_eq_false_iff.mp (hfolders folder hmem)⟩
  · intro h
    obtain ⟨hsuffix, hfolders⟩ := h
    refine ⟨?_, htaken.mpr hsuffix⟩
    rw [List.dropLast_concat]
    exact fun folder hmem => skipsFolder_eq_false_iff.mpr (hfolders folder hmem)

section

variable {disk : Disk} (hd : disk.WellFormed) {f : Filter} {path : String}

include hd

theorem isName_below {dir names : List String} (h : disk.root.HoldsFile (dir ++ names)) :
    ∀ n ∈ names, Path.IsName n :=
  fun n hn => hd.tree.isName_of_holdsFile h n (List.mem_append_right _ hn)

/-- A listed file is found again at the end of its way. -/
theorem extend_wayDown {file : String} (h : file ∈ (directory disk f path).1) :
    (∀ n ∈ wayDown (disk.cwd.absolute (.ofString path)) file, Path.IsName n) ∧
      ((disk.cwd.absolute (.ofString path)).extend
        (wayDown (disk.cwd.absolute (.ofString path)) file)).toString = file := by
  have hdir : (disk.cwd.absolute (.ofString path)).Canonical :=
    hd.cwd.absolute (Path.proper_ofString path)
  obtain ⟨names, -, hholds, -, hfile⟩ := (mem_directory_iff hd).mp h
  have hnames := isName_below hd hholds
  rw [hfile, wayDown_extend hdir hnames]
  exact ⟨hnames, rfl⟩

theorem mem_map_wayDown_iff {names : List String} :
    names ∈ (directory disk f path).1.map (wayDown (disk.cwd.absolute (.ofString path))) ↔
      names ≠ [] ∧ disk.root.HoldsFile ((disk.cwd.absolute (.ofString path)).names ++ names) ∧
        Passes f (disk.cwd.absolute (.ofString path)) names := by
  have hdir : (disk.cwd.absolute (.ofString path)).Canonical :=
    hd.cwd.absolute (Path.proper_ofString path)
  rw [List.mem_map]
  constructor
  · intro h
    obtain ⟨file, hfile, hway⟩ := h
    obtain ⟨found, hne, hholds, hpasses, htext⟩ := (mem_directory_iff hd).mp hfile
    rw [htext, wayDown_extend hdir (isName_below hd hholds)] at hway
    subst hway
    exact ⟨hne, hholds, hpasses⟩
  · intro h
    obtain ⟨hne, hholds, hpasses⟩ := h
    refine ⟨_, (mem_directory_iff hd).mpr ⟨names, hne, hholds, hpasses, rfl⟩, ?_⟩
    exact wayDown_extend hdir (isName_below hd hholds)

theorem pairwise_map_wayDown :
    ((directory disk f path).1.map (wayDown (disk.cwd.absolute (.ofString path)))).Pairwise
      (List.Lex (· < ·)) := by
  have hdir : (disk.cwd.absolute (.ofString path)).Canonical :=
    hd.cwd.absolute (Path.proper_ofString path)
  rw [List.pairwise_map]
  refine (pairwise_directory hd f path).imp_of_mem ?_
  intro a b ha hb hbefore
  obtain ⟨hnames, htext⟩ := extend_wayDown hd ha
  obtain ⟨hnames', htext'⟩ := extend_wayDown hd hb
  rw [← htext, ← htext'] at hbefore
  exact lex_of_before hdir hnames hnames' hbefore

/-- A scan lists exactly the files with one of the extensions that lie behind folders which match no
skip pattern.  It lists them in the strict order of the names on the way down, by code points and one
name after the other, so it lists no file twice. -/
theorem directory_lists_in_order (f : Filter) (path : String) :
    ∃ found : List (List String),
      (directory disk f path).1 =
        found.map (fun names => ((disk.cwd.absolute (.ofString path)).extend names).toString) ∧
      found.Pairwise (List.Lex (· < ·)) ∧ (directory disk f path).1.Nodup ∧
      ∀ names, names ∈ found ↔ ∃ folders name, names = folders ++ [name] ∧
        disk.root.HoldsFile ((disk.cwd.absolute (.ofString path)).names ++ names) ∧
        String.ofList (Path.nameSuffix name.toList) ∈ f.extensions ∧
        ∀ folder ∈ folders, ∀ pattern ∈ f.skip, Glob.matches pattern folder = false := by
  refine ⟨(directory disk f path).1.map (wayDown (disk.cwd.absolute (.ofString path))), ?_,
    pairwise_map_wayDown hd, nodup_directory hd f path, fun names => ?_⟩
  · rw [List.map_map]
    have hback : ∀ file ∈ (directory disk f path).1,
        ((fun names => ((disk.cwd.absolute (.ofString path)).extend names).toString) ∘
          wayDown (disk.cwd.absolute (.ofString path))) file = id file := by
      intro file hfile
      rw [Function.comp_apply, id_eq, (extend_wayDown hd hfile).2]
    rw [List.map_congr_left hback, List.map_id]
  · rw [mem_map_wayDown_iff hd]
    constructor
    · intro h
      obtain ⟨hne, hholds, hpasses⟩ := h
      obtain ⟨folders, name, hnames⟩ := (List.eq_nil_or_concat names).resolve_left hne
      rw [List.concat_eq_append] at hnames
      subst hnames
      obtain ⟨hsuffix, hfolders⟩ := passes_concat_iff.mp hpasses
      exact ⟨folders, name, rfl, hholds, hsuffix, hfolders⟩
    · intro h
      obtain ⟨folders, name, hnames, hholds, hsuffix, hfolders⟩ := h
      subst hnames
      exact ⟨by simp, hholds, passes_concat_iff.mpr ⟨hsuffix, hfolders⟩⟩

end

def mixedInner : List (String × Entry) := [("x.js", .file []), ("dist", .file [])]

def mixedOuter : List (String × Entry) :=
  [("a.js", .file []), ("out", .folder [("z.js", .file [])]), ("a", .folder mixedInner)]

/-- A folder and a file that start with the same name, a folder that is left out, and a file with the
name of such a folder.  The scanned directory itself has such a name too. -/
def mixed : Disk where
  root := .folder [("dist", .folder mixedOuter)]
  cwd := ⟨.slash, ["dist"]⟩

def mixedFilter : Filter := { skip := ["d?st", "ou*"], extensions := [".js", ""] }

theorem wellFormed_mixed : mixed.WellFormed :=
  Disk.wellFormed_of_isWellFormed rfl (by decide) (by decide)

theorem directory_mixed :
    (directory mixed mixedFilter ".").1 = ["/dist/a/dist", "/dist/a/x.js", "/dist/a.js"] := by
  have hroot : mixed.cwd.absolute (.ofString ".") = ⟨.slash, ["dist"]⟩ := by decide
  have hlist : mixed.list (Path.toString ⟨.slash, ["dist"]⟩) = .ok mixedOuter := rfl
  have hfile : ofEntry mixedFilter ⟨.slash, ["dist", "a.js"]⟩ (.file []) = ["/dist/a.js"] := by
    decide
  have hout : ofEntry mixedFilter ⟨.slash, ["dist", "out"]⟩ (.folder [("z.js", .file [])]) = [] := by
    have hskipped : mixedFilter.skipsFolder "out" = true := by cbv
    rw [ofEntry]
    exact if_pos hskipped
  have hfolder : ofEntry mixedFilter ⟨.slash, ["dist", "a"]⟩ (.folder mixedInner) =
      ["/dist/a/dist", "/dist/a/x.js"] := by
    have hentered : mixedFilter.skipsFolder "a" = false := by cbv
    have hentries : ofEntries mixedFilter ⟨.slash, ["dist", "a"]⟩ mixedInner =
        [("x.js", ["/dist/a/x.js"]), ("dist", ["/dist/a/dist"])] := by decide
    rw [ofEntry, hentries]
    refine (if_neg (Bool.eq_false_iff.mp hentered)).trans ?_
    simp [inOrder, List.mergeSort, List.MergeSort.Internal.splitInTwo]
  have houter : ofEntries mixedFilter ⟨.slash, ["dist"]⟩ mixedOuter =
      [("a.js", ["/dist/a.js"]), ("out", []), ("a", ["/dist/a/dist", "/dist/a/x.js"])] := by
    simp only [mixedOuter, ofEntries, Path.child, List.cons_append, List.nil_append, hfile, hout,
      hfolder]
  unfold directory
  rw [hroot]
  dsimp only
  rw [hlist]
  dsimp only
  rw [houter]
  simp [inOrder, List.mergeSort, List.MergeSort.Internal.splitInTwo]

/-- The order of the ways down is not that of the texts. -/
theorem directory_lists_in_order_mixed :
    mixed.WellFormed ∧
      (directory mixed mixedFilter ".").1 = ["/dist/a/dist", "/dist/a/x.js", "/dist/a.js"] ∧
      "/dist/a.js" < "/dist/a/x.js" ∧
      ∃ found : List (List String), found.Pairwise (List.Lex (· < ·)) ∧
        ["/dist/a/dist", "/dist/a/x.js", "/dist/a.js"] =
          found.map (fun names => ((mixed.cwd.absolute (.ofString ".")).extend names).toString) := by
  obtain ⟨found, hfound, hsorted, -, -⟩ := directory_lists_in_order wellFormed_mixed mixedFilter "."
  rw [directory_mixed] at hfound
  exact ⟨wellFormed_mixed, directory_mixed, by decide, found, hsorted, hfound⟩

end Scan
end ModuleAudit
