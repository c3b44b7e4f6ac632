import ModuleAudit.Proofs.Disk
import ModuleAudit.Proofs.Path.Extend
import ModuleAudit.Scan
import ModuleAudit.TestFile

/-
What a scan finds.

A file is listed if some names lead down to it from the scanned directory, none of them but the last
one is the name of a skipped folder, and its path has one of the extensions.  So every file of a scan is
the text of a canonical path that starts like the scanned directory, and the file is there on disk.

The scan takes an entry under its path, whose last name decides whether a folder is skipped, so the
statement about one entry puts that name in front.
-/

namespace ModuleAudit
namespace Scan

theorem mem_inOrder {groups : List (String × List String)} {file : String} :
    file ∈ inOrder groups ↔ ∃ group ∈ groups, file ∈ group.2 := by
  rw [inOrder, List.mem_flatMap]
  constructor
  · rintro ⟨group, hgroup, hfile⟩
    exact ⟨group, List.mem_mergeSort.mp hgroup, hfile⟩
  · rintro ⟨group, hgroup, hfile⟩
    exact ⟨group, List.mem_mergeSort.mpr hgroup, hfile⟩

theorem ofEntries_eq_map (f : Filter) (folder : Path) (entries : List (String × Entry)) :
    ofEntries f folder entries =
      entries.map fun (name, entry) => (name, ofEntry f (folder.child name) entry) := by
  induction entries with
  | nil => rw [ofEntries, List.map_nil]
  | cons first rest ih => rw [ofEntries, ih, List.map_cons]

theorem mem_inOrder_ofEntries {f : Filter} {folder : Path} {entries : List (String × Entry)}
    {file : String} :
    file ∈ inOrder (ofEntries f folder entries) ↔
      ∃ name entry, (name, entry) ∈ entries ∧ file ∈ ofEntry f (folder.child name) entry := by
  rw [mem_inOrder, ofEntries_eq_map]
  constructor
  · rintro ⟨group, hgroup, hfile⟩
    obtain ⟨⟨name, entry⟩, hentry, rfl⟩ := List.mem_map.mp hgroup
    exact ⟨name, entry, hentry, hfile⟩
  · rintro ⟨name, entry, hentry, hfile⟩
    exact ⟨_, List.mem_map.mpr ⟨(name, entry), hentry, rfl⟩, hfile⟩

theorem mem_ofEntry_file {f : Filter} {p : Path} {bytes : List UInt8} {file : String} :
    file ∈ ofEntry f p (.file bytes) ↔ f.takesFile p = true ∧ file = p.toString := by
  rw [ofEntry]
  split <;> simp_all

theorem mem_ofEntry_folder {f : Filter} {p : Path} {entries : List (String × Entry)}
    {file : String} :
    file ∈ ofEntry f p (.folder entries) ↔
      f.skipsFolder p.name = false ∧ file ∈ inOrder (ofEntries f p entries) := by
  rw [ofEntry]
  split <;> simp_all

theorem mem_directory {disk : Disk} {f : Filter} {path file : String} :
    file ∈ (directory disk f path).1 ↔
      ∃ entries, disk.lookup (disk.cwd.absolute (.ofString path)).toString = .ok (.folder entries) ∧
        file ∈ inOrder (ofEntries f (disk.cwd.absolute (.ofString path)) entries) := by
  unfold directory Disk.list
  dsimp only
  cases hlookup : disk.lookup (disk.cwd.absolute (.ofString path)).toString with
  | error dead => simp
  | ok entry => cases entry <;> simp

/-- The scan of the directory `p` passes through the folders among the names and takes the file. -/
structure Passes (f : Filter) (p : Path) (names : List String) : Prop where
  folders : ∀ folder ∈ names.dropLast, f.skipsFolder folder = false
  taken : f.takesFile (p.extend names) = true

theorem mem_ofEntry_iff {f : Filter} {entry : Entry} (hentry : entry.WellFormed) {p : Path}
    {name file : String} :
    file ∈ ofEntry f (p.child name) entry ↔
      ∃ rest, entry.HoldsFile rest ∧ Passes f p (name :: rest) ∧
        file = (p.extend (name :: rest)).toString := by
  induction hentry generalizing p name with
  | file bytes =>
    rw [mem_ofEntry_file]
    constructor
    · rintro ⟨htaken, hfile⟩
      exact ⟨[], Entry.holdsFile_file.mpr rfl, ⟨by simp, htaken⟩, hfile⟩
    · rintro ⟨rest, hrest, hpasses, hfile⟩
      rw [Entry.holdsFile_file.mp hrest] at hpasses hfile
      exact ⟨hpasses.taken, hfile⟩
  | @folder entries hdistinct hnames hbelow ih =>
    have hfolder : (Entry.folder entries).WellFormed := .folder hdistinct hnames hbelow
    rw [mem_ofEntry_folder, mem_inOrder_ofEntries, Path.name_child]
    constructor
    · rintro ⟨hskip, inner, entry, hmem, hfile⟩
      obtain ⟨rest, hrest, hpasses, rfl⟩ := (ih inner entry hmem).mp hfile
      rw [Path.extend_child]
      refine ⟨inner :: rest, hfolder.holdsFile_folder.mpr ⟨inner, entry, rest, hmem, rfl, hrest⟩,
        ⟨?_, ?_⟩, rfl⟩
      · rw [List.dropLast_cons_of_ne_nil (List.cons_ne_nil _ _)]
        exact List.forall_mem_cons.mpr ⟨hskip, hpasses.folders⟩
      · rw [← Path.extend_child]
        exact hpasses.taken
    · rintro ⟨names, hholds, hpasses, rfl⟩
      obtain ⟨inner, entry, rest, hmem, rfl, hrest⟩ := hfolder.holdsFile_folder.mp hholds
      have hfolders := hpasses.folders
      rw [List.dropLast_cons_of_ne_nil (List.cons_ne_nil _ _), List.forall_mem_cons] at hfolders
      refine ⟨hfolders.1, inner, entry, hmem, (ih inner entry hmem).mpr ⟨rest, hrest, ?_, ?_⟩⟩
      · refine ⟨hfolders.2, ?_⟩
        rw [Path.extend_child]
        exact hpasses.taken
      · rw [Path.extend_child]

theorem mem_inOrder_ofEntries_iff {f : Filter} {entries : List (String × Entry)}
    (hfolder : (Entry.folder entries).WellFormed) {p : Path} {file : String} :
    file ∈ inOrder (ofEntries f p entries) ↔
      ∃ names, (Entry.folder entries).HoldsFile names ∧ Passes f p names ∧
        file = (p.extend names).toString := by
  have hbelow := (Entry.wellFormed_folder.mp hfolder).2
  rw [mem_inOrder_ofEntries]
  constructor
  · rintro ⟨name, entry, hmem, hfile⟩
    obtain ⟨rest, hrest, hpasses, hfile⟩ := (mem_ofEntry_iff (hbelow _ hmem).2).mp hfile
    exact ⟨name :: rest, hfolder.holdsFile_folder.mpr ⟨name, entry, rest, hmem, rfl, hrest⟩,
      hpasses, hfile⟩
  · rintro ⟨names, hholds, hpasses, hfile⟩
    obtain ⟨name, entry, rest, hmem, rfl, hrest⟩ := hfolder.holdsFile_folder.mp hholds
    exact ⟨name, entry, hmem, (mem_ofEntry_iff (hbelow _ hmem).2).mpr ⟨rest, hrest, hpasses, hfile⟩⟩

/-- A scan lists the files that names lead down to from the directory, through folders that are not
skipped. -/
theorem mem_directory_iff {disk : Disk} (hd : disk.WellFormed) {f : Filter} {path file : String} :
    file ∈ (directory disk f path).1 ↔
      ∃ names, names ≠ [] ∧
        disk.root.HoldsFile ((disk.cwd.absolute (.ofString path)).names ++ names) ∧
        Passes f (disk.cwd.absolute (.ofString path)) names ∧
        file = ((disk.cwd.absolute (.ofString path)).extend names).toString := by
  have hroot : (disk.cwd.absolute (.ofString path)).Canonical :=
    hd.cwd.absolute (Path.proper_ofString path)
  rw [mem_directory]
  constructor
  · rintro ⟨entries, hlookup, hfile⟩
    obtain ⟨names, hholds, hpasses, hfile⟩ :=
      (mem_inOrder_ofEntries_iff (hd.of_lookup hlookup)).mp hfile
    refine ⟨names, ?_, ?_, hpasses, hfile⟩
    · rintro rfl
      exact absurd hholds (by simp [Entry.HoldsFile, Entry.descend])
    · exact Entry.holdsFile_append.mpr ⟨_, (hd.lookup_eq_ok_iff hroot).mp hlookup, hholds⟩
  · rintro ⟨names, hne, hholds, hpasses, hfile⟩
    obtain ⟨found, hfound, hholds⟩ := Entry.holdsFile_append.mp hholds
    cases found with
    | file bytes => exact absurd (Entry.holdsFile_file.mp hholds) hne
    | folder entries =>
      have hlookup := (hd.lookup_eq_ok_iff hroot).mpr hfound
      exact ⟨entries, hlookup,
        (mem_inOrder_ofEntries_iff (hd.of_lookup hlookup)).mpr ⟨names, hholds, hpasses, hfile⟩⟩

/-- A source file below `directory`. -/
structure Source (disk : Disk) (f : Filter) (directory p : Path) : Prop where
  canonical : p.Canonical
  root_eq : p.root = directory.root
  isFile : disk.isFile p.toString = true
  taken : f.takesFile p = true

theorem Passes.source {disk : Disk} (hd : disk.WellFormed) {f : Filter} {dir : Path}
    (hdir : dir.Canonical) {names : List String} (hpasses : Passes f dir names)
    (hholds : disk.root.HoldsFile (dir.names ++ names)) : Source disk f dir (dir.extend names) := by
  have hnames : ∀ n ∈ names, Path.IsName n := fun n hn =>
    hd.tree.isName_of_holdsFile hholds n (List.mem_append_right _ hn)
  have hcanonical : (dir.extend names).Canonical := hdir.extend hnames
  exact ⟨hcanonical, rfl, (hd.isFile_toString_iff hcanonical).mpr hholds, hpasses.taken⟩

theorem exists_source_of_mem_directory {disk : Disk} (hd : disk.WellFormed) {f : Filter}
    {path file : String} (h : file ∈ (directory disk f path).1) :
    ∃ p, Source disk f (disk.cwd.absolute (.ofString path)) p ∧ p.toString = file := by
  have hdir : (disk.cwd.absolute (.ofString path)).Canonical :=
    hd.cwd.absolute (Path.proper_ofString path)
  obtain ⟨names, -, hholds, hpasses, hfile⟩ := (mem_directory_iff hd).mp h
  exact ⟨_, hpasses.source hd hdir hholds, hfile.symm⟩

end Scan

/-- The files of a scan are in normal form, so they can be looked up among the reached ones. -/
theorem TestFile.mem_unused_iff {disk : Disk} (hd : disk.WellFormed) {f : Scan.Filter}
    {path file : String} {reachable : List String} {testDir sourceDir : Option String} :
    file ∈ unused disk.cwd (Scan.directory disk f path).1 reachable testDir sourceDir ↔
      file ∈ (Scan.directory disk f path).1 ∧ isTest disk.cwd file testDir sourceDir = false ∧
        file ∉ reachable := by
  rw [unused, List.mem_filter]
  refine and_congr_right fun hfile => ?_
  obtain ⟨p, hp, rfl⟩ := Scan.exists_source_of_mem_directory hd hfile
  rw [hp.canonical.normalize_toString, Bool.and_eq_true, Bool.not_eq_true', Bool.not_eq_true',
    ← Bool.not_eq_true, List.contains_iff_mem, and_comm]

end ModuleAudit
