import ModuleAudit.Manifest
import ModuleAudit.Proofs.Disk
import ModuleAudit.Scan
import ModuleAudit.Specifier.Resolve

/-
Disks that differ in files that are no text.

`Blanked` relates a disk to one on which some of its undecodable files are empty.  The two have the
same folders and the same names, so looking up, scanning and resolving give the same.  Only a read can
tell them apart: it fails on the one disk and gives the empty text on the other.
-/

namespace ModuleAudit

mutual

/-- Some files of the first tree that are no text are empty in the second; all else is the same. -/
inductive Entry.Blanked : Entry → Entry → Prop where
  | file (bytes : List UInt8) : Entry.Blanked (.file bytes) (.file bytes)
  | emptied {bytes : List UInt8} {fault : Text.Utf8.Fault}
      (h : Text.Utf8.decode bytes = .error fault) : Entry.Blanked (.file bytes) (.file [])
  | folder {entries entries' : List (String × Entry)} (h : Entries.Blanked entries entries') :
      Entry.Blanked (.folder entries) (.folder entries')

inductive Entries.Blanked : List (String × Entry) → List (String × Entry) → Prop where
  | nil : Entries.Blanked [] []
  | cons (name : String) {entry entry' : Entry} {rest rest' : List (String × Entry)}
      (h : Entry.Blanked entry entry') (hrest : Entries.Blanked rest rest') :
      Entries.Blanked ((name, entry) :: rest) ((name, entry') :: rest')

end

mutual

theorem Entry.Blanked.refl : (entry : Entry) → Entry.Blanked entry entry
  | .file bytes => .file bytes
  | .folder entries => .folder (Entries.Blanked.refl entries)

theorem Entries.Blanked.refl : (entries : List (String × Entry)) → Entries.Blanked entries entries
  | [] => .nil
  | (name, entry) :: rest => .cons name (Entry.Blanked.refl entry) (Entries.Blanked.refl rest)

end

theorem Entries.Blanked.get? {entries entries' : List (String × Entry)}
    (h : Entries.Blanked entries entries') (name : String) :
    Option.Rel Entry.Blanked (Table.get? entries name) (Table.get? entries' name) := by
  induction entries generalizing entries' with
  | nil =>
    cases h
    exact .none
  | cons first rest ih =>
    cases h with
    | cons key hentry hrest =>
      rw [Table.get?_cons, Table.get?_cons]
      split
      · exact .some hentry
      · exact ih hrest

namespace Disk

structure Blanked (disk disk' : Disk) : Prop where
  root : Entry.Blanked disk.root disk'.root
  cwd : disk'.cwd = disk.cwd

theorem Blanked.refl (disk : Disk) : Blanked disk disk := ⟨Entry.Blanked.refl _, rfl⟩

/-! ## Looking up -/

/-- Two walks that end at entries of the two trees, or fail alike. -/
inductive SameEnd : Except Dead Entry → Except Dead Entry → Prop where
  | error (dead : Dead) : SameEnd (.error dead) (.error dead)
  | ok {entry entry' : Entry} (h : Entry.Blanked entry entry') : SameEnd (.ok entry) (.ok entry')

theorem sameEnd_walk {here here' : Entry} {above above' : List Entry}
    (hhere : Entry.Blanked here here') (habove : List.Forall₂ Entry.Blanked above above')
    (pieces : List String) : SameEnd (walk here above pieces) (walk here' above' pieces) := by
  induction pieces generalizing here here' above above' with
  | nil => exact .ok hhere
  | cons piece rest ih =>
    cases hhere with
    | file bytes => exact .error _
    | emptied _ => exact .error _
    | @folder entries entries' h =>
      by_cases hstep : Path.isStep piece = true
      · by_cases hup : piece = ".."
        · subst hup
          rw [walk_up, walk_up]
          cases habove with
          | nil => exact ih (.folder h) .nil
          | cons hfirst hhigher => exact ih hfirst hhigher
        · simp only [walk, hstep, Bool.not_true, Bool.false_eq_true, if_false, beq_iff_eq, hup]
          have hget := h.get? piece
          unfold Table.get? at hget
          generalize entries.lookup piece = found at hget
          generalize entries'.lookup piece = found' at hget
          cases hget with
          | none => exact .error _
          | some hentry => exact ih hentry (.cons (.folder h) habove)
      · have hskip : Path.isStep piece = false := Bool.eq_false_iff.mpr hstep
        rw [walk_skip hskip, walk_skip hskip]
        exact ih (.folder h) habove

namespace Blanked

variable {disk disk' : Disk} (h : Blanked disk disk')

include h

theorem lookup (path : String) : SameEnd (disk.lookup path) (disk'.lookup path) := by
  unfold Disk.lookup
  rw [h.cwd]
  split
  · exact .error _
  · exact sameEnd_walk h.root .nil _

theorem isFile_eq : disk'.isFile = disk.isFile := by
  funext path
  unfold isFile
  have hsame := h.lookup path
  generalize disk.lookup path = found at hsame
  generalize disk'.lookup path = found' at hsame
  cases hsame with
  | error dead => rfl
  | ok hentry => cases hentry <;> rfl

theorem holds_eq : disk'.holds = disk.holds := by
  funext path
  unfold holds
  have hsame := h.lookup path
  generalize disk.lookup path = found at hsame
  generalize disk'.lookup path = found' at hsame
  cases hsame <;> rfl

/-- A read gives the same on both disks, or it fails on the one and gives an empty text on the
other. -/
theorem readText (path : String) :
    disk'.readText path = disk.readText path ∨
      (∃ fault, disk.readText path = .error fault) ∧ disk'.readText path = .ok "" := by
  unfold Disk.readText
  dsimp only
  have hsame := h.lookup (Path.ofString path).toString
  generalize disk.lookup (Path.ofString path).toString = found at hsame
  generalize disk'.lookup (Path.ofString path).toString = found' at hsame
  cases hsame with
  | error dead => exact Or.inl rfl
  | ok hentry =>
    cases hentry with
    | file bytes => exact Or.inl rfl
    | folder _ => exact Or.inl rfl
    | emptied hbytes =>
      refine Or.inr ⟨?_, rfl⟩
      dsimp only
      rw [hbytes]
      exact ⟨_, rfl⟩

end Blanked
end Disk

/-! ## Emptying files -/

theorem Entries.Blanked.put {entries entries' : List (String × Entry)}
    (h : Entries.Blanked entries entries') {name : String} {entry entry' : Entry}
    (hget : Table.get? entries name = some entry) (hentry : Entry.Blanked entry entry') :
    Entries.Blanked entries (Table.put entries' name entry') := by
  induction entries generalizing entries' with
  | nil => exact absurd hget (by simp [Table.get?_nil])
  | cons first rest ih =>
    cases h with
    | cons key hfirst hrest =>
      rw [Table.get?_cons] at hget
      rw [Table.put_cons]
      by_cases hkey : name = key
      · rw [if_pos hkey] at hget
        rw [if_pos hkey.symm, Option.some.inj hget]
        exact .cons key hentry hrest
      · rw [if_neg hkey] at hget
        rw [if_neg (Ne.symm hkey)]
        exact .cons key hfirst (ih hrest hget)

namespace Disk

/-- Emptying a file at the end of a chain of names. -/
theorem blanked_update {here here' : Entry} {above : List Entry} {names : List String}
    (h : Entry.Blanked here here') (hnames : ∀ n ∈ names, Path.IsName n) {bytes : List UInt8}
    (hwalk : walk here above names = .ok (.file bytes))
    (hbytes : Entry.Blanked (.file bytes) (.file [])) :
    Entry.Blanked here (update (fun _ => .file []) names (some here')) := by
  induction names generalizing here here' above with
  | nil =>
    cases hwalk
    exact hbytes
  | cons name rest ih =>
    cases h with
    | file _ => exact absurd hwalk (by simp [walk])
    | emptied _ => exact absurd hwalk (by simp [walk])
    | @folder entries entries' h =>
      rw [walk_down (hnames name List.mem_cons_self)] at hwalk
      have hfound := h.get? name
      cases hget : Table.get? entries name with
      | none =>
        rw [hget] at hwalk
        exact absurd hwalk (by simp)
      | some entry =>
        rw [hget] at hwalk hfound
        cases hget' : Table.get? entries' name with
        | none =>
          rw [hget'] at hfound
          cases hfound
        | some entry' =>
          rw [hget'] at hfound
          cases hfound with
          | some hentry =>
            have hbelow := ih hentry (fun n hn => hnames n (List.mem_cons_of_mem _ hn)) hwalk
            rw [← hget'] at hbelow
            exact .folder (h.put hget hbelow)

/-- What is written at the end of a chain of names is found there. -/
theorem walk_update {bytes : List UInt8} {names : List String}
    (hnames : ∀ n ∈ names, Path.IsName n) (old : Option Entry) (above : List Entry) :
    walk (update (fun _ => .file bytes) names old) above names = .ok (.file bytes) := by
  induction names generalizing old above with
  | nil => rfl
  | cons name rest ih =>
    unfold update
    dsimp only
    rw [walk_down (hnames name List.mem_cons_self), Table.get?_put_self]
    exact ih (fun n hn => hnames n (List.mem_cons_of_mem _ hn)) _ _

/-- There is a file at the path, and its bytes are no text. -/
def Undecodable (disk : Disk) (p : Path) : Prop :=
  ∃ bytes fault, disk.lookup p.toString = .ok (.file bytes) ∧
    Text.Utf8.decode bytes = .error fault

/-- The disk with empty files at some paths. -/
def emptied (disk : Disk) (paths : List Path) : Disk :=
  paths.foldl (fun d p => d.write p.toString []) disk

/-- There is a file at the path that is no text, or that is empty already. -/
def Blankable (disk : Disk) (p : Path) : Prop :=
  ∃ bytes, disk.lookup p.toString = .ok (.file bytes) ∧ Entry.Blanked (.file bytes) (.file [])

theorem Undecodable.blankable {disk : Disk} {p : Path} (h : disk.Undecodable p) :
    disk.Blankable p := by
  obtain ⟨bytes, fault, hlookup, hbytes⟩ := h
  exact ⟨bytes, hlookup, .emptied hbytes⟩

theorem emptied_cons (disk : Disk) (p : Path) (rest : List Path) :
    disk.emptied (p :: rest) = (disk.write p.toString []).emptied rest := by
  rw [emptied, List.foldl_cons, emptied]

theorem cwd_write (disk : Disk) (path : String) (bytes : List UInt8) :
    (disk.write path bytes).cwd = disk.cwd := by
  rw [Disk.write]

theorem root_write (disk : Disk) {p : Path} (hp : p.Canonical) (bytes : List UInt8) :
    (disk.write p.toString bytes).root =
      update (fun _ => .file bytes) p.names (some disk.root) := by
  unfold Disk.write
  dsimp only
  rw [Path.ofString_toString hp.proper, hp.absolute_eq]

namespace Blanked

variable {disk disk' : Disk} (h : Blanked disk disk')

include h

theorem folder (hd : ∃ entries, disk.root = .folder entries) :
    ∃ entries, disk'.root = .folder entries := by
  obtain ⟨entries, hroot⟩ := hd
  have hrel := h.root
  rw [hroot] at hrel
  generalize disk'.root = root' at hrel
  cases hrel with
  | folder _ => exact ⟨_, rfl⟩

theorem blankable {p : Path} (hp : disk.Blankable p) : disk'.Blankable p := by
  obtain ⟨bytes, hlookup, hbytes⟩ := hp
  have hsame := h.lookup p.toString
  rw [hlookup] at hsame
  generalize hfound : disk'.lookup p.toString = found at hsame
  cases hsame with
  | ok hentry =>
    cases hentry with
    | file _ => exact ⟨bytes, hfound, hbytes⟩
    | emptied _ => exact ⟨[], hfound, .file []⟩

/-- A file that is empty stays empty. -/
theorem lookup_empty {path : String} (hempty : disk.lookup path = .ok (.file [])) :
    disk'.lookup path = .ok (.file []) := by
  have hsame := h.lookup path
  rw [hempty] at hsame
  generalize disk'.lookup path = found at hsame
  cases hsame with
  | ok hentry => cases hentry <;> rfl

theorem write (hd : ∃ entries, disk.root = .folder entries) {p : Path} (hp : p.Canonical)
    (hfile : disk.Blankable p) : Blanked disk (disk'.write p.toString []) := by
  obtain ⟨bytes, hlookup, hbytes⟩ := hfile
  rw [lookup_toString hd hp] at hlookup
  refine ⟨?_, (cwd_write disk' _ _).trans h.cwd⟩
  rw [root_write disk' hp]
  exact blanked_update h.root hp.names hlookup hbytes

theorem emptied (hd : ∃ entries, disk.root = .folder entries) {paths : List Path}
    (hpaths : ∀ p ∈ paths, p.Canonical ∧ disk.Blankable p) :
    Blanked disk (disk'.emptied paths) := by
  induction paths generalizing disk' with
  | nil => exact h
  | cons p rest ih =>
    obtain ⟨hp, hfile⟩ := hpaths p List.mem_cons_self
    rw [emptied_cons]
    exact ih (h.write hd hp hfile) fun q hq => hpaths q (List.mem_cons_of_mem _ hq)

end Blanked

/-- The files at the paths are empty: later writes leave alone what earlier ones have emptied. -/
theorem lookup_emptied {disk : Disk} (hd : ∃ entries, disk.root = .folder entries)
    {paths : List Path} (hpaths : ∀ p ∈ paths, p.Canonical ∧ disk.Blankable p) {p : Path}
    (hp : p ∈ paths) : (disk.emptied paths).lookup p.toString = .ok (.file []) := by
  induction paths generalizing disk with
  | nil => exact absurd hp List.not_mem_nil
  | cons first rest ih =>
    obtain ⟨hfirst, hfile⟩ := hpaths first List.mem_cons_self
    have hwrite := (Blanked.refl disk).write hd hfirst hfile
    have hfolder := hwrite.folder hd
    have hrest : ∀ q ∈ rest, q.Canonical ∧ (disk.write first.toString []).Blankable q := by
      intro q hq
      obtain ⟨hcanonical, hblankable⟩ := hpaths q (List.mem_cons_of_mem _ hq)
      exact ⟨hcanonical, hwrite.blankable hblankable⟩
    rw [emptied_cons]
    rcases List.mem_cons.mp hp with rfl | hp
    · refine ((Blanked.refl _).emptied hfolder hrest).lookup_empty ?_
      rw [lookup_toString hfolder hfirst, root_write disk hfirst]
      exact walk_update hfirst.names _ _
    · exact ih hfolder hrest hp

end Disk

/-! ## Scanning, resolving and loading -/

mutual

theorem Scan.ofEntry_blanked (f : Scan.Filter) (p : Path) {entry entry' : Entry}
    (h : Entry.Blanked entry entry') : Scan.ofEntry f p entry = Scan.ofEntry f p entry' := by
  cases h with
  | file bytes => rfl
  | emptied h => rw [Scan.ofEntry, Scan.ofEntry]
  | folder h => rw [Scan.ofEntry, Scan.ofEntry, Scan.ofEntries_blanked f p h]

theorem Scan.ofEntries_blanked (f : Scan.Filter) (folder : Path)
    {entries entries' : List (String × Entry)} (h : Entries.Blanked entries entries') :
    Scan.ofEntries f folder entries = Scan.ofEntries f folder entries' := by
  cases h with
  | nil => rfl
  | cons name h hrest =>
    rw [Scan.ofEntries, Scan.ofEntries, Scan.ofEntry_blanked f _ h,
      Scan.ofEntries_blanked f folder hrest]

end

section

variable {disk disk' : Disk} (h : disk.Blanked disk')

include h

theorem Scan.directory_blanked (f : Scan.Filter) (path : String) :
    (Scan.directory disk' f path).1 = (Scan.directory disk f path).1 := by
  unfold Scan.directory Disk.list
  dsimp only
  rw [h.cwd]
  have hsame := h.lookup (disk.cwd.absolute (.ofString path)).toString
  generalize disk.lookup (disk.cwd.absolute (.ofString path)).toString = found at hsame
  generalize disk'.lookup (disk.cwd.absolute (.ofString path)).toString = found' at hsame
  cases hsame with
  | error dead => rfl
  | ok hentry =>
    cases hentry with
    | file bytes => rfl
    | emptied _ => rfl
    | folder hentries =>
      dsimp only
      rw [Scan.ofEntries_blanked f _ hentries]

theorem Specifier.locate_blanked : Specifier.locate disk' = Specifier.locate disk := by
  funext extensions base specifier
  unfold Specifier.locate
  rw [h.isFile_eq, h.cwd]

/-- An empty manifest is no more usable than one that is no text. -/
theorem Manifest.load_blanked (directory : String) :
    (Manifest.load disk' directory).map Prod.fst = (Manifest.load disk directory).map Prod.fst := by
  unfold Manifest.load
  dsimp only
  rcases h.readText (Manifest.location directory) with hread | ⟨⟨fault, hfault⟩, hempty⟩
  · rw [hread]
  · rw [hfault, hempty]
    rfl

end

end ModuleAudit
