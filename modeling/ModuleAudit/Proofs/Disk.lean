import ModuleAudit.Disk.Basic
import ModuleAudit.Proofs.Path.Basic
import ModuleAudit.Proofs.Table

/-
Looking up canonical paths on a disk.

A disk is well formed if its folders hold every name once and only names that can be written
between slashes, and if the working directory is a canonical path.  On such a disk the lookup of a
canonical path follows its names down from the root, and the entries of a folder are found under
the path of the folder and their names.
-/

namespace ModuleAudit

/-- A tree whose folders file every entry under a name of its own. -/
inductive Entry.WellFormed : Entry → Prop where
  | file (bytes : List UInt8) : WellFormed (.file bytes)
  | folder {entries : List (String × Entry)} (distinct : (Table.keys entries).Nodup)
      (names : ∀ name entry, (name, entry) ∈ entries → Path.IsName name)
      (below : ∀ name entry, (name, entry) ∈ entries → WellFormed entry) :
      WellFormed (.folder entries)

theorem Entry.wellFormed_folder {entries : List (String × Entry)} :
    (Entry.folder entries).WellFormed ↔ (Table.keys entries).Nodup ∧
      ∀ e ∈ entries, Path.IsName e.1 ∧ e.2.WellFormed := by
  constructor
  · rintro (_ | ⟨hdistinct, hnames, hbelow⟩)
    exact ⟨hdistinct, fun e he => ⟨hnames e.1 e.2 he, hbelow e.1 e.2 he⟩⟩
  · rintro ⟨hdistinct, h⟩
    exact .folder hdistinct (fun name entry he => (h _ he).1) fun name entry he => (h _ he).2

mutual

/-- Whether every folder of a tree files its entries under names of their own. -/
def Entry.isWellFormed : Entry → Bool
  | .file _ => true
  | .folder entries => decide (Table.keys entries).Nodup && areWellFormed entries

/-- Whether the entries of a folder have names that can be written and are well formed themselves. -/
def Entry.areWellFormed : List (String × Entry) → Bool
  | [] => true
  | (name, entry) :: rest => decide (Path.IsName name) && entry.isWellFormed && areWellFormed rest

end

mutual

theorem Entry.isWellFormed_iff : (entry : Entry) → (entry.isWellFormed = true ↔ entry.WellFormed)
  | .file bytes => iff_of_true rfl (.file bytes)
  | .folder entries => by
    rw [isWellFormed, wellFormed_folder, Bool.and_eq_true, decide_eq_true_iff,
      areWellFormed_iff entries]

theorem Entry.areWellFormed_iff : (entries : List (String × Entry)) →
    (areWellFormed entries = true ↔ ∀ e ∈ entries, Path.IsName e.1 ∧ e.2.WellFormed)
  | [] => by simp [areWellFormed]
  | (name, entry) :: rest => by
    rw [areWellFormed, Bool.and_eq_true, Bool.and_eq_true, decide_eq_true_iff, isWellFormed_iff entry,
      areWellFormed_iff rest, List.forall_mem_cons]

end

/-! ## Going down -/

namespace Entry

/-- The entry that some names lead down to. -/
def descend : List String → Entry → Option Entry
  | [], here => some here
  | _ :: _, .file _ => none
  | name :: rest, .folder entries => (Table.get? entries name).bind (descend rest)

theorem descend_append (names more : List String) (here : Entry) :
    here.descend (names ++ more) = (here.descend names).bind (descend more) := by
  induction names generalizing here with
  | nil => rfl
  | cons name rest ih =>
    cases here with
    | file bytes => rfl
    | folder entries =>
      rw [List.cons_append, descend, descend, Option.bind_assoc]
      exact congrArg _ (funext ih)

def HoldsFile (here : Entry) (names : List String) : Prop :=
  ∃ bytes, here.descend names = some (.file bytes)

theorem holdsFile_file {bytes : List UInt8} {names : List String} :
    (Entry.file bytes).HoldsFile names ↔ names = [] := by
  cases names <;> simp [HoldsFile, descend]

theorem holdsFile_append {here : Entry} {names more : List String} :
    here.HoldsFile (names ++ more) ↔
      ∃ found, here.descend names = some found ∧ found.HoldsFile more := by
  unfold HoldsFile
  rw [descend_append]
  cases here.descend names <;> simp

theorem WellFormed.holdsFile_folder {entries : List (String × Entry)}
    (h : (Entry.folder entries).WellFormed) {names : List String} :
    (Entry.folder entries).HoldsFile names ↔
      ∃ name entry rest, (name, entry) ∈ entries ∧ names = name :: rest ∧ entry.HoldsFile rest := by
  have hdistinct := (wellFormed_folder.mp h).1
  constructor
  · rintro ⟨bytes, hdescend⟩
    cases names with
    | nil => exact absurd hdescend (by simp [descend])
    | cons name rest =>
      obtain ⟨entry, hget, hrest⟩ := Option.bind_eq_some_iff.mp hdescend
      exact ⟨name, entry, rest, Table.mem_of_get? hget, rfl, bytes, hrest⟩
  · rintro ⟨name, entry, rest, hmem, rfl, bytes, hrest⟩
    refine ⟨bytes, Option.bind_eq_some_iff.mpr ⟨entry, ?_, hrest⟩⟩
    exact Table.get?_eq_some_of_mem hdistinct hmem

theorem WellFormed.isName_of_holdsFile {here : Entry} (h : here.WellFormed)
    {names : List String} (hfile : here.HoldsFile names) : ∀ n ∈ names, Path.IsName n := by
  induction h generalizing names with
  | file bytes =>
    rw [holdsFile_file.mp hfile]
    exact fun n hn => absurd hn List.not_mem_nil
  | folder hdistinct hnames hbelow ih =>
    obtain ⟨name, entry, rest, hmem, rfl, hrest⟩ :=
      (WellFormed.folder hdistinct hnames hbelow).holdsFile_folder.mp hfile
    exact List.forall_mem_cons.mpr ⟨hnames name entry hmem, ih name entry hmem hrest⟩

end Entry

namespace Disk

structure WellFormed (disk : Disk) : Prop where
  tree : disk.root.WellFormed
  folder : ∃ entries, disk.root = .folder entries
  cwd : disk.cwd.Canonical

theorem wellFormed_of_isWellFormed {disk : Disk} {entries : List (String × Entry)}
    (hroot : disk.root = .folder entries) (htree : disk.root.isWellFormed = true)
    (hcwd : disk.cwd.Canonical) : disk.WellFormed :=
  ⟨disk.root.isWellFormed_iff.mp htree, ⟨entries, hroot⟩, hcwd⟩

/-! ## Walking -/

theorem walk_skip {entries : List (String × Entry)} {above : List Entry} {piece : String}
    (h : Path.isStep piece = false) (rest : List String) :
    walk (.folder entries) above (piece :: rest) = walk (.folder entries) above rest := by
  simp [walk, h]

theorem walk_up {entries : List (String × Entry)} {above : List Entry} (rest : List String) :
    walk (.folder entries) above (".." :: rest) =
      walk (above.headD (.folder entries)) above.tail rest := by
  have hstep : Path.isStep ".." = true := rfl
  cases above <;> simp [walk, hstep]

theorem walk_down {entries : List (String × Entry)} {above : List Entry} {name : String}
    (h : Path.IsName name) (rest : List String) :
    walk (.folder entries) above (name :: rest) =
      match Table.get? entries name with
      | none => .error .missing
      | some entry => walk entry (.folder entries :: above) rest := by
  have hstep : ¬ (!Path.isStep name) = true := by
    rw [h.isStep]
    decide
  have hup : ¬ (name == "..") = true := fun e => h.ne_up (beq_iff_eq.mp e)
  rw [walk.eq_def]
  dsimp only
  rw [if_neg hstep]
  exact if_neg hup

/-- What a walk can come to: an entry of the tree it starts in, or of one above. -/
theorem wellFormed_of_walk {here : Entry} {above : List Entry} {pieces : List String}
    {found : Entry} (hhere : here.WellFormed) (habove : ∀ e ∈ above, e.WellFormed)
    (h : walk here above pieces = .ok found) : found.WellFormed := by
  induction pieces generalizing here above with
  | nil =>
    cases h
    exact hhere
  | cons piece rest ih =>
    cases hhere with
    | file bytes => exact absurd h (by simp [walk])
    | @folder entries hdistinct hnames hbelow =>
      have hfolder : Entry.WellFormed (.folder entries) := .folder hdistinct hnames hbelow
      by_cases hstep : Path.isStep piece = true
      · by_cases hup : piece = ".."
        · subst hup
          rw [walk_up] at h
          cases above with
          | nil => exact ih hfolder habove h
          | cons up higher =>
            exact ih (habove up List.mem_cons_self)
              (fun e he => habove e (List.mem_cons_of_mem _ he)) h
        · -- `walk_down` asks for a name; this piece may hold a slash
          simp only [walk, hstep, Bool.not_true, Bool.false_eq_true, if_false, beq_iff_eq, hup] at h
          cases hget : entries.lookup piece with
          | none =>
            rw [hget] at h
            exact absurd h (by simp)
          | some entry =>
            rw [hget] at h
            refine ih (hbelow piece entry (Table.mem_of_get? hget)) ?_ h
            rintro e he
            rcases List.mem_cons.mp he with rfl | he
            · exact hfolder
            · exact habove e he
      · rw [walk_skip (Bool.eq_false_iff.mpr hstep)] at h
        exact ih hfolder habove h

/-- Names that lead down are followed the same way from wherever a walk has come. -/
theorem walk_eq_ok_iff {here : Entry} {above : List Entry} {names : List String}
    (hnames : ∀ n ∈ names, Path.IsName n) {found : Entry} :
    walk here above names = .ok found ↔ here.descend names = some found := by
  induction names generalizing here above with
  | nil => simp [walk, Entry.descend]
  | cons name rest ih =>
    obtain ⟨hname, hrest⟩ := List.forall_mem_cons.mp hnames
    cases here with
    | file bytes => simp [walk, Entry.descend]
    | folder entries =>
      rw [walk_down hname, Entry.descend]
      cases hget : Table.get? entries name with
      | none => simp
      | some entry => exact ih hrest

/-! ## Looking up -/

/-- The slashes of the root and the empty names between them lead nowhere. -/
theorem walk_pieces_root {entries : List (String × Entry)} {root : Path.Root}
    (hroot : root.isRooted = true) (s : String) :
    walk (.folder entries) [] (Path.pieces (root.text ++ s)) =
      walk (.folder entries) [] (Path.pieces s) := by
  have hempty : Path.isStep "" = false := rfl
  cases root with
  | relative => exact absurd hroot (by decide)
  | slash => rw [Path.Root.text, Path.pieces_slash, walk_skip hempty]
  | doubleSlash =>
    have htwo : Path.Root.text .doubleSlash ++ s = "/" ++ ("/" ++ s) := by
      rw [← String.append_assoc]
      rfl
    rw [htwo, Path.pieces_slash, Path.pieces_slash, walk_skip hempty, walk_skip hempty]

/-- A path in normal form is looked up by its names, from a root that is a folder. -/
theorem lookup_toString {disk : Disk} (hd : ∃ entries, disk.root = .folder entries) {p : Path}
    (hp : p.Canonical) : disk.lookup p.toString = walk disk.root [] p.names := by
  obtain ⟨entries, hroot⟩ := hd
  have hne : (p.toString == "") = false :=
    beq_eq_false_iff_ne.mpr (Path.toString_ne_empty hp.proper)
  have hskip : walk (.folder entries) [] (Path.pieces (p.root.text ++ "/".intercalate p.names)) =
      walk (.folder entries) [] p.names := by
    rw [walk_pieces_root hp.rooted]
    by_cases hnames : p.names = []
    · rw [hnames]
      rfl
    · rw [Path.pieces_intercalate hnames fun n hn => (hp.names n hn).no_slash]
  rw [lookup, hne, Path.ofString_toString hp.proper, if_pos hp.rooted, hroot, ← hskip,
    ← Path.toString_eq (Or.inr hp.rooted)]
  rfl

theorem WellFormed.lookup_toString {disk : Disk} (hd : disk.WellFormed) {p : Path}
    (hp : p.Canonical) : disk.lookup p.toString = walk disk.root [] p.names :=
  Disk.lookup_toString hd.folder hp

theorem WellFormed.lookup_eq_ok_iff {disk : Disk} (hd : disk.WellFormed) {p : Path}
    (hp : p.Canonical) {found : Entry} :
    disk.lookup p.toString = .ok found ↔ disk.root.descend p.names = some found := by
  rw [hd.lookup_toString hp, walk_eq_ok_iff hp.names]

theorem WellFormed.of_lookup {disk : Disk} (hd : disk.WellFormed) {path : String} {entry : Entry}
    (h : disk.lookup path = .ok entry) : entry.WellFormed := by
  unfold lookup at h
  split at h
  · exact absurd h (by simp)
  · exact wellFormed_of_walk hd.tree (fun e he => absurd he List.not_mem_nil) h

theorem isFile_iff {disk : Disk} {path : String} :
    disk.isFile path = true ↔ ∃ bytes, disk.lookup path = .ok (.file bytes) := by
  unfold isFile
  split
  · rename_i bytes h
    exact ⟨fun _ => ⟨bytes, h⟩, fun _ => rfl⟩
  · rename_i hno
    exact ⟨fun h => absurd h Bool.false_ne_true, fun ⟨bytes, h⟩ => absurd h (hno bytes)⟩

theorem WellFormed.isFile_toString_iff {disk : Disk} (hd : disk.WellFormed) {p : Path}
    (hp : p.Canonical) : disk.isFile p.toString = true ↔ disk.root.HoldsFile p.names := by
  rw [isFile_iff]
  exact exists_congr fun bytes => hd.lookup_eq_ok_iff hp

theorem holds_of_isFile {disk : Disk} {path : String} (h : disk.isFile path = true) :
    disk.holds path = true := by
  obtain ⟨bytes, hb⟩ := isFile_iff.mp h
  rw [holds, hb]
  rfl

end Disk
end ModuleAudit
