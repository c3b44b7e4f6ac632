import Mathlib.Data.List.Lex
import Mathlib.Data.String.Basic
import ModuleAudit.Proofs.Scan

/-
The order of a scan.

A scan goes through every folder in the order of its names, and what it finds in a folder comes in the
place of the folder.  So its files are in the order of the names on the way to them, compared one after
the other, and no file is listed twice.
-/

namespace ModuleAudit
namespace Scan

/-- The names of `a` come before those of `b`, by the first name in which they differ. -/
def Before (a b : String) : Prop :=
  List.Lex (· < ·) (Path.ofString a).names (Path.ofString b).names

theorem Before.ne {a b : String} (h : Before a b) : a ≠ b := by
  rintro rfl
  exact (List.Lex.imp (fun _ _ hlt => ne_of_lt hlt) _ _ h).to_ne rfl

theorem before_extend {p : Path} (hp : p.Canonical) {m n : String} {rest rest' : List String}
    (hm : ∀ x ∈ m :: rest, Path.IsName x) (hn : ∀ x ∈ n :: rest', Path.IsName x) (h : m < n) :
    Before (p.extend (m :: rest)).toString (p.extend (n :: rest')).toString := by
  rw [Before, Path.ofString_toString (hp.extend hm).proper,
    Path.ofString_toString (hp.extend hn).proper]
  exact List.Lex.append_left _ (.rel h) p.names

/-- The groups of a folder are put together in the strict order of its names. -/
theorem pairwise_mergeSort_ofEntries {f : Filter} {p : Path} {entries : List (String × Entry)}
    (hdistinct : (Table.keys entries).Nodup) :
    ((ofEntries f p entries).mergeSort fun a b => decide (a.1 ≤ b.1)).Pairwise
      (fun a b => a.1 < b.1) := by
  have hkeys : ((ofEntries f p entries).map (·.1)).Nodup := by
    rw [ofEntries_eq_map, List.map_map]
    exact hdistinct
  have htrans : ∀ a b c : String × List String,
      decide (a.1 ≤ b.1) = true → decide (b.1 ≤ c.1) = true → decide (a.1 ≤ c.1) = true := by
    intro a b c hab hbc
    rw [decide_eq_true_iff] at hab hbc ⊢
    exact le_trans hab hbc
  have htotal : ∀ a b : String × List String,
      (decide (a.1 ≤ b.1) || decide (b.1 ≤ a.1)) = true := by
    intro a b
    rw [Bool.or_eq_true, decide_eq_true_iff, decide_eq_true_iff]
    exact le_total a.1 b.1
  have hsorted := List.pairwise_mergeSort htrans htotal (ofEntries f p entries)
  have hne := (((List.mergeSort_perm (ofEntries f p entries) fun a b => decide (a.1 ≤ b.1)).map
    (·.1)).nodup_iff.mpr hkeys)
  rw [List.Nodup, List.pairwise_map] at hne
  refine (hsorted.and hne).imp ?_
  rintro a b ⟨hle, hab⟩
  exact lt_of_le_of_ne (decide_eq_true_iff.mp hle) hab

theorem pairwise_inOrder {f : Filter} {p : Path} (hp : p.Canonical)
    {entries : List (String × Entry)} (hfolder : (Entry.folder entries).WellFormed)
    (hgroups : ∀ name entry, (name, entry) ∈ entries →
      (ofEntry f (p.child name) entry).Pairwise Before) :
    (inOrder (ofEntries f p entries)).Pairwise Before := by
  obtain ⟨hdistinct, hbelow⟩ := Entry.wellFormed_folder.mp hfolder
  have hgroup : ∀ group ∈ (ofEntries f p entries).mergeSort fun a b => decide (a.1 ≤ b.1),
      ∃ entry, (group.1, entry) ∈ entries ∧ group.2 = ofEntry f (p.child group.1) entry := by
    intro group hmem
    rw [List.mem_mergeSort, ofEntries_eq_map] at hmem
    obtain ⟨⟨name, entry⟩, hentry, rfl⟩ := List.mem_map.mp hmem
    exact ⟨entry, hentry, rfl⟩
  have hfile : ∀ {name entry file}, (name, entry) ∈ entries →
      file ∈ ofEntry f (p.child name) entry → ∃ rest, (∀ x ∈ name :: rest, Path.IsName x) ∧
        file = (p.extend (name :: rest)).toString := by
    intro name entry file hmem hfile
    obtain ⟨rest, hrest, -, hfile⟩ := (mem_ofEntry_iff (hbelow _ hmem).2).mp hfile
    refine ⟨rest, List.forall_mem_cons.mpr ⟨(hbelow _ hmem).1, ?_⟩, hfile⟩
    exact (hbelow _ hmem).2.isName_of_holdsFile hrest
  rw [inOrder, List.pairwise_flatMap]
  constructor
  · intro group hmem
    obtain ⟨entry, hentry, hfiles⟩ := hgroup group hmem
    rw [hfiles]
    exact hgroups _ entry hentry
  · refine (pairwise_mergeSort_ofEntries hdistinct).imp_of_mem ?_
    intro a b ha hb hlt x hx y hy
    obtain ⟨entry, hentry, hfiles⟩ := hgroup a ha
    obtain ⟨entry', hentry', hfiles'⟩ := hgroup b hb
    rw [hfiles] at hx
    rw [hfiles'] at hy
    obtain ⟨rest, hnames, rfl⟩ := hfile hentry hx
    obtain ⟨rest', hnames', rfl⟩ := hfile hentry' hy
    exact before_extend hp hnames hnames' hlt

theorem pairwise_ofEntry {f : Filter} {entry : Entry} (hentry : entry.WellFormed) {p : Path}
    (hp : p.Canonical) : (ofEntry f p entry).Pairwise Before := by
  induction hentry generalizing p with
  | file bytes =>
    rw [ofEntry]
    split <;> simp
  | folder hdistinct hnames hbelow ih =>
    rw [ofEntry]
    split
    · exact .nil
    · exact pairwise_inOrder hp (.folder hdistinct hnames hbelow) fun name entry hmem =>
        ih name entry hmem (hp.child (hnames name entry hmem))

theorem pairwise_directory {disk : Disk} (hd : disk.WellFormed) (f : Filter) (path : String) :
    (directory disk f path).1.Pairwise Before := by
  have hroot : (disk.cwd.absolute (.ofString path)).Canonical :=
    hd.cwd.absolute (Path.proper_ofString path)
  unfold directory Disk.list
  dsimp only
  cases hlookup : disk.lookup (disk.cwd.absolute (.ofString path)).toString with
  | error dead => exact .nil
  | ok found =>
    cases found with
    | file bytes => exact .nil
    | folder entries =>
      have hfolder := hd.of_lookup hlookup
      refine pairwise_inOrder hroot hfolder fun name entry hmem => ?_
      obtain ⟨hname, hentry⟩ := (Entry.wellFormed_folder.mp hfolder).2 _ hmem
      exact pairwise_ofEntry hentry (hroot.child hname)

/-- No file is listed twice. -/
theorem nodup_directory {disk : Disk} (hd : disk.WellFormed) (f : Filter) (path : String) :
    (directory disk f path).1.Nodup :=
  (pairwise_directory hd f path).imp Before.ne

end Scan
end ModuleAudit
