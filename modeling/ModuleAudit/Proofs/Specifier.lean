import ModuleAudit.Proofs.Disk
import ModuleAudit.Specifier.Resolve

/-
The identities that relative specifiers stand for.

A relative specifier asks for a canonical path.  The files tried for it have canonical paths too,
unless an extension has a slash of its own: then the text put together from path and extension need
not be in normal form.
-/

namespace ModuleAudit
namespace Specifier

open ModuleAudit.Path

theorem canonical_requested {cwd : Path} (hcwd : cwd.Canonical) (base specifier : String) :
    (requested cwd base specifier).Canonical :=
  canonical_collapse_join (hcwd.absolute (proper_ofString base)).parent (proper_ofString specifier)

theorem isRooted_ofString {specifier : String} (hrel : isRelative specifier = true) :
    (ofString specifier).isRooted = false := by
  have hslashes : specifier.toList.takeWhile (· == '/') = [] := by
    rw [isRelative, beq_iff_eq] at hrel
    cases hlist : specifier.toList with
    | nil => rfl
    | cons c rest =>
      rw [hlist, List.head?_cons, Option.some.injEq] at hrel
      rw [hrel, List.takeWhile_cons_of_neg (by decide)]
  rw [ofString, isRooted, hslashes]
  rfl

/-- A relative specifier stays below the root of the importing file. -/
theorem root_requested (cwd : Path) (base : String) {specifier : String}
    (hrel : isRelative specifier = true) :
    (requested cwd base specifier).root = (cwd.absolute (.ofString base)).root := by
  have hrooted := isRooted_ofString hrel
  unfold requested
  generalize cwd.absolute (.ofString base) = file
  rw [join, hrooted]
  rfl

/-- The text of an entry of a directory is that of its path. -/
theorem below_toString {p : Path} (hp : p.Canonical) (name : String) :
    below p.toString name = (p.child name).toString := by
  obtain ⟨root, names⟩ := p
  rcases List.eq_nil_or_concat names with rfl | ⟨init, last, rfl⟩
  · have htext : Path.toString ⟨root, []⟩ = root.text := toString_nil hp.rooted
    have hlast : ((Path.toString ⟨root, []⟩).toList.getLast? == some '/') = true := by
      rw [htext, getLast?_text hp.rooted]
      rfl
    rw [below, if_pos hlast, htext, child, toString_concat, if_pos rfl, String.append_empty]
  · rw [List.concat_eq_append] at hp ⊢
    have hname : IsName last := hp.names last (List.mem_append_right _ List.mem_cons_self)
    have hlast : ¬ ((Path.toString ⟨root, init ++ [last]⟩).toList.getLast? == some '/') = true := by
      rw [getLast?_toString_concat root init (isStep_iff.mp hname.isStep).1, beq_iff_eq]
      exact fun e => hname.no_slash (List.mem_of_getLast? e)
    have hne : init ++ [last] ≠ [] := List.append_ne_nil_of_right_ne_nil _ (List.cons_ne_nil _ _)
    rw [below, if_neg hlast, child, toString_concat root (init ++ [last]) name, if_neg hne,
      toString_eq (Or.inl hne), ← String.append_assoc]

theorem isName_index {ext : String} (h : '/' ∉ ext.toList) : IsName ("index" ++ ext) := by
  have hne : ∀ s : String, s.toList.length < 5 → "index" ++ ext ≠ s := by
    intro s hs e
    rw [← e, String.toList_append, List.length_append] at hs
    have hindex : "index".toList.length = 5 := rfl
    omega
  refine ⟨isStep_iff.mpr ⟨hne "" (by decide), hne "." (by decide)⟩, hne ".." (by decide), ?_⟩
  rw [String.toList_append, List.mem_append, not_or]
  exact ⟨by decide, h⟩

section

variable {disk : Disk} (hd : disk.WellFormed)

include hd

/-- The root is a folder, however it is written. -/
theorem isFile_root {r : Root} (hr : r.isRooted = true) {ext : String}
    (hext : ext = "" ∨ ext = "." ∨ ext = "..") : disk.isFile (r.text ++ ext) = false := by
  obtain ⟨entries, hroot⟩ := hd.folder
  obtain ⟨root, cwd⟩ := disk
  cases hroot
  cases r with
  | relative => exact absurd hr (by decide)
  | slash => rcases hext with rfl | rfl | rfl <;> rfl
  | doubleSlash => rcases hext with rfl | rfl | rfl <;> rfl

theorem exists_canonical_append {p : Path} (hp : p.Canonical) {ext : String}
    (hext : '/' ∉ ext.toList) (hfile : disk.isFile (p.toString ++ ext) = true) :
    ∃ q : Path, q.Canonical ∧ q.root = p.root ∧ p.toString ++ ext = q.toString := by
  obtain ⟨root, names⟩ := p
  rcases List.eq_nil_or_concat names with rfl | ⟨init, last, rfl⟩
  · rw [toString_nil hp.rooted] at hfile ⊢
    by_cases hname : IsName ext
    · refine ⟨child ⟨root, []⟩ ext, hp.child hname, rfl, ?_⟩
      rw [child, toString_concat, if_pos rfl, String.append_empty]
    · -- the root followed by dots is the root, which is no file
      have hdots : ext = "" ∨ ext = "." ∨ ext = ".." := by
        by_contra hno
        rw [not_or, not_or] at hno
        exact hname ⟨isStep_iff.mpr ⟨hno.1, hno.2.1⟩, hno.2.2, hext⟩
      rw [isFile_root hd hp.rooted hdots] at hfile
      exact absurd hfile Bool.false_ne_true
  · rw [List.concat_eq_append] at hp ⊢
    refine ⟨⟨root, init ++ [last ++ ext]⟩, ⟨hp.rooted, ?_⟩, rfl, toString_concat_append ..⟩
    intro n hn
    rcases List.mem_append.mp hn with hn | hn
    · exact hp.names n (List.mem_append_left _ hn)
    · rw [List.mem_singleton.mp hn]
      exact (hp.names last (List.mem_append_right _ List.mem_cons_self)).append hext

theorem exists_canonical_of_mem_candidates {extensions : List String}
    (hext : ∀ ext ∈ extensions, '/' ∉ ext.toList) {p : Path} (hp : p.Canonical) {file : String}
    (hmem : file ∈ candidates extensions p.toString) (hfile : disk.isFile file = true) :
    ∃ q : Path, q.Canonical ∧ q.root = p.root ∧ file = q.toString := by
  rcases List.mem_append.mp hmem with hmem | hmem
  · obtain ⟨ext, he, rfl⟩ := List.mem_map.mp hmem
    exact ⟨_, hp.child (isName_index (hext ext he)), rfl, below_toString hp _⟩
  · obtain ⟨ext, he, rfl⟩ := List.mem_map.mp hmem
    exact exists_canonical_append hd hp (hext ext he) hfile

theorem exists_canonical_identity {extensions : List String}
    (hext : ∀ ext ∈ extensions, '/' ∉ ext.toList) (base : String) {specifier : String}
    (hrel : isRelative specifier = true) :
    ∃ p : Path, p.Canonical ∧ p.root = (disk.cwd.absolute (.ofString base)).root ∧
      (locate disk extensions base specifier).identity = p.toString := by
  have hp : (requested disk.cwd base specifier).Canonical :=
    canonical_requested hd.cwd base specifier
  have hroot := root_requested disk.cwd base hrel
  have hno : ¬ (!isRelative specifier) = true := by rw [hrel]; decide
  rw [locate, if_neg hno]
  dsimp only
  split
  · rename_i file hfind
    obtain ⟨hfile, hmem⟩ := And.intro (List.find?_some hfind) (List.mem_of_find?_eq_some hfind)
    split at hmem
    · exact ⟨_, hp, hroot, List.mem_singleton.mp hmem⟩
    · obtain ⟨q, hq, hqroot, hfile⟩ := exists_canonical_of_mem_candidates hd hext hp hmem hfile
      exact ⟨q, hq, hqroot.trans hroot, hfile⟩
  · exact ⟨_, hp, hroot, rfl⟩

end

end Specifier
end ModuleAudit
