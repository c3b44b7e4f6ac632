import Mathlib.Data.List.TakeDrop
import ModuleAudit.Proofs.Path.Basic

/-
Relative paths and extensions.

The way from a directory to a canonical path determines the path: its double dots tell how much of
the directory is kept, and the names behind them are the rest.
-/

namespace ModuleAudit
namespace Path

/-! ## The way from a directory -/

theorem relative?_of_ne {m : String} (hm : m ≠ "") (cwd : Path) (dir : String) :
    relative? cwd m dir = .ok (relative cwd m dir) :=
  if_neg (by simpa using hm)

theorem exists_common_diverge (as bs : List String) :
    ∃ common, as = common ++ (diverge as bs).1 ∧ bs = common ++ (diverge as bs).2 := by
  fun_induction diverge as bs with
  | case1 a as b bs heq ih =>
    obtain ⟨common, h1, h2⟩ := ih
    refine ⟨a :: common, ?_, ?_⟩
    · rw [List.cons_append, ← h1]
    · rw [List.cons_append, ← h2, beq_iff_eq.mp heq]
  | case2 a as b bs hne => exact ⟨[], rfl, rfl⟩
  | case3 as bs hno => exact ⟨[], rfl, rfl⟩

/-- A way is double dots, and then names of the path. -/
theorem exists_relativeTo_eq (p start : Path) :
    ∃ up down, p.relativeTo start = ⟨.relative, List.replicate up ".." ++ down⟩ ∧
      p.names = start.names.take (start.names.length - up) ++ down := by
  obtain ⟨common, h1, h2⟩ := exists_common_diverge start.names p.names
  unfold relativeTo
  generalize diverge start.names p.names = ways at h1 h2
  obtain ⟨up, down⟩ := ways
  refine ⟨up.length, down, ?_, ?_⟩
  · rw [← List.map_const']
  · rw [h1, h2, List.length_append, Nat.add_sub_cancel_right, List.take_left]

theorem root_relativeTo (p start : Path) : (p.relativeTo start).root = .relative := by
  obtain ⟨up, down, hway, -⟩ := exists_relativeTo_eq p start
  rw [hway]

theorem replicate_append_inj {up up' : Nat} {down down' : List String} (hdown : ".." ∉ down)
    (hdown' : ".." ∉ down')
    (h : List.replicate up ".." ++ down = List.replicate up' ".." ++ down') :
    up = up' ∧ down = down' := by
  have hfilter : ∀ (k : Nat) (l : List String), ".." ∉ l →
      (List.replicate k ".." ++ l).filter (· != "..") = l := by
    intro k l hl
    rw [List.filter_append, List.filter_replicate_of_neg (by decide), List.nil_append,
      List.filter_eq_self]
    exact fun n hn => bne_iff_ne.mpr fun e => hl (e ▸ hn)
  have hnames : down = down' := by
    rw [← hfilter up down hdown, h, hfilter up' down' hdown']
  refine ⟨?_, hnames⟩
  have hlength := congrArg List.length h
  rw [List.length_append, List.length_append, List.length_replicate, List.length_replicate,
    hnames] at hlength
  omega

theorem relativeTo_inj {p q start : Path} (hp : p.Canonical) (hq : q.Canonical)
    (hroot : p.root = q.root) (h : p.relativeTo start = q.relativeTo start) : p = q := by
  obtain ⟨up, down, hway, hnames⟩ := exists_relativeTo_eq p start
  obtain ⟨up', down', hway', hnames'⟩ := exists_relativeTo_eq q start
  have hdown : ".." ∉ down := fun hmem =>
    hp.up_not_mem (hnames ▸ List.mem_append_right _ hmem)
  have hdown' : ".." ∉ down' := fun hmem =>
    hq.up_not_mem (hnames' ▸ List.mem_append_right _ hmem)
  rw [hway, hway', Path.mk.injEq] at h
  -- as many double dots and the same names below, so the same names above as well
  obtain ⟨rfl, rfl⟩ := replicate_append_inj hdown hdown' h.2
  obtain ⟨root, names⟩ := p
  obtain ⟨root', names'⟩ := q
  cases hroot
  rw [show names = _ from hnames, show names' = _ from hnames']

theorem proper_relativeTo {p : Path} (hp : p.Canonical) (start : Path) :
    (p.relativeTo start).Proper := by
  obtain ⟨up, down, hway, hnames⟩ := exists_relativeTo_eq p start
  rw [hway]
  intro n hn
  rcases List.mem_append.mp hn with hn | hn
  · rw [List.eq_of_mem_replicate hn]
    decide
  · exact hp.proper n (hnames ▸ List.mem_append_right _ hn)

theorem Canonical.relative_toString {p : Path} (hp : p.Canonical) (cwd : Path) (start : String) :
    relative cwd p.toString start =
      (p.relativeTo (cwd.absolute (ofString start))).toString := by
  rw [relative, ofString_toString hp.proper, hp.absolute_eq]

theorem relative_inj {p q : Path} (hp : p.Canonical) (hq : q.Canonical) (hroot : p.root = q.root)
    {cwd : Path} {start : String}
    (h : relative cwd p.toString start = relative cwd q.toString start) : p = q := by
  rw [hp.relative_toString, hq.relative_toString,
    toString_inj (proper_relativeTo hp _) (proper_relativeTo hq _)] at h
  exact relativeTo_inj hp hq hroot h

/-- A canonical path ends in a slash or like its name. -/
theorem Canonical.getLast?_toString {p : Path} (hp : p.Canonical) :
    p.toString.toList.getLast? = some '/' ∨ p.toString.toList.getLast? = p.name.toList.getLast? := by
  obtain ⟨root, names⟩ := p
  rcases List.eq_nil_or_concat names with rfl | ⟨init, last, rfl⟩
  · refine Or.inl ?_
    rw [toString_nil hp.rooted, getLast?_text hp.rooted]
  · refine Or.inr ?_
    rw [List.concat_eq_append] at hp ⊢
    have hlast : IsName last := hp.names last (List.mem_append_right _ List.mem_cons_self)
    rw [getLast?_toString_concat _ _ (isStep_iff.mp hlast.isStep).1, name, List.getLast?_concat,
      Option.getD_some]

/-- A way ends in a dot or like the name of the path. -/
theorem getLast?_relative {p : Path} (hp : p.Canonical) (cwd : Path) (start : String) :
    (relative cwd p.toString start).toList.getLast? = some '.' ∨
      (relative cwd p.toString start).toList.getLast? = p.name.toList.getLast? := by
  rw [hp.relative_toString]
  generalize cwd.absolute (ofString start) = dir
  obtain ⟨up, down, hway, hnames⟩ := exists_relativeTo_eq p dir
  rw [hway]
  rcases List.eq_nil_or_concat down with rfl | ⟨init, last, rfl⟩
  · refine Or.inl ?_
    cases up with
    | zero => rfl
    | succ up =>
      rw [List.append_nil, List.replicate_succ', getLast?_toString_concat _ _ (by decide)]
      rfl
  · refine Or.inr ?_
    rw [List.concat_eq_append, ← List.append_assoc] at hnames ⊢
    have hlast : IsName last := hp.names last (hnames ▸ List.mem_append_right _ List.mem_cons_self)
    rw [getLast?_toString_concat _ _ (isStep_iff.mp hlast.isStep).1, name, hnames,
      List.getLast?_concat, Option.getD_some]

/-! ## Extensions -/

theorem pieces_ne_nil (s : String) : pieces s ≠ [] := by
  rw [pieces, Ne, List.map_eq_nil_iff]
  exact split_ne_nil s.toList

theorem getLast?_pieces_root (r : Root) (s : String) :
    (pieces (r.text ++ s)).getLast? = (pieces s).getLast? := by
  have hslash : ∀ t : String, (pieces ("/" ++ t)).getLast? = (pieces t).getLast? := by
    intro t
    rw [pieces_slash]
    exact List.getLast?_cons_of_ne_nil (pieces_ne_nil t)
  cases r with
  | relative => rw [Root.text, String.empty_append]
  | slash => exact hslash s
  | doubleSlash =>
    have htwo : Root.text .doubleSlash ++ s = "/" ++ ("/" ++ s) := by
      rw [← String.append_assoc]
      rfl
    rw [htwo, hslash, hslash]

/-- The extension of the text of a path is that of its last name. -/
theorem extension_toString {p : Path} (hp : p.Canonical) :
    extension p.toString = String.ofList (nameExtension p.name.toList) := by
  have hlast : ((split p.toString.toList).getLast?.map String.ofList).getD "" = p.name := by
    rw [← List.getLast?_map]
    show (pieces p.toString).getLast?.getD "" = p.name
    rw [toString_eq (Or.inr hp.rooted), getLast?_pieces_root, name]
    by_cases hne : p.names = []
    · rw [hne]
      rfl
    · rw [pieces_intercalate hne fun n hn => (hp.names n hn).no_slash]
  have hpiece : (split p.toString.toList).getLastD [] = p.name.toList := by
    rw [← hlast, List.getLastD_eq_getLast?]
    cases (split p.toString.toList).getLast? <;> simp
  rw [extension, hpiece]

theorem eq_append_of_lastDot {name before ext : List Char} (h : lastDot name = some (before, ext)) :
    name = before ++ ext := by
  unfold lastDot at h
  rw [List.span_eq_takeWhile_dropWhile] at h
  have hsplit : name.reverse.takeWhile (· != '.') ++ name.reverse.dropWhile (· != '.') =
      name.reverse := List.takeWhile_append_dropWhile
  have hdot := List.head?_dropWhile_not (· != '.') name.reverse
  cases hrest : name.reverse.dropWhile (· != '.') with
  | nil =>
    rw [hrest] at h
    cases h
  | cons c rest =>
    rw [hrest] at h hsplit hdot
    have hc : c = '.' := by simpa using hdot
    cases h
    calc
      name = (name.reverse.takeWhile (· != '.') ++ c :: rest).reverse := by
        rw [hsplit, List.reverse_reverse]
      _ = rest.reverse ++ '.' :: (name.reverse.takeWhile (· != '.')).reverse := by
        rw [hc, List.reverse_append, List.reverse_cons, List.append_assoc, List.singleton_append]

/-- A suffix that is not empty is the end of the name. -/
theorem exists_name_eq_append_suffix {p : Path} (h : p.suffix ≠ "") :
    ∃ before, p.name.toList = before ++ p.suffix.toList := by
  unfold suffix nameSuffix at h ⊢
  rw [String.toList_ofList]
  cases hdot : lastDot p.name.toList with
  | none =>
    rw [hdot] at h
    exact absurd rfl h
  | some split =>
    obtain ⟨before, ext⟩ := split
    rw [hdot] at h
    dsimp only at h ⊢
    split
    · rename_i hshort
      rw [if_pos hshort] at h
      exact absurd rfl h
    · exact ⟨before, eq_append_of_lastDot hdot⟩

end Path
end ModuleAudit
