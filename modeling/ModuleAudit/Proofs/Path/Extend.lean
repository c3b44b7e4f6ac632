import ModuleAudit.Proofs.Path.Relative

/-
Going on from a directory.

`extend` goes down from a path by some names.  `follow` takes steps below a directory, some of which may
lead up again, and says where they end without looking at the directory itself.  The way from a directory
to a path, taken from that directory, ends at the path (`join_relativeTo`).
-/

namespace ModuleAudit
namespace Path

/-- The path that some names lead to from `p`. -/
def extend (p : Path) (names : List String) : Path := { p with names := p.names ++ names }

theorem extend_child (p : Path) (name : String) (rest : List String) :
    (p.child name).extend rest = p.extend (name :: rest) := by
  rw [extend, child, extend, List.append_assoc, List.singleton_append]

theorem child_extend (p : Path) (names : List String) (name : String) :
    (p.extend names).child name = p.extend (names ++ [name]) := by
  rw [child, extend, extend, List.append_assoc]

theorem extend_nil (p : Path) : p.extend [] = p := by
  rw [extend, List.append_nil]

theorem name_child (p : Path) (name : String) : (p.child name).name = name := by
  rw [Path.name, child, List.getLast?_concat, Option.getD_some]

theorem name_extend (p : Path) (names : List String) :
    (p.extend names).name = names.getLast?.getD p.name := by
  rw [name, extend, List.getLast?_append, name]
  cases names.getLast? <;> rfl

theorem Canonical.extend {p : Path} (hp : p.Canonical) {names : List String}
    (h : ∀ n ∈ names, IsName n) : (p.extend names).Canonical where
  rooted := hp.rooted
  names n hn := (List.mem_append.mp hn).elim (hp.names n) (h n)

theorem extend_toString_inj {p : Path} (hp : p.Canonical) {a b : List String}
    (ha : ∀ n ∈ a, IsName n) (hb : ∀ n ∈ b, IsName n) :
    (p.extend a).toString = (p.extend b).toString ↔ a = b := by
  rw [toString_inj (hp.extend ha).proper (hp.extend hb).proper, extend, extend, Path.mk.injEq]
  simp

theorem toString_extend {p : Path} (hp : p.names ≠ []) {names : List String} (hnames : names ≠ []) :
    (p.extend names).toString = p.toString ++ "/" ++ "/".intercalate names := by
  have hne : p.names ++ names ≠ [] := List.append_ne_nil_of_left_ne_nil hp names
  rw [toString_eq (Or.inl hp), toString_eq (Or.inl hne), extend,
    String.intercalate_append_of_ne_nil hp hnames]
  simp only [String.append_assoc]

/-! ## Steps below a directory -/

/-- Where some steps lead from the names `here` below a root, or `none` if one of them leads above the
root. -/
def follow : List String → List String → Option (List String)
  | here, [] => some here
  | here, step :: rest =>
    if step = ".." then
      if here = [] then none else follow here.dropLast rest
    else follow (here ++ [step]) rest

theorem foldl_collapseStep_of_follow {here steps way : List String} (hdown : ".." ∉ here)
    (h : follow here steps = some way) (above : List String) :
    steps.foldl (collapseStep true) (here.reverse ++ above) = way.reverse ++ above := by
  induction steps generalizing here with
  | nil =>
    rw [follow, Option.some.injEq] at h
    rw [List.foldl_nil, h]
  | cons step rest ih =>
    rw [follow] at h
    rw [List.foldl_cons]
    by_cases hstep : step = ".."
    · rw [if_pos hstep] at h
      rcases List.eq_nil_or_concat here with rfl | ⟨init, last, rfl⟩
      · exact absurd h (by simp)
      · rw [List.concat_eq_append] at h hdown ⊢
        rw [if_neg (by simp), List.dropLast_concat] at h
        rw [List.mem_append, List.mem_singleton, not_or] at hdown
        have hlast : (last == "..") = false := beq_eq_false_iff_ne.mpr (Ne.symm hdown.2)
        have hup : collapseStep true ((init ++ [last]).reverse ++ above) step =
            init.reverse ++ above := by
          simp [collapseStep, hstep, hlast]
        rw [hup]
        exact ih hdown.1 h
    · rw [if_neg hstep] at h
      have hname : collapseStep true (here.reverse ++ above) step =
          (here ++ [step]).reverse ++ above := by
        simp [collapseStep, hstep]
      rw [hname]
      refine ih ?_ h
      rw [List.mem_append, List.mem_singleton, not_or]
      exact ⟨hdown, Ne.symm hstep⟩

/-- Steps that stay below a directory lead to the same place below any other. -/
theorem collapse_join_extend {p q : Path} {here way : List String} (hp : (p.extend here).Canonical)
    (hq : q.isRooted = false) (hway : follow here q.names = some way) :
    ((p.extend here).join q).collapse = p.extend way := by
  have hdown : ".." ∉ p.names ++ here := hp.up_not_mem
  have hhere : ".." ∉ here := fun hmem => hdown (List.mem_append_right _ hmem)
  have hfold : ((p.names ++ here) ++ q.names).foldl (collapseStep true) [] =
      way.reverse ++ p.names.reverse := by
    rw [List.foldl_append, foldl_collapseStep_of_down hdown, List.append_nil, List.reverse_append]
    exact foldl_collapseStep_of_follow hhere hway p.names.reverse
  have hjoin : (p.extend here).join q = ⟨p.root, (p.names ++ here) ++ q.names⟩ := by
    rw [join, hq]
    rfl
  have hrooted : isRooted ⟨p.root, (p.names ++ here) ++ q.names⟩ = true := hp.rooted
  rw [hjoin, collapse, hrooted, hfold, List.reverse_append, List.reverse_reverse,
    List.reverse_reverse, extend]

/-! ## The way to a path -/

theorem diverge_append_left (as bs : List String) : diverge as (as ++ bs) = ([], bs) := by
  induction as with
  | nil => cases bs <;> rfl
  | cons a as ih => simp [diverge, ih]

theorem diverge_append_right (as bs : List String) : diverge (as ++ bs) as = (bs, []) := by
  induction as with
  | nil => cases bs <;> rfl
  | cons a as ih => simp [diverge, ih]

theorem relativeTo_extend (p : Path) (names : List String) :
    (p.extend names).relativeTo p = ⟨.relative, names⟩ := by
  rw [relativeTo, extend, diverge_append_left]
  rfl

/-- Unless the directory lies below the path, the way to the path ends in its name. -/
theorem name_relativeTo {p start : Path} (h : ¬ p.names <+: start.names) :
    (p.relativeTo start).names ≠ [] ∧ (p.relativeTo start).name = p.name := by
  obtain ⟨up, down, hway, hnames⟩ := exists_relativeTo_eq p start
  have hdown : down ≠ [] := by
    intro hnil
    rw [hnil, List.append_nil] at hnames
    exact h (hnames ▸ List.take_prefix _ _)
  rw [hway, name, name, hnames, List.getLast?_append_of_ne_nil _ hdown,
    List.getLast?_append_of_ne_nil _ hdown]
  exact ⟨List.append_ne_nil_of_right_ne_nil _ hdown, rfl⟩

/-- The way up from a directory shows none of its names. -/
theorem relativeTo_above {p start : Path} (h : p.names <+: start.names) :
    ∃ up, p.relativeTo start = ⟨.relative, List.replicate up ".."⟩ := by
  obtain ⟨more, hmore⟩ := h
  refine ⟨more.length, ?_⟩
  rw [relativeTo, ← hmore, diverge_append_right, ← List.map_const']
  simp

theorem foldl_collapseStep_ups {kept : List String} (h : ".." ∉ kept) (up : Nat) :
    (List.replicate up "..").foldl (collapseStep true) kept = kept.drop up := by
  induction up generalizing kept with
  | zero => rfl
  | succ up ih =>
    rw [List.replicate_succ, List.foldl_cons]
    cases kept with
    | nil => exact (ih h).trans (by simp)
    | cons last rest =>
      rw [List.mem_cons, not_or] at h
      have hlast : (last == "..") = false := beq_eq_false_iff_ne.mpr (Ne.symm h.1)
      have hup : collapseStep true (last :: rest) ".." = rest := by
        simp [collapseStep, hlast]
      rw [hup, ih h.2, List.drop_succ_cons]

theorem join_relativeTo {p start : Path} (hp : p.Canonical) (hstart : start.Canonical)
    (hroot : start.root = p.root) : (start.join (p.relativeTo start)).collapse = p := by
  obtain ⟨up, down, hway, hnames⟩ := exists_relativeTo_eq p start
  have hdown : ".." ∉ down := fun hmem => hp.up_not_mem (hnames ▸ List.mem_append_right _ hmem)
  have hups : ".." ∉ start.names.reverse := fun hmem =>
    hstart.up_not_mem (List.mem_reverse.mp hmem)
  have hfold : (start.names ++ (List.replicate up ".." ++ down)).foldl (collapseStep true) [] =
      p.names.reverse := by
    rw [List.foldl_append, foldl_collapseStep_of_down hstart.up_not_mem, List.append_nil,
      List.foldl_append, foldl_collapseStep_ups hups, foldl_collapseStep_of_down hdown,
      List.drop_reverse, ← List.reverse_append, ← hnames]
  have hjoin : start.join (p.relativeTo start) =
      ⟨p.root, start.names ++ (List.replicate up ".." ++ down)⟩ := by
    rw [hway, ← hroot]
    rfl
  have hrooted : isRooted ⟨p.root, start.names ++ (List.replicate up ".." ++ down)⟩ = true :=
    hp.rooted
  rw [hjoin, collapse, hrooted, hfold, List.reverse_reverse]

end Path
end ModuleAudit
