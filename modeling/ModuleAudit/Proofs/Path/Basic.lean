import Mathlib.Data.List.Basic
import ModuleAudit.Path.Basic

/-
Paths and their texts.

A path is `Proper` if its names are what its text shows between the slashes; such a path is read
back from its text.  A `Canonical` path is rooted and goes down only.  Canonical paths are the
identities of modules: they are their own normal form, and different ones have different texts.
-/

namespace ModuleAudit
namespace Path

/-- A name that leads from a folder to one of its entries. -/
structure IsName (name : String) : Prop where
  isStep : isStep name = true
  ne_up : name ≠ ".."
  no_slash : '/' ∉ name.toList

instance (name : String) : Decidable (IsName name) :=
  decidable_of_iff (Path.isStep name = true ∧ name ≠ ".." ∧ '/' ∉ name.toList)
    ⟨fun h => ⟨h.1, h.2.1, h.2.2⟩, fun h => ⟨h.isStep, h.ne_up, h.no_slash⟩⟩

/-- The text of the path shows its names. -/
def Proper (p : Path) : Prop := ∀ n ∈ p.names, isStep n = true ∧ '/' ∉ n.toList

structure Canonical (p : Path) : Prop where
  rooted : p.isRooted = true
  names : ∀ n ∈ p.names, IsName n

instance (p : Path) : Decidable p.Canonical :=
  decidable_of_iff (p.isRooted = true ∧ ∀ n ∈ p.names, IsName n)
    ⟨fun h => ⟨h.1, h.2⟩, fun h => ⟨h.rooted, h.names⟩⟩

theorem Canonical.proper {p : Path} (h : p.Canonical) : p.Proper := fun n hn =>
  ⟨(h.names n hn).isStep, (h.names n hn).no_slash⟩

theorem isStep_iff {name : String} : isStep name = true ↔ name ≠ "" ∧ name ≠ "." := by
  simp [isStep]

/-! ## Pieces of a text -/

theorem split_of_not_mem {cs : List Char} (h : '/' ∉ cs) : split cs = [cs] := by
  induction cs with
  | nil => rfl
  | cons c cs ih =>
    rw [List.mem_cons, not_or] at h
    have hc : (c == '/') = false := beq_eq_false_iff_ne.mpr (Ne.symm h.1)
    simp [split, hc, ih h.2]

theorem split_ne_nil (cs : List Char) : split cs ≠ [] := by
  cases cs with
  | nil => simp [split]
  | cons c cs =>
    rw [split]
    split
    · simp
    · cases split cs <;> simp

theorem split_append (cs rest : List Char) :
    split (cs ++ '/' :: rest) = split cs ++ split rest := by
  induction cs with
  | nil => simp [split]
  | cons c cs ih =>
    rw [List.cons_append, split, split]
    by_cases hc : (c == '/') = true
    · rw [if_pos hc, if_pos hc, ih, List.cons_append]
    · obtain ⟨piece, pieces, hsplit⟩ := List.exists_cons_of_ne_nil (split_ne_nil cs)
      rw [if_neg hc, if_neg hc, ih, hsplit]
      rfl

theorem no_slash_of_mem_split {cs piece : List Char} (h : piece ∈ split cs) : '/' ∉ piece := by
  induction cs generalizing piece with
  | nil =>
    rw [split, List.mem_singleton] at h
    rw [h]
    exact List.not_mem_nil
  | cons c cs ih =>
    rw [split] at h
    by_cases hc : c = '/'
    · rw [if_pos (beq_iff_eq.mpr hc)] at h
      rcases List.mem_cons.mp h with rfl | h
      · exact List.not_mem_nil
      · exact ih h
    · rw [if_neg (fun e => hc (beq_iff_eq.mp e))] at h
      have hcons : ∀ first : List Char, '/' ∉ first → '/' ∉ c :: first := by
        intro first hfirst hmem
        rcases List.mem_cons.mp hmem with e | hmem
        · exact hc e.symm
        · exact hfirst hmem
      cases hs : split cs with
      | nil =>
        rw [hs] at h
        rw [List.mem_singleton.mp h]
        exact hcons [] List.not_mem_nil
      | cons first rest =>
        rw [hs] at h ih
        rcases List.mem_cons.mp h with rfl | h
        · exact hcons first (ih List.mem_cons_self)
        · exact ih (List.mem_cons_of_mem _ h)

theorem pieces_of_no_slash {s : String} (h : '/' ∉ s.toList) : pieces s = [s] := by
  simp [pieces, split_of_not_mem h]

theorem pieces_append (s t : String) : pieces (s ++ ("/" ++ t)) = pieces s ++ pieces t := by
  have hlist : (s ++ ("/" ++ t)).toList = s.toList ++ '/' :: t.toList := by
    rw [String.toList_append, String.toList_append]
    rfl
  rw [pieces, hlist, split_append, List.map_append]
  rfl

theorem pieces_append_slash {s : String} (h : '/' ∉ s.toList) (t : String) :
    pieces (s ++ ("/" ++ t)) = s :: pieces t := by
  rw [pieces_append, pieces_of_no_slash h, List.singleton_append]

theorem no_slash_of_mem_pieces {s n : String} (h : n ∈ pieces s) : '/' ∉ n.toList := by
  obtain ⟨piece, hpiece, rfl⟩ := List.mem_map.mp h
  rw [String.toList_ofList]
  exact no_slash_of_mem_split hpiece

theorem pieces_intercalate {names : List String} (hne : names ≠ [])
    (h : ∀ n ∈ names, '/' ∉ n.toList) : pieces ("/".intercalate names) = names := by
  induction names with
  | nil => exact absurd rfl hne
  | cons n rest ih =>
    have hn : '/' ∉ n.toList := h n List.mem_cons_self
    cases rest with
    | nil =>
      rw [String.intercalate_singleton]
      exact pieces_of_no_slash hn
    | cons n' rest =>
      rw [String.intercalate_cons_cons, String.append_assoc, pieces_append_slash hn,
        ih (List.cons_ne_nil _ _) fun m hm => h m (List.mem_cons_of_mem _ hm)]

theorem mem_intercalate {c : Char} {names : List String}
    (h : c ∈ ("/".intercalate names).toList) : c = '/' ∨ ∃ n ∈ names, c ∈ n.toList := by
  induction names with
  | nil => exact absurd h (by simp)
  | cons n rest ih =>
    cases rest with
    | nil =>
      rw [String.intercalate_singleton] at h
      exact Or.inr ⟨n, List.mem_cons_self, h⟩
    | cons n' rest =>
      rw [String.intercalate_cons_cons, String.toList_append, String.toList_append, List.mem_append,
        List.mem_append] at h
      rcases h with (h | h) | h
      · exact Or.inr ⟨n, List.mem_cons_self, h⟩
      · exact Or.inl (List.mem_singleton.mp h)
      · rcases ih h with h | ⟨m, hm, hc⟩
        · exact Or.inl h
        · exact Or.inr ⟨m, List.mem_cons_of_mem _ hm, hc⟩

theorem pieces_slash (s : String) : pieces ("/" ++ s) = "" :: pieces s := by
  have h := pieces_append_slash (s := "") List.not_mem_nil s
  rwa [String.empty_append] at h

/-- The slashes of a root only add empty pieces. -/
theorem filter_pieces_root (r : Root) (s : String) :
    (pieces (r.text ++ s)).filter isStep = (pieces s).filter isStep := by
  have hempty : isStep "" = false := rfl
  cases r with
  | relative => rw [Root.text, String.empty_append]
  | slash =>
    rw [Root.text, pieces_slash, List.filter_cons_of_neg]
    simp [hempty]
  | doubleSlash =>
    have htwo : Root.text .doubleSlash ++ s = "/" ++ ("/" ++ s) := by
      rw [← String.append_assoc]
      rfl
    rw [htwo, pieces_slash, pieces_slash, List.filter_cons_of_neg, List.filter_cons_of_neg] <;>
      simp [hempty]

/-! ## Reading back the text of a path -/

theorem proper_ofString (s : String) : (ofString s).Proper := by
  intro n hn
  obtain ⟨hpiece, hstep⟩ := List.mem_filter.mp hn
  exact ⟨hstep, no_slash_of_mem_pieces hpiece⟩

theorem names_ofString_append (s t : String) :
    (ofString (s ++ ("/" ++ t))).names = (ofString s).names ++ (ofString t).names := by
  rw [ofString, pieces_append, List.filter_append]
  rfl

theorem ofString_dotSlash (s : String) :
    ofString ("./" ++ s) = ⟨.relative, (ofString s).names⟩ := by
  have htext : "./" ++ s = "." ++ ("/" ++ s) := by
    rw [← String.append_assoc]
    rfl
  have hdot : (ofString ".").names = [] := by decide
  have hnames := names_ofString_append "." s
  rw [hdot, List.nil_append, ← htext] at hnames
  have hroot : (ofString ("./" ++ s)).root = .relative := by
    rw [ofString, String.toList_append]
    rfl
  rw [← hroot, ← hnames]

theorem ofSlashes_length_text (r : Root) : Root.ofSlashes r.text.toList.length = r := by
  cases r <;> rfl

theorem takeWhile_slash_text (r : Root) :
    ∀ c ∈ r.text.toList, (c == '/') = true := by
  cases r <;> simp [Root.text]

/-- The text of a list of names does not start with a slash. -/
theorem takeWhile_slash_intercalate {names : List String}
    (h : ∀ n ∈ names, isStep n = true ∧ '/' ∉ n.toList) :
    ("/".intercalate names).toList.takeWhile (· == '/') = [] := by
  cases names with
  | nil => simp
  | cons n rest =>
    obtain ⟨hstep, hslash⟩ := h n List.mem_cons_self
    have hne : n.toList ≠ [] := fun e => (isStep_iff.mp hstep).1 (String.toList_eq_nil_iff.mp e)
    obtain ⟨c, cs, hcs⟩ := List.exists_cons_of_ne_nil hne
    have hc : ¬ (c == '/') = true := by
      rw [hcs] at hslash
      exact fun e => hslash (beq_iff_eq.mp e ▸ List.mem_cons_self)
    have hfirst : ∃ more, ("/".intercalate (n :: rest)).toList = c :: more := by
      cases rest with
      | nil => exact ⟨cs, by rw [String.intercalate_singleton, hcs]⟩
      | cons n' rest =>
        rw [String.intercalate_cons_cons, String.append_assoc, String.toList_append, hcs]
        exact ⟨_, List.cons_append⟩
    obtain ⟨more, hmore⟩ := hfirst
    rw [hmore]
    exact List.takeWhile_cons_of_neg hc

theorem toString_eq {p : Path} (h : p.names ≠ [] ∨ p.isRooted = true) :
    p.toString = p.root.text ++ "/".intercalate p.names := by
  rw [toString, if_neg]
  rintro hempty
  rw [Bool.and_eq_true, List.isEmpty_iff, Bool.not_eq_true'] at hempty
  rcases h with h | h
  · exact h hempty.1
  · rw [isRooted, hempty.2] at h
    exact absurd h Bool.false_ne_true

theorem ofString_toString {p : Path} (h : p.Proper) : ofString p.toString = p := by
  by_cases hp : p.names ≠ [] ∨ p.isRooted = true
  · have hroot : Root.ofSlashes (p.toString.toList.takeWhile (· == '/')).length = p.root := by
      rw [toString_eq hp, String.toList_append,
        List.takeWhile_append_of_pos (takeWhile_slash_text p.root),
        takeWhile_slash_intercalate h, List.append_nil, ofSlashes_length_text]
    have hnames : (pieces p.toString).filter isStep = p.names := by
      rw [toString_eq hp, filter_pieces_root]
      by_cases hne : p.names = []
      · rw [hne]
        rfl
      · rw [pieces_intercalate hne fun n hn => (h n hn).2]
        exact List.filter_eq_self.mpr fun n hn => (h n hn).1
    rw [ofString, hroot, hnames]
  · rw [not_or, not_not, isRooted, Bool.not_eq_true] at hp
    obtain ⟨root, names⟩ := p
    obtain ⟨rfl, hroot⟩ := hp
    cases root with
    | relative => rfl
    | slash => exact absurd hroot (by decide)
    | doubleSlash => exact absurd hroot (by decide)

theorem toString_inj {p q : Path} (hp : p.Proper) (hq : q.Proper) :
    p.toString = q.toString ↔ p = q := by
  refine ⟨fun h => ?_, fun h => h ▸ rfl⟩
  rw [← ofString_toString hp, h, ofString_toString hq]

theorem toString_ne_empty {p : Path} (h : p.Proper) : p.toString ≠ "" := by
  -- the empty text is read as the empty relative path, whose own text is a dot
  intro he
  have hp : p = ofString "" := by rw [← he, ofString_toString h]
  rw [hp] at he
  exact absurd he (by decide)

/-! ## Collapsing -/

theorem mem_collapseStep {rooted : Bool} {kept : List String} {name n : String}
    (h : n ∈ collapseStep rooted kept name) : n ∈ kept ∨ n = name := by
  unfold collapseStep at h
  split at h
  · exact (List.mem_cons.mp h).symm
  · rename_i hname
    have hup : name = ".." := by simpa using hname
    cases kept with
    | nil =>
      cases rooted with
      | true => exact absurd h List.not_mem_nil
      | false => exact Or.inr ((List.mem_singleton.mp h).trans hup.symm)
    | cons last rest =>
      dsimp only at h
      split at h
      · exact (List.mem_cons.mp h).elim (fun e => Or.inr (e.trans hup.symm)) Or.inl
      · exact Or.inl (List.mem_cons_of_mem _ h)

/-- Below a root there are no double dots to keep. -/
theorem up_not_mem_collapseStep {kept : List String} {name : String} (h : ".." ∉ kept) :
    ".." ∉ collapseStep true kept name := by
  unfold collapseStep
  split
  · rename_i hname
    rw [bne_iff_ne] at hname
    exact fun hmem => (List.mem_cons.mp hmem).elim (fun e => hname e.symm) h
  · cases kept with
    | nil => exact List.not_mem_nil
    | cons last rest =>
      rw [List.mem_cons, not_or] at h
      have hlast : (last == "..") = false := beq_eq_false_iff_ne.mpr (Ne.symm h.1)
      dsimp only
      rw [hlast]
      exact h.2

theorem mem_foldl_collapseStep {rooted : Bool} {names kept : List String} {n : String}
    (h : n ∈ names.foldl (collapseStep rooted) kept) : n ∈ kept ∨ n ∈ names := by
  induction names generalizing kept with
  | nil => exact Or.inl h
  | cons name rest ih =>
    rcases ih h with hmem | hmem
    · exact (mem_collapseStep hmem).imp_right fun e => List.mem_cons.mpr (Or.inl e)
    · exact Or.inr (List.mem_cons_of_mem _ hmem)

theorem up_not_mem_foldl_collapseStep {names kept : List String} (h : ".." ∉ kept) :
    ".." ∉ names.foldl (collapseStep true) kept := by
  induction names generalizing kept with
  | nil => exact h
  | cons name rest ih => exact ih (up_not_mem_collapseStep h)

theorem canonical_collapse {p : Path} (hr : p.isRooted = true) (hp : p.Proper) :
    p.collapse.Canonical where
  rooted := hr
  names n hn := by
    rw [collapse, List.mem_reverse, hr] at hn
    obtain ⟨hstep, hslash⟩ := hp n ((mem_foldl_collapseStep hn).resolve_left List.not_mem_nil)
    refine ⟨hstep, fun e => ?_, hslash⟩
    exact up_not_mem_foldl_collapseStep List.not_mem_nil (e ▸ hn)

theorem foldl_collapseStep_of_down {rooted : Bool} {names : List String} (h : ".." ∉ names)
    (kept : List String) : names.foldl (collapseStep rooted) kept = names.reverse ++ kept := by
  induction names generalizing kept with
  | nil => rfl
  | cons name rest ih =>
    rw [List.mem_cons, not_or] at h
    have hname : collapseStep rooted kept name = name :: kept :=
      if_pos (bne_iff_ne.mpr (Ne.symm h.1))
    rw [List.foldl_cons, hname, ih h.2, List.reverse_cons, List.append_assoc]
    rfl

theorem Canonical.up_not_mem {p : Path} (h : p.Canonical) : ".." ∉ p.names :=
  fun hmem => (h.names _ hmem).ne_up rfl

theorem Canonical.collapse_eq {p : Path} (h : p.Canonical) : p.collapse = p := by
  rw [collapse, foldl_collapseStep_of_down h.up_not_mem, List.append_nil, List.reverse_reverse]

/-! ## Absolute paths and normal forms -/

theorem Proper.join {p q : Path} (hp : p.Proper) (hq : q.Proper) : (p.join q).Proper := by
  unfold Path.join
  split
  · exact hq
  · intro n hn
    exact (List.mem_append.mp hn).elim (hp n) (hq n)

theorem isRooted_join {p q : Path} (hp : p.isRooted = true) : (p.join q).isRooted = true := by
  unfold join
  split
  · assumption
  · exact hp

theorem canonical_collapse_join {p q : Path} (hp : p.Canonical) (hq : q.Proper) :
    (p.join q).collapse.Canonical :=
  canonical_collapse (isRooted_join hp.rooted) (hp.proper.join hq)

theorem Canonical.absolute {cwd p : Path} (hcwd : cwd.Canonical) (hp : p.Proper) :
    (cwd.absolute p).Canonical :=
  canonical_collapse_join hcwd hp

theorem absolute_of_isRooted {p : Path} (hp : p.isRooted = true) (cwd : Path) :
    cwd.absolute p = p.collapse := by
  rw [absolute, join, if_pos hp]

theorem Canonical.absolute_eq {p : Path} (hp : p.Canonical) (cwd : Path) :
    cwd.absolute p = p := by
  rw [absolute_of_isRooted hp.rooted, hp.collapse_eq]

theorem exists_names_absolute (cwd : Path) {p : Path} (hp : p.names ≠ []) (hup : p.name ≠ "..") :
    ∃ above, (cwd.absolute p).names = above ++ [p.name] := by
  obtain ⟨init, last, hnames⟩ := (List.eq_nil_or_concat p.names).resolve_left hp
  rw [List.concat_eq_append] at hnames
  have hlast : p.name = last := by
    rw [name, hnames, List.getLast?_concat, Option.getD_some]
  obtain ⟨above, hjoin⟩ : ∃ above, (cwd.join p).names = above ++ [last] := by
    unfold join
    split
    · exact ⟨init, hnames⟩
    · exact ⟨cwd.names ++ init, by rw [hnames, List.append_assoc]⟩
  have hstep : ∀ rooted kept, collapseStep rooted kept last = last :: kept := fun rooted kept =>
    if_pos (bne_iff_ne.mpr (hlast ▸ hup))
  rw [absolute, collapse, hjoin, List.foldl_append, List.foldl_cons, List.foldl_nil, hstep,
    List.reverse_cons, hlast]
  exact ⟨_, rfl⟩

theorem Canonical.normalize_toString {p : Path} (h : p.Canonical) :
    normalize p.toString = p.toString := by
  rw [normalize, ofString_toString h.proper, h.collapse_eq]

theorem Canonical.parent {p : Path} (h : p.Canonical) : p.parent.Canonical where
  rooted := h.rooted
  names n hn := h.names n (List.dropLast_subset _ hn)

theorem Canonical.child {p : Path} (h : p.Canonical) {name : String} (hname : IsName name) :
    (p.child name).Canonical where
  rooted := h.rooted
  names n hn := (List.mem_append.mp hn).elim (h.names n) fun hn => List.mem_singleton.mp hn ▸ hname

/-! ## The end of a text -/

theorem intercalate_concat {init : List String} (hne : init ≠ []) (last : String) :
    "/".intercalate (init ++ [last]) = "/".intercalate init ++ "/" ++ last := by
  rw [String.intercalate_append_of_ne_nil hne (List.cons_ne_nil _ _),
    String.intercalate_singleton]

theorem toString_concat (root : Root) (init : List String) (last : String) :
    toString ⟨root, init ++ [last]⟩ =
      root.text ++ (if init = [] then "" else "/".intercalate init ++ "/") ++ last := by
  rw [toString_eq (Or.inl (List.append_ne_nil_of_right_ne_nil _ (List.cons_ne_nil _ _)))]
  by_cases hinit : init = []
  · rw [if_pos hinit, hinit, List.nil_append, String.intercalate_singleton, String.append_empty]
  · rw [if_neg hinit, intercalate_concat hinit, ← String.append_assoc]

theorem suffix_toString {p : Path} (hp : p.names ≠ []) : p.name.toList <:+ p.toString.toList := by
  obtain ⟨root, names⟩ := p
  obtain ⟨init, last, rfl⟩ := (List.eq_nil_or_concat names).resolve_left hp
  rw [List.concat_eq_append, toString_concat, name, List.getLast?_concat, Option.getD_some,
    String.toList_append]
  exact List.suffix_append _ _

/-- A text added to that of a path goes to its last name. -/
theorem toString_concat_append (root : Root) (init : List String) (last added : String) :
    toString ⟨root, init ++ [last]⟩ ++ added = toString ⟨root, init ++ [last ++ added]⟩ := by
  rw [toString_concat, toString_concat, String.append_assoc]

theorem getLast?_toString_concat (root : Root) (init : List String) {last : String}
    (h : last ≠ "") :
    (toString ⟨root, init ++ [last]⟩).toList.getLast? = last.toList.getLast? := by
  have hne : last.toList ≠ [] := fun e => h (String.toList_eq_nil_iff.mp e)
  rw [toString_concat, String.toList_append, List.getLast?_append_of_ne_nil _ hne]

theorem toString_nil {root : Root} (h : root.isRooted = true) :
    toString ⟨root, []⟩ = root.text := by
  have htext := toString_eq (p := ⟨root, []⟩) (Or.inr h)
  rwa [String.intercalate_nil, String.append_empty] at htext

theorem getLast?_text {r : Root} (h : r.isRooted = true) :
    r.text.toList.getLast? = some '/' := by
  cases r with
  | relative => exact absurd h (by decide)
  | slash => rfl
  | doubleSlash => rfl

/-- A name stays one behind which something is added. -/
theorem IsName.append {name added : String} (hname : IsName name) (h : '/' ∉ added.toList) :
    IsName (name ++ added) := by
  obtain ⟨hempty, hdot⟩ := isStep_iff.mp hname.isStep
  have htoList : ∀ s : String, name.toList = s.toList → name = s := fun s => String.toList_inj.mp
  refine ⟨isStep_iff.mpr ⟨fun e => ?_, fun e => ?_⟩, fun e => ?_, ?_⟩
  · exact hempty (String.append_eq_empty_iff.mp e).1
  · have hlist := congrArg String.toList e
    rw [String.toList_append] at hlist
    rcases List.append_eq_singleton_iff.mp hlist with ⟨h1, -⟩ | ⟨h1, -⟩
    · exact hempty (htoList "" h1)
    · exact hdot (htoList "." h1)
  · have hlist : name.toList ++ added.toList = ['.', '.'] := by
      rw [← String.toList_append, e]
      rfl
    cases hn : name.toList with
    | nil => exact hempty (htoList "" hn)
    | cons c cs =>
      rw [hn, List.cons_append, List.cons.injEq] at hlist
      obtain ⟨rfl, htail⟩ := hlist
      rcases List.append_eq_singleton_iff.mp htail with ⟨rfl, -⟩ | ⟨rfl, -⟩
      · exact hdot (htoList "." hn)
      · exact hname.ne_up (htoList ".." hn)
  · rw [String.toList_append, List.mem_append, not_or]
    exact ⟨hname.no_slash, h⟩

end Path
end ModuleAudit
