import ModuleAudit.Proofs.Specifier.Identity

/-
Specifiers in a tree that is moved.

A tree of files lies below a root directory, perhaps with copies of it below other roots and no other file
on disk.  A specifier whose steps stay below the root leads to a way down from it.  What this way stands for
is then read off the tree (`landing`), with one exception: a way of no names ends at the root itself, and
whether index files are tried there depends on the extension of the root's own name, which is not part of
the tree.

`identity_locate_extend` says this of one root.  Two roots are compared in `resolve_extend_iff`.
-/

namespace ModuleAudit

/-! ## Copies of a tree -/

namespace Entry

def isFileAt (here : Entry) (names : List String) : Bool :=
  match here.descend names with
  | some (.file _) => true
  | _ => false

theorem isFileAt_iff {here : Entry} {names : List String} :
    here.isFileAt names = true ↔ here.HoldsFile names := by
  unfold isFileAt HoldsFile
  cases here.descend names with
  | none => simp
  | some found => cases found <;> simp

theorem sizeOf_lt_of_get? {entries : List (String × Entry)} {name : String} {entry : Entry}
    (h : Table.get? entries name = some entry) : sizeOf entry < sizeOf (Entry.folder entries) := by
  have hsize := List.sizeOf_lt_of_mem (Table.mem_of_get? h)
  simp only [Entry.folder.sizeOf_spec, Prod.mk.sizeOf_spec] at hsize ⊢
  omega

theorem sizeOf_descend_le {names : List String} {here found : Entry}
    (h : here.descend names = some found) : sizeOf found ≤ sizeOf here := by
  induction names generalizing here with
  | nil =>
    rw [descend, Option.some.injEq] at h
    subst h
    exact Nat.le_refl _
  | cons name rest ih =>
    cases here with
    | file bytes => exact absurd h (by simp [descend])
    | folder entries =>
      obtain ⟨entry, hget, hfound⟩ := Option.bind_eq_some_iff.mp h
      have hentry := sizeOf_lt_of_get? hget
      have hrest := ih hfound
      omega

/-- No folder lies inside itself. -/
theorem descend_ne_self {name : String} {rest : List String} {entries : List (String × Entry)} :
    (Entry.folder entries).descend (name :: rest) ≠ some (.folder entries) := by
  intro h
  obtain ⟨entry, hget, hfound⟩ := Option.bind_eq_some_iff.mp h
  have hentry := sizeOf_lt_of_get? hget
  have hrest := sizeOf_descend_le hfound
  omega

end Entry

/-- Below each of the roots lies the same folder, and there is no other file on the disk. -/
structure Disk.Copies (disk : Disk) (entries : List (String × Entry)) (roots : List Path) : Prop where
  wellFormed : disk.WellFormed
  canonical : ∀ root ∈ roots, root.Canonical
  placed : ∀ root ∈ roots, disk.root.descend root.names = some (.folder entries)
  only : ∀ names, disk.root.HoldsFile names → ∃ root ∈ roots, root.names <+: names

namespace Disk.Copies

variable {disk : Disk} {entries : List (String × Entry)} {roots : List Path}
  (h : disk.Copies entries roots) {root : Path} (hroot : root ∈ roots)

include h hroot

theorem isName_of_holdsFile {names : List String} (hfile : (Entry.folder entries).HoldsFile names) :
    ∀ n ∈ names, Path.IsName n := by
  have hholds : disk.root.HoldsFile (root.names ++ names) :=
    Entry.holdsFile_append.mpr ⟨_, h.placed root hroot, hfile⟩
  intro n hn
  exact h.wellFormed.tree.isName_of_holdsFile hholds n (List.mem_append_right _ hn)

theorem isFile_extend {names : List String} (hnames : ∀ n ∈ names, Path.IsName n) :
    disk.isFile (root.extend names).toString = (Entry.folder entries).isFileAt names := by
  have hcanonical := (h.canonical root hroot).extend hnames
  rw [Bool.eq_iff_iff, h.wellFormed.isFile_toString_iff hcanonical, Entry.isFileAt_iff]
  constructor
  · intro hholds
    obtain ⟨found, hfound, hfile⟩ := Entry.holdsFile_append.mp hholds
    rw [h.placed root hroot, Option.some.injEq] at hfound
    exact hfound ▸ hfile
  · intro hfile
    exact Entry.holdsFile_append.mpr ⟨_, h.placed root hroot, hfile⟩

/-- No file lies beside a root.  It would have to lie below another root, and then the tree would hold
itself. -/
theorem not_holdsFile_beside {init : List String} {last : String}
    (hnames : root.names = init ++ [last]) (beside : String) :
    ¬ disk.root.HoldsFile (init ++ [beside]) := by
  intro hfile
  obtain ⟨other, hother, hbelow⟩ := h.only _ hfile
  have hplaced := h.placed other hother
  rcases List.prefix_concat_iff.mp hbelow with heq | hprefix
  · obtain ⟨bytes, hbytes⟩ := hfile
    rw [← heq, hplaced] at hbytes
    exact absurd hbytes (by simp)
  · obtain ⟨rest, hrest⟩ := hprefix
    have hinside : (Entry.folder entries).descend (rest ++ [last]) = some (.folder entries) := by
      have hself := h.placed root hroot
      rw [hnames, ← hrest, List.append_assoc, Entry.descend_append, hplaced] at hself
      exact hself
    obtain ⟨first, more, hcons⟩ := List.exists_cons_of_ne_nil
      (List.append_ne_nil_of_right_ne_nil rest (List.cons_ne_nil last []))
    rw [hcons] at hinside
    exact Entry.descend_ne_self hinside

end Disk.Copies

namespace Specifier

open ModuleAudit.Path

theorem requested_extend {root : Path} (hroot : root.Canonical) {file : List String}
    (hfile : ∀ n ∈ file, IsName n) (hne : file ≠ []) {specifier : String}
    (hrel : isRelative specifier = true) {way : List String}
    (hway : follow file.dropLast (ofString specifier).names = some way) (cwd : Path) :
    requested cwd (root.extend file).toString specifier = root.extend way := by
  have hcanonical := hroot.extend hfile
  have hparent : (root.extend file).parent = root.extend file.dropLast := by
    rw [parent, extend, extend, List.dropLast_append_of_ne_nil hne]
  rw [requested, ofString_toString hcanonical.proper, hcanonical.absolute_eq, hparent]
  exact collapse_join_extend (hparent ▸ hcanonical.parent) (isRooted_ofString hrel) hway

/-! ## What a way stands for -/

/-- The ways tried for a way that ends in the name `name`, in order.  What lies beside the root is left
out. -/
def tries (extensions : List String) (name : String) (way : List String) : List (List String) :=
  if nameExtension name.toList ≠ [] then [way]
  else extensions.map (fun ext => way ++ ["index" ++ ext]) ++
    if way = [] then [] else extensions.map fun ext => way.dropLast ++ [name ++ ext]

/-- What a way stands for in a tree whose root has the name `own`. -/
def landing (tree : Entry) (extensions : List String) (own : String) (way : List String) :
    List String :=
  ((tries extensions (way.getLast?.getD own) way).find? tree.isFileAt).getD way

theorem isName_of_mem_tries {extensions : List String}
    (hext : ∀ ext ∈ extensions, '/' ∉ ext.toList) {own : String} {way : List String}
    (hway : ∀ n ∈ way, IsName n) {names : List String}
    (hmem : names ∈ tries extensions (way.getLast?.getD own) way) : ∀ n ∈ names, IsName n := by
  unfold tries at hmem
  split at hmem
  · rw [List.mem_singleton.mp hmem]
    exact hway
  · rcases List.mem_append.mp hmem with hmem | hmem
    · obtain ⟨ext, he, rfl⟩ := List.mem_map.mp hmem
      intro n hn
      rcases List.mem_append.mp hn with hn | hn
      · exact hway n hn
      · rw [List.mem_singleton.mp hn]
        exact isName_index (hext ext he)
    · rcases List.eq_nil_or_concat way with rfl | ⟨init, last, rfl⟩
      · exact absurd hmem (by simp)
      · rw [List.concat_eq_append] at hway hmem
        rw [if_neg (by simp), List.getLast?_concat, Option.getD_some, List.dropLast_concat] at hmem
        obtain ⟨ext, he, rfl⟩ := List.mem_map.mp hmem
        intro n hn
        rcases List.mem_append.mp hn with hn | hn
        · exact hway n (List.mem_append_left _ hn)
        · rw [List.mem_singleton.mp hn]
          have hlast : IsName last := hway last (List.mem_append_right _ List.mem_cons_self)
          exact hlast.append (hext ext he)

theorem isName_landing {extensions : List String} (hext : ∀ ext ∈ extensions, '/' ∉ ext.toList)
    (tree : Entry) (own : String) {way : List String} (hway : ∀ n ∈ way, IsName n) :
    ∀ n ∈ landing tree extensions own way, IsName n := by
  unfold landing
  cases hfind : (tries extensions (way.getLast?.getD own) way).find? tree.isFileAt with
  | none => exact hway
  | some names => exact isName_of_mem_tries hext hway (List.mem_of_find?_eq_some hfind)

theorem identity_locate (disk : Disk) (extensions : List String) (base : String)
    {specifier : String} (hrel : isRelative specifier = true) {path : String}
    (hpath : (requested disk.cwd base specifier).toString = path) :
    (locate disk extensions base specifier).identity =
      ((if Path.extension path != "" then [path] else candidates extensions path).find?
        disk.isFile).getD path := by
  have hno : ¬ (!isRelative specifier) = true := by
    rw [hrel]
    decide
  subst hpath
  rw [locate, if_neg hno]
  dsimp only
  split <;> rename_i hfind <;> rw [hfind] <;> rfl

section

variable {disk : Disk} {entries : List (String × Entry)} {roots : List Path}
  (h : disk.Copies entries roots) {root : Path} (hroot : root ∈ roots)
  {extensions : List String} (hext : ∀ ext ∈ extensions, '/' ∉ ext.toList)

include h hroot

theorem find?_map_extend {ways : List (List String)} (hways : ∀ way ∈ ways, ∀ n ∈ way, IsName n) :
    (ways.map fun way => (root.extend way).toString).find? disk.isFile =
      (ways.find? (Entry.folder entries).isFileAt).map fun way => (root.extend way).toString := by
  induction ways with
  | nil => rfl
  | cons way rest ih =>
    rw [List.forall_mem_cons] at hways
    rw [List.map_cons, List.find?_cons, List.find?_cons, h.isFile_extend hroot hways.1,
      ih hways.2]
    cases (Entry.folder entries).isFileAt way <;> rfl

include hext

/-- The text of a root with an extension behind it is no file. -/
theorem find?_beside (hbelow : root.names ≠ []) :
    (extensions.map (root.toString ++ ·)).find? disk.isFile = none := by
  rw [List.find?_eq_none]
  intro file hmem hfile
  obtain ⟨ext, he, rfl⟩ := List.mem_map.mp hmem
  have hcanonical := h.canonical root hroot
  obtain ⟨init, last, hnames⟩ := (List.eq_nil_or_concat root.names).resolve_left hbelow
  rw [List.concat_eq_append] at hnames
  have hlast : IsName last :=
    hcanonical.names last (hnames ▸ List.mem_append_right _ List.mem_cons_self)
  have hbeside : Canonical ⟨root.root, init ++ [last ++ ext]⟩ := by
    refine ⟨hcanonical.rooted, ?_⟩
    intro n hn
    rcases List.mem_append.mp hn with hn | hn
    · exact hcanonical.names n (hnames ▸ List.mem_append_left _ hn)
    · rw [List.mem_singleton.mp hn]
      exact hlast.append (hext ext he)
  have htext : root.toString ++ ext = Path.toString ⟨root.root, init ++ [last ++ ext]⟩ := by
    rw [← toString_concat_append, ← hnames]
  rw [htext, h.wellFormed.isFile_toString_iff hbeside] at hfile
  exact h.not_holdsFile_beside hroot hnames _ hfile

theorem find?_tried {way : List String} (hway : ∀ n ∈ way, IsName n)
    (hbelow : way = [] → root.names ≠ []) :
    (if Path.extension (root.extend way).toString != "" then [(root.extend way).toString]
      else candidates extensions (root.extend way).toString).find? disk.isFile =
    ((tries extensions (way.getLast?.getD root.name) way).map
      fun names => (root.extend names).toString).find? disk.isFile := by
  have hcanonical := (h.canonical root hroot).extend hway
  have hindex : extensions.map (fun ext => below (root.extend way).toString ("index" ++ ext)) =
      (extensions.map fun ext => way ++ ["index" ++ ext]).map
        fun names => (root.extend names).toString := by
    rw [List.map_map]
    apply List.map_congr_left
    intro ext _
    rw [below_toString hcanonical, child_extend]
    rfl
  rw [extension_toString hcanonical, name_extend, tries]
  by_cases hplain : nameExtension (way.getLast?.getD root.name).toList = []
  · rw [hplain, if_neg (by decide), if_neg (not_not.mpr rfl), candidates, List.map_append,
      List.find?_append, List.find?_append, hindex]
    rcases List.eq_nil_or_concat way with rfl | ⟨init, last, rfl⟩
    · rw [extend_nil, find?_beside h hroot hext (hbelow rfl), if_pos rfl]
      rfl
    · have hadded : extensions.map ((root.extend (init.concat last)).toString ++ ·) =
          (extensions.map fun ext => init ++ [last ++ ext]).map
            fun names => (root.extend names).toString := by
        rw [List.map_map]
        apply List.map_congr_left
        intro ext _
        rw [List.concat_eq_append, extend, ← List.append_assoc, toString_concat_append,
          List.append_assoc]
        rfl
      rw [hadded, if_neg (by simp), List.concat_eq_append, List.getLast?_concat, Option.getD_some,
        List.dropLast_concat]
  · have hext : (String.ofList (nameExtension (way.getLast?.getD root.name).toList) != "") = true := by
      rw [bne_iff_ne]
      exact fun heq => hplain (by simpa using heq)
    rw [if_pos hext, if_pos hplain]
    rfl

/-- Below a root, a specifier stands for what its way stands for in the tree. -/
theorem identity_locate_extend {file : List String}
    (hfile : (Entry.folder entries).HoldsFile file) {specifier : String}
    (hrel : isRelative specifier = true) {way : List String}
    (hway : follow file.dropLast (ofString specifier).names = some way)
    (hbelow : way = [] → root.names ≠ []) :
    (∀ n ∈ way, IsName n) ∧
      (locate disk extensions (root.extend file).toString specifier).identity =
        (root.extend (landing (.folder entries) extensions root.name way)).toString := by
  have hnames := h.isName_of_holdsFile hroot hfile
  have hne : file ≠ [] := by
    intro hnil
    subst hnil
    exact absurd hfile (by simp [Entry.HoldsFile, Entry.descend])
  have hrequested : requested disk.cwd (root.extend file).toString specifier = root.extend way :=
    requested_extend (h.canonical root hroot) hnames hne hrel hway disk.cwd
  have hwayNames : ∀ n ∈ way, IsName n := by
    have hcanonical := canonical_requested h.wellFormed.cwd (root.extend file).toString specifier
    rw [hrequested] at hcanonical
    exact fun n hn => hcanonical.names n (List.mem_append_right _ hn)
  refine ⟨hwayNames, ?_⟩
  rw [identity_locate disk extensions _ hrel (congrArg Path.toString hrequested),
    find?_tried h hroot hext hwayNames hbelow,
    find?_map_extend h hroot fun _ hmem => isName_of_mem_tries hext hwayNames hmem]
  exact Option.getD_map (fun names => (root.extend names).toString) way _

end

/-! ## Two roots -/

section

variable (tree : Entry) (extensions : List String)

/-- The name of the root matters only for a way of no names. -/
theorem landing_of_ne_nil (own own' : String) {way : List String} (hway : way ≠ []) :
    landing tree extensions own way = landing tree extensions own' way := by
  obtain ⟨init, last, rfl⟩ := (List.eq_nil_or_concat way).resolve_left hway
  rw [landing, landing, List.concat_eq_append, List.getLast?_concat, Option.getD_some,
    Option.getD_some]

variable {own own' : String}

theorem landing_nil_of_extension (hown : nameExtension own.toList ≠ []) :
    landing tree extensions own [] = [] := by
  rw [landing, List.getLast?_nil, Option.getD_none, tries, if_pos hown, List.find?_singleton]
  split <;> rfl

theorem landing_nil_of_plain (hown : nameExtension own.toList = []) :
    landing tree extensions own [] =
      ((extensions.map fun ext => ["index" ++ ext]).find? tree.isFileAt).getD [] := by
  rw [landing, List.getLast?_nil, Option.getD_none, tries, if_neg (not_not.mpr hown), if_pos rfl,
    List.append_nil]
  rfl

theorem landing_nil_ne_nil_iff (hown : nameExtension own.toList = []) :
    landing tree extensions own [] ≠ [] ↔
      ∃ ext ∈ extensions, tree.HoldsFile ["index" ++ ext] := by
  rw [landing_nil_of_plain tree extensions hown]
  cases hfind : (extensions.map fun ext => ["index" ++ ext]).find? tree.isFileAt with
  | none =>
    have hno := List.find?_eq_none.mp hfind
    refine ⟨fun hne => absurd rfl hne, fun hindex => ?_⟩
    obtain ⟨ext, he, hfile⟩ := hindex
    exact absurd (Entry.isFileAt_iff.mpr hfile) (hno _ (List.mem_map.mpr ⟨ext, he, rfl⟩))
  | some names =>
    obtain ⟨ext, he, hnames⟩ := List.mem_map.mp (List.mem_of_find?_eq_some hfind)
    have hfile := Entry.isFileAt_iff.mp (List.find?_some hfind)
    rw [← hnames] at hfile ⊢
    exact ⟨fun _ => ⟨ext, he, hfile⟩, fun _ => List.cons_ne_nil _ _⟩

theorem landing_eq_iff (way : List String) :
    landing tree extensions own way = landing tree extensions own' way ↔
      ¬ (way = [] ∧ (∃ ext ∈ extensions, tree.HoldsFile ["index" ++ ext]) ∧
        ¬ (nameExtension own.toList = [] ↔ nameExtension own'.toList = [])) := by
  by_cases hway : way = []
  · subst hway
    by_cases hown : nameExtension own.toList = [] <;>
      by_cases hown' : nameExtension own'.toList = []
    · rw [landing_nil_of_plain _ _ hown, landing_nil_of_plain _ _ hown']
      simp [hown, hown']
    · rw [landing_nil_of_extension _ _ hown', ← landing_nil_ne_nil_iff tree extensions hown]
      simp [hown, hown']
    · rw [landing_nil_of_extension _ _ hown, ← landing_nil_ne_nil_iff tree extensions hown',
        @eq_comm _ []]
      simp [hown, hown']
    · rw [landing_nil_of_extension _ _ hown, landing_nil_of_extension _ _ hown']
      simp [hown, hown']
  · simp [hway, landing_of_ne_nil tree extensions own own' hway]

end

/-- Moving a tree moves the modules that its specifiers stand for.  From a file of the tree, a specifier
that stays below the root gives a path below the root, and below another root it gives the same path
there.  This fails in one case only: the specifier leads to the root itself, the tree has an index file to
be found there, and just one of the two roots has an extension in its name, so that its index files are
not looked for. -/
theorem resolve_extend_iff {disk disk' : Disk} {entries : List (String × Entry)}
    {roots roots' : List Path} (h : disk.Copies entries roots) (h' : disk'.Copies entries roots')
    {root root' : Path} (hroot : root ∈ roots) (hroot' : root' ∈ roots') {file : List String}
    (hfile : (Entry.folder entries).HoldsFile file) {specifier : String}
    (hrel : isRelative specifier = true) {way : List String}
    (hway : follow file.dropLast (ofString specifier).names = some way)
    (hbelow : way = [] → root.names ≠ [] ∧ root'.names ≠ [])
    (prefetch prefetch' : Bool) (s s' : Session) :
    (∃ r, (∀ n ∈ r, IsName n) ∧
      ((resolve disk Scan.sourceExtensions prefetch (root.extend file).toString specifier).run s).1 =
        (root.extend r).toString) ∧
    ((∀ r, (∀ n ∈ r, IsName n) →
      (((resolve disk Scan.sourceExtensions prefetch (root.extend file).toString specifier).run s).1 =
          (root.extend r).toString ↔
        ((resolve disk' Scan.sourceExtensions prefetch' (root'.extend file).toString
            specifier).run s').1 = (root'.extend r).toString)) ↔
      ¬ (way = [] ∧
        (∃ ext ∈ Scan.sourceExtensions, (Entry.folder entries).HoldsFile ["index" ++ ext]) ∧
        ¬ (Path.extension root.toString = "" ↔ Path.extension root'.toString = ""))) := by
  have hext : ∀ ext ∈ Scan.sourceExtensions, '/' ∉ ext.toList := by decide
  obtain ⟨hnames, hidentity⟩ := identity_locate_extend h hroot hext hfile hrel hway
    fun hnil => (hbelow hnil).1
  obtain ⟨-, hidentity'⟩ := identity_locate_extend h' hroot' hext hfile hrel hway
    fun hnil => (hbelow hnil).2
  have hland := isName_landing hext (.folder entries) root.name hnames
  have hland' := isName_landing hext (.folder entries) root'.name hnames
  have hempty : ∀ cs : List Char, String.ofList cs = "" ↔ cs = [] := by simp
  rw [run_resolve, run_resolve, hidentity, hidentity', extension_toString (h.canonical root hroot),
    extension_toString (h'.canonical root' hroot'), hempty, hempty, ← landing_eq_iff]
  refine ⟨⟨_, hland, rfl⟩, ?_, ?_⟩
  · intro hsame
    have hother := (hsame _ hland).mp rfl
    exact ((extend_toString_inj (h'.canonical root' hroot') hland' hland).mp hother).symm
  · intro heq r hr
    rw [extend_toString_inj (h.canonical root hroot) hland hr,
      extend_toString_inj (h'.canonical root' hroot') hland' hr, heq]

-- The root of the whole disk is left out where the way ends at the root: its text with an extension
-- behind it names a file below it.
example : ((resolve ⟨.folder [(".js", .file []), ("x.js", .file [])], ⟨.slash, []⟩⟩
    Scan.sourceExtensions false "//x.js" ".").run (.ofCache (.empty 1))).1 = "//.js" := by
  decide

def project : List (String × Entry) :=
  [("index.js", .file []), ("src", .folder [("x.js", .file []), ("lib.ts", .file [])])]

/-- One project in two places.  The name of the second one has an extension. -/
def placedTwice : Disk where
  root := .folder [("app", .folder project), ("app.v2", .folder project)]
  cwd := ⟨.slash, []⟩

def placedAt : List Path := [⟨.slash, ["app"]⟩, ⟨.slash, ["app.v2"]⟩]

theorem wellFormed_placedTwice : placedTwice.WellFormed :=
  Disk.wellFormed_of_isWellFormed rfl (by decide) (by decide)

theorem copies_placedTwice : placedTwice.Copies project placedAt where
  wellFormed := wellFormed_placedTwice
  canonical := by
    simp only [placedAt, List.forall_mem_cons, List.not_mem_nil, false_implies, implies_true,
      and_true]
    exact ⟨⟨rfl, by decide⟩, ⟨rfl, by decide⟩⟩
  placed := by
    simp only [placedAt, List.forall_mem_cons, List.not_mem_nil, false_implies, implies_true,
      and_true]
    exact ⟨rfl, rfl⟩
  only := by
    intro names hfile
    obtain ⟨name, entry, rest, hmem, rfl, -⟩ :=
      wellFormed_placedTwice.tree.holdsFile_folder.mp hfile
    have hname : name = "app" ∨ name = "app.v2" := by
      rcases List.mem_cons.mp hmem with heq | hmem
      · exact Or.inl (congrArg Prod.fst heq)
      · exact Or.inr (congrArg Prod.fst (List.mem_singleton.mp hmem))
    rcases hname with rfl | rfl
    · exact ⟨_, List.mem_cons_self, rest, rfl⟩
    · exact ⟨_, List.mem_cons_of_mem _ List.mem_cons_self, rest, rfl⟩

/-- The way to a file of the project is the same in both places. -/
theorem resolve_extend_iff_placedTwice :
    placedTwice.Copies project placedAt ∧ (Entry.folder project).HoldsFile ["src", "x.js"] ∧
      isRelative "../src/lib" = true ∧
      follow ["src"] (ofString "../src/lib").names = some ["src", "lib"] ∧
      ((resolve placedTwice Scan.sourceExtensions false "/app/src/x.js" "../src/lib").run
        (.ofCache (.empty 1))).1 = "/app/src/lib.ts" ∧
      ((resolve placedTwice Scan.sourceExtensions false "/app.v2/src/x.js" "../src/lib").run
        (.ofCache (.empty 1))).1 = "/app.v2/src/lib.ts" := by
  have hfile : (Entry.folder project).HoldsFile ["src", "x.js"] := ⟨[], rfl⟩
  have hway : follow ["src"] (ofString "../src/lib").names = some ["src", "lib"] := by decide
  have hfirst : ((resolve placedTwice Scan.sourceExtensions false "/app/src/x.js"
      "../src/lib").run (.ofCache (.empty 1))).1 = "/app/src/lib.ts" := by
    rw [run_resolve]
    decide
  have hroot : (⟨.slash, ["app"]⟩ : Path) ∈ placedAt := by decide
  have hroot' : (⟨.slash, ["app.v2"]⟩ : Path) ∈ placedAt := by decide
  have hsame := (resolve_extend_iff copies_placedTwice copies_placedTwice hroot hroot' hfile rfl hway
    (by decide) false false (.ofCache (.empty 1)) (.ofCache (.empty 1))).2.mpr
    (fun hno => absurd hno.1 (by decide))
  have hsecond := (hsame ["src", "lib.ts"] (by decide)).mp hfirst
  exact ⟨copies_placedTwice, hfile, rfl, hway, hfirst, hsecond⟩

/-- The root itself stands for its index file in the first place only. -/
theorem resolve_root_placedTwice :
    placedTwice.Copies project placedAt ∧ (Entry.folder project).HoldsFile ["src", "x.js"] ∧
      isRelative ".." = true ∧ follow ["src"] (ofString "..").names = some [] ∧
      ((resolve placedTwice Scan.sourceExtensions false "/app.v2/src/x.js" "..").run
        (.ofCache (.empty 1))).1 = "/app.v2" ∧
      ¬ (((resolve placedTwice Scan.sourceExtensions false "/app/src/x.js" "..").run
          (.ofCache (.empty 1))).1 = (extend ⟨.slash, ["app"]⟩ ["index.js"]).toString ↔
        ((resolve placedTwice Scan.sourceExtensions false "/app.v2/src/x.js" "..").run
          (.ofCache (.empty 1))).1 = (extend ⟨.slash, ["app.v2"]⟩ ["index.js"]).toString) := by
  refine ⟨copies_placedTwice, ⟨[], rfl⟩, rfl, by decide, ?_, ?_⟩
  · rw [run_resolve]
    decide
  · rw [run_resolve, run_resolve]
    decide

end Specifier
end ModuleAudit
