import ModuleAudit.Proofs.Graph.Edge

/-
A graph as the history of the modules that were added to it.

An addition overwrites the imports of its module, and it appends the module to the importers of
everything in the new list.  Nothing is ever taken off a list of importers.  So the imports of a
module are those of its last addition, while its importers are read off the whole history:
`dependencies_addAll` and `importers_addAll` say this for every sequence of additions, and
`count_importers_eq_iff` says when the two sides of the graph agree.
-/

namespace ModuleAudit
namespace Graph

/-- A module with its imports, and the version that the graph has after it was added. -/
structure Addition where
  version : Int
  name : String
  imports : List String

def add (g : Graph) (a : Addition) : Graph := g.addModule a.version a.name a.imports

def addAll (g : Graph) (additions : List Addition) : Graph := additions.foldl add g

theorem addAll_cons (g : Graph) (a : Addition) (rest : List Addition) :
    g.addAll (a :: rest) = (g.add a).addAll rest := rfl

/-! ## One addition -/

theorem contains_addModule (g : Graph) (version : Int) (m : String) (imports : List String)
    (k : String) :
    (g.addModule version m imports).contains k = true ↔ k = m ∨ g.contains k = true := by
  rw [Graph.contains_iff, Graph.contains_iff]
  exact Table.mem_keys_put

theorem dependencies_addModule (g : Graph) (version : Int) (m : String) (imports : List String)
    (k : String) :
    (g.addModule version m imports).dependencies k = if k = m then imports else g.dependencies k := by
  change (Table.get? (Table.put g.forward m imports) k).getD [] = _
  rw [Table.get?_put]
  split
  · rfl
  · rfl

theorem get?_addImporter (m : String) (t : Table (List String)) (i d : String) :
    (addImporter m t i).get? d =
      if d = i then some ((t.get? i).getD [] ++ [m]) else t.get? d :=
  Table.get?_put t i _ d

theorem getD_foldl_addImporter (m : String) (imports : List String) (t : Table (List String))
    (d : String) :
    ((imports.foldl (addImporter m) t).get? d).getD [] =
      (t.get? d).getD [] ++ List.replicate (imports.count d) m := by
  induction imports generalizing t with
  | nil => simp
  | cons i rest ih =>
    rw [List.foldl_cons, ih, get?_addImporter]
    by_cases h : d = i
    · subst h
      rw [if_pos rfl, Option.getD_some, List.count_cons_self, List.replicate_succ, List.append_assoc,
        List.singleton_append]
    · rw [if_neg h, List.count_cons_of_ne (Ne.symm h)]

/-- The module goes to the importers of `d` once for every time that it imports `d`. -/
theorem importers_add (g : Graph) (a : Addition) (d : String) :
    (g.add a).importers d = g.importers d ++ List.replicate (a.imports.count d) a.name :=
  getD_foldl_addImporter a.name a.imports g.reverse d

/-! ## A sequence of additions -/

theorem contains_addAll (g : Graph) (additions : List Addition) (k : String) :
    (g.addAll additions).contains k = true ↔
      g.contains k = true ∨ k ∈ additions.map (·.name) := by
  induction additions generalizing g with
  | nil => simp [addAll]
  | cons a rest ih =>
    rw [addAll_cons, ih, add, contains_addModule, List.map_cons, List.mem_cons, or_assoc,
      or_left_comm]

/-- The lists of imports that a module was added with, in order. -/
def listsOf (m : String) : List Addition → List (List String)
  | [] => []
  | a :: rest => if a.name = m then a.imports :: listsOf m rest else listsOf m rest

theorem mem_listsOf {m : String} {additions : List Addition} {imports : List String} :
    imports ∈ listsOf m additions ↔ ∃ a ∈ additions, a.name = m ∧ a.imports = imports := by
  induction additions with
  | nil => simp [listsOf]
  | cons a rest ih =>
    rw [listsOf, List.exists_mem_cons_iff, ← ih]
    by_cases h : a.name = m
    · rw [if_pos h, List.mem_cons, and_iff_right h, @eq_comm _ imports]
    · rw [if_neg h, or_iff_right (fun hm => h hm.1)]

theorem dependencies_addAll (g : Graph) (additions : List Addition) (m : String) :
    (g.addAll additions).dependencies m =
      (listsOf m additions).getLast?.getD (g.dependencies m) := by
  induction additions generalizing g with
  | nil => rfl
  | cons a rest ih =>
    have hadd : (g.add a).dependencies m = if m = a.name then a.imports else g.dependencies m :=
      dependencies_addModule g a.version a.name a.imports m
    rw [addAll_cons, ih, hadd, listsOf]
    by_cases h : a.name = m
    · rw [if_pos h, if_pos h.symm, List.getLast?_cons, Option.getD_some]
    · rw [if_neg h, if_neg (Ne.symm h)]

theorem importers_addAll (g : Graph) (additions : List Addition) (d : String) :
    (g.addAll additions).importers d =
      g.importers d ++ additions.flatMap fun a => List.replicate (a.imports.count d) a.name := by
  induction additions generalizing g with
  | nil => simp [addAll]
  | cons a rest ih =>
    rw [addAll_cons, ih, importers_add, List.flatMap_cons, List.append_assoc]

/-- Modules that were not there before are appended to the table of imports. -/
theorem forward_addAll {g : Graph} {additions : List Addition}
    (h : (g.forward.keys ++ additions.map (·.name)).Nodup) :
    (g.addAll additions).forward = g.forward ++ additions.map fun a => (a.name, a.imports) := by
  induction additions generalizing g with
  | nil => simp [addAll]
  | cons a rest ih =>
    have hnew : a.name ∉ g.forward.keys := fun hmem =>
      (List.nodup_append.mp h).2.2 a.name hmem a.name List.mem_cons_self rfl
    have hforward : (g.add a).forward = g.forward ++ [(a.name, a.imports)] :=
      Table.put_of_not_mem a.imports hnew
    have hkeys : (g.add a).forward.keys ++ rest.map (·.name) =
        g.forward.keys ++ (a :: rest).map (·.name) := by
      rw [hforward, Table.keys_append, List.append_assoc]
      rfl
    rw [addAll_cons, ih (hkeys ▸ h), hforward, List.append_assoc, List.map_cons,
      List.singleton_append]

theorem count_flatMap_replicate (additions : List Addition) (m d : String) :
    (additions.flatMap fun a => List.replicate (a.imports.count d) a.name).count m =
      (listsOf m additions).flatten.count d := by
  induction additions with
  | nil => rfl
  | cons a rest ih =>
    rw [List.flatMap_cons, List.count_append, ih, List.count_replicate, listsOf]
    by_cases h : a.name = m
    · rw [if_pos (beq_iff_eq.mpr h), if_pos h, List.flatten_cons, List.count_append]
    · rw [if_neg (fun e => h (beq_iff_eq.mp e)), if_neg h, Nat.zero_add]

/-- The importers of `d` in a graph that was empty hold `m` once for every import of `d` that `m` was
ever added with. -/
theorem count_importers_addAll (files : List String) (version : Int) (additions : List Addition)
    (m d : String) :
    (((empty files version).addAll additions).importers d).count m =
      (listsOf m additions).flatten.count d := by
  have hempty : (empty files version).importers d = [] := rfl
  rw [importers_addAll, hempty, List.nil_append, count_flatMap_replicate]

theorem dependencies_addAll_empty (files : List String) (version : Int)
    (additions : List Addition) (m : String) :
    ((empty files version).addAll additions).dependencies m =
      (listsOf m additions).getLast?.getD [] :=
  dependencies_addAll _ additions m

theorem count_flatten_eq_iff (lists : List (List String)) (d : String) :
    lists.flatten.count d = (lists.getLast?.getD []).count d ↔
      ∀ imports ∈ lists.dropLast, d ∉ imports := by
  rcases List.eq_nil_or_concat lists with rfl | ⟨earlier, last, rfl⟩
  · simp
  · have hearlier : earlier.flatten.count d = 0 ↔ ∀ imports ∈ earlier, d ∉ imports := by
      rw [List.count_eq_zero, List.mem_flatten]
      constructor
      · intro h imports hmem hd
        exact h ⟨imports, hmem, hd⟩
      · rintro h ⟨imports, hmem, hd⟩
        exact h imports hmem hd
    rw [List.concat_eq_append, List.flatten_concat, List.count_append, List.getLast?_concat,
      Option.getD_some, List.dropLast_concat, ← hearlier]
    omega

/-- The two sides of a graph agree on the imports of `d` by `m` just when `d` was in none of the lists
that a later addition of `m` has overwritten.  That is so for every module that was added at most
once. -/
theorem count_importers_eq_iff (files : List String) (version : Int) (additions : List Addition)
    (m d : String) :
    (((empty files version).addAll additions).importers d).count m =
        (((empty files version).addAll additions).dependencies m).count d ↔
      ∀ imports ∈ (listsOf m additions).dropLast, d ∉ imports := by
  rw [count_importers_addAll, dependencies_addAll_empty]
  exact count_flatten_eq_iff (listsOf m additions) d

/-- One import, by a module that was added a second time. -/
def addedTwice : Graph :=
  (empty [] 1).addAll [⟨2, "/a.js", ["/b.js"]⟩, ⟨3, "/a.js", ["/b.js"]⟩]

theorem count_importers_addedTwice :
    (addedTwice.importers "/b.js").count "/a.js" = 2 ∧
      (addedTwice.dependencies "/a.js").count "/b.js" = 1 := by
  decide

end Graph
end ModuleAudit
