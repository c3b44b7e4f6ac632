import Mathlib.Data.List.FinRange
import ModuleAudit.Strategy

/-
The walk through a syntax tree goes by its nodes in document order.

A reader of a tree does not see repetitions and nodes that only group: in their place stand the nodes
they hold.  `below` are the nodes that a reader finds below a node, and `preorder` goes through them by
recursion.  The walk keeps a list of trees that are still to be visited and also visits what a reader
does not see, but nothing there names a module.  So the walk finds what the recursion finds.

An address leads to a node from the top by the numbers of the nodes on the way.  The recursion lists
the nodes by their addresses in the order of a dictionary, each address once.
-/

namespace ModuleAudit
namespace Script
namespace Tree

/-- What holds of no trees, and of a tree and those behind it once it holds of its parts and of those
behind it, holds of all trees. -/
@[elab_as_elim]
theorem forest_induction {P : List Tree → Prop} (nil : P [])
    (cons : ∀ (t : Tree) (rest : List Tree), P t.parts → P rest → P (t :: rest)) :
    ∀ trees, P trees
  | [] => nil
  | t :: rest => cons t rest (forest_induction nil cons t.parts) (forest_induction nil cons rest)
termination_by trees => sizeOf trees
decreasing_by
  · have := sizeOf_parts_le t
    simp only [List.cons.sizeOf_spec]
    omega
  · simp only [List.cons.sizeOf_spec]
    omega

/-! ## Nodes that a reader sees -/

/-- Whether a reader of the tree sees its top. -/
def isShown : Tree → Bool
  | .leaf .. => true
  | .node kind _ => !kind.isHidden
  | .run _ => false

theorem openOnto_eq (rest : List Tree) (t : Tree) :
    openOnto rest t = if isShown t then t :: rest else openAllOnto rest t.parts := by
  cases t with
  | leaf token lead text => rw [openOnto]; rfl
  | node kind parts =>
    rw [openOnto, isShown]
    cases kind.isHidden <;> rfl
  | run parts => rw [openOnto]; rfl

theorem openAllOnto_eq (rest trees : List Tree) :
    openAllOnto rest trees = members trees ++ rest := by
  induction trees using forest_induction generalizing rest with
  | nil => rw [members, openAllOnto, openAllOnto, List.nil_append]
  | cons t trees ihParts ihTrees =>
    rw [members, openAllOnto, openAllOnto, openOnto_eq, openOnto_eq, ihTrees, ihTrees []]
    by_cases ht : isShown t = true
    · simp [ht]
    · rw [if_neg ht, if_neg ht, ihParts, ihParts (members trees ++ []), List.append_nil,
        List.append_assoc]

theorem members_cons (t : Tree) (trees : List Tree) :
    members (t :: trees) = (if isShown t then [t] else members t.parts) ++ members trees := by
  have hcons : members (t :: trees) =
      if isShown t then t :: members trees else openAllOnto (members trees) t.parts := by
    rw [members, openAllOnto, openOnto_eq]
    rfl
  rw [hcons, openAllOnto_eq]
  by_cases ht : isShown t = true
  · rw [if_pos ht, if_pos ht, List.singleton_append]
  · rw [if_neg ht, if_neg ht]

theorem members_append (trees more : List Tree) :
    members (trees ++ more) = members trees ++ members more := by
  induction trees with
  | nil => rfl
  | cons t trees ih => rw [List.cons_append, members_cons, members_cons, ih, List.append_assoc]

/-- Nothing but what a reader sees names a module. -/
theorem specifier?_of_not_isShown {t : Tree} (h : isShown t = false) : t.specifier? = none := by
  cases t with
  | leaf token lead text => rfl
  | run parts => rfl
  | node kind parts =>
    rw [isShown, Bool.not_eq_false'] at h
    unfold specifier?
    split
    case h_8 => rfl
    all_goals
      next heq =>
        cases heq
        exact absurd h (by decide)

/-- The nodes that a reader finds right below a tree. -/
def below (t : Tree) : List Tree := members t.parts

theorem sizeOf_lt_of_mem_members {c : Tree} {trees : List Tree} (h : c ∈ members trees) :
    sizeOf c < sizeOf trees := by
  induction trees using forest_induction with
  | nil => exact absurd h List.not_mem_nil
  | cons t trees ihParts ihTrees =>
    have hparts := sizeOf_parts_le t
    rw [members_cons, List.mem_append] at h
    rw [List.cons.sizeOf_spec]
    rcases h with h | h
    · by_cases ht : isShown t = true
      · rw [if_pos ht, List.mem_singleton] at h
        subst h
        omega
      · rw [if_neg ht] at h
        have hlt := ihParts h
        omega
    · have hlt := ihTrees h
      omega

theorem sizeOf_lt_of_mem_below {c t : Tree} (h : c ∈ below t) : sizeOf c < sizeOf t :=
  Nat.lt_of_lt_of_le (sizeOf_lt_of_mem_members h) (sizeOf_parts_le t)

/-! ## Going through a tree -/

/-- The nodes of a tree, by recursion: each before those below it. -/
def preorder (t : Tree) : List Tree := t :: (below t).attach.flatMap fun c => preorder c.1
termination_by sizeOf t
decreasing_by exact sizeOf_lt_of_mem_below c.2

theorem preorder_eq (t : Tree) : preorder t = t :: (below t).flatMap preorder := by
  rw [preorder]
  conv => rhs; rw [← List.attach_map_subtype_val (below t), List.flatMap_map]

/-- The trees that a walk visits, in their order. -/
def visited (pending : List Tree) : List Tree :=
  match pending with
  | [] => []
  | t :: rest => t :: visited (t.parts ++ rest)
termination_by sizeOf pending
decreasing_by
  have h := sizeOf_append t.parts rest
  have := sizeOf_parts_le t
  simp only [List.cons.sizeOf_spec]
  omega

/-- The walk finds the specifiers of the trees it visits. -/
theorem walk_eq (found : List String) (pending : List Tree) :
    walk found pending = found.reverse ++ (visited pending).filterMap specifier? := by
  fun_induction walk found pending with
  | case1 found => rw [visited, List.filterMap_nil, List.append_nil]
  | case2 found t rest ih =>
    rw [ih, visited]
    cases hspecifier : t.specifier? with
    | none => rw [List.filterMap_cons_none hspecifier]; rfl
    | some specifier =>
      rw [List.filterMap_cons_some hspecifier]
      simp

/-- Of the trees that a walk visits, a reader sees those that the recursion comes to. -/
theorem filter_visited (pending : List Tree) :
    (visited pending).filter isShown = (members pending).flatMap preorder := by
  fun_induction visited pending with
  | case1 => rfl
  | case2 t rest ih =>
    rw [members_append, List.flatMap_append] at ih
    rw [members_cons, List.flatMap_append, List.filter_cons, ih]
    by_cases ht : isShown t = true
    · rw [if_pos ht, if_pos ht, List.flatMap_singleton, preorder_eq, List.cons_append]
      rfl
    · rw [if_neg ht, if_neg ht]

theorem filterMap_specifier?_filter (trees : List Tree) :
    (trees.filter isShown).filterMap specifier? = trees.filterMap specifier? := by
  rw [List.filterMap_filter]
  refine List.filterMap_congr fun t _ => ?_
  cases ht : isShown t with
  | true => rfl
  | false => exact (specifier?_of_not_isShown ht).symm

/-- The walk from a tree visits its top, and then the nodes below it in the order of the recursion. -/
theorem exists_visited_eq (t : Tree) :
    ∃ later, visited [t] = t :: later ∧ later.filter isShown = (below t).flatMap preorder := by
  refine ⟨visited t.parts, ?_, filter_visited t.parts⟩
  rw [visited, List.append_nil]

theorem specifiers_eq (t : Tree) : t.specifiers = (preorder t).filterMap specifier? := by
  obtain ⟨later, hvisited, hlater⟩ := exists_visited_eq t
  rw [specifiers, walk_eq, hvisited, preorder_eq, List.filterMap_cons, List.filterMap_cons,
    ← filterMap_specifier?_filter later, hlater]
  rfl

/-! ## Addresses -/

/-- The node at an address: the numbers of the nodes on the way down from the top. -/
def at? (t : Tree) : List Nat → Option Tree
  | [] => some t
  | i :: address => (below t)[i]?.bind fun c => at? c address

/-- The addresses of the nodes of a tree, each before those below it. -/
def addresses (t : Tree) : List (List Nat) :=
  [] :: (List.finRange (below t).length).flatMap fun i =>
    (addresses ((below t).get i)).map (i.val :: ·)
termination_by sizeOf t
decreasing_by exact sizeOf_lt_of_mem_below (List.get_mem _ i)

theorem at?_cons (t : Tree) (i : Fin (below t).length) (address : List Nat) :
    at? t (i.val :: address) = at? ((below t).get i) address := by
  rw [at?, List.getElem?_eq_getElem i.isLt]
  rfl

/-- What holds of a tree once it holds of the nodes right below it holds of all trees. -/
@[elab_as_elim]
theorem below_induction {P : Tree → Prop} (step : ∀ t, (∀ c ∈ below t, P c) → P t) (t : Tree) : P t :=
  step t fun c _ => below_induction step c
termination_by sizeOf t
decreasing_by exact sizeOf_lt_of_mem_below ‹_›

/-- The addresses lead to the nodes, one after the other. -/
theorem map_at?_addresses (t : Tree) : (addresses t).map (at? t) = (preorder t).map some := by
  induction t using below_induction with
  | step t ih =>
    have hnodes : ((List.finRange (below t).length).flatMap fun i =>
        (preorder ((below t).get i)).map some) = ((below t).flatMap preorder).map some := by
      conv => rhs; rw [← List.map_get_finRange (below t), List.flatMap_map, List.map_flatMap]
    rw [addresses, preorder_eq, List.map_cons, List.map_cons, at?, List.map_flatMap, ← hnodes]
    congr 1
    refine List.flatMap_congr fun i _ => ?_
    rw [← ih _ (List.get_mem _ i), List.map_map]
    exact List.map_congr_left fun address _ => at?_cons t i address

/-- The addresses are all those that lead to a node. -/
theorem mem_addresses_iff {t : Tree} {address : List Nat} :
    address ∈ addresses t ↔ ∃ c, at? t address = some c := by
  induction address generalizing t with
  | nil =>
    rw [addresses]
    exact iff_of_true List.mem_cons_self ⟨t, rfl⟩
  | cons i address ih =>
    rw [addresses, List.mem_cons, List.mem_flatMap]
    constructor
    · rintro (h | ⟨j, -, h⟩)
      · cases h
      · obtain ⟨address', hmem, heq⟩ := List.mem_map.mp h
        obtain ⟨rfl, rfl⟩ := List.cons.inj heq
        rw [at?_cons]
        exact ih.mp hmem
    · rintro ⟨c, hc⟩
      obtain ⟨d, hd, hc⟩ := Option.bind_eq_some_iff.mp hc
      obtain ⟨hi, rfl⟩ := List.getElem?_eq_some_iff.mp hd
      exact Or.inr ⟨⟨i, hi⟩, List.mem_finRange _, List.mem_map_of_mem (ih.mpr ⟨c, hc⟩)⟩

/-- The addresses come in the order of a dictionary, so none comes twice. -/
theorem pairwise_addresses (t : Tree) : (addresses t).Pairwise (List.Lex (· < ·)) := by
  induction t using below_induction with
  | step t ih =>
    rw [addresses, List.pairwise_cons, List.pairwise_flatMap]
    refine ⟨fun address h => ?_, fun i _ => ?_, ?_⟩
    · obtain ⟨i, -, h⟩ := List.mem_flatMap.mp h
      obtain ⟨rest, -, rfl⟩ := List.mem_map.mp h
      exact .nil
    · exact (ih _ (List.get_mem _ i)).map _ fun _ _ h => .cons h
    · refine List.pairwise_iff_getElem.mpr fun i j hi hj hij a ha b hb => ?_
      obtain ⟨_, -, rfl⟩ := List.mem_map.mp ha
      obtain ⟨_, -, rfl⟩ := List.mem_map.mp hb
      rw [List.getElem_finRange, List.getElem_finRange]
      exact .rel hij

/-- The specifiers of a tree are those of its nodes in document order: the walk visits the nodes that a
reader sees just as the recursion does, which comes to every address once and in the order of a
dictionary.  They are what the syntactic strategy makes of a file with that tree. -/
theorem specifiers_in_order (t : Tree) :
    t.specifiers = (preorder t).filterMap specifier? ∧
    (∃ later, visited [t] = t :: later ∧ t :: later.filter isShown = preorder t) ∧
    ((addresses t).map (at? t) = (preorder t).map some ∧
      (addresses t).Pairwise (List.Lex (· < ·)) ∧
      ∀ address, address ∈ addresses t ↔ ∃ c, at? t address = some c) ∧
    ∀ content path, Program.parse (Dialect.ofExtension (Path.extension path)) content = some t →
      Strategy.syntactic.extract content path = (.ok ((preorder t).filterMap specifier?), []) := by
  obtain ⟨later, hvisited, hlater⟩ := exists_visited_eq t
  refine ⟨specifiers_eq t, ⟨later, hvisited, by rw [hlater, ← preorder_eq]⟩,
    ⟨map_at?_addresses t, pairwise_addresses t, fun _ => mem_addresses_iff⟩, fun content path h => ?_⟩
  simp only [Strategy.syntactic, Strategy.extract, h, specifiers_eq]

end Tree
end Script
end ModuleAudit
