import Mathlib.Data.List.Perm.Basic
import Mathlib.Logic.Relation
import ModuleAudit.Graph.Basic
import ModuleAudit.Proofs.Table

/-
The imports of a graph as a relation, and how many there are.

`Edge` is what the analyses of a graph are compared with.  `length_dependencies_le` bounds the work of
every search that looks at the imports of a module once: the modules it has looked at differ, so
their imports are among the entries of the table.
-/

namespace ModuleAudit
namespace Graph

/-- Module `m` imports module `d`. -/
def Edge (g : Graph) (m d : String) : Prop := d ∈ g.dependencies m

/-- A module of the graph: one that was given to it, or one that is imported. -/
def Knows (g : Graph) (m : String) : Prop := g.contains m = true ∨ ∃ n, g.Edge n m

/-- There is a way from `m` back to `m`. -/
def Cyclic (g : Graph) (m : String) : Prop := Relation.TransGen g.Edge m m

theorem contains_iff {g : Graph} {m : String} : g.contains m = true ↔ m ∈ g.forward.keys :=
  Table.has_iff_mem_keys

theorem dependencies_of_not_mem {g : Graph} {m : String} (h : m ∉ g.forward.keys) :
    g.dependencies m = [] := by
  rw [dependencies, Table.get?_eq_none_of_not_mem h, Option.getD_none]

/-- Only modules that were given to the graph import anything. -/
theorem Edge.contains {g : Graph} {m d : String} (h : g.Edge m d) : g.contains m = true := by
  by_contra hm
  rw [contains_iff] at hm
  rw [Edge, dependencies_of_not_mem hm] at h
  exact List.not_mem_nil h

theorem Edge.knows_left {g : Graph} {m d : String} (h : g.Edge m d) : g.Knows m :=
  Or.inl h.contains

/-- The modules of the graph are written in its table. -/
theorem Knows.mem_table {g : Graph} {m : String} (h : g.Knows m) :
    m ∈ g.forward.flatMap fun (k, imports) => k :: imports := by
  rw [List.mem_flatMap]
  rcases h with hm | ⟨n, hn⟩
  · obtain ⟨entry, he, rfl⟩ := List.mem_map.mp (contains_iff.mp hm)
    exact ⟨entry, he, List.mem_cons_self⟩
  · rw [Edge, dependencies] at hn
    cases hg : g.forward.get? n with
    | none =>
      rw [hg] at hn
      exact absurd hn List.not_mem_nil
    | some imports =>
      rw [hg] at hn
      exact ⟨(n, imports), Table.mem_of_get? hg, List.mem_cons_of_mem n hn⟩

/-- What holds of every name in the table holds of the modules of the graph. -/
theorem forall_knows {g : Graph} {P : String → Prop}
    (h : ∀ row ∈ g.forward, ∀ n ∈ row.1 :: row.2, P n) (m : String) (hm : g.Knows m) : P m := by
  obtain ⟨row, hrow, hmem⟩ := List.mem_flatMap.mp hm.mem_table
  exact h row hrow m hmem

/-! ## Counting imports -/

theorem edgeCount_eq (g : Graph) : g.edgeCount = g.forward.values.flatten.length := by
  have hfold : ∀ (lists : List (List String)) (n : Nat),
      lists.foldl (fun total imports => total + imports.length) n =
        n + lists.flatten.length := by
    intro lists
    induction lists with
    | nil => intro n; rfl
    | cons imports rest ih =>
      intro n
      rw [List.foldl_cons, ih, List.flatten_cons, List.length_append, Nat.add_assoc]
  rw [edgeCount, hfold, Nat.zero_add]

/-- Different keys find values in different entries. -/
theorem length_flatMap_get?_le (t : Table (List String)) :
    ∀ ms : List String, ms.Nodup →
      (ms.flatMap fun m => (t.get? m).getD []).length ≤ t.values.flatten.length := by
  induction t with
  | nil =>
    intro ms _
    have hnil : (ms.flatMap fun m => (Table.get? [] m).getD ([] : List String)) = [] :=
      List.flatMap_eq_nil_iff.mpr fun m _ => rfl
    rw [hnil]
    exact Nat.zero_le _
  | cons entry rest ih =>
    intro ms hn
    obtain ⟨k, v⟩ := entry
    show _ ≤ (v ++ (Table.values rest).flatten).length
    -- Away from `k` the table looks like its rest.
    have hrest : ∀ l : List String, k ∉ l →
        (l.flatMap fun m => (Table.get? ((k, v) :: rest) m).getD []) =
          l.flatMap fun m => (Table.get? rest m).getD [] := by
      intro l hl
      refine List.flatMap_congr fun m hm => ?_
      have hne : m ≠ k := fun e => hl (e ▸ hm)
      rw [Table.get?_cons, if_neg hne]
    rw [List.length_append]
    by_cases hk : k ∈ ms
    · have hperm := List.perm_cons_erase hk
      have hnot : k ∉ ms.erase k := hn.not_mem_erase
      rw [(hperm.flatMap_right _).length_eq, List.flatMap_cons, List.length_append, hrest _ hnot,
        Table.get?_cons, if_pos rfl]
      exact Nat.add_le_add_left (ih _ (hn.erase k)) v.length
    · rw [hrest ms hk]
      exact Nat.le_trans (ih ms hn) (Nat.le_add_left _ _)

/-- Modules that differ have no more imports together than the graph. -/
theorem length_dependencies_le (g : Graph) {ms : List String} (h : ms.Nodup) :
    (ms.flatMap g.dependencies).length ≤ g.edgeCount := by
  rw [edgeCount_eq]
  exact length_flatMap_get?_le g.forward ms h

end Graph
end ModuleAudit
