import Mathlib.Data.List.Perm.Subperm
import ModuleAudit.Outline.Unfolding
import ModuleAudit.Proofs.Graph.Edge

/-
The modules of an unfolding are those that the entry leads to.

A chain of the unfolding ends at a module that is already on it, and that module has been unfolded
further up.  So the modules of the whole unfolding are closed under imports.  Modules on a chain
differ and all but the entry were given to the graph, so the room is never used up.
-/

namespace ModuleAudit
namespace Graph

/-- Module `m` imports `d`, and `d` was given to the graph. -/
def Inner (g : Graph) (m d : String) : Prop := g.Edge m d ∧ g.contains d = true

end Graph

namespace Unfolding

/-- The modules below the top of an unfolding. -/
def inside : Unfolding → List String
  | node _ _ imports => imports.flatMap names

theorem names_eq (u : Unfolding) : u.names = u.name :: u.inside := by
  cases u
  rw [names, name, inside]

variable {g : Graph}

theorem name_ofModule (room : Nat) (above : List String) (m : String) :
    (ofModule g room above m).name = m := by
  cases room with
  | zero => rfl
  | succ room =>
    rw [ofModule]
    split <;> rfl

theorem mem_names_self (room : Nat) (above : List String) (m : String) :
    m ∈ (ofModule g room above m).names := by
  rw [names_eq, name_ofModule]
  exact List.mem_cons_self

theorem inside_repeating {room : Nat} {above : List String} {m : String} (h : m ∈ above) :
    (ofModule g room above m).inside = [] := by
  cases room with
  | zero => rfl
  | succ room =>
    rw [ofModule, if_pos (List.contains_iff_mem.mpr h)]
    rfl

theorem mem_inside_iff {room : Nat} {above : List String} {m n : String} (h : m ∉ above) :
    n ∈ (ofModule g (room + 1) above m).inside ↔
      ∃ d, g.Inner m d ∧ n ∈ (ofModule g room (above ++ [m]) d).names := by
  rw [ofModule, if_neg (fun hc => h (List.contains_iff_mem.mp hc)), inside, List.mem_flatMap]
  constructor
  · rintro ⟨u, hu, hn⟩
    obtain ⟨d, hd, rfl⟩ := List.mem_map.mp hu
    exact ⟨d, List.mem_filter.mp hd, hn⟩
  · rintro ⟨d, hd, hn⟩
    exact ⟨_, List.mem_map.mpr ⟨d, List.mem_filter.mpr hd, rfl⟩, hn⟩

theorem reaches_of_mem_names {room : Nat} {above : List String} {m n : String}
    (h : n ∈ (ofModule g room above m).names) : Relation.ReflTransGen g.Inner m n := by
  induction room generalizing above m with
  | zero =>
    rw [names_eq, name_ofModule] at h
    rcases List.mem_cons.mp h with rfl | h
    · exact .refl
    · exact absurd h List.not_mem_nil
  | succ room ih =>
    rw [names_eq, name_ofModule] at h
    rcases List.mem_cons.mp h with rfl | h
    · exact .refl
    · by_cases hm : m ∈ above
      · rw [inside_repeating hm] at h
        exact absurd h List.not_mem_nil
      · obtain ⟨d, hd, hn⟩ := (mem_inside_iff hm).mp h
        exact .head hd (ih hn)

theorem contains_of_mem_inside {room : Nat} {above : List String} {m n : String}
    (h : n ∈ (ofModule g room above m).inside) : g.contains n = true := by
  cases room with
  | zero => exact absurd h List.not_mem_nil
  | succ room =>
    by_cases hm : m ∈ above
    · rw [inside_repeating hm] at h
      exact absurd h List.not_mem_nil
    · obtain ⟨d, hd, hn⟩ := (mem_inside_iff hm).mp h
      rcases Relation.ReflTransGen.cases_tail (reaches_of_mem_names hn) with rfl | ⟨_, _, hlast⟩
      · exact hd.2
      · exact hlast.2

theorem contains_of_mem_names {entry n : String} (h : n ∈ (ofEntry g entry).names) :
    n = entry ∨ g.contains n = true := by
  rw [ofEntry, names_eq, name_ofModule, List.mem_cons] at h
  exact h.imp_right contains_of_mem_inside

/-- A chain of different modules, of which all but the entry were given to the graph. -/
structure OnChain (g : Graph) (entry : String) (chain : List String) : Prop where
  distinct : chain.Nodup
  given : ∀ x ∈ chain, x = entry ∨ g.contains x = true

theorem OnChain.nil (g : Graph) (entry : String) : OnChain g entry [] where
  distinct := List.nodup_nil
  given _ hx := absurd hx List.not_mem_nil

/-- Above an entry stands nothing, and there is room for one level more than a chain can have. -/
theorem lt_room_ofEntry (g : Graph) :
    g.forward.length + 1 < ([] : List String).length + (g.forward.length + 2) := by
  rw [List.length_nil]
  omega

theorem OnChain.length_le {entry : String} {chain : List String} (h : OnChain g entry chain) :
    chain.length ≤ g.forward.length + 1 := by
  have hsubset : chain ⊆ entry :: g.forward.keys := by
    intro x hx
    rcases h.given x hx with rfl | hx
    · exact List.mem_cons_self
    · exact List.mem_cons_of_mem _ (Graph.contains_iff.mp hx)
  have hle := (List.subperm_of_subset h.distinct hsubset).length_le
  rwa [List.length_cons, Table.keys, List.length_map] at hle

theorem OnChain.concat {entry m : String} {chain : List String} (h : OnChain g entry chain)
    (hm : m ∉ chain) (hgiven : m = entry ∨ g.contains m = true) :
    OnChain g entry (chain ++ [m]) where
  distinct := by
    refine List.nodup_append.mpr ⟨h.distinct, List.nodup_singleton _, ?_⟩
    rintro a ha b hb rfl
    exact hm (List.mem_singleton.mp hb ▸ ha)
  given x hx := by
    rcases List.mem_append.mp hx with hx | hx
    · exact h.given x hx
    · rw [List.mem_singleton.mp hx]
      exact hgiven

/-- Every module of the tree below a chain is on the chain, or has all its imports in the tree. -/
theorem closed_ofModule {entry : String} {room : Nat} {above : List String} {m : String}
    (habove : OnChain g entry above) (hm : m = entry ∨ g.contains m = true)
    (hroom : g.forward.length + 1 < above.length + room) {n d : String}
    (hn : n ∈ (ofModule g room above m).names) (hd : g.Inner n d) :
    n ∈ above ∨ d ∈ (ofModule g room above m).names := by
  induction room generalizing above m with
  | zero =>
    -- the chain above is as long as a chain can be
    have hle := habove.length_le
    omega
  | succ room ih =>
    by_cases hrepeats : m ∈ above
    · rw [names_eq, name_ofModule, inside_repeating hrepeats, List.mem_singleton] at hn
      exact Or.inl (hn ▸ hrepeats)
    · have hinside : ∀ {k}, k ∈ (ofModule g (room + 1) above m).inside →
          k ∈ (ofModule g (room + 1) above m).names := by
        intro k hk
        rw [names_eq]
        exact List.mem_cons_of_mem _ hk
      have hself : g.Inner m d → d ∈ (ofModule g (room + 1) above m).names := fun h =>
        hinside ((mem_inside_iff hrepeats).mpr ⟨d, h, mem_names_self _ _ _⟩)
      rw [names_eq, name_ofModule] at hn
      rcases List.mem_cons.mp hn with rfl | hn
      · exact Or.inr (hself hd)
      · obtain ⟨c, hc, hn⟩ := (mem_inside_iff hrepeats).mp hn
        have hlength : g.forward.length + 1 < (above ++ [m]).length + room := by
          rw [List.length_append, List.length_singleton]
          omega
        rcases ih (habove.concat hrepeats hm) (Or.inr hc.2) hlength hn with hmem | hmem
        · -- cut off below `m`: on the chain above `m`, or at `m` itself, which is unfolded here
          rcases List.mem_append.mp hmem with hmem | hmem
          · exact Or.inl hmem
          · rw [List.mem_singleton] at hmem
            exact Or.inr (hself (hmem ▸ hd))
        · exact Or.inr (hinside ((mem_inside_iff hrepeats).mpr ⟨c, hc, hmem⟩))

theorem mem_names_ofEntry {entry n : String} :
    n ∈ (ofEntry g entry).names ↔ Relation.ReflTransGen g.Inner entry n := by
  refine ⟨reaches_of_mem_names, fun h => ?_⟩
  induction h with
  | refl => exact mem_names_self _ _ _
  | tail _ hd ih =>
    have hclosed := closed_ofModule (.nil g entry) (Or.inl rfl) (lt_room_ofEntry g) ih hd
    exact hclosed.resolve_left List.not_mem_nil

end Unfolding

namespace Rendering

/-- There is no rendering just when the entry leads to a module that was given to the graph under an
empty name. -/
theorem ofEntry_cases (cwd : Path) (g : Graph) (entry dir : String) :
    let start := Graph.resolveEntry cwd entry dir
    let shown := fun m => Path.relative cwd m dir
    (Relation.ReflTransGen g.Inner start "" ∧ ofEntry cwd g entry dir = .error {}) ∨
      ¬ Relation.ReflTransGen g.Inner start "" ∧
        ofEntry cwd g entry dir = .ok
          { outline := (Unfolding.ofEntry g start).outline g shown
            circular := Unfolding.distinct (((Unfolding.ofEntry g start).returns []).map fun chain =>
              Cycle.arrows (chain.map shown)) } := by
  intro start shown
  have hunnamed : (Unfolding.ofEntry g start).names.contains "" = true ↔
      Relation.ReflTransGen g.Inner start "" :=
    List.contains_iff_mem.trans Unfolding.mem_names_ofEntry
  by_cases hempty : (Unfolding.ofEntry g start).names.contains "" = true
  · exact Or.inl ⟨hunnamed.mp hempty, if_pos hempty⟩
  · exact Or.inr ⟨fun h => hempty (hunnamed.mpr h), if_neg hempty⟩

/-- There is a rendering as long as no module has an empty name. -/
theorem ofEntry_eq {cwd : Path} {g : Graph} {entry dir : String}
    (hentry : Graph.resolveEntry cwd entry dir ≠ "") (hg : g.contains "" = false) :
    ∃ r, ofEntry cwd g entry dir = .ok r ∧
      r.outline = (Unfolding.ofEntry g (Graph.resolveEntry cwd entry dir)).outline g
        (Path.relative cwd · dir) := by
  rcases ofEntry_cases cwd g entry dir with ⟨hleads, -⟩ | ⟨-, hok⟩
  · rcases Unfolding.contains_of_mem_names (Unfolding.mem_names_ofEntry.mpr hleads) with he | he
    · exact absurd he.symm hentry
    · rw [hg] at he
      cases he
  · exact ⟨_, hok, rfl⟩

end Rendering
end ModuleAudit
