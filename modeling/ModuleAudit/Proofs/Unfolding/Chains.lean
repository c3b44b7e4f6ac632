import ModuleAudit.Proofs.Circular

/-
The nodes of an unfolding are the chains of imports from its top.

A node stands for the chain of modules down to it.  Going down from a node adds an import to the chain,
as long as the last module is new on it.  The modules before the last differ, so every chain is shorter
than the room of the unfolding and none is cut off.  The chains that a rendering reports as circular are
those that end in a module already on them.
-/

namespace ModuleAudit
namespace Graph

/-- A chain of imports from an entry.  Every module behind the entry was given to the graph, and none
comes twice before the last one. -/
structure Route (g : Graph) (entry : String) (chain : List String) : Prop where
  starts : chain.head? = some entry
  linked : chain.IsChain g.Inner
  simple : chain.dropLast.Nodup

theorem contains_of_linked {g : Graph} {first : String} {rest : List String}
    (h : (first :: rest).IsChain g.Inner) : ∀ m ∈ rest, g.contains m = true := by
  induction rest generalizing first with
  | nil => exact fun m hm => absurd hm List.not_mem_nil
  | cons next rest ih =>
    obtain ⟨hnext, hrest⟩ := List.isChain_cons_cons.mp h
    exact List.forall_mem_cons.mpr ⟨hnext.2, ih hrest⟩

/-- The last module of a chain is on it before. -/
def ComesBack (chain : List String) : Prop := ∃ m ∈ chain.dropLast, chain.getLast? = some m

theorem comesBack_concat {before : List String} {m : String} :
    ComesBack (before ++ [m]) ↔ m ∈ before := by
  simp [ComesBack]

end Graph

namespace Unfolding

open ModuleAudit.Graph

variable {g : Graph}

/-- The nodes of an unfolding, top first: the chain down to each and the unfolding from it on.  `above`
is the chain above the top. -/
def subtrees (above : List String) : Unfolding → List (List String × Unfolding)
  | node name repeats imports =>
    (above ++ [name], node name repeats imports) :: imports.flatMap (subtrees (above ++ [name]))

theorem subtrees_repeating {room : Nat} {above : List String} {m : String} (h : m ∈ above) :
    subtrees above (ofModule g room above m) = [(above ++ [m], ofModule g room above m)] := by
  have hcontains : above.contains m = true := List.contains_iff_mem.mpr h
  cases room with
  | zero => rw [ofModule, subtrees, List.flatMap_nil]
  | succ room => rw [ofModule, if_pos hcontains, subtrees, List.flatMap_nil]

theorem subtrees_zero (above : List String) (m : String) :
    subtrees above (ofModule g 0 above m) = [(above ++ [m], ofModule g 0 above m)] := by
  rw [ofModule, subtrees, List.flatMap_nil]

theorem subtrees_succ {room : Nat} {above : List String} {m : String} (h : m ∉ above) :
    subtrees above (ofModule g (room + 1) above m) = (above ++ [m], ofModule g (room + 1) above m) ::
      ((g.dependencies m).filter g.contains).flatMap fun d =>
        subtrees (above ++ [m]) (ofModule g room (above ++ [m]) d) := by
  have hcontains : ¬ above.contains m = true := fun hc => h (List.contains_iff_mem.mp hc)
  rw [ofModule, if_neg hcontains, subtrees, List.flatMap_map]

/-- A node is the top, or its chain goes on with an import of the top. -/
theorem mem_subtrees_iff {room : Nat} {above c : List String} {m : String} {u : Unfolding} :
    (c, u) ∈ subtrees above (ofModule g room above m) ↔
      (c = above ++ [m] ∧ u = ofModule g room above m) ∨
        m ∉ above ∧ ∃ rest d, room = rest + 1 ∧ g.Inner m d ∧
          (c, u) ∈ subtrees (above ++ [m]) (ofModule g rest (above ++ [m]) d) := by
  by_cases hm : m ∈ above
  · rw [subtrees_repeating hm, List.mem_singleton, Prod.mk.injEq]
    exact (or_iff_left fun h => h.1 hm).symm
  · cases room with
    | zero =>
      rw [subtrees_zero, List.mem_singleton, Prod.mk.injEq]
      exact (or_iff_left fun ⟨_, _, _, h, _⟩ => absurd h (Nat.succ_ne_zero _).symm).symm
    | succ room =>
      rw [subtrees_succ hm, List.mem_cons, Prod.mk.injEq, List.mem_flatMap]
      refine or_congr_right ⟨fun ⟨d, hd, hmem⟩ => ?_, fun ⟨_, rest, d, hrest, hd, hmem⟩ => ?_⟩
      · exact ⟨hm, room, d, rfl, List.mem_filter.mp hd, hmem⟩
      · rw [← Nat.succ.inj hrest] at hmem
        exact ⟨d, List.mem_filter.mpr hd, hmem⟩

/-- What the chain of a node looks like, and how much room is left at the node. -/
theorem of_mem_subtrees {room : Nat} {above c : List String} {m : String} {u : Unfolding}
    (habove : above.Nodup) (h : (c, u) ∈ subtrees above (ofModule g room above m)) :
    (∃ tail, c = above ++ m :: tail ∧ (m :: tail).IsChain g.Inner) ∧ c.dropLast.Nodup ∧
      ∃ before last left, c = before ++ [last] ∧ before.length + left = above.length + room ∧
        u = ofModule g left before last := by
  induction room using Nat.strongRecOn generalizing above m with
  | ind room ih =>
    rcases mem_subtrees_iff.mp h with ⟨rfl, rfl⟩ | ⟨hm, rest, d, rfl, hd, hmem⟩
    · refine ⟨⟨[], rfl, .singleton m⟩, ?_, above, m, room, rfl, rfl, rfl⟩
      rwa [List.dropLast_concat]
    · have hnodup : (above ++ [m]).Nodup := List.concat_eq_append ▸ habove.concat hm
      obtain ⟨⟨tail, hc, hlinked⟩, hsimple, before, last, left, hlast, hleft, hu⟩ :=
        ih rest (Nat.lt_succ_self rest) hnodup hmem
      refine ⟨⟨d :: tail, ?_, .cons_cons hd hlinked⟩, hsimple, before, last, left, hlast, ?_, hu⟩
      · rw [hc, List.append_assoc, List.singleton_append]
      · rw [hleft, List.length_append, List.length_singleton]
        omega

/-- There is a node for every chain, since the chain above is never too long for another level. -/
theorem exists_mem_subtrees {entry : String} {room : Nat} {above tail : List String} {m : String}
    (habove : OnChain g entry above) (hm : m = entry ∨ g.contains m = true)
    (hroom : g.forward.length + 1 < above.length + room) (hlinked : (m :: tail).IsChain g.Inner)
    (hsimple : (above ++ m :: tail).dropLast.Nodup) :
    ∃ u, (above ++ m :: tail, u) ∈ subtrees above (ofModule g room above m) := by
  induction tail generalizing above m room with
  | nil => exact ⟨_, mem_subtrees_iff.mpr (Or.inl ⟨rfl, rfl⟩)⟩
  | cons d tail ih =>
    obtain ⟨hd, hlinked⟩ := List.isChain_cons_cons.mp hlinked
    have hnew : m ∉ above := by
      intro hmem
      rw [List.dropLast_append_cons, List.dropLast_cons_cons, List.nodup_append] at hsimple
      exact hsimple.2.2 m hmem m List.mem_cons_self rfl
    obtain ⟨rest, rfl⟩ : ∃ rest, room = rest + 1 := by
      have hle := habove.length_le
      exact ⟨room - 1, by omega⟩
    have hlength : g.forward.length + 1 < (above ++ [m]).length + rest := by
      rw [List.length_append, List.length_singleton]
      omega
    have hassoc : above ++ m :: d :: tail = (above ++ [m]) ++ d :: tail := by
      rw [List.append_assoc, List.singleton_append]
    rw [hassoc] at hsimple ⊢
    obtain ⟨u, hu⟩ := ih (habove.concat hnew hm) (Or.inr hd.2) hlength hlinked hsimple
    exact ⟨u, mem_subtrees_iff.mpr (Or.inr ⟨hnew, rest, d, rfl, hd, hu⟩)⟩

theorem exists_mem_subtrees_iff {entry : String} {c : List String} :
    (∃ u, (c, u) ∈ subtrees [] (ofEntry g entry)) ↔ g.Route entry c := by
  constructor
  · rintro ⟨u, hu⟩
    obtain ⟨⟨tail, rfl, hlinked⟩, hsimple, -⟩ := of_mem_subtrees List.nodup_nil hu
    exact ⟨rfl, hlinked, hsimple⟩
  · rintro ⟨hstarts, hlinked, hsimple⟩
    obtain ⟨tail, rfl⟩ := List.head?_eq_some_iff.mp hstarts
    exact exists_mem_subtrees (.nil g entry) (Or.inl rfl) (lt_room_ofEntry g) hlinked hsimple

theorem mem_chains_iff {entry : String} {c : List String} :
    c ∈ (subtrees [] (ofEntry g entry)).map (·.1) ↔ g.Route entry c := by
  rw [← exists_mem_subtrees_iff, List.mem_map, Prod.exists]
  exact ⟨fun ⟨c', u, hu, e⟩ => ⟨u, e ▸ hu⟩, fun ⟨u, hu⟩ => ⟨c, u, hu, rfl⟩⟩

theorem mem_returns_cases {room : Nat} {above c : List String} {m : String} :
    c ∈ (ofModule g room above m).returns above ↔
      (m ∈ above ∧ c = above ++ [m]) ∨
        m ∉ above ∧ ∃ rest d, room = rest + 1 ∧ g.Inner m d ∧
          c ∈ (ofModule g rest (above ++ [m]) d).returns (above ++ [m]) := by
  by_cases hm : m ∈ above
  · rw [returns_repeating hm, List.mem_singleton, or_iff_left fun h => h.1 hm, and_iff_right hm]
  · rw [or_iff_right fun h => hm h.1, and_iff_right hm]
    cases room with
    | zero =>
      rw [returns_zero hm]
      refine ⟨fun h => absurd h List.not_mem_nil, fun ⟨_, _, h, _⟩ => ?_⟩
      exact absurd h (Nat.succ_ne_zero _).symm
    | succ room =>
      rw [mem_returns_succ hm]
      refine ⟨fun ⟨d, hd, hc⟩ => ⟨room, d, rfl, hd, hc⟩, fun ⟨rest, d, hrest, hd, hc⟩ => ?_⟩
      rw [← Nat.succ.inj hrest] at hc
      exact ⟨d, hd, hc⟩

/-- The chains that come back are those of the nodes that repeat a module. -/
theorem mem_returns_iff {room : Nat} {above c : List String} {m : String} :
    c ∈ (ofModule g room above m).returns above ↔
      (∃ u, (c, u) ∈ subtrees above (ofModule g room above m)) ∧ ComesBack c := by
  induction room using Nat.strongRecOn generalizing above m with
  | ind room ih =>
    rw [mem_returns_cases]
    constructor
    · rintro (⟨hm, rfl⟩ | ⟨hm, rest, d, rfl, hd, hc⟩)
      · exact ⟨⟨_, mem_subtrees_iff.mpr (Or.inl ⟨rfl, rfl⟩)⟩, comesBack_concat.mpr hm⟩
      · obtain ⟨⟨u, hu⟩, hback⟩ := (ih rest (Nat.lt_succ_self rest)).mp hc
        exact ⟨⟨u, mem_subtrees_iff.mpr (Or.inr ⟨hm, rest, d, rfl, hd, hu⟩)⟩, hback⟩
    · rintro ⟨⟨u, hu⟩, hback⟩
      rcases mem_subtrees_iff.mp hu with ⟨rfl, -⟩ | ⟨hm, rest, d, rfl, hd, hmem⟩
      · exact Or.inl ⟨comesBack_concat.mp hback, rfl⟩
      · refine Or.inr ⟨hm, rest, d, rfl, hd, ?_⟩
        exact (ih rest (Nat.lt_succ_self rest)).mpr ⟨⟨u, hmem⟩, hback⟩

theorem mem_returns_ofEntry {entry : String} {c : List String} :
    c ∈ (ofEntry g entry).returns [] ↔ g.Route entry c ∧ ComesBack c := by
  rw [ofEntry, mem_returns_iff, ← ofEntry, exists_mem_subtrees_iff]

theorem nodup_distinct (texts : List String) : (distinct texts).Nodup :=
  Imports.nodup_foldl_addNew List.nodup_nil

end Unfolding

namespace Rendering

open ModuleAudit.Graph

/-- The text of a chain of imports from the entry that ends in a module already on it. -/
def IsCircularText (cwd : Path) (g : Graph) (entry dir text : String) : Prop :=
  ∃ chain, g.Route (Graph.resolveEntry cwd entry dir) chain ∧ ComesBack chain ∧
    Cycle.arrows (chain.map fun m => Path.relative cwd m dir) = text

/-- There is no rendering if the entry leads to a module that was given to the graph under an empty
name.  Otherwise there is one, and it reports every chain of imports from the entry that comes back to
itself, each text once and no other text. -/
theorem circular_exact (cwd : Path) (g : Graph) (entry dir : String) :
    (Relation.ReflTransGen g.Inner (Graph.resolveEntry cwd entry dir) "" ∧
        ofEntry cwd g entry dir = .error {}) ∨
      ¬ Relation.ReflTransGen g.Inner (Graph.resolveEntry cwd entry dir) "" ∧
        ∃ r, ofEntry cwd g entry dir = .ok r ∧ r.circular.Nodup ∧
          ∀ text, text ∈ r.circular ↔ IsCircularText cwd g entry dir text := by
  refine (ofEntry_cases cwd g entry dir).imp_right fun ⟨hreach, hok⟩ => ?_
  refine ⟨hreach, _, hok, Unfolding.nodup_distinct _, fun text => ?_⟩
  rw [Unfolding.mem_distinct, List.mem_map]
  exact exists_congr fun chain => by rw [Unfolding.mem_returns_ofEntry, and_assoc]

/-- The module that imports itself is a circular chain, and there is no rendering to report it. -/
theorem circular_exact_unnamed :
    IsCircularText ⟨.slash, ["src"]⟩ unnamed "a" "/src" "a -> a" ∧
      ¬ ∃ r, ofEntry ⟨.slash, ["src"]⟩ unnamed "a" "/src" = .ok r ∧ r.circular.Nodup ∧
        ∀ text, text ∈ r.circular ↔
          IsCircularText ⟨.slash, ["src"]⟩ unnamed "a" "/src" text := by
  have hstart : Graph.resolveEntry ⟨.slash, ["src"]⟩ "a" "/src" = "/src/a" := by decide
  have hself : unnamed.Inner "/src/a" "/src/a" :=
    ⟨List.mem_cons_of_mem _ List.mem_cons_self, rfl⟩
  have hempty : unnamed.Inner "/src/a" "" := ⟨List.mem_cons_self, rfl⟩
  constructor
  · refine ⟨["/src/a", "/src/a"], ?_, ⟨"/src/a", List.mem_cons_self, rfl⟩, by decide⟩
    rw [hstart]
    exact ⟨rfl, .cons_cons hself (.singleton _), List.nodup_singleton _⟩
  · rintro ⟨r, hr, -⟩
    rcases ofEntry_cases ⟨.slash, ["src"]⟩ unnamed "a" "/src" with ⟨-, herror⟩ | ⟨hreach, -⟩
    · rw [herror] at hr
      cases hr
    · rw [hstart] at hreach
      exact hreach (.single hempty)

end Rendering
end ModuleAudit
