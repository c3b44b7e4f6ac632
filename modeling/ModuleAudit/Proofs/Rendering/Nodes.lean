import Mathlib.Data.Set.Function
import ModuleAudit.Proofs.Rendering
import ModuleAudit.Proofs.Unfolding.Chains

/-
The rendering of an entry has one node for every chain of imports from it.

Where labels tell the modules of a graph apart and no module imports another twice, no sibling
replaces another, so the outline has the shape of the unfolding.  The labels down to a node are those
of the modules on its chain, and so they determine the chain.
-/

namespace ModuleAudit
namespace Outline

/-- The nodes of an outline, remarks apart, top first: the labels down to each and what stands below
it.  `above` are the labels above the top. -/
def places (above : List String) : Outline → List (List String × List Outline)
  | leaf _ => []
  | node label children =>
    (above ++ [label], children) :: children.flatMap (places (above ++ [label]))

theorem put_of_new {kept : List Outline} {new : Outline} (h : ∀ o ∈ kept, o.label ≠ new.label) :
    put kept new = kept ++ [new] := by
  induction kept with
  | nil => rfl
  | cons old rest ih =>
    have hold : ¬ (old.label == new.label) = true := fun e =>
      h old List.mem_cons_self (beq_iff_eq.mp e)
    rw [put, if_neg hold, ih fun o ho => h o (List.mem_cons_of_mem _ ho), List.cons_append]

theorem foldl_put_of_nodup {nodes kept : List Outline} (h : ((kept ++ nodes).map label).Nodup) :
    nodes.foldl put kept = kept ++ nodes := by
  induction nodes generalizing kept with
  | nil => rw [List.foldl_nil, List.append_nil]
  | cons new rest ih =>
    have hnew : ∀ o ∈ kept, o.label ≠ new.label := by
      intro o ho
      rw [List.map_append, List.nodup_append] at h
      exact h.2.2 _ (List.mem_map_of_mem ho) _ (List.mem_map_of_mem List.mem_cons_self)
    have hassoc : kept ++ new :: rest = (kept ++ [new]) ++ rest := by
      rw [List.append_assoc, List.singleton_append]
    rw [hassoc] at h ⊢
    rw [List.foldl_cons, put_of_new hnew, ih h]

/-- Nodes with different labels stay as they are. -/
theorem putAll_of_nodup {nodes : List Outline} (h : (nodes.map label).Nodup) :
    putAll nodes = nodes :=
  foldl_put_of_nodup h

end Outline

namespace Graph

theorem Route.onChain {g : Graph} {entry m : String} {before : List String}
    (h : g.Route entry (before ++ [m])) : Unfolding.OnChain g entry before where
  distinct := by
    have hsimple := h.simple
    rwa [List.dropLast_concat] at hsimple
  given x hx := by
    obtain ⟨rest, hrest⟩ := List.head?_eq_some_iff.mp h.starts
    have hlinked := h.linked
    rw [hrest] at hlinked
    have hmem : x ∈ entry :: rest := hrest ▸ List.mem_append_left _ hx
    exact (List.mem_cons.mp hmem).imp_right (contains_of_linked hlinked x)

end Graph

namespace Unfolding

open Outline ModuleAudit.Graph

variable {g : Graph} {shown : String → String}

/-- The labels along a chain.  The entry is labelled with its path alone. -/
def trail (g : Graph) (shown : String → String) : List String → List String
  | [] => []
  | entry :: rest => shown entry :: rest.map (label g shown)

theorem trail_concat {chain : List String} (hne : chain ≠ []) (m : String) :
    trail g shown (chain ++ [m]) = trail g shown chain ++ [label g shown m] := by
  cases chain with
  | nil => exact absurd rfl hne
  | cons entry rest => rw [List.cons_append, trail, trail, List.map_append]; rfl

/-- The labels of the modules of the graph differ. -/
def Labelled (g : Graph) (shown : String → String) : Prop :=
  ∀ a b, g.contains a = true → g.contains b = true → label g shown a = label g shown b → a = b

theorem eq_of_map_label_eq (hinj : Labelled g shown) {ms ns : List String}
    (hms : ∀ m ∈ ms, g.contains m = true) (hns : ∀ n ∈ ns, g.contains n = true)
    (h : ms.map (label g shown) = ns.map (label g shown)) : ms = ns := by
  induction ms generalizing ns with
  | nil => exact (List.map_eq_nil_iff.mp h.symm).symm
  | cons m ms ih =>
    cases ns with
    | nil => cases h
    | cons n ns =>
      rw [List.forall_mem_cons] at hms hns
      rw [List.map_cons, List.map_cons, List.cons.injEq] at h
      rw [hinj m n hms.1 hns.1 h.1, ih hms.2 hns.2 h.2]

/-- The labels down to a node tell its chain. -/
theorem trail_inj (hinj : Labelled g shown) {entry : String} {c c' : List String}
    (hc : g.Route entry c) (hc' : g.Route entry c') (h : trail g shown c = trail g shown c') :
    c = c' := by
  obtain ⟨rest, rfl⟩ := List.head?_eq_some_iff.mp hc.starts
  obtain ⟨rest', rfl⟩ := List.head?_eq_some_iff.mp hc'.starts
  rw [trail, trail, List.cons.injEq] at h
  rw [eq_of_map_label_eq hinj (contains_of_linked hc.linked) (contains_of_linked hc'.linked) h.2]

section

variable (hinj : Labelled g shown) (hdeps : ∀ m, (g.dependencies m).Nodup)

include hinj hdeps

/-- Below a module that is new on the chain stand its imports, in their order. -/
theorem content_eq_map {room : Nat} {above : List String} {m : String} (hm : m ∉ above) :
    content g shown (ofModule g (room + 1) above m) =
      ((g.dependencies m).filter g.contains).map (branch g shown room (above ++ [m])) := by
  rw [content_ofModule hm, putAll_of_nodup]
  rw [List.map_map]
  refine List.Nodup.map_on ?_ ((hdeps m).filter _)
  intro a ha b hb hlabel
  exact hinj a b (List.mem_filter.mp ha).2 (List.mem_filter.mp hb).2 hlabel

/-- The outline has the shape of the unfolding. -/
theorem places_eq_map {room : Nat} {above labels : List String} {m l : String}
    (h : labels ++ [l] = trail g shown (above ++ [m])) :
    places labels (.node l (content g shown (ofModule g room above m))) =
      (subtrees above (ofModule g room above m)).map fun node =>
        (trail g shown node.1, content g shown node.2) := by
  induction room generalizing above labels m l with
  | zero =>
    have hcontent : content g shown (ofModule g 0 above m) = [.leaf returnMark] ∨
        content g shown (ofModule g 0 above m) = [] := by
      rw [ofModule, content]
      split
      · exact Or.inl rfl
      · exact Or.inr rfl
    rw [subtrees_zero, places, List.map_singleton, h]
    rcases hcontent with hc | hc
    · rw [hc, List.flatMap_singleton, places]
    · rw [hc, List.flatMap_nil]
  | succ room ih =>
    by_cases hm : m ∈ above
    · rw [subtrees_repeating hm, content_repeating hm, places, List.map_singleton, h,
        List.flatMap_singleton, places, content_repeating hm]
    · rw [subtrees_succ hm, places, List.map_cons, h, List.cons.injEq]
      refine ⟨rfl, ?_⟩
      rw [content_eq_map hinj hdeps hm, List.flatMap_map, List.map_flatMap]
      refine List.flatMap_congr fun d _ => ?_
      exact ih (trail_concat (List.append_ne_nil_of_right_ne_nil _ (List.cons_ne_nil _ _)) d).symm

omit hinj in
theorem nodup_chains {room : Nat} {above : List String} {m : String} (habove : above.Nodup) :
    ((subtrees above (ofModule g room above m)).map (·.1)).Nodup := by
  induction room generalizing above m with
  | zero =>
    rw [subtrees_zero]
    exact List.nodup_singleton _
  | succ room ih =>
    by_cases hm : m ∈ above
    · rw [subtrees_repeating hm]
      exact List.nodup_singleton _
    · have hnodup : (above ++ [m]).Nodup := List.concat_eq_append ▸ habove.concat hm
      have htail : ∀ {d c}, c ∈ (subtrees (above ++ [m]) (ofModule g room (above ++ [m]) d)).map (·.1) →
          ∃ tail, c = above ++ [m] ++ d :: tail := by
        intro d c hc
        obtain ⟨⟨c, u⟩, hmem, rfl⟩ := List.mem_map.mp hc
        obtain ⟨⟨tail, htail, -⟩, -⟩ := of_mem_subtrees hnodup hmem
        exact ⟨tail, htail⟩
      rw [subtrees_succ hm, List.map_cons, List.map_flatMap, List.nodup_cons, List.nodup_flatMap]
      refine ⟨fun hmem => ?_, fun d _ => ih hnodup, ?_⟩
      · obtain ⟨d, -, hc⟩ := List.mem_flatMap.mp hmem
        obtain ⟨tail, htail⟩ := htail hc
        exact List.cons_ne_nil _ _ (List.self_eq_append_right.mp htail)
      · -- chains through different imports differ right behind `m`
        refine ((hdeps m).filter _).imp fun {d d'} hne c hc hc' => ?_
        obtain ⟨tail, rfl⟩ := htail hc
        obtain ⟨tail', htail'⟩ := htail hc'
        exact hne (List.cons.inj (List.append_cancel_left htail')).1

/-- What stands below a node, as long as there is room for it. -/
theorem content_spec {room : Nat} (hroom : 0 < room) (above : List String) (m : String) :
    (content g shown (ofModule g room above m) = [.leaf returnMark] ↔ m ∈ above) ∧
      (m ∉ above → (content g shown (ofModule g room above m)).map Outline.label =
        ((g.dependencies m).filter g.contains).map (label g shown)) := by
  obtain ⟨room, rfl⟩ : ∃ rest, room = rest + 1 := ⟨room - 1, by omega⟩
  by_cases hm : m ∈ above
  · exact ⟨iff_of_true (content_repeating hm) hm, fun h => absurd hm h⟩
  · rw [content_eq_map hinj hdeps hm]
    refine ⟨iff_of_false (fun h => ?_) hm, fun _ => ?_⟩
    · have hleaf : Outline.leaf returnMark ∈ ((g.dependencies m).filter g.contains).map
          (branch g shown room (above ++ [m])) := h ▸ List.mem_cons_self
      obtain ⟨d, -, hd⟩ := List.mem_map.mp hleaf
      cases hd
    · rw [List.map_map]
      rfl

variable {entry : String}

theorem places_outline :
    ((ofEntry g entry).outline g shown).places [] = (subtrees [] (ofEntry g entry)).map fun node =>
      (trail g shown node.1, content g shown node.2) := by
  rw [Unfolding.outline, ofEntry, name_ofModule]
  exact places_eq_map hinj hdeps rfl

theorem trails_outline :
    (((ofEntry g entry).outline g shown).places []).map (·.1) =
      ((subtrees [] (ofEntry g entry)).map (·.1)).map (trail g shown) := by
  rw [places_outline hinj hdeps, List.map_map, List.map_map]
  rfl

/-- The labels down to a node tell it from all others. -/
theorem nodup_trails : ((((ofEntry g entry).outline g shown).places []).map (·.1)).Nodup := by
  rw [trails_outline hinj hdeps]
  refine List.Nodup.map_on ?_ (nodup_chains hdeps List.nodup_nil)
  exact fun a ha b hb => trail_inj hinj (mem_chains_iff.mp ha) (mem_chains_iff.mp hb)

theorem bijOn_trail : Set.BijOn (trail g shown) {chain | g.Route entry chain}
    {labels | labels ∈ (((ofEntry g entry).outline g shown).places []).map (·.1)} := by
  rw [trails_outline hinj hdeps]
  refine ⟨fun c hc => ?_, fun c hc c' hc' h => trail_inj hinj hc hc' h, fun labels hlabels => ?_⟩
  · exact List.mem_map_of_mem (mem_chains_iff.mpr hc)
  · obtain ⟨c, hc, rfl⟩ := List.mem_map.mp hlabels
    exact ⟨c, mem_chains_iff.mp hc, rfl⟩

theorem content_of_mem_places {before : List String} {m : String} {below : List Outline}
    (hchain : g.Route entry (before ++ [m]))
    (h : (trail g shown (before ++ [m]), below) ∈ ((ofEntry g entry).outline g shown).places []) :
    (below = [.leaf returnMark] ↔ m ∈ before) ∧
      (m ∉ before → below.map Outline.label =
        ((g.dependencies m).filter g.contains).map (label g shown)) := by
  rw [places_outline hinj hdeps] at h
  obtain ⟨⟨c, u⟩, hnode, heq⟩ := List.mem_map.mp h
  obtain ⟨htrail, rfl⟩ := Prod.mk.inj heq
  have hc : c = before ++ [m] :=
    trail_inj hinj (exists_mem_subtrees_iff.mp ⟨u, hnode⟩) hchain htrail
  obtain ⟨-, -, before', m', left, hc', hleft, rfl⟩ := of_mem_subtrees List.nodup_nil hnode
  obtain ⟨rfl, hm⟩ := List.append_inj' (hc'.symm.trans hc) rfl
  obtain rfl := List.singleton_inj.mp hm
  -- the modules before the last differ, so there is room for one more level
  have hlength := hchain.onChain.length_le
  refine content_spec hinj hdeps ?_ before' m'
  rw [List.length_nil] at hleft
  omega

end

end Unfolding

namespace Graph

/-- The name of a source file: a normal path below a single slash that ends in an extension of
sources. -/
structure SourceName (m : String) : Prop where
  normal : Path.normalize m = m
  root : (Path.ofString m).root = .slash
  extension : ∃ ext ∈ Scan.sourceExtensions, ext.toList <:+ m.toList

theorem SourceName.getLast? {m : String} (h : SourceName m) :
    m.toList.getLast? ∈ Scan.sourceExtensions.map (·.toList.getLast?) := by
  obtain ⟨ext, hext, before, hm⟩ := h.extension
  have hne : ∀ e ∈ Scan.sourceExtensions, e.toList ≠ [] := by decide
  rw [← hm, List.getLast?_append_of_ne_nil _ (hne ext hext)]
  exact List.mem_map_of_mem hext

theorem SourceName.exists_path {m : String} (h : SourceName m) :
    ∃ p : Path, p.EndsLikeSource ∧ p.root = .slash ∧ p.toString = m := by
  have hrooted : (Path.ofString m).isRooted = true := by
    rw [Path.isRooted, h.root]
    rfl
  have hp := Path.canonical_collapse hrooted (Path.proper_ofString m)
  have hm : (Path.ofString m).collapse.toString = m := h.normal
  refine ⟨_, ⟨hp, ?_⟩, h.root, hm⟩
  have hlast := h.getLast?
  rcases hp.getLast?_toString with hslash | hname
  · rw [hm] at hslash
    rw [hslash] at hlast
    exact absurd hlast (by decide)
  · rwa [← hname, hm]

/-- Labels tell source files apart. -/
theorem labelled_of_sourceName {g : Graph} (h : ∀ m, g.contains m = true → SourceName m) (cwd : Path)
    (dir : String) : Unfolding.Labelled g (Path.relative cwd · dir) := by
  intro a b ha hb hlabel
  obtain ⟨p, hp, hroot, rfl⟩ := (h a ha).exists_path
  obtain ⟨q, hq, hroot', rfl⟩ := (h b hb).exists_path
  rw [hp.eq_of_label_eq hq (hroot.trans hroot'.symm) hlabel]

end Graph

namespace Rendering

open ModuleAudit.Graph Unfolding

/-- Of a graph of source files none of which imports another twice, the rendering of an entry has
exactly one node for every chain of imports from the entry.  The labels down to the node are those of
the chain.  A node that repeats a module holds the mark of a return and nothing else, and every other
node holds the imports of its module in their order. -/
theorem nodes_exact {cwd : Path} (hcwd : cwd.Canonical) {g : Graph}
    (hnames : ∀ m, g.contains m = true → SourceName m) (hdeps : ∀ m, (g.dependencies m).Nodup)
    (entry dir : String) :
    let start := Graph.resolveEntry cwd entry dir
    let shown := fun m => Path.relative cwd m dir
    ∃ r, Rendering.ofEntry cwd g entry dir = .ok r ∧ ((r.outline.places []).map (·.1)).Nodup ∧
      Set.BijOn (trail g shown) {chain | g.Route start chain}
        {labels | labels ∈ (r.outline.places []).map (·.1)} ∧
      ∀ before m content, g.Route start (before ++ [m]) →
        (trail g shown (before ++ [m]), content) ∈ r.outline.places [] →
          (content = [.leaf returnMark] ↔ m ∈ before) ∧
            (m ∉ before → content.map Outline.label =
              ((g.dependencies m).filter g.contains).map (label g shown)) := by
  intro start shown
  have hinj : Labelled g shown := labelled_of_sourceName hnames cwd dir
  have hstart : start ≠ "" := Path.toString_ne_empty
    (Path.canonical_collapse_join (hcwd.absolute (Path.proper_ofString dir))
      (Path.proper_ofString entry)).proper
  have hempty : g.contains "" = false := by
    rw [← Bool.not_eq_true]
    intro h
    exact absurd (hnames "" h).getLast? (by decide)
  obtain ⟨r, hr, houtline⟩ := ofEntry_eq hstart hempty
  refine ⟨r, hr, ?_⟩
  rw [houtline]
  exact ⟨nodup_trails hinj hdeps, bijOn_trail hinj hdeps,
    fun before m below hchain h => content_of_mem_places hinj hdeps hchain h⟩

/-- Two files that import each other, and a third that imports the second of them. -/
def entwined : Graph :=
  (((Graph.empty [] 1).addModule 2 "/src/a.js" ["/src/b.js"]).addModule 3 "/src/b.js"
    ["/src/a.js"]).addModule 4 "/src/c.js" ["/src/b.js"]

theorem sourceName_entwined : ∀ m, entwined.contains m = true → SourceName m := by
  have hsource : ∀ m ∈ entwined.forward.keys, Path.normalize m = m ∧ (Path.ofString m).root = .slash ∧
      ".js".toList <:+ m.toList := by decide
  intro m hm
  obtain ⟨hnormal, hroot, hext⟩ := hsource m (contains_iff.mp hm)
  exact ⟨hnormal, hroot, ".js", List.mem_cons_self, hext⟩

theorem nodup_dependencies_entwined : ∀ m, (entwined.dependencies m).Nodup := by
  intro m
  by_cases hm : m ∈ entwined.forward.keys
  · have hkeys : ∀ k ∈ entwined.forward.keys, (entwined.dependencies k).Nodup := by decide
    exact hkeys m hm
  · rw [dependencies_of_not_mem hm]
    exact List.nodup_nil

/-- From the first file, the way back to it holds the mark of a return. -/
theorem nodes_exact_entwined :
    (⟨.slash, ["src"]⟩ : Path).Canonical ∧ (∀ m, entwined.contains m = true → SourceName m) ∧
      (∀ m, (entwined.dependencies m).Nodup) ∧
      ∃ r, Rendering.ofEntry ⟨.slash, ["src"]⟩ entwined "a.js" "." = .ok r ∧
        (["a.js", "b.js [ref: 2]", "a.js"], [.leaf returnMark]) ∈ r.outline.places [] := by
  have hcwd : (⟨.slash, ["src"]⟩ : Path).Canonical := ⟨rfl, by decide⟩
  obtain ⟨r, hr, -, hnodes, hbelow⟩ :=
    nodes_exact hcwd sourceName_entwined nodup_dependencies_entwined "a.js" "."
  have hstart : Graph.resolveEntry ⟨.slash, ["src"]⟩ "a.js" "." = "/src/a.js" := by decide
  have hroute : entwined.Route "/src/a.js" (["/src/a.js", "/src/b.js"] ++ ["/src/a.js"]) :=
    ⟨rfl, .cons_cons ⟨List.mem_cons_self, rfl⟩ (.cons_cons ⟨List.mem_cons_self, rfl⟩ (.singleton _)),
      by decide⟩
  have htrail : trail entwined (fun m => Path.relative ⟨.slash, ["src"]⟩ m ".")
      (["/src/a.js", "/src/b.js"] ++ ["/src/a.js"]) = ["a.js", "b.js [ref: 2]", "a.js"] := by decide
  rw [hstart] at hnodes hbelow
  obtain ⟨⟨labels, below⟩, hmem, hlabels⟩ := List.mem_map.mp (hnodes.mapsTo hroute)
  obtain rfl : labels = _ := hlabels
  have hreturn := (hbelow _ _ below hroute hmem).1.mpr List.mem_cons_self
  rw [htrail, hreturn] at hmem
  exact ⟨hcwd, sourceName_entwined, nodup_dependencies_entwined, r, hr, hmem⟩

end Rendering
end ModuleAudit
