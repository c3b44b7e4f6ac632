import ModuleAudit.Outline.Basic
import ModuleAudit.Proofs.Unfolding

/-
The labels of an unfolding's outline.

Siblings with the same label would replace one another.  As long as labels tell the modules of the
graph apart, only siblings that are equal do, so an outline shows the labels of all modules below
its top.
-/

namespace ModuleAudit
namespace Outline

/-- The labels of all nodes of an outline. -/
def labels : Outline → List String
  | leaf label => [label]
  | node label children => label :: children.flatMap labels

/-- The labels below the top of an outline. -/
def labelsBelow (o : Outline) : List String := o.children.flatMap labels

theorem mem_of_mem_put {kept : List Outline} {new o : Outline} (h : o ∈ put kept new) :
    o ∈ kept ∨ o = new := by
  induction kept with
  | nil => exact Or.inr (List.mem_singleton.mp h)
  | cons old rest ih =>
    rw [put] at h
    split at h
    · exact (List.mem_cons.mp h).symm.imp_left (List.mem_cons_of_mem _)
    · rcases List.mem_cons.mp h with rfl | h
      · exact Or.inl List.mem_cons_self
      · exact (ih h).imp_left (List.mem_cons_of_mem _)

theorem mem_put {kept : List Outline} {new : Outline}
    (h : ∀ a ∈ kept, a.label = new.label → a = new) {o : Outline} :
    o ∈ put kept new ↔ o ∈ kept ∨ o = new := by
  refine ⟨mem_of_mem_put, fun ho => ?_⟩
  induction kept with
  | nil => exact List.mem_singleton.mpr (ho.resolve_left List.not_mem_nil)
  | cons old rest ih =>
    rw [put]
    by_cases hlabel : old.label = new.label
    · rw [if_pos (beq_iff_eq.mpr hlabel)]
      rw [h old List.mem_cons_self hlabel] at ho
      exact ho.elim id fun e => List.mem_cons.mpr (Or.inl e)
    · rw [if_neg (fun e => hlabel (beq_iff_eq.mp e)), List.mem_cons]
      rw [List.mem_cons, or_assoc] at ho
      exact ho.imp_right (ih fun a ha => h a (List.mem_cons_of_mem _ ha))

theorem mem_foldl_put {nodes kept : List Outline}
    (h : ∀ a ∈ kept ++ nodes, ∀ b ∈ kept ++ nodes, a.label = b.label → a = b) {o : Outline} :
    o ∈ nodes.foldl put kept ↔ o ∈ kept ∨ o ∈ nodes := by
  induction nodes generalizing kept with
  | nil => simp
  | cons new rest ih =>
    have hnew : ∀ a ∈ kept, a.label = new.label → a = new := fun a ha =>
      h a (List.mem_append_left _ ha) new (List.mem_append_right _ List.mem_cons_self)
    have hsubset : ∀ a ∈ put kept new ++ rest, a ∈ kept ++ new :: rest := by
      intro a ha
      rcases List.mem_append.mp ha with ha | ha
      · rcases (mem_put hnew).mp ha with ha | rfl
        · exact List.mem_append_left _ ha
        · exact List.mem_append_right _ List.mem_cons_self
      · exact List.mem_append_right _ (List.mem_cons_of_mem _ ha)
    rw [List.foldl_cons, ih fun a ha b hb => h a (hsubset a ha) b (hsubset b hb), mem_put hnew,
      List.mem_cons, or_assoc]

theorem mem_of_mem_foldl_put {nodes kept : List Outline} {o : Outline}
    (h : o ∈ nodes.foldl put kept) : o ∈ kept ∨ o ∈ nodes := by
  induction nodes generalizing kept with
  | nil => exact Or.inl h
  | cons new rest ih =>
    rcases ih h with h | h
    · exact (mem_of_mem_put h).imp_right fun e => List.mem_cons.mpr (Or.inl e)
    · exact Or.inr (List.mem_cons_of_mem _ h)

theorem mem_of_mem_putAll {nodes : List Outline} {o : Outline} (h : o ∈ putAll nodes) :
    o ∈ nodes :=
  (mem_of_mem_foldl_put h).resolve_left List.not_mem_nil

/-- Putting nodes together loses none if those with the same label are the same. -/
theorem mem_putAll {nodes : List Outline}
    (h : ∀ a ∈ nodes, ∀ b ∈ nodes, a.label = b.label → a = b) {o : Outline} :
    o ∈ putAll nodes ↔ o ∈ nodes := by
  rw [putAll, mem_foldl_put (by simpa using h), or_iff_right List.not_mem_nil]

end Outline

namespace Unfolding

open Outline

variable {g : Graph} {shown : String → String}

/-- The node that stands for a module below a chain. -/
def branch (g : Graph) (shown : String → String) (room : Nat) (above : List String) (d : String) :
    Outline :=
  .node (label g shown d) (content g shown (ofModule g room above d))

theorem content_ofModule {room : Nat} {above : List String} {m : String} (hm : m ∉ above) :
    content g shown (ofModule g (room + 1) above m) =
      putAll (((g.dependencies m).filter g.contains).map
        (branch g shown room (above ++ [m]))) := by
  rw [ofModule, if_neg (fun hc => hm (List.contains_iff_mem.mp hc)), content,
    if_neg Bool.false_ne_true, List.map_map]
  refine congrArg putAll (List.map_congr_left fun d _ => ?_)
  rw [Function.comp, branch, name_ofModule]

theorem mem_content {room : Nat} {above : List String} {m : String} (hm : m ∉ above)
    (hinj : ∀ a b, g.contains a = true → g.contains b = true →
      label g shown a = label g shown b → a = b) {o : Outline} :
    o ∈ content g shown (ofModule g (room + 1) above m) ↔
      ∃ d, g.Inner m d ∧ o = branch g shown room (above ++ [m]) d := by
  rw [content_ofModule hm, mem_putAll, List.mem_map]
  · refine exists_congr fun d => ?_
    rw [List.mem_filter, Graph.Inner, Graph.Edge]
    exact and_congr_right' eq_comm
  · intro a ha b hb hlabel
    obtain ⟨d, hd, rfl⟩ := List.mem_map.mp ha
    obtain ⟨e, he, rfl⟩ := List.mem_map.mp hb
    rw [hinj d e (List.mem_filter.mp hd).2 (List.mem_filter.mp he).2 hlabel]

theorem content_repeating {room : Nat} {above : List String} {m : String} (h : m ∈ above) :
    content g shown (ofModule g room above m) = [.leaf returnMark] := by
  have hc : above.contains m = true := List.contains_iff_mem.mpr h
  cases room with
  | zero => rw [ofModule, hc, content, if_pos rfl]
  | succ room => rw [ofModule, if_pos hc, content, if_pos rfl]

theorem mem_labels_branch {room : Nat} {above : List String} {d l : String}
    (h : l ∈ (content g shown (ofModule g room above d)).flatMap labels ↔
      ∃ n ∈ (ofModule g room above d).inside, label g shown n = l) :
    l ∈ (branch g shown room above d).labels ↔
      ∃ n ∈ (ofModule g room above d).names, label g shown n = l := by
  rw [branch, labels, List.mem_cons, h, names_eq, name_ofModule, List.exists_mem_cons_iff,
    @eq_comm _ l]

/-- Apart from the mark of a return, the labels below a module are those of the modules inside. -/
theorem mem_labels_content (hinj : ∀ a b, g.contains a = true → g.contains b = true →
      label g shown a = label g shown b → a = b) {l : String} (hl : l ≠ returnMark) {room : Nat}
    {above : List String} {m : String} :
    l ∈ (content g shown (ofModule g room above m)).flatMap labels ↔
      ∃ n ∈ (ofModule g room above m).inside, label g shown n = l := by
  induction room generalizing above m with
  | zero =>
    rw [ofModule, content, inside]
    split <;> simp [labels, hl, putAll]
  | succ room ih =>
    by_cases hm : m ∈ above
    · rw [content_repeating hm, inside_repeating hm]
      simp [labels, hl]
    · -- no branch has replaced another, so the modules inside are shown branch by branch
      simp only [List.mem_flatMap, mem_content hm hinj, mem_inside_iff hm]
      constructor
      · rintro ⟨o, ⟨d, hd, rfl⟩, hlabels⟩
        obtain ⟨n, hn, hlabel⟩ := (mem_labels_branch ih).mp hlabels
        exact ⟨n, ⟨d, hd, hn⟩, hlabel⟩
      · rintro ⟨n, ⟨d, hd, hn⟩, hlabel⟩
        exact ⟨_, ⟨d, hd, rfl⟩, (mem_labels_branch ih).mpr ⟨n, hn, hlabel⟩⟩

/-- Whatever is replaced, a node below a module is the mark of a return or the branch of an import. -/
theorem content_cases {room : Nat} {above : List String} {m : String} {o : Outline}
    (h : o ∈ content g shown (ofModule g room above m)) :
    (m ∈ above ∧ o = .leaf returnMark) ∨ m ∉ above ∧ ∃ rest d, room = rest + 1 ∧ g.Inner m d ∧
      o = branch g shown rest (above ++ [m]) d := by
  by_cases hm : m ∈ above
  · rw [content_repeating hm] at h
    exact Or.inl ⟨hm, List.mem_singleton.mp h⟩
  refine Or.inr ⟨hm, ?_⟩
  cases room with
  | zero =>
    rw [ofModule, content, if_neg (fun hc => hm (List.contains_iff_mem.mp hc))] at h
    exact absurd h List.not_mem_nil
  | succ room =>
    rw [content_ofModule hm] at h
    obtain ⟨d, hd, rfl⟩ := List.mem_map.mp (mem_of_mem_putAll h)
    exact ⟨room, d, rfl, List.mem_filter.mp hd, rfl⟩

/-- Only modules of the graph and returns are labelled. -/
theorem exists_label_of_mem_labels {room : Nat} {above : List String} {m l : String}
    (h : l ∈ (content g shown (ofModule g room above m)).flatMap labels) :
    l = returnMark ∨ ∃ n, g.contains n = true ∧ label g shown n = l := by
  induction room using Nat.strongRecOn generalizing above m with
  | ind room ih =>
    obtain ⟨o, ho, hl⟩ := List.mem_flatMap.mp h
    rcases content_cases ho with ⟨-, rfl⟩ | ⟨-, rest, d, rfl, hd, rfl⟩
    · rw [labels] at hl
      exact Or.inl (List.mem_singleton.mp hl)
    · rw [branch, labels, List.mem_cons] at hl
      rcases hl with rfl | hl
      · exact Or.inr ⟨d, hd.2, rfl⟩
      · exact ih rest (Nat.lt_succ_self rest) hl

/-- The outline from an entry shows the modules that the entry leads to. -/
theorem label_mem_labelsBelow_iff (hinj : ∀ a b, g.contains a = true → g.contains b = true →
      label g shown a = label g shown b → a = b) {entry m : String} (hm : g.contains m = true)
    (hmark : label g shown m ≠ returnMark) (hne : m ≠ entry) :
    label g shown m ∈ ((ofEntry g entry).outline g shown).labelsBelow ↔
      Relation.ReflTransGen g.Inner entry m := by
  have hnames : m ∈ (ofEntry g entry).names ↔ m ∈ (ofEntry g entry).inside := by
    rw [names_eq, ofEntry, name_ofModule, List.mem_cons, or_iff_right hne]
  rw [← mem_names_ofEntry, hnames, outline, labelsBelow, children, ofEntry,
    mem_labels_content hinj hmark]
  constructor
  · rintro ⟨n, hn, hlabel⟩
    exact hinj n m (contains_of_mem_inside hn) hm hlabel ▸ hn
  · intro h
    exact ⟨m, h, rfl⟩

end Unfolding
end ModuleAudit
