import Mathlib.Data.List.Forall2
import ModuleAudit.Proofs.Outline

/-
A drawing determines its outline.

`layout` draws nodes by recursion, without the stack of levels, and gives the same lines, one for every
label.  The line of a node starts with a
branch, and every line below the node starts with an indent behind the same margin.  Branches and
indents differ in their first character, so the lines below a node are told from the line of the next
node whatever the labels are.
-/

namespace ModuleAudit
namespace Outline

/-- What holds of no nodes, and of a node and its siblings once it holds of the nodes below it and of
the other siblings, holds of all nodes. -/
@[elab_as_elim]
theorem nodes_induction {P : List Outline → Prop} (nil : P [])
    (cons : ∀ o rest, P o.children → P rest → P (o :: rest)) : ∀ nodes, P nodes
  | [] => nil
  | o :: rest => cons o rest (nodes_induction nil cons o.children) (nodes_induction nil cons rest)
termination_by nodes => sizes nodes
decreasing_by
  · have := sizes_children o
    rw [sizes]
    omega
  · have := sizes_children o
    rw [sizes]
    omega

/-! ## Drawing by recursion -/

mutual

/-- The line of a node and the lines below it. -/
def nodeLines (margin : String) (last : Bool) : Outline → List String
  | leaf label => [margin ++ branch last ++ label]
  | node label children =>
    (margin ++ branch last ++ label) :: layout (margin ++ indent last) children

/-- The lines of the nodes of one level and of all nodes below them. -/
def layout (margin : String) : List Outline → List String
  | [] => []
  | o :: rest => nodeLines margin rest.isEmpty o ++ layout margin rest

end

theorem layout_nil (margin : String) : layout margin [] = [] := by
  rw [layout]

theorem layout_cons (margin : String) (o : Outline) (rest : List Outline) :
    layout margin (o :: rest) = (margin ++ branch rest.isEmpty ++ o.label) ::
      (layout (margin ++ indent rest.isEmpty) o.children ++ layout margin rest) := by
  cases o with
  | leaf l => rw [layout, nodeLines, children, layout_nil]; rfl
  | node l nodes => rw [layout, nodeLines]; rfl

/-- The levels on the stack are drawn one after the other. -/
theorem drawLevels_eq_layout (levels : List Level) :
    drawLevels levels = levels.flatMap fun level => layout level.margin level.nodes := by
  fun_induction drawLevels levels with
  | case1 => rfl
  | case2 margin rest ih => rw [ih, List.flatMap_cons, layout_nil, List.nil_append]
  | case3 margin o nodes rest last below ih =>
    have hbelow : (below.flatMap fun level => layout level.margin level.nodes) =
        layout (margin ++ indent last) o.children := by
      by_cases hc : o.children.isEmpty = true
      · rw [show below = [] from if_pos hc, List.isEmpty_iff.mp hc, layout_nil, List.flatMap_nil]
      · rw [show below = _ from if_neg hc, List.flatMap_singleton]
    rw [ih, List.flatMap_append, hbelow, List.flatMap_cons, List.flatMap_cons, layout_cons,
      List.cons_append, List.append_assoc]

theorem lines_eq_layout (o : Outline) : o.lines = o.label :: layout "" o.children := by
  rw [lines]
  by_cases hc : o.children.isEmpty = true
  · rw [if_pos hc, List.isEmpty_iff.mp hc, layout_nil]
  · rw [if_neg hc, drawLevels_eq_layout, List.flatMap_singleton]

theorem labels_eq (o : Outline) : o.labels = o.label :: o.labelsBelow := by
  cases o with
  | leaf l => rw [labels]; rfl
  | node l nodes => rw [labels]; rfl

/-- The text is the end of the line. -/
def Ends (line text : String) : Prop := ∃ front, line = front ++ text

/-- Every label ends a line of its own, and the lines come in the order of the labels. -/
theorem forall₂_ends_layout (margin : String) (nodes : List Outline) :
    List.Forall₂ Ends (layout margin nodes) (nodes.flatMap labels) := by
  induction nodes using nodes_induction generalizing margin with
  | nil =>
    rw [layout_nil]
    exact .nil
  | cons o rest ihBelow ihRest =>
    rw [layout_cons, List.flatMap_cons, labels_eq, List.cons_append]
    exact .cons ⟨margin ++ branch rest.isEmpty, rfl⟩ (List.rel_append (ihBelow _) (ihRest margin))

theorem forall₂_ends_lines (o : Outline) : List.Forall₂ Ends o.lines o.labels := by
  rw [lines_eq_layout, labels_eq]
  exact .cons ⟨"", String.empty_append.symm⟩ (forall₂_ends_layout "" o.children)

/-- The drawing with a stack of levels is the recursive one: the label of each outline and below it the
layout of its nodes.  It has as many lines as the outlines have labels, each label at the end of its
line and in the same order. -/
theorem draw_eq_layout (outlines : List Outline) :
    draw outlines =
        "\n".intercalate (outlines.flatMap fun o => o.label :: layout "" o.children) ∧
      (outlines.flatMap lines).length = (outlines.flatMap labels).length ∧
      List.Forall₂ Ends (outlines.flatMap lines) (outlines.flatMap labels) := by
  have hends : List.Forall₂ Ends (outlines.flatMap lines) (outlines.flatMap labels) := by
    induction outlines with
    | nil => exact .nil
    | cons o rest ih => exact List.rel_append (forall₂_ends_lines o) ih
  refine ⟨?_, hends.length_eq, hends⟩
  rw [draw]
  congr 1
  exact List.flatMap_congr fun o _ => lines_eq_layout o

theorem layout_append_margin (outer margin : String) (nodes : List Outline) :
    layout (outer ++ margin) nodes = (layout margin nodes).map (outer ++ ·) := by
  induction nodes using nodes_induction generalizing margin with
  | nil => rw [layout_nil, layout_nil, List.map_nil]
  | cons o rest ihBelow ihRest =>
    rw [layout_cons, layout_cons, List.map_cons, List.map_append, ← ihBelow, ← ihRest]
    simp only [String.append_assoc]

/-- The margin stands in front of every line. -/
theorem layout_eq_map (margin : String) (nodes : List Outline) :
    layout margin nodes = (layout "" nodes).map (margin ++ ·) := by
  rw [← layout_append_margin, String.append_empty]

/-! ## Reading a drawing -/

/-- The outline with empty nodes in place of remarks.  A drawing does not tell the two apart. -/
def plain : Outline → Outline
  | leaf label => node label []
  | node label children => node label (children.map plain)

theorem plain_eq (o : Outline) : o.plain = node o.label (o.children.map plain) := by
  cases o with
  | leaf l => rw [plain]; rfl
  | node l nodes => rw [plain]; rfl

theorem layout_map_plain (margin : String) (nodes : List Outline) :
    layout margin (nodes.map plain) = layout margin nodes := by
  induction nodes using nodes_induction generalizing margin with
  | nil => rfl
  | cons o rest ihBelow ihRest =>
    have hempty : (rest.map plain).isEmpty = rest.isEmpty := List.isEmpty_map
    rw [List.map_cons, layout_cons, layout_cons, hempty, plain_eq, label, children, ihBelow, ihRest]

/-- Whether a line starts with the first character of a text. -/
def startsLike (text line : String) : Bool := line.toList.head? == text.toList.head?

theorem startsLike_indent (last : Bool) (line : String) :
    startsLike (indent last) (indent last ++ line) = true := by
  cases last <;> simp [startsLike, indent]

theorem not_startsLike_branch (last last' : Bool) (label : String) :
    startsLike (indent last) (branch last' ++ label) = false := by
  cases last <;> cases last' <;> simp [startsLike, indent, branch]

theorem branch_append_inj {last last' : Bool} {label label' : String}
    (h : branch last ++ label = branch last' ++ label') : last = last' ∧ label = label' := by
  have hlists := congrArg String.toList h
  rw [String.toList_append, String.toList_append] at hlists
  cases last <;> cases last' <;> simp_all [branch]

theorem takeWhile_layout (last : Bool) (nodes : List Outline) :
    (layout "" nodes).takeWhile (startsLike (indent last)) = [] := by
  cases nodes with
  | nil => rw [layout_nil, List.takeWhile_nil]
  | cons o rest =>
    rw [layout_cons, String.empty_append, List.takeWhile_cons_of_neg]
    rw [not_startsLike_branch]
    exact Bool.false_ne_true

theorem append_inj_of_takeWhile {α : Type} {p : α → Bool} {below below' rest rest' : List α}
    (hbelow : ∀ x ∈ below, p x = true) (hbelow' : ∀ x ∈ below', p x = true)
    (hrest : rest.takeWhile p = []) (hrest' : rest'.takeWhile p = [])
    (h : below ++ rest = below' ++ rest') : below = below' ∧ rest = rest' := by
  have hfront := congrArg (List.takeWhile p) h
  rw [List.takeWhile_append_of_pos hbelow, List.takeWhile_append_of_pos hbelow', hrest, hrest',
    List.append_nil, List.append_nil] at hfront
  subst hfront
  exact ⟨rfl, List.append_cancel_left h⟩

/-- Nodes that are drawn alike are alike, remarks apart. -/
theorem map_plain_eq_of_layout_eq {nodes nodes' : List Outline}
    (h : layout "" nodes = layout "" nodes') : nodes.map plain = nodes'.map plain := by
  induction nodes using nodes_induction generalizing nodes' with
  | nil =>
    cases nodes' with
    | nil => rfl
    | cons o' rest' =>
      rw [layout_nil, layout_cons] at h
      cases h
  | cons o rest ihBelow ihRest =>
    cases nodes' with
    | nil =>
      rw [layout_nil, layout_cons] at h
      cases h
    | cons o' rest' =>
      rw [layout_cons, layout_cons, List.cons.injEq] at h
      simp only [String.empty_append] at h
      obtain ⟨hline, hlines⟩ := h
      obtain ⟨hlast, hlabel⟩ := branch_append_inj hline
      rw [← hlast] at hlines
      generalize rest.isEmpty = last at hlines
      -- the lines below the two nodes end where the next line with a branch comes
      have hindented : ∀ below, ∀ line ∈ layout (indent last) below,
          startsLike (indent last) line = true := by
        intro below line hmem
        rw [layout_eq_map] at hmem
        obtain ⟨inner, -, rfl⟩ := List.mem_map.mp hmem
        exact startsLike_indent last inner
      obtain ⟨hbelow, hrest⟩ := append_inj_of_takeWhile (hindented _) (hindented _)
        (takeWhile_layout last rest) (takeWhile_layout last rest') hlines
      have hchildren : layout "" o.children = layout "" o'.children := by
        rw [layout_eq_map, layout_eq_map (indent last)] at hbelow
        exact List.map_injective_iff.mpr (fun _ _ => (String.append_right_inj _).mp) hbelow
      rw [List.map_cons, List.map_cons, plain_eq o, plain_eq o', hlabel, ihBelow hchildren,
        ihRest hrest]

/-! ## Lines of a text -/

theorem newline_notMem_layout {margin : String} (hmargin : '\n' ∉ margin.toList)
    {nodes : List Outline} (h : ∀ l ∈ nodes.flatMap labels, '\n' ∉ l.toList) :
    ∀ line ∈ layout margin nodes, '\n' ∉ line.toList := by
  induction nodes using nodes_induction generalizing margin with
  | nil =>
    intro line hline
    rw [layout_nil] at hline
    exact absurd hline List.not_mem_nil
  | cons o rest ihBelow ihRest =>
    rw [List.flatMap_cons, labels_eq, List.cons_append, List.forall_mem_cons] at h
    obtain ⟨hlabel, hlabels⟩ := h
    have hbranch : '\n' ∉ (branch rest.isEmpty).toList := by
      cases rest.isEmpty <;> decide
    have hindent : '\n' ∉ (indent rest.isEmpty).toList := by
      cases rest.isEmpty <;> decide
    intro line hline
    rw [layout_cons, List.mem_cons, List.mem_append] at hline
    rcases hline with rfl | hline | hline
    · simp [String.toList_append, hmargin, hbranch, hlabel]
    · have hinner : '\n' ∉ (margin ++ indent rest.isEmpty).toList := by
        simp [String.toList_append, hmargin, hindent]
      exact ihBelow hinner (fun l hl => hlabels l (List.mem_append_left _ hl)) line hline
    · exact ihRest hmargin (fun l hl => hlabels l (List.mem_append_right _ hl)) line hline

theorem newline_notMem_lines {o : Outline} (h : ∀ l ∈ o.labels, '\n' ∉ l.toList) :
    ∀ line ∈ o.lines, '\n' ∉ line.toList := by
  rw [labels_eq, List.forall_mem_cons] at h
  rw [lines_eq_layout, List.forall_mem_cons]
  exact ⟨h.1, newline_notMem_layout (by decide) h.2⟩

/-- A text of lines shows where each line ends. -/
theorem intercalate_newline_inj {texts texts' : List String} (hne : texts ≠ []) (hne' : texts' ≠ [])
    (h : ∀ t ∈ texts, '\n' ∉ t.toList) (h' : ∀ t ∈ texts', '\n' ∉ t.toList)
    (heq : "\n".intercalate texts = "\n".intercalate texts') : texts = texts' := by
  have hsplit : ∀ {l : List String}, l ≠ [] → (∀ t ∈ l, '\n' ∉ t.toList) →
      ("\n".intercalate l).toList.splitOn '\n' = l.map String.toList := by
    intro l hl hlines
    rw [String.toList_intercalate]
    refine List.splitOn_intercalate '\n' (fun t ht => ?_) (by simpa using hl)
    obtain ⟨line, hline, rfl⟩ := List.mem_map.mp ht
    exact hlines line hline
  have hlists : texts.map String.toList = texts'.map String.toList := by
    rw [← hsplit hne h, ← hsplit hne' h', heq]
  exact List.map_injective_iff.mpr (fun _ _ => String.toList_inj.mp) hlists

theorem draw_singleton (o : Outline) : draw [o] = "\n".intercalate o.lines := by
  rw [draw, List.flatMap_singleton]

/-- Two outlines without line breaks in their labels have the same drawing just when they are equal,
remarks counting as nodes with nothing below them. -/
theorem draw_eq_iff {a b : Outline} (ha : ∀ l ∈ a.labels, '\n' ∉ l.toList)
    (hb : ∀ l ∈ b.labels, '\n' ∉ l.toList) : draw [a] = draw [b] ↔ a.plain = b.plain := by
  rw [draw_singleton, draw_singleton]
  constructor
  · intro h
    have hne : ∀ o : Outline, o.lines ≠ [] := by
      intro o
      rw [lines_eq_layout]
      exact List.cons_ne_nil _ _
    have hlines := intercalate_newline_inj (hne a) (hne b) (newline_notMem_lines ha)
      (newline_notMem_lines hb) h
    rw [lines_eq_layout, lines_eq_layout, List.cons.injEq] at hlines
    rw [plain_eq a, plain_eq b, hlines.1, map_plain_eq_of_layout_eq hlines.2]
  · intro h
    rw [plain_eq a, plain_eq b, node.injEq] at h
    rw [lines_eq_layout, lines_eq_layout, h.1, ← layout_map_plain, h.2, layout_map_plain]

/-- A node with a remark beside it that is spelled like a line of the drawing of `nested`. -/
def imitating : Outline := node "r" [node "a" [], leaf "   └─ b"]

def nested : Outline := node "r" [node "a" [node "b" []]]

theorem draw_eq_iff_imitating :
    (∀ l ∈ imitating.labels, '\n' ∉ l.toList) ∧ (∀ l ∈ nested.labels, '\n' ∉ l.toList) ∧
      draw [imitating] ≠ draw [nested] := by
  have himitating : ∀ l ∈ imitating.labels, '\n' ∉ l.toList := by
    simp [imitating, labels]
  have hnested : ∀ l ∈ nested.labels, '\n' ∉ l.toList := by
    simp [nested, labels]
  refine ⟨himitating, hnested, (draw_eq_iff himitating hnested).not.mpr ?_⟩
  simp [imitating, nested, plain]

end Outline
end ModuleAudit
