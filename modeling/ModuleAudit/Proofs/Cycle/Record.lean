import Mathlib.Data.List.Rotate
import ModuleAudit.Proofs.Cycle.Search

/-
The cycles on record.

A cycle is recorded when the innermost module imports a module on the path, and it runs along the
path from that module on.  Its modules therefore lie in the order in which they were met.  Two lists
that lie in one order and have the same members are equal, so no rotation of a recorded cycle is
recorded as well; the text under which a cycle is kept plays no part in this.

A module is expanded once, and as long as it is, the path down to it stays the same.  So a second
cycle with the same last import would run along the same modules: the last imports of the recorded
cycles differ.
-/

namespace ModuleAudit
namespace Cycle

/-- The import that closes a cycle: from its last but one module to its last one. -/
def closingEdge (c : List String) : String × String := (c.dropLast.getLastD "", c.getLastD "")

/-- The way from `x` along `back` and back to `x`. -/
def roundTrip (x : String) (back : List String) : List String := (x :: back) ++ [x]

theorem dropLast_roundTrip (x : String) (back : List String) :
    (roundTrip x back).dropLast = x :: back := List.dropLast_concat

theorem closingEdge_roundTrip (x : String) (back : List String) :
    closingEdge (roundTrip x back) = ((x :: back).getLast (List.cons_ne_nil x back), x) := by
  rw [closingEdge, dropLast_roundTrip, roundTrip, List.getLastD_concat, List.getLastD_cons,
    List.getLast_eq_getLastD]

theorem exists_edge_of_mem_dropLast {g : Graph} {l : List String} (h : l.IsChain g.Edge)
    {y : String} (hy : y ∈ l.dropLast) : ∃ z, g.Edge y z := by
  induction h with
  | nil => exact absurd hy List.not_mem_nil
  | singleton => exact absurd hy List.not_mem_nil
  | @cons_cons a b l hab _ ih =>
    rw [List.dropLast_cons_cons] at hy
    rcases List.mem_cons.mp hy with rfl | hy
    · exact ⟨b, hab⟩
    · exact ih hy

/-- Every module of a cycle imports one. -/
theorem exists_edge_of_mem_roundTrip {g : Graph} {x y : String} {back : List String}
    (h : (roundTrip x back).IsChain g.Edge) (hy : y ∈ roundTrip x back) : ∃ z, g.Edge y z := by
  refine exists_edge_of_mem_dropLast h ?_
  rw [dropLast_roundTrip]
  rcases List.mem_append.mp hy with hy | hy
  · exact hy
  · exact List.mem_singleton.mp hy ▸ List.mem_cons_self

/-! ## Parts of a list without repetitions -/

/-- Two parts of a list that keep its order and have the same members are equal. -/
theorem eq_of_sublist_of_perm {L : List String} :
    L.Nodup → ∀ {l₁ l₂ : List String}, l₁.Sublist L → l₂.Sublist L → l₁.Perm l₂ → l₁ = l₂ := by
  induction L with
  | nil =>
    intro _ l₁ l₂ h₁ h₂ _
    rw [List.sublist_nil.mp h₁, List.sublist_nil.mp h₂]
  | cons a L ih =>
    intro hn l₁ l₂ h₁ h₂ hp
    obtain ⟨ha, hn⟩ := List.nodup_cons.mp hn
    cases h₁ with
    | cons _ h₁ =>
      cases h₂ with
      | cons _ h₂ => exact ih hn h₁ h₂ hp
      | cons_cons _ h₂ => exact absurd (h₁.subset (hp.mem_iff.mpr List.mem_cons_self)) ha
    | cons_cons _ h₁ =>
      cases h₂ with
      | cons _ h₂ => exact absurd (h₂.subset (hp.mem_iff.mp List.mem_cons_self)) ha
      | cons_cons _ h₂ => rw [ih hn h₁ h₂ hp.cons_inv]

/-- A part that ends with the last member ends the list. -/
theorem suffix_of_infix_of_getLast? {l path : List String} {m : String} (hn : path.Nodup)
    (h : l <:+: path) (hl : l.getLast? = some m) (hp : path.getLast? = some m) : l <:+ path := by
  obtain ⟨front, after, rfl⟩ := h
  rcases List.eq_nil_or_concat after with rfl | ⟨after, z, rfl⟩
  · rw [List.append_nil]
    exact List.suffix_append front l
  · rw [List.concat_eq_append] at hn hp
    rw [← List.append_assoc, List.getLast?_concat, Option.some.injEq] at hp
    subst hp
    have hmem : z ∈ front ++ l := List.mem_append_right front (List.mem_of_getLast? hl)
    have hdisjoint := (List.nodup_append.mp hn).2.2
    exact absurd rfl (hdisjoint z hmem z (List.mem_append_right after List.mem_cons_self))

/-- Two ends of a list that start with the same member are equal. -/
theorem eq_of_suffix_of_suffix {path back back' : List String} {x : String} (hn : path.Nodup)
    (h : x :: back <:+ path) (h' : x :: back' <:+ path) : back = back' := by
  -- The shorter one ends the longer one, and `x` stands in the longer one only once.
  have hcase : ∀ a b : List String, x :: a <:+ path → x :: b <:+ path → a.length ≤ b.length →
      a = b := by
    intro a b ha hb hle
    have hs : x :: a <:+ x :: b := List.suffix_of_suffix_length_le ha hb (Nat.succ_le_succ hle)
    rcases List.suffix_cons_iff.mp hs with he | hs
    · exact (List.cons.inj he).2
    · have hnb := List.nodup_cons.mp (hb.sublist.nodup hn)
      exact absurd (hs.subset List.mem_cons_self) hnb.1
  rcases Nat.le_total back.length back'.length with hle | hle
  · exact hcase back back' h h' hle
  · exact (hcase back' back h' h hle).symm

namespace Search

/-! ## The cycle that an import closes -/

/-- The cycle starts at the first place of the module on the path. -/
theorem closing_of_path {s : Search} {x : String} {front back : List String}
    (hpath : s.path = front ++ x :: back) (hx : x ∉ front) : s.closing x = roundTrip x back := by
  have hfront : ∀ a ∈ front, (a != x) = true := fun a ha => bne_iff_ne.mpr (fun e => hx (e ▸ ha))
  rw [closing, hpath, List.dropWhile_append_of_pos hfront, List.dropWhile_cons_of_neg (by simp)]
  rfl

theorem closing_eq {s : Search} {x : String} (h : x ∈ s.path) :
    ∃ back, s.closing x = roundTrip x back ∧ x :: back <:+ s.path := by
  obtain ⟨front, back, hpath, hx⟩ := List.eq_append_cons_of_mem h
  exact ⟨back, closing_of_path hpath hx, hpath ▸ List.suffix_append front (x :: back)⟩

/-- The cycle that an import of the innermost module closes runs along the path. -/
theorem closing_spec {g : Graph} {s : Search} {m next : String} {rest : List String}
    {outer : List (String × List String)} (h : Shape g s)
    (hstack : s.stack = (m, next :: rest) :: outer) (hnext : s.mark next = .open) :
    ∃ back, s.closing next = roundTrip next back ∧ next :: back <:+ s.path ∧
      (next :: back).getLast (List.cons_ne_nil next back) = m ∧
      (roundTrip next back).IsChain g.Edge := by
  obtain ⟨back, hclosing, hsuffix⟩ := closing_eq ((h.open_iff next).mp hnext)
  have hlast : (next :: back).getLast (List.cons_ne_nil next back) = m := by
    obtain ⟨front, hfront⟩ := hsuffix
    have hm := h.getLast?_path hstack
    rw [← hfront, List.getLast?_append_of_ne_nil front (List.cons_ne_nil next back),
      List.getLast?_eq_some_getLast (List.cons_ne_nil next back), Option.some.injEq] at hm
    exact hm
  refine ⟨back, hclosing, hsuffix, hlast, ?_⟩
  refine (h.path_chain.suffix hsuffix).append (List.isChain_singleton next) (fun u hu v hv => ?_)
  rw [List.getLast?_eq_some_getLast (List.cons_ne_nil next back), hlast, Option.mem_some_iff] at hu
  rw [List.head?_cons, Option.mem_some_iff] at hv
  rw [← hu, ← hv]
  exact h.edge_next hstack

/-! ## The record along the search -/

/-- What is known of the cycles on record. -/
structure Recorded (g : Graph) (s : Search) : Prop where
  text : ∀ entry ∈ s.cycles, entry.1 = arrows entry.2
  keys_nodup : s.cycles.keys.Nodup
  /-- A cycle follows imports, and its modules lie in the order in which they were met.  As long as
  the last of them is expanded, they are a part of the path. -/
  tour : ∀ c ∈ s.cycles.values, ∃ x back, c = roundTrip x back ∧
    (roundTrip x back).IsChain g.Edge ∧ (x :: back).Sublist s.marks.keys ∧
    ((x :: back).getLast (List.cons_ne_nil x back) ∈ s.path → x :: back <:+: s.path)
  closing_nodup : (s.cycles.values.map closingEdge).Nodup

namespace Recorded

variable {g : Graph} {s : Search}

theorem initial (g : Graph) : Recorded g (initial g) where
  text := fun _ h => absurd h List.not_mem_nil
  keys_nodup := List.nodup_nil
  tour := fun _ h => absurd h List.not_mem_nil
  closing_nodup := List.nodup_nil

theorem starts (h : Recorded g s) (starts : List String) : Recorded g { s with starts } :=
  ⟨h.text, h.keys_nodup, h.tour, h.closing_nodup⟩

theorem advance (h : Recorded g s) (m : String) (rest : List String)
    (outer : List (String × List String)) : Recorded g (s.advance m rest outer) :=
  ⟨h.text, h.keys_nodup, h.tour, h.closing_nodup⟩

theorem enter (h : Recorded g s) (hs : Shape g s) {m : String} (hm : s.mark m = .unseen) :
    Recorded g (s.enter g m) := by
  have hnot : m ∉ s.marks.keys := fun hmem => (hs.met_iff m).mp hmem hm
  refine ⟨h.text, h.keys_nodup, fun c hc => ?_, h.closing_nodup⟩
  obtain ⟨x, back, rfl, hchain, hmet, hpath⟩ := h.tour c hc
  refine ⟨x, back, rfl, hchain, ?_, fun hlast => ?_⟩
  · show (x :: back).Sublist (s.marks.put m .open).keys
    rw [Table.keys_put_of_not_mem _ hnot]
    exact hmet.trans (List.sublist_append_left _ _)
  · have hold : (x :: back).getLast (List.cons_ne_nil x back) ∈ s.path := by
      rcases List.mem_append.mp hlast with hlast | hlast
      · exact hlast
      · -- The last module of a cycle was met before, the one that is entered was not.
        rw [List.mem_singleton] at hlast
        exact absurd (hmet.subset (hlast ▸ List.getLast_mem _)) hnot
    exact (hpath hold).trans (List.prefix_append s.path [m]).isInfix

theorem leave (h : Recorded g s) (hs : Shape g s) {m : String} {rest : List String}
    {outer : List (String × List String)} (hstack : s.stack = (m, rest) :: outer) :
    Recorded g (s.leave m outer) := by
  have hpath := hs.path_concat hstack
  have hopen : s.mark m = .open := (hs.open_iff m).mpr (hpath ▸ List.mem_concat_self)
  have hmem : m ∈ s.marks.keys := by
    rw [hs.met_iff, hopen]
    exact Mark.noConfusion
  refine ⟨h.text, h.keys_nodup, fun c hc => ?_, h.closing_nodup⟩
  obtain ⟨x, back, rfl, hchain, hmet, hpart⟩ := h.tour c hc
  refine ⟨x, back, rfl, hchain, ?_, fun hlast => ?_⟩
  · show (x :: back).Sublist (s.marks.put m .closed).keys
    rw [Table.keys_put_of_mem _ hmem]
    exact hmet
  · show x :: back <:+: s.path.dropLast
    have hlast : (x :: back).getLast (List.cons_ne_nil x back) ∈ s.path.dropLast := hlast
    have hold := hpart ((List.dropLast_sublist s.path).subset hlast)
    have hnodup := hs.path_nodup
    rw [hpath, List.dropLast_concat] at hlast ⊢
    rw [hpath] at hold hnodup
    rcases List.infix_concat_iff.mp hold with hsuffix | hpart
    · -- The part that ends in `m` has a last module that is still on the path; that is not `m`.
      obtain ⟨front, hfront⟩ := hsuffix
      have hm : (x :: back).getLast (List.cons_ne_nil x back) = m := by
        have := congrArg List.getLast? hfront
        rw [List.getLast?_concat, List.getLast?_append_of_ne_nil front (List.cons_ne_nil x back),
          List.getLast?_eq_some_getLast (List.cons_ne_nil x back), Option.some.injEq] at this
        exact this
      rw [hm] at hlast
      exact absurd rfl ((List.nodup_append.mp hnodup).2.2 m hlast m (List.mem_singleton_self m))
    · exact hpart

/-- A cycle with the same last import as one that the innermost module closes is that cycle. -/
theorem eq_of_closingEdge (h : Recorded g s) (hs : Shape g s) {m next : String}
    {rest back : List String} {outer : List (String × List String)}
    (hstack : s.stack = (m, next :: rest) :: outer) (hsuffix : next :: back <:+ s.path)
    (hlast : (next :: back).getLast (List.cons_ne_nil next back) = m) {c : List String}
    (hc : c ∈ s.cycles.values) (he : closingEdge c = closingEdge (roundTrip next back)) :
    c = roundTrip next back := by
  obtain ⟨x, back', rfl, _, _, hpart⟩ := h.tour c hc
  rw [closingEdge_roundTrip, closingEdge_roundTrip, hlast, Prod.mk.injEq] at he
  obtain ⟨hm, rfl⟩ := he
  have hpath := hs.getLast?_path hstack
  have hon : m ∈ s.path := List.mem_of_getLast? hpath
  have hlast' : (x :: back').getLast? = some m := by
    rw [List.getLast?_eq_some_getLast (List.cons_ne_nil x back'), hm]
  have hsuffix' := suffix_of_infix_of_getLast? hs.path_nodup (hpart (hm ▸ hon)) hlast' hpath
  rw [eq_of_suffix_of_suffix hs.path_nodup hsuffix' hsuffix]

theorem close (h : Recorded g s) (hs : Shape g s) {m next : String} {rest : List String}
    {outer : List (String × List String)} (hstack : s.stack = (m, next :: rest) :: outer)
    (hnext : s.mark next = .open) :
    Recorded g ((s.advance m rest outer).report (s.closing next)) := by
  obtain ⟨back, hclosing, hsuffix, hlast, hchain⟩ := closing_spec hs hstack hnext
  rw [hclosing]
  rcases report_cases (s.advance m rest outer) (roundTrip next back) with ⟨_, he⟩ | ⟨hnew, he⟩
  · rw [he]
    exact h.advance m rest outer
  rw [he]
  have hkey : arrows (roundTrip next back) ∉ s.cycles.keys := fun hmem =>
    Bool.eq_false_iff.mp hnew (Table.has_iff_mem_keys.mpr hmem)
  have hvalues : ∀ c, c ∈ Table.values (s.cycles ++ [(arrows (roundTrip next back),
      roundTrip next back)]) → c ∈ s.cycles.values ∨ c = roundTrip next back := by
    intro c hc
    rw [Table.values_append, List.mem_append] at hc
    exact hc.imp_right List.mem_singleton.mp
  refine ⟨fun entry hentry => ?_, ?_, fun c hc => ?_, ?_⟩
  · rcases List.mem_append.mp hentry with hentry | hentry
    · exact h.text entry hentry
    · rw [List.mem_singleton.mp hentry]
  · show (Table.keys (s.cycles ++ _)).Nodup
    rw [Table.keys_append]
    refine List.nodup_append.mpr ⟨h.keys_nodup, List.nodup_singleton _, ?_⟩
    rintro key hk _ hk' rfl
    have hk' : key = arrows (roundTrip next back) := List.mem_singleton.mp hk'
    exact hkey (hk' ▸ hk)
  · rcases hvalues c hc with hc | rfl
    · exact h.tour c hc
    · exact ⟨next, back, rfl, hchain, hsuffix.sublist.trans hs.path_sublist,
        fun _ => hsuffix.isInfix⟩
  · show ((Table.values (s.cycles ++ _)).map closingEdge).Nodup
    rw [Table.values_append, List.map_append]
    refine List.nodup_append.mpr ⟨h.closing_nodup, List.nodup_singleton _, ?_⟩
    rintro edge hedge _ hedge' rfl
    obtain ⟨c, hc, rfl⟩ := List.mem_map.mp hedge
    -- The same last import means the same cycle, and that one is on record under its text.
    have hsame := h.eq_of_closingEdge hs hstack hsuffix hlast hc (List.mem_singleton.mp hedge')
    obtain ⟨entry, hentry, hvalue⟩ := List.mem_map.mp hc
    have htext := h.text entry hentry
    rw [hvalue, hsame] at htext
    exact hkey (htext ▸ List.mem_map_of_mem hentry)

theorem move {s' : Search} (h : Recorded g s) (hs : Shape g s) (hmove : Move g s s') :
    Recorded g s' := by
  cases hmove with
  | skip _ _ _ => exact h.starts _
  | @start m starts _ _ hm => exact (h.starts starts).enter (hs.starts starts) hm
  | leave hstack => exact h.leave hs hstack
  | descend hstack hnext => exact (h.advance _ _ _).enter (hs.advance hstack) hnext
  | close hstack hnext => exact h.close hs hstack hnext
  | pass _ _ => exact h.advance _ _ _

end Recorded

theorem final_recorded (g : Graph) : Recorded g (final g) :=
  (final_induction (P := fun s => Shape g s ∧ Recorded g s)
    ⟨Shape.initial g, Recorded.initial g⟩
    (fun _ _ h hmove => ⟨h.1.move hmove, h.2.move h.1 hmove⟩)).2

end Search

/-! ## The cycles found -/

theorem roundTrip_of_mem_all {g : Graph} {c : List String} (hc : c ∈ all g) :
    ∃ x back, c = roundTrip x back ∧ (roundTrip x back).IsChain g.Edge ∧
      (x :: back).Sublist (Search.final g).marks.keys := by
  obtain ⟨x, back, he, hchain, hmet, _⟩ := (Search.final_recorded g).tour c hc
  exact ⟨x, back, he, hchain, hmet⟩

/-- Two cycles along the same modules are the same. -/
theorem eq_of_perm_of_mem_all {g : Graph} {c c' : List String} (hc : c ∈ all g) (hc' : c' ∈ all g)
    (h : c.dropLast.Perm c'.dropLast) : c = c' := by
  obtain ⟨x, back, rfl, _, hmet⟩ := roundTrip_of_mem_all hc
  obtain ⟨x', back', rfl, _, hmet'⟩ := roundTrip_of_mem_all hc'
  rw [dropLast_roundTrip, dropLast_roundTrip] at h
  have he := eq_of_sublist_of_perm (Search.final_shape g).met_nodup hmet hmet' h
  obtain ⟨rfl, rfl⟩ := List.cons.inj he
  rfl

theorem all_nodup (g : Graph) : (all g).Nodup :=
  (Search.final_recorded g).closing_nodup.of_map closingEdge

/-- Every cycle found goes along imports through different modules and back to where it started,
and no other one is a rotation of it.  This holds whatever the modules are called. -/
theorem detect_genuine (g : Graph) :
    (∀ c ∈ (Detector.fresh.detect g).1,
      2 ≤ c.length ∧ c.head? = c.getLast? ∧ c.dropLast.Nodup ∧ c.IsChain g.Edge) ∧
    (Detector.fresh.detect g).1.Pairwise fun c c' => ¬ c.dropLast.IsRotated c'.dropLast := by
  show (∀ c ∈ all g, _) ∧ (all g).Pairwise _
  constructor
  · intro c hc
    obtain ⟨x, back, rfl, hchain, hmet⟩ := roundTrip_of_mem_all hc
    refine ⟨?_, ?_, ?_, hchain⟩
    · rw [roundTrip, List.length_append, List.length_cons, List.length_singleton]
      omega
    · rw [roundTrip, List.getLast?_concat]
      rfl
    · rw [dropLast_roundTrip]
      exact hmet.nodup (Search.final_shape g).met_nodup
  · refine (all_nodup g).imp_of_mem (fun hc hc' hne hrotated => ?_)
    exact hne (eq_of_perm_of_mem_all hc hc' hrotated.perm)

end Cycle
end ModuleAudit
