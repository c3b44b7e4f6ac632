import Mathlib.Order.WellFounded
import ModuleAudit.Proofs.Cycle.Record

/-
Every cycle of the graph is broken by the closing imports of the cycles found.

While the search runs, an import of a module that is being expanded is still to be looked at, or it
leads to a closed module, or it is on record, or it leads to the next module on the path.  When a
module is left, only the second and the third are possible.  So from a closed module the imports
that are not on record lead to modules that were closed earlier, and no chain of such imports goes
on for ever.  `Settled` carries this as accessibility, which makes no use of the order in which
modules are closed.

An import is on record under the text of a cycle.  If no name of a module contains an arrow, the
text tells the modules, and the cycle that is kept under it ends with that very import.
-/

namespace ModuleAudit
namespace Cycle

/-! ## Texts of cycles -/

def NoArrow (cs : List Char) : Prop := ¬ ['-', '>'] <:+: cs

/-- What can follow a name in the text of a path. -/
def IsTail (cs : List Char) : Prop := cs = [] ∨ ∃ rest, cs = ' ' :: '-' :: '>' :: ' ' :: rest

/-- A name that goes on where another one ends would contain the arrow that follows. -/
theorem eq_nil_of_append_tail {x z a b : List Char} (h : NoArrow (x ++ z)) (ha : IsTail a)
    (hb : IsTail b) (he : a = z ++ b) : z = [] := by
  rcases ha with rfl | ⟨rest, rfl⟩
  · exact (List.append_eq_nil_iff.mp he.symm).1
  rcases z with _ | ⟨c, _ | ⟨d, _ | ⟨e, z⟩⟩⟩
  · rfl
  · -- The arrow would have to go on behind its blank.
    rcases hb with rfl | ⟨_, rfl⟩ <;> simp at he
  · rcases hb with rfl | ⟨_, rfl⟩ <;> simp at he
  · simp only [List.cons_append, List.cons.injEq] at he
    obtain ⟨rfl, rfl, rfl, _⟩ := he
    exact absurd ⟨x ++ [' '], z, by simp⟩ h

theorem append_tail_inj {x y a b : List Char} (hx : NoArrow x) (hy : NoArrow y) (ha : IsTail a)
    (hb : IsTail b) (h : x ++ a = y ++ b) : x = y ∧ a = b := by
  rcases List.append_eq_append_iff.mp h with ⟨z, rfl, he⟩ | ⟨z, rfl, he⟩
  · have hz := eq_nil_of_append_tail hy ha hb he
    subst hz
    exact ⟨(List.append_nil x).symm, he⟩
  · have hz := eq_nil_of_append_tail hx hb ha he
    subst hz
    exact ⟨List.append_nil y, he.symm⟩

/-- The text behind the first name. -/
def tailText (names : List String) : List Char :=
  names.flatMap fun name => ' ' :: '-' :: '>' :: ' ' :: name.toList

theorem isTail_tailText (names : List String) : IsTail (tailText names) := by
  cases names with
  | nil => exact Or.inl rfl
  | cons name names => exact Or.inr ⟨name.toList ++ tailText names, rfl⟩

theorem toList_arrows_cons (name : String) (names : List String) :
    (arrows (name :: names)).toList = name.toList ++ tailText names := by
  induction names generalizing name with
  | nil =>
    rw [arrows, String.intercalate_singleton]
    exact (List.append_nil _).symm
  | cons next names ih =>
    rw [arrows, String.intercalate_cons_cons, ← arrows, String.toList_append, String.toList_append,
      ih, List.append_assoc]
    rfl

theorem tailText_inj {names names' : List String} (h : ∀ m ∈ names, NoArrow m.toList)
    (h' : ∀ m ∈ names', NoArrow m.toList) (he : tailText names = tailText names') :
    names = names' := by
  induction names generalizing names' with
  | nil =>
    cases names' with
    | nil => rfl
    | cons name' names' => exact absurd he.symm (List.cons_ne_nil _ _)
  | cons name names ih =>
    cases names' with
    | nil => exact absurd he (List.cons_ne_nil _ _)
    | cons name' names' =>
      have he : name.toList ++ tailText names = name'.toList ++ tailText names' :=
        (List.append_right_inj [' ', '-', '>', ' ']).mp he
      obtain ⟨hname, hrest⟩ := append_tail_inj (h name List.mem_cons_self)
        (h' name' List.mem_cons_self) (isTail_tailText names) (isTail_tailText names') he
      rw [String.toList_inj.mp hname, ih (fun m hm => h m (List.mem_cons_of_mem _ hm))
        (fun m hm => h' m (List.mem_cons_of_mem _ hm)) hrest]

/-- The text of a path without arrows in its names tells the path. -/
theorem arrows_inj {c c' : List String} (hne : c ≠ []) (hne' : c' ≠ [])
    (h : ∀ m ∈ c, NoArrow m.toList) (h' : ∀ m ∈ c', NoArrow m.toList)
    (he : arrows c = arrows c') : c = c' := by
  obtain ⟨name, names, rfl⟩ := List.exists_cons_of_ne_nil hne
  obtain ⟨name', names', rfl⟩ := List.exists_cons_of_ne_nil hne'
  have he := String.toList_inj.mpr he
  rw [toList_arrows_cons, toList_arrows_cons] at he
  obtain ⟨hname, hrest⟩ := append_tail_inj (h name List.mem_cons_self)
    (h' name' List.mem_cons_self) (isTail_tailText names) (isTail_tailText names') he
  rw [String.toList_inj.mp hname, tailText_inj (fun m hm => h m (List.mem_cons_of_mem _ hm))
    (fun m hm => h' m (List.mem_cons_of_mem _ hm)) hrest]

namespace Search

/-! ## Imports that are accounted for -/

/-- A cycle that ends with the import of `d` by `m` has its text on record. -/
def Reported (g : Graph) (s : Search) (m d : String) : Prop :=
  ∃ c, closingEdge c = (m, d) ∧ c ≠ [] ∧ (∀ x ∈ c, g.Knows x) ∧ arrows c ∈ s.cycles.keys

/-- An import of a module on the path that was looked at. -/
def Accounted (g : Graph) (s : Search) (m d : String) : Prop :=
  s.mark d = .closed ∨ Reported g s m d ∨ [m, d] <:+: s.path

/-- Module `m` imports `d`, and no cycle on record ends with that import. -/
def Kept (g : Graph) (s : Search) (d m : String) : Prop := g.Edge m d ∧ ¬ Reported g s m d

theorem Reported.report {g : Graph} {s : Search} {m d : String} (h : Reported g s m d)
    (c : List String) : Reported g (s.report c) m d := by
  obtain ⟨c', hedge, hne, hknows, hkey⟩ := h
  refine ⟨c', hedge, hne, hknows, ?_⟩
  rcases report_cases s c with ⟨_, he⟩ | ⟨_, he⟩
  · rw [he]
    exact hkey
  · rw [he]
    show arrows c' ∈ Table.keys (s.cycles ++ _)
    rw [Table.keys_append]
    exact List.mem_append_left _ hkey

theorem arrows_mem_keys_report (s : Search) (c : List String) :
    arrows c ∈ (s.report c).cycles.keys := by
  rcases report_cases s c with ⟨hhas, he⟩ | ⟨_, he⟩
  · rw [he]
    exact Table.has_iff_mem_keys.mp hhas
  · rw [he]
    show arrows c ∈ Table.keys (s.cycles ++ [(arrows c, c)])
    rw [Table.keys_append]
    exact List.mem_append_right _ List.mem_cons_self

theorem accounted_iff {g : Graph} {s : Search} {m d : String} :
    Accounted g s m d ↔ s.Followed m d ∨ Reported g s m d := by
  rw [Accounted, Followed, or_right_comm, or_assoc]

theorem Accounted.enter {g : Graph} {s : Search} {m d x : String} (h : Accounted g s m d)
    (hx : s.mark x = .unseen) : Accounted g (s.enter g x) m d :=
  accounted_iff.mpr ((accounted_iff.mp h).imp (·.enter hx) id)

theorem Accounted.report {g : Graph} {s : Search} {m d : String} (h : Accounted g s m d)
    (c : List String) : Accounted g (s.report c) m d :=
  accounted_iff.mpr ((accounted_iff.mp h).imp (·.report c) (·.report c))

theorem Accounted.leave {g : Graph} {s : Search} {m d x : String} {rest : List String}
    {outer : List (String × List String)} (h : Accounted g s m d) (hs : Shape g s)
    (hstack : s.stack = (x, rest) :: outer) : Accounted g (s.leave x outer) m d :=
  accounted_iff.mpr ((accounted_iff.mp h).imp (·.leave hs hstack) id)

/-- The innermost module is followed by none on the path. -/
theorem not_infix_of_innermost {g : Graph} {s : Search} {m d : String} {rest : List String}
    {outer : List (String × List String)} (hs : Shape g s) (hstack : s.stack = (m, rest) :: outer) :
    ¬ [m, d] <:+: s.path := by
  rintro ⟨front, after, he⟩
  have hnodup := hs.path_nodup
  have hlast := hs.getLast?_path hstack
  have hsplit : s.path = (front ++ [m]) ++ (d :: after) := by rw [← he]; simp
  rw [hsplit] at hnodup hlast
  rw [List.getLast?_append_of_ne_nil _ (List.cons_ne_nil _ _)] at hlast
  exact (List.nodup_append.mp hnodup).2.2 m (List.mem_append_right _ List.mem_cons_self) m
    (List.mem_of_getLast? hlast) rfl

/-- The import that closes a cycle is on record once the cycle was reported. -/
theorem reported_close {g : Graph} {s : Search} {m next : String} {rest : List String}
    {outer : List (String × List String)} (hs : Shape g s)
    (hstack : s.stack = (m, next :: rest) :: outer) (hnext : s.mark next = .open) :
    Reported g ((s.advance m rest outer).report (s.closing next)) m next := by
  obtain ⟨back, hclosing, _, hlast, hchain⟩ := closing_spec hs hstack hnext
  rw [hclosing]
  refine ⟨roundTrip next back, ?_, List.cons_ne_nil _ _, fun x hx => ?_,
    arrows_mem_keys_report _ _⟩
  · rw [closingEdge_roundTrip, hlast]
  · obtain ⟨y, hy⟩ := exists_edge_of_mem_roundTrip hchain hx
    exact hy.knows_left

/-! ## Closed modules -/

/-- What is known of the imports of the modules met so far. -/
structure Settled (g : Graph) (s : Search) : Prop where
  frames : ∀ m rest, (m, rest) ∈ s.stack → ∀ d, g.Edge m d → d ∈ rest ∨ Accounted g s m d
  /-- Chains of imports that are not on record come to an end. -/
  closed_acc : ∀ m, s.mark m = .closed → Acc (Kept g s) m
  started : ∀ m ∈ g.forward.keys, m ∈ s.starts ∨ s.mark m ≠ .unseen

namespace Settled

variable {g : Graph} {s : Search}

theorem initial (g : Graph) : Settled g (initial g) where
  frames := fun _ _ h => absurd h List.not_mem_nil
  closed_acc := fun _ h => Mark.noConfusion h
  started := fun _ h => Or.inl h

theorem skip (h : Settled g s) {m : String} {starts : List String}
    (hstarts : s.starts = m :: starts) (hm : s.mark m ≠ .unseen) : Settled g { s with starts } where
  frames := h.frames
  closed_acc := h.closed_acc
  started := by
    intro n hn
    rcases h.started n hn with hstart | hseen
    · rw [hstarts] at hstart
      rcases List.mem_cons.mp hstart with rfl | hstart
      · exact Or.inr hm
      · exact Or.inl hstart
    · exact Or.inr hseen

/-- Entering a module, when all frames but those of the new stack are as before. -/
theorem enter {x : String} (hx : s.mark x = .unseen)
    (hframes : ∀ m rest, (m, rest) ∈ s.stack → ∀ d, g.Edge m d →
      d ∈ rest ∨ Accounted g (s.enter g x) m d)
    (hclosed : ∀ m, s.mark m = .closed → Acc (Kept g s) m)
    (hstarted : ∀ m ∈ g.forward.keys, m ∈ s.starts ∨ s.mark m ≠ .unseen ∨ m = x) :
    Settled g (s.enter g x) where
  frames := by
    intro m rest hmem d hd
    rcases List.mem_cons.mp hmem with he | hmem
    · obtain ⟨rfl, rfl⟩ := Prod.mk.inj he
      exact Or.inl hd
    · exact hframes m rest hmem d hd
  closed_acc := by
    intro m hm
    rw [mark_enter] at hm
    by_cases he : m = x
    · rw [if_pos he] at hm
      exact Mark.noConfusion hm
    · rw [if_neg he] at hm
      exact hclosed m hm
  started := by
    intro m hm
    rw [mark_enter]
    rcases hstarted m hm with hstart | hseen | rfl
    · exact Or.inl hstart
    · have hne : m ≠ x := fun e => hseen (e ▸ hx)
      exact Or.inr (by rw [if_neg hne]; exact hseen)
    · exact Or.inr (by rw [if_pos rfl]; exact Mark.noConfusion)

theorem start (h : Settled g s) {m : String} {starts : List String} (hstack : s.stack = [])
    (hstarts : s.starts = m :: starts) (hm : s.mark m = .unseen) :
    Settled g (Search.enter g { s with starts } m) := by
  refine enter hm (fun n rest hmem => ?_) h.closed_acc (fun n hn => ?_)
  · rw [show ({ s with starts } : Search).stack = [] from hstack] at hmem
    exact absurd hmem List.not_mem_nil
  · rcases h.started n hn with hstart | hseen
    · rw [hstarts] at hstart
      rcases List.mem_cons.mp hstart with rfl | hstart
      · exact Or.inr (Or.inr rfl)
      · exact Or.inl hstart
    · exact Or.inr (Or.inl hseen)

/-- The frames once the next import of the innermost module was looked at. -/
theorem frames_advance (h : Settled g s) {m next : String} {rest : List String}
    {outer : List (String × List String)} (hstack : s.stack = (m, next :: rest) :: outer)
    {n d : String} {rest' : List String} (hmem : (n, rest') ∈ (m, rest) :: outer)
    (hd : g.Edge n d) : d ∈ rest' ∨ Accounted g s n d ∨ n = m ∧ d = next := by
  rcases List.mem_cons.mp hmem with he | hmem
  · obtain ⟨rfl, rfl⟩ := Prod.mk.inj he
    rcases h.frames n (next :: rest') (hstack ▸ List.mem_cons_self) d hd with hd | hd
    · rcases List.mem_cons.mp hd with rfl | hd
      · exact Or.inr (Or.inr ⟨rfl, rfl⟩)
      · exact Or.inl hd
    · exact Or.inr (Or.inl hd)
  · exact (h.frames n rest' (hstack ▸ List.mem_cons_of_mem _ hmem) d hd).imp_right Or.inl

theorem pass (h : Settled g s) {m next : String} {rest : List String}
    {outer : List (String × List String)} (hstack : s.stack = (m, next :: rest) :: outer)
    (hnext : s.mark next = .closed) : Settled g (s.advance m rest outer) where
  frames := by
    intro n rest' hmem d hd
    rcases h.frames_advance hstack hmem hd with hd | hd | ⟨rfl, rfl⟩
    · exact Or.inl hd
    · exact Or.inr hd
    · exact Or.inr (Or.inl hnext)
  closed_acc := h.closed_acc
  started := h.started

theorem leave (h : Settled g s) (hs : Shape g s) {m : String}
    {outer : List (String × List String)} (hstack : s.stack = (m, []) :: outer) :
    Settled g (s.leave m outer) where
  frames := by
    intro n rest hmem d hd
    exact (h.frames n rest (hstack ▸ List.mem_cons_of_mem _ hmem) d hd).imp_right
      (·.leave hs hstack)
  closed_acc := by
    intro n hn
    rw [mark_leave] at hn
    by_cases he : n = m
    · subst he
      refine Acc.intro n (fun d hd => ?_)
      rcases h.frames n [] (hstack ▸ List.mem_cons_self) d hd.1 with hrest | hclosed | hrep | hpath
      · exact absurd hrest List.not_mem_nil
      · exact h.closed_acc d hclosed
      · exact absurd hrep hd.2
      · exact absurd hpath (not_infix_of_innermost hs hstack)
    · rw [if_neg he] at hn
      exact h.closed_acc n hn
  started := by
    intro n hn
    rw [mark_leave]
    refine (h.started n hn).imp_right (fun hseen => ?_)
    by_cases he : n = m
    · rw [if_pos he]
      exact Mark.noConfusion
    · rw [if_neg he]
      exact hseen

theorem descend (h : Settled g s) (hs : Shape g s) {m next : String} {rest : List String}
    {outer : List (String × List String)} (hstack : s.stack = (m, next :: rest) :: outer)
    (hnext : s.mark next = .unseen) :
    Settled g ((s.advance m rest outer).enter g next) := by
  refine enter hnext (fun n rest' hmem d hd => ?_) h.closed_acc
    (fun n hn => (h.started n hn).imp_right Or.inl)
  rcases h.frames_advance hstack hmem hd with hd | hd | ⟨rfl, rfl⟩
  · exact Or.inl hd
  · exact Or.inr (Accounted.enter (s := s.advance m rest outer) hd hnext)
  · exact Or.inr (accounted_iff.mpr (Or.inl (Followed.descend hs hstack)))

theorem close (h : Settled g s) (hs : Shape g s) {m next : String} {rest : List String}
    {outer : List (String × List String)} (hstack : s.stack = (m, next :: rest) :: outer)
    (hnext : s.mark next = .open) :
    Settled g ((s.advance m rest outer).report (s.closing next)) where
  frames := by
    intro n rest' hmem d hd
    rw [report_stack] at hmem
    rcases h.frames_advance hstack hmem hd with hd | hd | ⟨rfl, rfl⟩
    · exact Or.inl hd
    · exact Or.inr (Accounted.report (s := s.advance m rest outer) hd _)
    · exact Or.inr (Or.inr (Or.inl (reported_close hs hstack hnext)))
  closed_acc := by
    intro n hn
    rw [mark_report] at hn
    -- With more on record, fewer imports are kept.
    exact Subrelation.accessible
      (fun hk => ⟨hk.1, fun hr => hk.2 (Reported.report (s := s.advance m rest outer) hr _)⟩)
      (h.closed_acc n hn)
  started := by
    intro n hn
    rw [report_starts, mark_report]
    exact h.started n hn

theorem move {s' : Search} (h : Settled g s) (hs : Shape g s) (hmove : Move g s s') :
    Settled g s' := by
  cases hmove with
  | skip _ hstarts hm => exact h.skip hstarts hm
  | start hstack hstarts hm => exact h.start hstack hstarts hm
  | leave hstack => exact h.leave hs hstack
  | descend hstack hnext => exact h.descend hs hstack hnext
  | close hstack hnext => exact h.close hs hstack hnext
  | pass hstack hnext => exact h.pass hstack hnext

end Settled

theorem final_settled (g : Graph) : Settled g (final g) :=
  (final_induction (P := fun s => Shape g s ∧ Settled g s)
    ⟨Shape.initial g, Settled.initial g⟩
    (fun _ _ h hmove => ⟨h.1.move hmove, h.2.move h.1 hmove⟩)).2

/-- In the end every module that was given to the graph is closed. -/
theorem final_mark (g : Graph) {m : String} (h : m ∈ g.forward.keys) :
    (final g).mark m = .closed := by
  obtain ⟨hstack, hstarts⟩ := final_done g
  refine (final_shape g).mark_eq_closed hstack ?_
  rcases (final_settled g).started m h with hstart | hseen
  · rw [hstarts] at hstart
    exact absurd hstart List.not_mem_nil
  · exact hseen

theorem final_wellFounded (g : Graph) : WellFounded (Kept g (final g)) := by
  refine ⟨fun m => ?_⟩
  by_cases hm : m ∈ g.forward.keys
  · exact (final_settled g).closed_acc m (final_mark g hm)
  · refine Acc.intro m (fun d hd => ?_)
    exact absurd (Graph.contains_iff.mp hd.1.contains) hm

end Search

/-! ## Acyclic graphs -/

theorem not_transGen_of_wellFounded {r : String → String → Prop} (h : WellFounded r) (m : String) :
    ¬ Relation.TransGen (fun a b => r b a) m m := by
  intro hm
  have hm : Relation.TransGen r m m := Relation.transGen_swap.mp hm
  exact h.transGen.irrefl.irrefl m hm

/-- All modules of a cycle lead to one another. -/
theorem reaches_of_roundTrip {g : Graph} {x : String} {back : List String}
    (h : (roundTrip x back).IsChain g.Edge) {y : String} (hy : y ∈ roundTrip x back) :
    Relation.ReflTransGen g.Edge x y ∧ Relation.ReflTransGen g.Edge y x := by
  constructor
  · refine h.induction (fun z => Relation.ReflTransGen g.Edge x z) _ ?_ ?_ y hy
    · exact fun a b hab ha => ha.tail hab
    · exact fun _ => .refl
  · refine h.backwards_induction (fun z => Relation.ReflTransGen g.Edge z x) _ ?_ ?_ y hy
    · exact fun a b hab hb => .head hab hb
    · intro _
      rw [show (roundTrip x back).getLast _ = x from List.getLast_concat]

theorem cyclic_of_roundTrip {g : Graph} {x : String} {back : List String}
    (h : (roundTrip x back).IsChain g.Edge) : g.Cyclic x := by
  cases back with
  | nil => exact .single (List.isChain_pair.mp h)
  | cons y back =>
    have hedge : g.Edge x y := (List.isChain_cons_cons.mp h).1
    exact .head' hedge (reaches_of_roundTrip h (List.mem_cons_of_mem x List.mem_cons_self)).2

/-- No cycle is found only in a graph that has none. -/
theorem all_eq_nil_iff (g : Graph) : all g = [] ↔ ∀ m, ¬ g.Cyclic m := by
  constructor
  · intro hnil m hm
    have hcycles : (Search.final g).cycles = [] := List.map_eq_nil_iff.mp hnil
    refine not_transGen_of_wellFounded (Search.final_wellFounded g) m ?_
    refine Relation.TransGen.mono (fun a b hab => ⟨hab, ?_⟩) m m hm
    rintro ⟨c, _, _, _, hkey⟩
    rw [hcycles] at hkey
    exact absurd hkey List.not_mem_nil
  · intro hacyclic
    refine List.eq_nil_iff_forall_not_mem.mpr (fun c hc => ?_)
    obtain ⟨x, back, rfl, hchain, _⟩ := roundTrip_of_mem_all hc
    exact hacyclic x (cyclic_of_roundTrip hchain)

/-- Where no name contains an arrow, an import whose cycle has its text on record closes one of the
cycles found. -/
theorem mem_closingEdges_of_reported {g : Graph} (h : ∀ m, g.Knows m → NoArrow m.toList)
    {m d : String} (hr : Search.Reported g (Search.final g) m d) :
    (m, d) ∈ (all g).map closingEdge := by
  obtain ⟨c, hedge, hne, hknows, hkey⟩ := hr
  obtain ⟨entry, hentry, hkey⟩ := List.mem_map.mp hkey
  have hmem : entry.2 ∈ all g := List.mem_map_of_mem hentry
  have htext : arrows c = arrows entry.2 := by
    rw [← (Search.final_recorded g).text entry hentry, ← hkey]
  obtain ⟨x, back, he, hchain, _⟩ := roundTrip_of_mem_all hmem
  have hsame : c = entry.2 := by
    refine arrows_inj hne ?_ (fun y hy => h y (hknows y hy)) (fun y hy => h y ?_) htext
    · rw [he]
      exact List.cons_ne_nil _ _
    · obtain ⟨z, hz⟩ := exists_edge_of_mem_roundTrip hchain (he ▸ hy)
      exact hz.knows_left
  rw [← hedge, hsame]
  exact List.mem_map_of_mem hmem

/-- A module that lies on a cycle of the graph lies on one with the modules of a cycle found: a way
round that misses all closing imports would be left when they are taken away. -/
theorem exists_mem_all_of_cyclic {g : Graph} {m : String} (hm : g.Cyclic m)
    (hbroken : ¬ Relation.TransGen (fun a b => g.Edge a b ∧ (a, b) ∉ (all g).map closingEdge) m m) :
    ∃ c ∈ all g, ∀ x ∈ c, Relation.ReflTransGen g.Edge m x ∧ Relation.ReflTransGen g.Edge x m := by
  by_contra hnone
  -- Each step of the way round stays among the modules that lead back to `m`.
  have hstep : ∀ a b, Relation.ReflTransGen g.Edge m a → g.Edge a b →
      Relation.ReflTransGen g.Edge b m → (a, b) ∉ (all g).map closingEdge := by
    intro a b ha hab hb hmem
    obtain ⟨c, hc, hedge⟩ := List.mem_map.mp hmem
    obtain ⟨y, back, rfl, hchain, _⟩ := roundTrip_of_mem_all hc
    rw [closingEdge_roundTrip, Prod.mk.injEq] at hedge
    obtain ⟨_, rfl⟩ := hedge
    refine hnone ⟨_, hc, fun x hx => ?_⟩
    obtain ⟨hyx, hxy⟩ := reaches_of_roundTrip hchain hx
    exact ⟨(ha.tail hab).trans hyx, hxy.trans hb⟩
  have hway : ∀ b, Relation.TransGen g.Edge m b → Relation.ReflTransGen g.Edge b m →
      Relation.TransGen (fun a b => g.Edge a b ∧ (a, b) ∉ (all g).map closingEdge) m b := by
    intro b hb
    induction hb with
    | single hedge => exact fun hback => .single ⟨hedge, hstep _ _ .refl hedge hback⟩
    | tail hma hab ih =>
      exact fun hback => (ih (.head hab hback)).tail ⟨hab, hstep _ _ hma.to_reflTransGen hab hback⟩
  exact hbroken (hway m hm .refl)

end Cycle

/-! ## Taking imports away -/

namespace Graph

/-- The graph without some imports. -/
def deleteEdges (g : Graph) (edges : List (String × String)) : Graph :=
  { g with
    forward := g.forward.map fun (m, imports) =>
      (m, imports.filter fun d => !edges.contains (m, d)) }

theorem edge_deleteEdges {g : Graph} {edges : List (String × String)} {m d : String} :
    (g.deleteEdges edges).Edge m d ↔ g.Edge m d ∧ (m, d) ∉ edges := by
  have hget : ∀ t : Table (List String),
      Table.get? (t.map fun (m, imports) =>
        (m, imports.filter fun d => !edges.contains (m, d))) m =
      (t.get? m).map fun imports => imports.filter fun d => !edges.contains (m, d) := by
    intro t
    induction t with
    | nil => rfl
    | cons entry rest ih =>
      obtain ⟨k, imports⟩ := entry
      rw [List.map_cons, Table.get?_cons, Table.get?_cons, ih]
      by_cases hk : m = k
      · rw [if_pos hk, if_pos hk, hk, Option.map_some]
      · rw [if_neg hk, if_neg hk]
  show d ∈ ((Table.get? (g.forward.map _) m).getD []) ↔ d ∈ ((g.forward.get? m).getD []) ∧ _
  rw [hget]
  cases g.forward.get? m with
  | none => simp
  | some imports => simp

end Graph

namespace Cycle

/-- If no module has an arrow in its name, the imports that close the cycles found are all
different, and without them the graph has no cycle.  So the modules of some cycle found lie on one
way round with any given module that lies on a cycle, and none is found only if there is none. -/
theorem detect_complete {g : Graph} (h : ∀ m, g.Knows m → ¬ ['-', '>'] <:+: m.toList) :
    let found := (Detector.fresh.detect g).1
    (∀ m, ¬ (g.deleteEdges (found.map closingEdge)).Cyclic m) ∧
      (found.map closingEdge).Nodup ∧
      (∀ m, g.Cyclic m → ∃ c ∈ found, ∀ x ∈ c,
        Relation.ReflTransGen g.Edge m x ∧ Relation.ReflTransGen g.Edge x m) ∧
      (found = [] ↔ ∀ m, ¬ g.Cyclic m) := by
  intro found
  have hbroken : ∀ m, ¬ Relation.TransGen
      (fun a b => g.Edge a b ∧ (a, b) ∉ (all g).map closingEdge) m m := by
    intro m hm
    refine not_transGen_of_wellFounded (Search.final_wellFounded g) m ?_
    refine Relation.TransGen.mono (fun a b hab => ⟨hab.1, fun hr => hab.2 ?_⟩) m m hm
    exact mem_closingEdges_of_reported h hr
  refine ⟨fun m hm => hbroken m ?_, (Search.final_recorded g).closing_nodup,
    fun m hm => exists_mem_all_of_cyclic hm (hbroken m), all_eq_nil_iff g⟩
  exact Relation.TransGen.mono (fun a b hab => Graph.edge_deleteEdges.mp hab) m m hm

/-- Two loops through one module, with an import written twice and one of an unknown module. -/
def twoLoops : Graph :=
  { files := []
    forward := [("a", ["b", "a", "b"]), ("b", ["a", "x"]), ("c", ["b"])]
    reverse := []
    version := 1 }

theorem detect_complete_twoLoops :
    (∀ m, twoLoops.Knows m → ¬ ['-', '>'] <:+: m.toList) ∧
      (Detector.fresh.detect twoLoops).1 = [["a", "b", "a"], ["a", "a"]] ∧
      ∀ m, ¬ (twoLoops.deleteEdges [("b", "a"), ("a", "a")]).Cyclic m := by
  have hnames : ∀ m, twoLoops.Knows m → ¬ ['-', '>'] <:+: m.toList := by
    intro m hm
    have hall : ∀ n ∈ twoLoops.forward.flatMap (fun (k, imports) => k :: imports),
        ¬ ['-', '>'] <:+: n.toList := by decide
    exact hall m hm.mem_table
  exact ⟨hnames, by decide, (detect_complete hnames).1⟩

end Cycle
end ModuleAudit
