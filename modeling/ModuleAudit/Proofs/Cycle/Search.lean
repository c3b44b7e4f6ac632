import Mathlib.Data.List.Chain
import ModuleAudit.Graph.Cycle
import ModuleAudit.Proofs.Graph.Edge

/-
The states of the search for cycles.

`Move` lists the moves of the search, one constructor for each way in which `step?` can go on, and
every invariant is proved move by move.  `Shape` ties the parts of a state together: the path
is the stack read from the outside, the open modules are those on the path, and the keys of the
marks are the modules met so far in the order in which they were met.  `work` counts the moves that
are left and shows that `room` is enough, so that a run ends where there is no move.
-/

namespace ModuleAudit
namespace Cycle
namespace Search

/-- Leaves the innermost module, all of whose imports were looked at. -/
def leave (s : Search) (m : String) (outer : List (String × List String)) : Search :=
  { s with stack := outer, path := s.path.dropLast, marks := s.marks.put m .closed }

/-- Has looked at an import of the innermost module. -/
def advance (s : Search) (m : String) (rest : List String)
    (outer : List (String × List String)) : Search :=
  { s with stack := (m, rest) :: outer }

/-- One move of the search. -/
inductive Move (g : Graph) (s : Search) : Search → Prop where
  /-- The next module to start from was met before. -/
  | skip {m : String} {starts : List String} (hstack : s.stack = [])
      (hstarts : s.starts = m :: starts) (hm : s.mark m ≠ .unseen) : Move g s { s with starts }
  | start {m : String} {starts : List String} (hstack : s.stack = [])
      (hstarts : s.starts = m :: starts) (hm : s.mark m = .unseen) :
      Move g s (enter g { s with starts } m)
  | leave {m : String} {outer : List (String × List String)} (hstack : s.stack = (m, []) :: outer) :
      Move g s (s.leave m outer)
  /-- The next import is of a module that was not met before. -/
  | descend {m next : String} {rest : List String} {outer : List (String × List String)}
      (hstack : s.stack = (m, next :: rest) :: outer) (hnext : s.mark next = .unseen) :
      Move g s ((s.advance m rest outer).enter g next)
  /-- The next import is of a module on the path. -/
  | close {m next : String} {rest : List String} {outer : List (String × List String)}
      (hstack : s.stack = (m, next :: rest) :: outer) (hnext : s.mark next = .open) :
      Move g s ((s.advance m rest outer).report (s.closing next))
  /-- The next import is of a module that was expanded before. -/
  | pass {m next : String} {rest : List String} {outer : List (String × List String)}
      (hstack : s.stack = (m, next :: rest) :: outer) (hnext : s.mark next = .closed) :
      Move g s (s.advance m rest outer)

theorem move_of_step? {g : Graph} {s s' : Search} (h : s.step? g = some s') : Move g s s' := by
  unfold step? at h
  split at h
  · next hstack =>
    split at h
    · exact absurd h (by simp)
    · next m starts hstarts =>
      rw [Option.some.injEq] at h
      subst h
      by_cases hm : s.mark m = .unseen
      · have hb : (mark { s with starts } m == .unseen) = true := beq_iff_eq.mpr hm
        rw [hb, if_pos rfl]
        exact .start hstack hstarts hm
      · have hb : (mark { s with starts } m == .unseen) = false := beq_eq_false_iff_ne.mpr hm
        rw [hb, if_neg Bool.false_ne_true]
        exact .skip hstack hstarts hm
  · next m outer hstack =>
    rw [Option.some.injEq] at h
    subst h
    exact .leave hstack
  · next m next rest outer hstack =>
    dsimp only at h
    split at h
    · next hnext =>
      rw [Option.some.injEq] at h
      subst h
      exact .descend hstack hnext
    · next hnext =>
      rw [Option.some.injEq] at h
      subst h
      exact .close hstack hnext
    · next hnext =>
      rw [Option.some.injEq] at h
      subst h
      exact .pass hstack hnext

/-- Without a next move there is nothing left to do. -/
theorem done_of_step?_eq_none {g : Graph} {s : Search} (h : s.step? g = none) :
    s.stack = [] ∧ s.starts = [] := by
  unfold step? at h
  split at h
  · next hstack =>
    split at h
    · next hstarts => exact ⟨hstack, hstarts⟩
    · exact absurd h (by simp)
  · exact absurd h (by simp)
  · dsimp only at h
    split at h <;> exact absurd h (by simp)

/-! ## Marks and parts of the next state -/

theorem mark_enter (g : Graph) (s : Search) (m n : String) :
    (s.enter g m).mark n = if n = m then .open else s.mark n := by
  show ((s.marks.put m .open).get? n).getD .unseen = _
  rw [Table.get?_put]
  by_cases h : n = m
  · rw [if_pos h, if_pos h, Option.getD_some]
  · rw [if_neg h, if_neg h]
    rfl

theorem mark_leave (s : Search) (m : String) (outer : List (String × List String)) (n : String) :
    (s.leave m outer).mark n = if n = m then .closed else s.mark n := by
  show ((s.marks.put m .closed).get? n).getD .unseen = _
  rw [Table.get?_put]
  by_cases h : n = m
  · rw [if_pos h, if_pos h, Option.getD_some]
  · rw [if_neg h, if_neg h]
    rfl

theorem report_cases (s : Search) (c : List String) :
    (s.cycles.has (arrows c) = true ∧ s.report c = s) ∨
      (s.cycles.has (arrows c) = false ∧
        s.report c = { s with cycles := s.cycles ++ [(arrows c, c)] }) := by
  show (_ ∧ (if s.cycles.has (arrows c) then s else _) = s) ∨ _
  by_cases h : s.cycles.has (arrows c) = true
  · exact Or.inl ⟨h, if_pos h⟩
  · exact Or.inr ⟨Bool.eq_false_iff.mpr h, if_neg h⟩

theorem report_stack (s : Search) (c : List String) : (s.report c).stack = s.stack := by
  rcases report_cases s c with ⟨_, h⟩ | ⟨_, h⟩ <;> rw [h]

theorem report_path (s : Search) (c : List String) : (s.report c).path = s.path := by
  rcases report_cases s c with ⟨_, h⟩ | ⟨_, h⟩ <;> rw [h]

theorem report_marks (s : Search) (c : List String) : (s.report c).marks = s.marks := by
  rcases report_cases s c with ⟨_, h⟩ | ⟨_, h⟩ <;> rw [h]

theorem report_starts (s : Search) (c : List String) : (s.report c).starts = s.starts := by
  rcases report_cases s c with ⟨_, h⟩ | ⟨_, h⟩ <;> rw [h]

theorem mark_report (s : Search) (c : List String) (n : String) :
    (s.report c).mark n = s.mark n := by
  rw [mark, report_marks]
  rfl

/-! ## The shape of a state -/

/-- How the parts of a state fit together. -/
structure Shape (g : Graph) (s : Search) : Prop where
  path_eq : s.path = (s.stack.map (·.1)).reverse
  met_nodup : s.marks.keys.Nodup
  met_iff : ∀ m, m ∈ s.marks.keys ↔ s.mark m ≠ .unseen
  open_iff : ∀ m, s.mark m = .open ↔ m ∈ s.path
  /-- The modules on the path were met in the order in which they lie on it. -/
  path_sublist : s.path.Sublist s.marks.keys
  path_chain : s.path.IsChain g.Edge
  rest_suffix : ∀ m rest, (m, rest) ∈ s.stack → rest <:+ g.dependencies m

namespace Shape

variable {g : Graph} {s : Search}

theorem path_nodup (h : Shape g s) : s.path.Nodup := h.path_sublist.nodup h.met_nodup

theorem path_concat (h : Shape g s) {m : String} {rest : List String}
    {outer : List (String × List String)} (hstack : s.stack = (m, rest) :: outer) :
    s.path = (outer.map (·.1)).reverse ++ [m] := by
  rw [h.path_eq, hstack, List.map_cons, List.reverse_cons]

theorem path_eq_nil (h : Shape g s) (hstack : s.stack = []) : s.path = [] := by
  rw [h.path_eq, hstack]
  rfl

/-- With nothing on the stack, the modules that were met are closed. -/
theorem mark_eq_closed (h : Shape g s) (hstack : s.stack = []) {m : String}
    (hm : s.mark m ≠ .unseen) : s.mark m = .closed := by
  cases hmark : s.mark m with
  | unseen => exact absurd hmark hm
  | «open» =>
    rw [h.open_iff, h.path_eq_nil hstack] at hmark
    exact absurd hmark List.not_mem_nil
  | closed => rfl

theorem getLast?_path (h : Shape g s) {m : String} {rest : List String}
    {outer : List (String × List String)} (hstack : s.stack = (m, rest) :: outer) :
    s.path.getLast? = some m := by
  rw [h.path_concat hstack, List.getLast?_concat]

theorem initial (g : Graph) : Shape g (initial g) where
  path_eq := rfl
  met_nodup := List.nodup_nil
  met_iff := fun _ => ⟨fun h => absurd h List.not_mem_nil, fun h => absurd rfl h⟩
  open_iff := fun _ => ⟨fun h => Mark.noConfusion h, fun h => absurd h List.not_mem_nil⟩
  path_sublist := List.Sublist.slnil
  path_chain := List.isChain_nil
  rest_suffix := fun _ _ h => absurd h List.not_mem_nil

theorem starts (h : Shape g s) (starts : List String) : Shape g { s with starts } :=
  ⟨h.path_eq, h.met_nodup, h.met_iff, h.open_iff, h.path_sublist, h.path_chain, h.rest_suffix⟩

theorem advance (h : Shape g s) {m next : String} {rest : List String}
    {outer : List (String × List String)} (hstack : s.stack = (m, next :: rest) :: outer) :
    Shape g (s.advance m rest outer) where
  path_eq := (h.path_concat hstack).trans List.reverse_cons.symm
  met_nodup := h.met_nodup
  met_iff := h.met_iff
  open_iff := h.open_iff
  path_sublist := h.path_sublist
  path_chain := h.path_chain
  rest_suffix := by
    intro n rest' hmem
    rcases List.mem_cons.mp hmem with he | he
    · obtain ⟨rfl, rfl⟩ := Prod.mk.inj he
      exact (List.suffix_cons next rest').trans
        (h.rest_suffix n (next :: rest') (hstack ▸ List.mem_cons_self))
    · exact h.rest_suffix n rest' (hstack ▸ List.mem_cons_of_mem _ he)

/-- Entering a module keeps the shape if it is new and the innermost module imports it. -/
theorem enter (h : Shape g s) {m : String} (hm : s.mark m = .unseen)
    (hedge : ∀ top ∈ s.path.getLast?, g.Edge top m) : Shape g (s.enter g m) := by
  have hnot : m ∉ s.marks.keys := fun hmem => (h.met_iff m).mp hmem hm
  have hkeys : (s.marks.put m .open).keys = s.marks.keys ++ [m] :=
    Table.keys_put_of_not_mem _ hnot
  refine ⟨?_, ?_, ?_, ?_, ?_, ?_, ?_⟩
  · show s.path ++ [m] = (m :: s.stack.map (·.1)).reverse
    rw [List.reverse_cons, h.path_eq]
  · exact Table.nodup_keys_put m _ h.met_nodup
  · intro n
    show n ∈ (s.marks.put m .open).keys ↔ _
    rw [Table.mem_keys_put, mark_enter, h.met_iff]
    by_cases hn : n = m
    · simp [hn]
    · simp [hn]
  · intro n
    show _ ↔ n ∈ s.path ++ [m]
    rw [mark_enter, List.mem_append, List.mem_singleton, ← h.open_iff]
    by_cases hn : n = m
    · simp [hn]
    · simp [hn]
  · show (s.path ++ [m]).Sublist (s.marks.put m .open).keys
    rw [hkeys]
    exact h.path_sublist.append (List.Sublist.refl [m])
  · show (s.path ++ [m]).IsChain g.Edge
    refine h.path_chain.append (List.isChain_singleton m) (fun top ht y hy => ?_)
    rw [List.head?_cons, Option.mem_some_iff] at hy
    exact hy ▸ hedge top ht
  · intro n rest hmem
    rcases List.mem_cons.mp hmem with he | he
    · obtain ⟨rfl, rfl⟩ := Prod.mk.inj he
      exact List.suffix_rfl
    · exact h.rest_suffix n rest he

theorem leave (h : Shape g s) {m : String} {rest : List String}
    {outer : List (String × List String)} (hstack : s.stack = (m, rest) :: outer) :
    Shape g (s.leave m outer) := by
  have hpath := h.path_concat hstack
  have hdrop : s.path.dropLast = (outer.map (·.1)).reverse := by
    rw [hpath, List.dropLast_concat]
  have hopen : s.mark m = .open := (h.open_iff m).mpr (hpath ▸ List.mem_concat_self)
  have hkeys : (s.marks.put m .closed).keys = s.marks.keys := by
    refine Table.keys_put_of_mem _ ((h.met_iff m).mpr ?_)
    rw [hopen]
    exact Mark.noConfusion
  have hnodup : m ∉ s.path.dropLast := by
    have hn := h.path_nodup
    rw [hpath, ← List.concat_eq_append, List.nodup_concat] at hn
    rw [hdrop]
    exact hn.1
  refine ⟨hdrop, ?_, ?_, ?_, ?_, h.path_chain.dropLast, ?_⟩
  · exact Table.nodup_keys_put m _ h.met_nodup
  · intro n
    show n ∈ (s.marks.put m .closed).keys ↔ _
    rw [hkeys, mark_leave, h.met_iff]
    by_cases hn : n = m
    · simp [hn, hopen]
    · simp [hn]
  · intro n
    show _ ↔ n ∈ s.path.dropLast
    rw [mark_leave]
    by_cases hn : n = m
    · subst hn
      simp [hnodup]
    · rw [if_neg hn, h.open_iff, hdrop, hpath, List.mem_append, List.mem_singleton]
      simp [hn]
  · show s.path.dropLast.Sublist (s.marks.put m .closed).keys
    rw [hkeys]
    exact (List.dropLast_sublist s.path).trans h.path_sublist
  · intro n rest' hmem
    exact h.rest_suffix n rest' (hstack ▸ List.mem_cons_of_mem _ hmem)

theorem report (h : Shape g s) (c : List String) : Shape g (s.report c) := by
  rcases report_cases s c with ⟨_, he⟩ | ⟨_, he⟩
  · rw [he]
    exact h
  · rw [he]
    exact ⟨h.path_eq, h.met_nodup, h.met_iff, h.open_iff, h.path_sublist, h.path_chain,
      h.rest_suffix⟩

/-- The innermost module imports what it is looking at. -/
theorem edge_next (h : Shape g s) {m next : String} {rest : List String}
    {outer : List (String × List String)} (hstack : s.stack = (m, next :: rest) :: outer) :
    g.Edge m next :=
  (h.rest_suffix m (next :: rest) (hstack ▸ List.mem_cons_self)).subset List.mem_cons_self

theorem move {s' : Search} (h : Shape g s) (hmove : Move g s s') : Shape g s' := by
  cases hmove with
  | skip _ _ _ => exact h.starts _
  | start hstack _ hm =>
    refine (h.starts _).enter hm (fun top ht => ?_)
    rw [show ({ s with starts := _ } : Search).path = [] from h.path_eq_nil hstack] at ht
    exact absurd ht (by simp)
  | leave hstack => exact h.leave hstack
  | descend hstack hnext =>
    refine (h.advance hstack).enter hnext (fun top ht => ?_)
    have hlast := h.getLast?_path hstack
    rw [show (s.advance _ _ _).path = s.path from rfl, hlast, Option.mem_some_iff] at ht
    exact ht ▸ h.edge_next hstack
  | close hstack _ => exact (h.advance hstack).report _
  | pass hstack _ => exact h.advance hstack

end Shape

/-! ## Imports that were followed -/

/-- The import of `d` by `m` led to a closed module, or it leads along the path. -/
def Followed (s : Search) (m d : String) : Prop := s.mark d = .closed ∨ [m, d] <:+: s.path

namespace Followed

variable {g : Graph} {s : Search} {m d x : String}

theorem enter (h : s.Followed m d) (hx : s.mark x = .unseen) : (s.enter g x).Followed m d := by
  rcases h with hclosed | hpath
  · have hne : d ≠ x := fun e => Mark.noConfusion (hclosed.symm.trans (e ▸ hx))
    exact Or.inl (by rw [mark_enter, if_neg hne, hclosed])
  · exact Or.inr (hpath.trans (List.prefix_append s.path [x]).isInfix)

theorem report (h : s.Followed m d) (c : List String) : (s.report c).Followed m d := by
  rw [Followed, mark_report, report_path]
  exact h

theorem leave {rest : List String} {outer : List (String × List String)} (h : s.Followed m d)
    (hs : Shape g s) (hstack : s.stack = (x, rest) :: outer) : (s.leave x outer).Followed m d := by
  by_cases hd : d = x
  · exact Or.inl (by rw [mark_leave, if_pos hd])
  rcases h with hclosed | hpath
  · exact Or.inl (by rw [mark_leave, if_neg hd, hclosed])
  · refine Or.inr ?_
    show [m, d] <:+: s.path.dropLast
    rw [hs.path_concat hstack] at hpath ⊢
    rw [List.dropLast_concat]
    rcases List.infix_concat_iff.mp hpath with ⟨front, hfront⟩ | hpart
    · have hlast := congrArg List.getLast? hfront
      rw [List.getLast?_concat, List.getLast?_append_of_ne_nil _ (List.cons_ne_nil _ _)] at hlast
      exact absurd (Option.some.inj hlast) hd
    · exact hpart

/-- The module that is entered follows the one it is entered from. -/
theorem descend {next : String} {rest : List String} {outer : List (String × List String)}
    (hs : Shape g s) (hstack : s.stack = (m, next :: rest) :: outer) :
    ((s.advance m rest outer).enter g next).Followed m next := by
  refine Or.inr ⟨(outer.map (·.1)).reverse, [], ?_⟩
  show _ = s.path ++ [next]
  rw [hs.path_concat hstack]
  simp

end Followed

/-! ## The end of a run -/

/-- The number of imports of modules that were not met so far. -/
def unmet (g : Graph) (s : Search) : Nat :=
  g.edgeCount - (s.marks.keys.flatMap g.dependencies).length

/-- A bound on the moves that are left.  An import that was not looked at costs two: it is looked
at, and a module that is entered through it is left again. -/
def work (g : Graph) (s : Search) : Nat :=
  2 * s.starts.length + s.stack.length + 2 * (s.stack.flatMap (·.2)).length + 2 * s.unmet g

theorem unmet_enter {g : Graph} {s : Search} {m : String} (h : Shape g s)
    (hm : s.mark m = .unseen) :
    (s.enter g m).unmet g + (g.dependencies m).length = s.unmet g := by
  have hnot : m ∉ s.marks.keys := fun hmem => (h.met_iff m).mp hmem hm
  have hbound := g.length_dependencies_le (Table.nodup_keys_put m Mark.open h.met_nodup)
  show g.edgeCount - ((s.marks.put m .open).keys.flatMap _).length + _ = g.edgeCount - _
  rw [Table.keys_put_of_not_mem _ hnot, List.flatMap_append, List.length_append,
    List.flatMap_singleton] at hbound ⊢
  omega

theorem unmet_leave {g : Graph} {s : Search} {m : String} {rest : List String}
    {outer : List (String × List String)} (h : Shape g s) (hstack : s.stack = (m, rest) :: outer) :
    (s.leave m outer).unmet g = s.unmet g := by
  have hopen : s.mark m = .open :=
    (h.open_iff m).mpr (h.path_concat hstack ▸ List.mem_concat_self)
  have hmem : m ∈ s.marks.keys := by
    rw [h.met_iff, hopen]
    exact Mark.noConfusion
  show g.edgeCount - ((s.marks.put m .closed).keys.flatMap _).length = _
  rw [Table.keys_put_of_mem _ hmem]
  rfl

theorem work_enter {g : Graph} {s : Search} {m : String} (h : Shape g s)
    (hm : s.mark m = .unseen) : (s.enter g m).work g = s.work g + 1 := by
  have hunmet := unmet_enter h hm
  unfold work
  show 2 * s.starts.length + ((m, g.dependencies m) :: s.stack).length +
    2 * (((m, g.dependencies m) :: s.stack).flatMap (·.2)).length + _ = _
  rw [List.flatMap_cons, List.length_append, List.length_cons]
  dsimp only
  omega

theorem work_starts {g : Graph} {s : Search} {m : String} {starts : List String}
    (hstarts : s.starts = m :: starts) :
    work g { s with starts } + 2 = s.work g := by
  unfold work
  rw [hstarts, List.length_cons]
  show 2 * starts.length + s.stack.length + 2 * (s.stack.flatMap _).length + 2 * s.unmet g + 2 = _
  omega

theorem work_leave {g : Graph} {s : Search} {m : String} {outer : List (String × List String)}
    (h : Shape g s) (hstack : s.stack = (m, []) :: outer) :
    (s.leave m outer).work g + 1 = s.work g := by
  have hunmet := unmet_leave h hstack
  unfold work
  rw [hunmet, hstack]
  show 2 * s.starts.length + outer.length + 2 * (outer.flatMap _).length + 2 * s.unmet g + 1 = _
  rw [List.flatMap_cons, List.nil_append, List.length_cons]
  omega

theorem work_advance {g : Graph} {s : Search} {m next : String} {rest : List String}
    {outer : List (String × List String)} (hstack : s.stack = (m, next :: rest) :: outer) :
    (s.advance m rest outer).work g + 2 = s.work g := by
  unfold work
  rw [hstack]
  show 2 * s.starts.length + ((m, rest) :: outer).length +
    2 * (((m, rest) :: outer).flatMap (·.2)).length + 2 * s.unmet g + 2 = _
  simp only [List.flatMap_cons, List.length_append, List.length_cons]
  omega

theorem work_report (g : Graph) (s : Search) (c : List String) :
    (s.report c).work g = s.work g := by
  unfold work unmet
  rw [report_starts, report_stack, report_marks]

/-- Every move does some of the work. -/
theorem Move.work_lt {g : Graph} {s s' : Search} (hmove : Move g s s') (h : Shape g s) :
    s'.work g < s.work g := by
  cases hmove with
  | skip _ hstarts _ =>
    have hwork := work_starts (g := g) hstarts
    omega
  | @start m starts _ hstarts hm =>
    have hwork := work_starts (g := g) hstarts
    have henter := work_enter (h.starts starts) hm
    omega
  | leave hstack =>
    have hwork := work_leave h hstack
    omega
  | descend hstack hnext =>
    have hadvance := work_advance (g := g) hstack
    rw [work_enter (h.advance hstack) hnext]
    omega
  | close hstack _ =>
    have hadvance := work_advance (g := g) hstack
    rw [work_report]
    omega
  | pass hstack _ =>
    have hadvance := work_advance (g := g) hstack
    omega

/-- What every move keeps holds at the end of a run. -/
theorem run_induction {g : Graph} {P : Search → Prop}
    (hmove : ∀ s s', P s → Move g s s' → P s') :
    ∀ (room : Nat) (s : Search), P s → P (run g room s) := by
  intro room
  induction room with
  | zero => exact fun _ hs => hs
  | succ room ih =>
    intro s hs
    rw [run]
    cases hstep : s.step? g with
    | none => exact hs
    | some s' => exact ih s' (hmove s s' hs (move_of_step? hstep))

/-- With room for the work a run goes on until there is no move. -/
theorem step?_run_eq_none {g : Graph} :
    ∀ (room : Nat) (s : Search), Shape g s → s.work g < room → (run g room s).step? g = none := by
  intro room
  induction room with
  | zero => exact fun s _ h => absurd h (Nat.not_lt_zero _)
  | succ room ih =>
    intro s hs hroom
    rw [run]
    cases hstep : s.step? g with
    | none => exact hstep
    | some s' =>
      have hmove := move_of_step? hstep
      exact ih s' (hs.move hmove) (Nat.lt_of_lt_of_le (hmove.work_lt hs) (Nat.le_of_lt_succ hroom))

/-- The state that the search ends in. -/
def final (g : Graph) : Search := (initial g).run g (room g)

theorem work_initial (g : Graph) : (initial g).work g < room g := by
  show 2 * (g.forward.map _).length + 0 + 2 * 0 + 2 * (g.edgeCount - 0) < 2 * (_ + _) + 1
  rw [List.length_map]
  omega

/-- The search ends with nothing left to look at. -/
theorem final_done (g : Graph) : (final g).stack = [] ∧ (final g).starts = [] :=
  done_of_step?_eq_none (step?_run_eq_none _ _ (Shape.initial g) (work_initial g))

theorem final_induction {g : Graph} {P : Search → Prop} (hinit : P (initial g))
    (hmove : ∀ s s', P s → Move g s s' → P s') : P (final g) :=
  run_induction hmove _ _ hinit

theorem final_shape (g : Graph) : Shape g (final g) :=
  final_induction (Shape.initial g) (fun _ _ h hmove => h.move hmove)

end Search
end Cycle
end ModuleAudit
