import ModuleAudit.Proofs.Cycle.Record

/-
The search for cycles, step by step.

`after g n` is the state after `n` steps.  In each of these states the path, the stack and the marks
agree.  The imports that a module has left behind are remembered by the step in which they were looked
at: the imported module was open then, or it was followed, which means that it is closed by now or
comes next on the path.  When a module is closed none comes next, so only the first two are left.

A module that was met stays met, so a module is entered at most once.  The work that is left shrinks
with every step, so the stack empties after every start and the search comes to its end.
-/

namespace ModuleAudit
namespace Cycle
namespace Search

variable {g : Graph}

/-- The state after `n` steps, or the last one if there are fewer. -/
def after (g : Graph) (n : Nat) : Search := run g n (initial g)

theorem run_succ (n : Nat) (s : Search) :
    run g (n + 1) s = ((run g n s).step? g).getD (run g n s) := by
  induction n generalizing s with
  | zero =>
    rw [run, run]
    cases s.step? g <;> rfl
  | succ n ih =>
    rw [run]
    cases hstep : s.step? g with
    | none => rw [run, hstep]; exact (congrArg (Option.getD · s) hstep).symm
    | some s' =>
      dsimp only
      rw [ih, run, hstep]

theorem after_succ {n : Nat} {s : Search} (h : (after g n).step? g = some s) :
    after g (n + 1) = s := by
  rw [after, run_succ, ← after, h, Option.getD_some]

/-- What holds at first and is kept by every move holds after every step. -/
theorem after_induction {P : Nat → Search → Prop} (hinit : P 0 (initial g))
    (hmove : ∀ n s, P n (after g n) → Move g (after g n) s → P (n + 1) s)
    (hdone : ∀ n, P n (after g n) → P (n + 1) (after g n)) : ∀ n, P n (after g n)
  | 0 => hinit
  | n + 1 => by
    have ih := after_induction hinit hmove hdone n
    cases hstep : (after g n).step? g with
    | none =>
      rw [after, run_succ, ← after, hstep]
      exact hdone n ih
    | some s => exact after_succ hstep ▸ hmove n s ih (move_of_step? hstep)

theorem after_shape (g : Graph) (n : Nat) : Shape g (after g n) :=
  after_induction (P := fun _ => Shape g) (Shape.initial g) (fun _ _ h hmove => h.move hmove)
    (fun _ h => h) n

/-! ## Imports that were looked at -/

/-- The innermost module is `m`, and it looks at its import of `d`, with those in `rest` behind. -/
def Looks (s : Search) (m d : String) (rest : List String) : Prop :=
  ∃ outer, s.stack = (m, d :: rest) :: outer

/-- Module `m` has left behind the import in front of those in `rest`. -/
def Passed (s : Search) (m : String) (rest : List String) : Prop :=
  s.mark m = .closed ∨ ∃ left, (m, left) ∈ s.stack ∧ left.length ≤ rest.length

/-- The import was looked at in one of the first `n` steps.  The imported module was open then, or it
was followed. -/
def LookedAt (g : Graph) (n : Nat) (s : Search) (m d : String) (rest : List String) : Prop :=
  ∃ i < n, (after g i).Looks m d rest ∧ ((after g i).mark d = .open ∨ s.Followed m d)

theorem LookedAt.imp {n n' : Nat} {s s' : Search} {m d : String} {rest : List String}
    (h : LookedAt g n s m d rest) (hle : n ≤ n') (hs : s.Followed m d → s'.Followed m d) :
    LookedAt g n' s' m d rest := by
  obtain ⟨i, hi, hlooks, hmet⟩ := h
  exact ⟨i, Nat.lt_of_lt_of_le hi hle, hlooks, hmet.imp_right hs⟩

theorem not_length_dependencies_le {m d : String} {before rest : List String}
    (hdeps : g.dependencies m = before ++ d :: rest) : ¬ (g.dependencies m).length ≤ rest.length := by
  rw [hdeps, List.length_append, List.length_cons]
  omega

/-- A module that is entered has left no import behind. -/
theorem passed_of_enter {s : Search} {m d x : String} {before rest : List String}
    (hdeps : g.dependencies m = before ++ d :: rest) (h : (s.enter g x).Passed m rest) :
    s.Passed m rest := by
  rcases h with hclosed | ⟨left, hmem, hle⟩
  · rw [mark_enter] at hclosed
    by_cases hm : m = x
    · rw [if_pos hm] at hclosed
      cases hclosed
    · rw [if_neg hm] at hclosed
      exact Or.inl hclosed
  · rcases List.mem_cons.mp hmem with he | hmem
    · obtain ⟨rfl, rfl⟩ := Prod.mk.inj he
      exact absurd hle (not_length_dependencies_le hdeps)
    · exact Or.inr ⟨left, hmem, hle⟩

theorem passed_of_leave {s : Search} {m x : String} {rest : List String}
    {outer : List (String × List String)} (hstack : s.stack = (x, []) :: outer)
    (h : (s.leave x outer).Passed m rest) : s.Passed m rest := by
  rcases h with hclosed | ⟨left, hmem, hle⟩
  · rw [mark_leave] at hclosed
    by_cases hm : m = x
    · exact Or.inr ⟨[], hstack ▸ hm ▸ List.mem_cons_self, Nat.zero_le _⟩
    · rw [if_neg hm] at hclosed
      exact Or.inl hclosed
  · exact Or.inr ⟨left, hstack ▸ List.mem_cons_of_mem _ hmem, hle⟩

/-- Going on to the next import leaves behind the one that was looked at, and no other. -/
theorem passed_of_advance {s : Search} (hs : Shape g s) {m d x next : String}
    {before rest left : List String} {outer : List (String × List String)}
    (hstack : s.stack = (x, next :: left) :: outer) (hdeps : g.dependencies m = before ++ d :: rest)
    (h : (s.advance x left outer).Passed m rest) :
    s.Passed m rest ∨ m = x ∧ d = next ∧ rest = left := by
  rcases h with hclosed | ⟨left', hmem, hle⟩
  · exact Or.inl (Or.inl hclosed)
  rcases List.mem_cons.mp hmem with he | hmem
  · obtain ⟨rfl, rfl⟩ := Prod.mk.inj he
    rcases Nat.lt_or_eq_of_le hle with hlt | heq
    · exact Or.inl (Or.inr ⟨next :: left', hstack ▸ List.mem_cons_self, hlt⟩)
    · -- what is left behind `next` is as long as what is left behind `d`
      obtain ⟨front, hfront⟩ := hs.rest_suffix m (next :: left') (hstack ▸ List.mem_cons_self)
      have hsame : (next :: left').length = (d :: rest).length := by
        rw [List.length_cons, List.length_cons, heq]
      obtain ⟨rfl, rfl⟩ := List.cons.inj (List.append_inj' (hfront.trans hdeps) hsame).2
      exact Or.inr ⟨rfl, rfl, rfl⟩
  · exact Or.inl (Or.inr ⟨left', hstack ▸ List.mem_cons_of_mem _ hmem, hle⟩)

/-- Every import that was left behind was looked at. -/
def Traced (g : Graph) (n : Nat) (s : Search) : Prop :=
  ∀ m before d rest, g.dependencies m = before ++ d :: rest → s.Passed m rest →
    LookedAt g n s m d rest

namespace Traced

variable {n : Nat} {s : Search}

theorem initial (g : Graph) : Traced g 0 (initial g) := by
  rintro m before d rest - (hclosed | ⟨left, hmem, -⟩)
  · cases hclosed
  · exact absurd hmem List.not_mem_nil

theorem enter (h : Traced g n s) {x : String} (hx : s.mark x = .unseen) :
    Traced g n (s.enter g x) := by
  intro m before d rest hdeps hpassed
  exact (h m before d rest hdeps (passed_of_enter hdeps hpassed)).imp (Nat.le_refl n) (·.enter hx)

theorem leave (h : Traced g n s) (hs : Shape g s) {x : String} {outer : List (String × List String)}
    (hstack : s.stack = (x, []) :: outer) : Traced g n (s.leave x outer) := by
  intro m before d rest hdeps hpassed
  exact (h m before d rest hdeps (passed_of_leave hstack hpassed)).imp (Nat.le_refl n)
    (·.leave hs hstack)

theorem later (h : Traced g n s) : Traced g (n + 1) s := by
  intro m before d rest hdeps hpassed
  exact (h m before d rest hdeps hpassed).imp (Nat.le_succ n) id

end Traced

/-- A step that goes on to the next import leaves one import behind.  The rest was left behind before,
and stays followed. -/
theorem traced_of_advance {n : Nat} (h : Traced g n (after g n)) {x next : String} {left : List String}
    {outer : List (String × List String)} (hstack : (after g n).stack = (x, next :: left) :: outer)
    {s : Search} (hfollowed : ∀ m d, (after g n).Followed m d → s.Followed m d)
    (hpassed : ∀ m before d rest, g.dependencies m = before ++ d :: rest → s.Passed m rest →
      ((after g n).advance x left outer).Passed m rest)
    (hnext : (after g n).mark next = .open ∨ s.Followed x next) : Traced g (n + 1) s := by
  intro m before d rest hdeps hs
  rcases passed_of_advance (after_shape g n) hstack hdeps (hpassed m before d rest hdeps hs) with
    hold | ⟨rfl, rfl, rfl⟩
  · exact (h m before d rest hdeps hold).imp (Nat.le_succ n) (hfollowed m d)
  · exact ⟨n, Nat.lt_succ_self n, ⟨outer, hstack⟩, hnext⟩

theorem traced_move {n : Nat} {s : Search} (h : Traced g n (after g n))
    (hmove : Move g (after g n) s) : Traced g (n + 1) s := by
  have hs := after_shape g n
  cases hmove with
  | skip _ _ _ => exact h.later
  | @start m starts _ _ hm => exact (Traced.enter (s := { after g n with starts }) h hm).later
  | leave hstack => exact (h.leave hs hstack).later
  | @descend m next rest outer hstack hnext =>
    refine traced_of_advance h hstack (fun _ _ hf => ?_) (fun _ _ _ _ => passed_of_enter)
      (Or.inr (.descend hs hstack))
    exact Followed.enter (s := (after g n).advance m rest outer) hf hnext
  | @close m next rest outer hstack hnext =>
    refine traced_of_advance h hstack (fun _ _ hf => ?_) (fun _ _ _ _ _ hp => ?_) (Or.inl hnext)
    · exact Followed.report (s := (after g n).advance m rest outer) hf _
    · rwa [Passed, mark_report, report_stack] at hp
  | pass hstack hnext =>
    exact traced_of_advance h hstack (fun _ _ hf => hf) (fun _ _ _ _ _ hp => hp)
      (Or.inr (Or.inl hnext))

theorem after_traced (g : Graph) (n : Nat) : Traced g n (after g n) :=
  after_induction (Traced.initial g) (fun _ _ h hmove => traced_move h hmove) (fun _ h => h.later) n

/-- The imports of a closed module were all looked at, and each leads to a closed module or to one that
was open then. -/
theorem looked_of_closed {n : Nat} {m d : String} {before rest : List String}
    (hm : (after g n).mark m = .closed) (hdeps : g.dependencies m = before ++ d :: rest) :
    ∃ i < n, (after g i).Looks m d rest ∧
      ((after g i).mark d = .open ∨ (after g n).mark d = .closed) := by
  obtain ⟨i, hi, hlooks, hmet⟩ := after_traced g n m before d rest hdeps (Or.inl hm)
  refine ⟨i, hi, hlooks, hmet.imp_right fun hfollowed => hfollowed.resolve_right fun hpath => ?_⟩
  -- a module with another one behind it on the path is open
  have hopen := ((after_shape g n).open_iff m).mpr (hpath.subset List.mem_cons_self)
  exact Mark.noConfusion (hopen.symm.trans hm)

/-! ## Modules that were entered -/

/-- The next step puts module `m` on the path. -/
def Enters (g : Graph) (s : Search) (m : String) : Prop :=
  ∃ s', s.step? g = some s' ∧ s'.path = s.path ++ [m]

theorem mark_ne_unseen_of_enter {s : Search} {x m : String} (h : s.mark m ≠ .unseen ∨ m = x) :
    (s.enter g x).mark m ≠ .unseen := by
  rw [mark_enter]
  by_cases hm : m = x
  · rw [if_pos hm]
    exact Mark.noConfusion
  · rw [if_neg hm]
    exact h.resolve_right hm

/-- A module that was met stays met. -/
theorem Move.mark_ne_unseen {s s' : Search} (hmove : Move g s s') {m : String}
    (hm : s.mark m ≠ .unseen) : s'.mark m ≠ .unseen := by
  cases hmove with
  | skip _ _ _ => exact hm
  | start _ _ _ => exact mark_ne_unseen_of_enter (Or.inl hm)
  | @leave x outer _ =>
    rw [mark_leave]
    by_cases he : m = x
    · rw [if_pos he]
      exact Mark.noConfusion
    · rw [if_neg he]
      exact hm
  | descend _ _ => exact mark_ne_unseen_of_enter (Or.inl hm)
  | close _ _ =>
    rw [mark_report]
    exact hm
  | pass _ _ => exact hm

/-- Only a module that was not met before is entered, and it is met then. -/
theorem Enters.met {s : Search} {m : String} (h : Enters g s m) :
    s.mark m = .unseen ∧ ∃ s', s.step? g = some s' ∧ s'.mark m ≠ .unseen := by
  obtain ⟨s', hstep, hpath⟩ := h
  have hsame : s'.path ≠ s.path := fun e => by
    have hlength := congrArg List.length (e.symm.trans hpath)
    rw [List.length_append, List.length_singleton] at hlength
    omega
  have henter : ∀ {x : String}, s.mark x = .unseen → s'.path = s.path ++ [x] →
      s.mark m = .unseen ∧ m = x := by
    intro x hx hx'
    obtain rfl := List.singleton_inj.mp (List.append_cancel_left (hx'.symm.trans hpath))
    exact ⟨hx, rfl⟩
  cases move_of_step? hstep with
  | skip _ _ _ => exact absurd rfl hsame
  | start _ _ hx =>
    obtain ⟨hm, he⟩ := henter hx rfl
    exact ⟨hm, _, hstep, mark_ne_unseen_of_enter (Or.inr he)⟩
  | leave _ =>
    have hlength := congrArg List.length hpath
    rw [List.length_append, List.length_singleton] at hlength
    have hdrop : s.path.dropLast.length = s.path.length + 1 := hlength
    rw [List.length_dropLast] at hdrop
    omega
  | descend _ hx =>
    obtain ⟨hm, he⟩ := henter hx rfl
    exact ⟨hm, _, hstep, mark_ne_unseen_of_enter (Or.inr he)⟩
  | close _ _ => exact absurd (report_path _ _) hsame
  | pass _ _ => exact absurd rfl hsame

theorem mark_after_ne_unseen {i j : Nat} (hij : i ≤ j) {m : String}
    (h : (after g i).mark m ≠ .unseen) : (after g j).mark m ≠ .unseen := by
  induction hij with
  | refl => exact h
  | @step j _ ih =>
    cases hstep : (after g j).step? g with
    | none =>
      rw [after, run_succ, ← after, hstep]
      exact ih
    | some s =>
      rw [after_succ hstep]
      exact (move_of_step? hstep).mark_ne_unseen ih

/-- After a module was entered, it is not entered again. -/
theorem Enters.not_enters {i j : Nat} {m : String} (h : Enters g (after g i) m) (hij : i < j) :
    ¬ Enters g (after g j) m := by
  intro hj
  obtain ⟨-, s', hstep, hm⟩ := h.met
  rw [← after_succ hstep] at hm
  exact mark_after_ne_unseen hij hm hj.met.1

/-! ## The ends of the loops -/

/-- With a module on the stack there is a next step, and the modules to start from stay. -/
theorem exists_step?_of_stack {s : Search} (h : s.stack ≠ []) :
    ∃ s', s.step? g = some s' ∧ s'.starts = s.starts := by
  cases hstep : s.step? g with
  | none => exact absurd (done_of_step?_eq_none hstep).1 h
  | some s' =>
    refine ⟨s', rfl, ?_⟩
    cases move_of_step? hstep with
    | skip hstack _ _ => exact absurd hstack h
    | start hstack _ _ => exact absurd hstack h
    | leave _ => rfl
    | descend _ _ => rfl
    | close _ _ => exact report_starts _ _
    | pass _ _ => rfl

/-- The stack empties before another start. -/
theorem exists_stack_nil (n : Nat) :
    ∃ n', n ≤ n' ∧ (after g n').stack = [] ∧ (after g n').starts = (after g n).starts := by
  generalize hwork : (after g n).work g = work
  induction work using Nat.strongRecOn generalizing n with
  | ind work ih =>
    by_cases hstack : (after g n).stack = []
    · exact ⟨n, Nat.le_refl n, hstack, rfl⟩
    · obtain ⟨s, hstep, hstarts⟩ := exists_step?_of_stack (g := g) hstack
      have hlt := (move_of_step? hstep).work_lt (after_shape g n)
      rw [← after_succ hstep] at hlt hstarts
      obtain ⟨n', hle, hnil, hsame⟩ := ih _ (hwork ▸ hlt) (n + 1) rfl
      exact ⟨n', Nat.le_of_succ_le hle, hnil, hsame.trans hstarts⟩

/-- A start is over when its module is closed and nothing is left on the path. -/
theorem exists_after_start {n : Nat} {m : String} {starts : List String}
    (hstack : (after g n).stack = []) (hstarts : (after g n).starts = m :: starts) :
    ∃ n', n < n' ∧ (after g n').starts = starts ∧ (after g n').stack = [] ∧
      (after g n').path = [] ∧ (after g n').mark m = .closed := by
  -- the next step takes `m` off the starts, and `m` is met then
  obtain ⟨s, hstep, hrest, hmet⟩ :
      ∃ s, (after g n).step? g = some s ∧ s.starts = starts ∧ s.mark m ≠ .unseen := by
    cases hstep : (after g n).step? g with
    | none =>
      rw [(done_of_step?_eq_none hstep).2] at hstarts
      cases hstarts
    | some s =>
      refine ⟨s, rfl, ?_⟩
      cases move_of_step? hstep with
      | skip _ hstarts' hm =>
        obtain ⟨rfl, rfl⟩ := List.cons.inj (hstarts.symm.trans hstarts')
        exact ⟨rfl, hm⟩
      | start _ hstarts' _ =>
        obtain ⟨rfl, rfl⟩ := List.cons.inj (hstarts.symm.trans hstarts')
        exact ⟨rfl, mark_ne_unseen_of_enter (Or.inr rfl)⟩
      | leave hstack' => exact absurd (hstack.symm.trans hstack') (List.cons_ne_nil _ _).symm
      | descend hstack' _ => exact absurd (hstack.symm.trans hstack') (List.cons_ne_nil _ _).symm
      | close hstack' _ => exact absurd (hstack.symm.trans hstack') (List.cons_ne_nil _ _).symm
      | pass hstack' _ => exact absurd (hstack.symm.trans hstack') (List.cons_ne_nil _ _).symm
  rw [← after_succ hstep] at hrest hmet
  obtain ⟨n', hle, hnil, hsame⟩ := exists_stack_nil (g := g) (n + 1)
  have hs := after_shape g n'
  exact ⟨n', hle, hsame.trans hrest, hnil, hs.path_eq_nil hnil,
    hs.mark_eq_closed hnil (mark_after_ne_unseen hle hmet)⟩

/-! ## The whole search -/

/-- The parts of a state agree: the open modules are those on the path, which has no repetitions,
follows imports and is the stack read from the outside, and what is left to look at is an end of a
module's imports. -/
structure Agrees (g : Graph) (s : Search) : Prop where
  open_iff : ∀ m, s.mark m = .open ↔ m ∈ s.path
  nodup : s.path.Nodup
  mirrors : s.path = (s.stack.map (·.1)).reverse
  linked : s.path.IsChain g.Edge
  rest : ∀ m rest, (m, rest) ∈ s.stack → rest <:+ g.dependencies m

/-- Every state of the search agrees with itself, and each import of a closed module was looked at and
leads to a closed module or to one that was open at the time.  So an import of an open module always
finds that module on the path, every start ends with nothing on the path and the stack, no module is
entered twice, and the search comes to an end, where the cycles found are the answer. -/
theorem search_agrees (g : Graph) :
    (∀ n, Agrees g (after g n)) ∧
    (∀ n m before d rest, (after g n).mark m = .closed →
      g.dependencies m = before ++ d :: rest →
        ∃ i < n, (after g i).Looks m d rest ∧
          ((after g i).mark d = .open ∨ (after g n).mark d = .closed)) ∧
    (∀ n m d rest, (after g n).Looks m d rest → (after g n).mark d = .open →
      ∃ front back, (after g n).path = front ++ d :: back ∧ d ∉ front ∧
        (after g n).closing d = d :: back ++ [d]) ∧
    (∀ n m starts, (after g n).stack = [] → (after g n).starts = m :: starts →
      (after g n).path = [] ∧ ∃ n', n < n' ∧ (after g n').starts = starts ∧
        (after g n').stack = [] ∧ (after g n').path = [] ∧ (after g n').mark m = .closed) ∧
    (∀ i j m, Enters g (after g i) m → Enters g (after g j) m → i = j) ∧
    ∃ n, (after g n).step? g = none ∧ (after g n).stack = [] ∧ (after g n).path = [] ∧
      (after g n).starts = [] ∧ (Detector.fresh.detect g).1 = (after g n).cycles.values := by
  refine ⟨fun n => ?_, fun n m before d rest => looked_of_closed, fun n m d rest _ hd => ?_,
    fun n m starts hstack hstarts => ?_, fun i j m hi hj => ?_, room g, ?_⟩
  · have hs := after_shape g n
    exact ⟨hs.open_iff, hs.path_nodup, hs.path_eq, hs.path_chain, hs.rest_suffix⟩
  · obtain ⟨front, back, hpath, hfront⟩ :=
      List.eq_append_cons_of_mem (((after_shape g n).open_iff d).mp hd)
    exact ⟨front, back, hpath, hfront, closing_of_path hpath hfront⟩
  · exact ⟨(after_shape g n).path_eq_nil hstack, exists_after_start hstack hstarts⟩
  · rcases Nat.lt_trichotomy i j with h | h | h
    · exact absurd hj (hi.not_enters h)
    · exact h
    · exact absurd hi (hj.not_enters h)
  · obtain ⟨hstack, hstarts⟩ := final_done g
    exact ⟨step?_run_eq_none _ _ (Shape.initial g) (work_initial g), hstack,
      (after_shape g (room g)).path_eq_nil hstack, hstarts, rfl⟩

end Search
end Cycle
end ModuleAudit
