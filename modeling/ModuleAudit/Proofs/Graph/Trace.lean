import ModuleAudit.Graph.Reach
import ModuleAudit.Proofs.Graph.Edge

/-
Tracing finds exactly the modules at the ends of chains of imports.

A chain starts at the entry.  All its modules are on disk and none was visited before the trace;
every next one is the normal form of an import of the one before.  `mem_traceFrom` says this of
every state of the worklist: the modules to come are those at the ends of chains from a pending
module that keep clear of the visited ones.
-/

namespace ModuleAudit

/-- A chain of steps from `start` over elements that are `ok`. -/
inductive Chain {α : Type} (ok : α → Prop) (next : α → α → Prop) (start : α) : α → Prop where
  | start : ok start → Chain ok next start start
  | step {m n : α} : Chain ok next start m → next m n → ok n → Chain ok next start n

namespace Chain

variable {α : Type} {ok ok' : α → Prop} {next next' : α → α → Prop} {start m n : α}

theorem mono (h : Chain ok next start m) (hok : ∀ x, ok x → ok' x)
    (hnext : ∀ x y, ok x → next x y → ok y → next' x y) : Chain ok' next' start m ∧ ok m := by
  induction h with
  | start hs => exact ⟨.start (hok _ hs), hs⟩
  | step _ hmn hn ih => exact ⟨ih.1.step (hnext _ _ ih.2 hmn hn) (hok _ hn), hn⟩

theorem last (h : Chain ok next start m) : ok m :=
  (h.mono (fun _ hx => hx) fun _ _ _ hxy _ => hxy).2

theorem first (h : Chain ok next start m) : ok start := by
  induction h with
  | start hs => exact hs
  | step _ _ _ ih => exact ih

/-- One more step in front. -/
theorem head (hs : ok start) (hnext : next start n) (h : Chain ok next n m) :
    Chain ok next start m := by
  induction h with
  | start hn => exact (Chain.start hs).step hnext hn
  | step _ hmn hn ih => exact ih.step hmn hn

end Chain

namespace Graph

/-- Module `n` is what an import of `m` leads to. -/
def Leads (g : Graph) (m n : String) : Prop := ∃ d, g.Edge m d ∧ Path.normalize d = n

/-- On disk, and not visited before. -/
def Fresh (onDisk : String → Bool) (visited : List String) (m : String) : Prop :=
  onDisk m = true ∧ m ∉ visited

variable {g : Graph} {onDisk : String → Bool}

theorem Fresh.of_concat {visited : List String} {x m : String}
    (h : Fresh onDisk (visited ++ [x]) m) : Fresh onDisk visited m :=
  ⟨h.1, fun hm => h.2 (List.mem_append_left _ hm)⟩

theorem Fresh.concat {visited : List String} {x m : String} (h : Fresh onDisk visited m)
    (hx : m ≠ x) : Fresh onDisk (visited ++ [x]) m := by
  refine ⟨h.1, fun hm => ?_⟩
  rcases List.mem_append.mp hm with hm | hm
  · exact h.2 hm
  · exact hx (List.mem_singleton.mp hm)

/-- A chain that keeps clear of the visited modules keeps clear of `x` too, or goes on from its
last visit of `x`. -/
theorem chain_cases {visited : List String} {x start m : String}
    (h : Chain (Fresh onDisk visited) g.Leads start m) :
    m = x ∨ Chain (Fresh onDisk (visited ++ [x])) g.Leads start m ∨
      ∃ d, g.Edge x d ∧
        Chain (Fresh onDisk (visited ++ [x])) g.Leads (Path.normalize d) m := by
  induction h with
  | start hs =>
    by_cases hx : start = x
    · exact Or.inl hx
    · exact Or.inr (Or.inl (.start (hs.concat hx)))
  | @step m n _ hmn hn ih =>
    by_cases hx : n = x
    · exact Or.inl hx
    · have hn' := hn.concat hx
      rcases ih with rfl | ih | ⟨d, hd, ih⟩
      · obtain ⟨d, hd, rfl⟩ := hmn
        exact Or.inr (Or.inr ⟨d, hd, .start hn'⟩)
      · exact Or.inr (Or.inl (ih.step hmn hn'))
      · exact Or.inr (Or.inr ⟨d, hd, ih.step hmn hn'⟩)

theorem chain_of_concat {visited : List String} {x start m : String}
    (h : Chain (Fresh onDisk (visited ++ [x])) g.Leads start m) :
    Chain (Fresh onDisk visited) g.Leads start m :=
  (h.mono (fun _ => Fresh.of_concat) fun _ _ _ hxy _ => hxy).1

theorem skip_iff {visited : List String} {m : String} :
    (visited.contains m || !onDisk m) = true ↔ ¬ Fresh onDisk visited m := by
  rw [Fresh, Bool.or_eq_true, List.contains_iff_mem, Bool.not_eq_true', not_and_or, not_not,
    Bool.not_eq_true]
  exact or_comm

/-- The modules ahead of a worklist: those at the ends of chains from what is pending. -/
def Ahead (g : Graph) (onDisk : String → Bool) (pending visited : List String) (m : String) :
    Prop :=
  ∃ p ∈ pending, Chain (Fresh onDisk visited) g.Leads (Path.normalize p) m

theorem ahead_nil {visited : List String} {m : String} : ¬ Ahead g onDisk [] visited m :=
  fun ⟨_, hp, _⟩ => List.not_mem_nil hp

/-- Nothing is ahead of a module that is skipped. -/
theorem ahead_skip {next : String} {pending visited : List String} {m : String}
    (h : ¬ Fresh onDisk visited (Path.normalize next)) :
    Ahead g onDisk (next :: pending) visited m ↔ Ahead g onDisk pending visited m := by
  constructor
  · rintro ⟨p, hp, hchain⟩
    rcases List.mem_cons.mp hp with rfl | hp
    · exact absurd hchain.first h
    · exact ⟨p, hp, hchain⟩
  · rintro ⟨p, hp, hchain⟩
    exact ⟨p, List.mem_cons_of_mem _ hp, hchain⟩

/-- Visiting a module takes it from what is ahead and keeps the rest. -/
theorem ahead_visit {next : String} {pending visited : List String} {m : String}
    (h : Fresh onDisk visited (Path.normalize next)) :
    Ahead g onDisk (next :: pending) visited m ↔
      m = Path.normalize next ∨
        Ahead g onDisk (g.dependencies (Path.normalize next) ++ pending)
          (visited ++ [Path.normalize next]) m := by
  constructor
  · rintro ⟨p, hp, hchain⟩
    rcases chain_cases (x := Path.normalize next) hchain with he | hchain' | ⟨d, hd, hchain'⟩
    · exact Or.inl he
    · rcases List.mem_cons.mp hp with rfl | hp
      · -- a chain from the module itself does not keep clear of it
        exact absurd (List.mem_append_right _ List.mem_cons_self) hchain'.first.2
      · exact Or.inr ⟨p, List.mem_append_right _ hp, hchain'⟩
    · exact Or.inr ⟨d, List.mem_append_left _ hd, hchain'⟩
  · rintro (rfl | ⟨p, hp, hchain⟩)
    · exact ⟨next, List.mem_cons_self, .start h⟩
    · rcases List.mem_append.mp hp with hp | hp
      · exact ⟨next, List.mem_cons_self, (chain_of_concat hchain).head h ⟨p, hp, rfl⟩⟩
      · exact ⟨p, List.mem_cons_of_mem _ hp, chain_of_concat hchain⟩

/-- `done` are the modules visited since the trace began.  They differ, so their imports are among
those of the graph, and there is room for what is pending and for all imports not yet pending. -/
theorem mem_traceFrom {room : Nat} {pending before done : List String} (hdone : done.Nodup)
    (hroom : pending.length + g.edgeCount <
      room + (done.flatMap g.dependencies).length) {m : String} :
    m ∈ g.traceFrom onDisk room pending (before ++ done) ↔
      m ∈ before ++ done ∨ Ahead g onDisk pending (before ++ done) m := by
  induction room generalizing pending done with
  | zero =>
    have hbound := length_dependencies_le g hdone
    omega
  | succ room ih =>
    cases pending with
    | nil => rw [traceFrom, or_iff_left ahead_nil]
    | cons next pending =>
      rw [traceFrom]
      rw [List.length_cons] at hroom
      by_cases hfresh : Fresh onDisk (before ++ done) (Path.normalize next)
      · have hdone' : (done ++ [Path.normalize next]).Nodup := by
          refine List.nodup_append.mpr ⟨hdone, List.nodup_singleton _, ?_⟩
          rintro a ha b hb rfl
          rw [List.mem_singleton] at hb
          exact hfresh.2 (List.mem_append_right _ (hb ▸ ha))
        have hroom' : (g.dependencies (Path.normalize next) ++ pending).length + g.edgeCount <
            room + ((done ++ [Path.normalize next]).flatMap g.dependencies).length := by
          rw [List.length_append, List.flatMap_append, List.length_append, List.flatMap_singleton]
          omega
        rw [if_neg (fun h => skip_iff.mp h hfresh), List.append_assoc, ih hdone' hroom',
          ← List.append_assoc, ahead_visit hfresh, List.mem_append, List.mem_singleton, or_assoc]
      · rw [if_pos (skip_iff.mpr hfresh), ih hdone (by omega), ahead_skip hfresh]

theorem mem_trace {entry : String} {visited : List String} {m : String} :
    m ∈ g.trace onDisk entry visited ↔
      m ∈ visited ∨ Chain (Fresh onDisk visited) g.Leads (Path.normalize entry) m := by
  have hroom : [entry].length + g.edgeCount <
      (g.edgeCount + 2) + ([].flatMap g.dependencies).length := by
    rw [List.length_singleton, List.flatMap_nil, List.length_nil]
    omega
  have h := @mem_traceFrom g onDisk _ _ visited [] List.nodup_nil hroom m
  rw [List.append_nil] at h
  rw [trace, h]
  refine or_congr_right ⟨?_, fun hchain => ⟨entry, List.mem_cons_self, hchain⟩⟩
  rintro ⟨p, hp, hchain⟩
  rwa [List.mem_singleton.mp hp] at hchain

end Graph
end ModuleAudit
