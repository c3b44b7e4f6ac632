import ModuleAudit.Graph.Workbench

/-
The shared detector never gives an answer that is out of date.

It keeps one answer, under a version number, for all graphs on the bench.  Version numbers come from
one counter, and every change of a graph takes a new one.  So graphs of one version are one graph,
and a number that was given out once never comes back on a graph with other imports.
-/

namespace ModuleAudit
namespace Workbench

/-- What is done on a bench.  Graphs are named by their places. -/
inductive Operation where
  | create
  | add (place : Nat) (m : String) (imports : List String)
  | detect (place : Nat)

def perform (w : Workbench) : Operation → Workbench
  | .create => w.create
  | .add place m imports => w.add place m imports
  | .detect place => (w.detect place).2

/-- The answer of a detector that has seen no graph before. -/
def askFresh (w : Workbench) (place : Nat) : List (List String) :=
  match w.graphs[place]? with
  | none => []
  | some g => (Cycle.Detector.fresh.detect g).1

def askShared (w : Workbench) (place : Nat) : List (List String) := (w.detect place).1

/-- The answers that a run gives, in order, where `ask` answers on the bench of the moment. -/
def answers (ask : Workbench → Nat → List (List String)) :
    Workbench → List Operation → List (List (List String))
  | _, [] => []
  | w, .detect place :: later => ask w place :: answers ask (w.perform (.detect place)) later
  | w, operation :: later => answers ask (w.perform operation) later

structure Sound (w : Workbench) : Prop where
  used : ∀ g ∈ w.graphs, g.version < w.next
  same : ∀ g ∈ w.graphs, ∀ g' ∈ w.graphs, g.version = g'.version → g = g'
  kept_used : ∀ version cycles, w.detector.last = some (version, cycles) → version < w.next
  kept_right : ∀ version cycles, w.detector.last = some (version, cycles) →
    ∀ g ∈ w.graphs, g.version = version → cycles = Cycle.all g

namespace Sound

variable {w : Workbench}

theorem start (next : Int) : Sound { next } where
  used := fun _ h => absurd h List.not_mem_nil
  same := fun _ h => absurd h List.not_mem_nil
  kept_used := fun _ _ h => absurd h (by simp [Cycle.Detector.fresh])
  kept_right := fun _ _ _ _ h => absurd h List.not_mem_nil

/-- A new graph, or a graph that has changed, with the next number. -/
theorem renew (h : Sound w) {graphs : List Graph} (new : Graph) (hnew : new.version = w.next)
    (hgraphs : ∀ g ∈ graphs, g ∈ w.graphs ∨ g = new) :
    Sound { w with graphs, next := w.next + 1 } where
  used := by
    intro g hg
    show g.version < w.next + 1
    rcases hgraphs g hg with hold | rfl
    · have := h.used g hold
      omega
    · omega
  same := by
    intro g hg g' hg' hversion
    rcases hgraphs g hg with hold | rfl <;> rcases hgraphs g' hg' with hold' | rfl
    · exact h.same g hold g' hold' hversion
    · have := h.used g hold
      omega
    · have := h.used g' hold'
      omega
    · rfl
  kept_used := by
    intro version cycles hlast
    have := h.kept_used version cycles hlast
    show version < w.next + 1
    omega
  kept_right := by
    intro version cycles hlast g hg hversion
    rcases hgraphs g hg with hold | rfl
    · exact h.kept_right version cycles hlast g hold hversion
    · have := h.kept_used version cycles hlast
      omega

theorem create (h : Sound w) : Sound w.create := by
  refine h.renew (.empty [] w.next) rfl fun g hg => ?_
  have hg : g ∈ w.graphs ++ [.empty [] w.next] := hg
  rwa [List.mem_append, List.mem_singleton] at hg

theorem add (h : Sound w) (place : Nat) (m : String) (imports : List String) :
    Sound (w.add place m imports) := by
  cases hplace : w.graphs[place]? with
  | none =>
    refine h.renew (.empty [] w.next) rfl fun g hg => Or.inl ?_
    have hg : g ∈ w.graphs.modify place (·.addModule w.next m imports) := hg
    have hlength : w.graphs.length ≤ place := List.getElem?_eq_none_iff.mp hplace
    rwa [List.modify_eq_self hlength] at hg
  | some old =>
    refine h.renew (old.addModule w.next m imports) rfl fun g hg => ?_
    have hg : g ∈ w.graphs.modify place (·.addModule w.next m imports) := hg
    obtain ⟨i, hi⟩ := List.mem_iff_getElem?.mp hg
    rw [List.getElem?_modify] at hi
    obtain ⟨g', hg', rfl⟩ := Option.map_eq_some_iff.mp hi
    by_cases he : place = i
    · have hold : old = g' := by rwa [← he, hplace, Option.some.injEq] at hg'
      rw [if_pos he, hold]
      exact Or.inr rfl
    · rw [if_neg he]
      exact Or.inl (List.mem_of_getElem? hg')

/-- The kept answer is the one that a search would give. -/
theorem detect_eq (h : Sound w) {g : Graph} (hg : g ∈ w.graphs) :
    (w.detector.detect g).1 = Cycle.all g := by
  unfold Cycle.Detector.detect
  split
  · rename_i version cycles hlast
    split
    · rename_i hversion
      exact h.kept_right version cycles hlast g hg (beq_iff_eq.mp hversion).symm
    · rfl
  · rfl

theorem last_detect {d : Cycle.Detector} {g : Graph} {version : Int} {cycles : List (List String)}
    (hlast : (d.detect g).2.last = some (version, cycles)) :
    d.last = some (version, cycles) ∨ version = g.version ∧ cycles = Cycle.all g := by
  unfold Cycle.Detector.detect at hlast
  split at hlast
  · split at hlast
    · exact Or.inl hlast
    · obtain ⟨rfl, rfl⟩ := Prod.mk.inj (Option.some.inj hlast)
      exact Or.inr ⟨rfl, rfl⟩
  · obtain ⟨rfl, rfl⟩ := Prod.mk.inj (Option.some.inj hlast)
    exact Or.inr ⟨rfl, rfl⟩

theorem detect (h : Sound w) (place : Nat) : Sound (w.detect place).2 := by
  unfold Workbench.detect
  cases hplace : w.graphs[place]? with
  | none => exact h
  | some g =>
    have hg : g ∈ w.graphs := List.mem_of_getElem? hplace
    refine ⟨h.used, h.same, fun version cycles hlast => ?_, fun version cycles hlast g' hg' he => ?_⟩
    · rcases last_detect hlast with hold | ⟨rfl, -⟩
      · exact h.kept_used version cycles hold
      · exact h.used g hg
    · rcases last_detect hlast with hold | ⟨rfl, rfl⟩
      · exact h.kept_right version cycles hold g' hg' he
      · rw [h.same g' hg' g hg he]

theorem perform (h : Sound w) (operation : Operation) : Sound (w.perform operation) := by
  cases operation with
  | create => exact h.create
  | add place m imports => exact h.add place m imports
  | detect place => exact h.detect place

theorem askShared_eq (h : Sound w) (place : Nat) : w.askShared place = w.askFresh place := by
  unfold askShared askFresh Workbench.detect
  cases hplace : w.graphs[place]? with
  | none => rfl
  | some g => exact h.detect_eq (List.mem_of_getElem? hplace)

theorem answers_eq (h : Sound w) (operations : List Operation) :
    answers askShared w operations = answers askFresh w operations := by
  induction operations generalizing w with
  | nil => rfl
  | cons operation later ih =>
    have hlater := ih (h.perform operation)
    cases operation with
    | create => exact hlater
    | add place m imports => exact hlater
    | detect place =>
      rw [answers, answers, h.askShared_eq place, hlater]

end Sound

/-- However graphs are created, given modules and asked for their cycles, every answer of the shared
detector is that of a fresh one. -/
theorem answers_shared_eq_fresh (next : Int) (operations : List Operation) :
    answers askShared { next } operations = answers askFresh { next } operations :=
  (Sound.start next).answers_eq operations

/-- Two graphs in turn, and a module that is given again with other imports. -/
example :
    answers askShared {} [.create, .add 0 "a" ["a"], .detect 0, .create, .detect 1, .detect 0,
      .add 0 "a" [], .detect 0] = [[["a", "a"]], [], [["a", "a"]], []] := by
  decide

end Workbench
end ModuleAudit
