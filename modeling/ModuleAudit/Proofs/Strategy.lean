import Mathlib.Data.List.Forall2
import ModuleAudit.Proofs.Imports

/-
Strategies as lists of single ones.

A strategy tries its single strategies, the leaves, from left to right until one of them makes sense of
the file.  The fault of a group is that of its last leaf, so a group that fails hands on just what its
last leaf would have handed on alone, and the grouping does not show in the result.  Every leaf that is
passed over leaves an event with its own message; only the names in the event tell of the grouping.
-/

namespace ModuleAudit
namespace Strategy

/-- The single strategies of a strategy, in the order in which they are tried. -/
def leaves : Strategy → List Single
  | single leaf => [leaf]
  | fallback primary second => primary.leaves ++ second.leaves

/-- The strategy makes no sense of the file. -/
def Single.Fails (leaf : Single) (content path : String) : Prop :=
  ∃ fault, leaf.extract content path = .error fault

/-- The event tells that the leaf was passed over, and why. -/
def Tells (content path : String) (leaf : Single) (event : Event) : Prop :=
  ∃ fault primary second, leaf.extract content path = .error fault ∧
    event = .fellBack primary fault.message second

/-- The leaves came to a result: that of a leaf behind those that were passed over.  It is a fault only
if no leaf is left. -/
def Tried (content path : String) (leaves : List Single)
    (outcome : Except Fault (List String) × List Event) : Prop :=
  ∃ passed leaf rest, leaves = passed ++ leaf :: rest ∧
    List.Forall₂ (Tells content path) passed outcome.2 ∧
    leaf.extract content path = outcome.1 ∧ ∀ fault, outcome.1 = .error fault → rest = []

variable {content path : String}

theorem Tried.append_right {leaves : List Single} {specifiers : List String} {events : List Event}
    (h : Tried content path leaves (.ok specifiers, events)) (more : List Single) :
    Tried content path (leaves ++ more) (.ok specifiers, events) := by
  obtain ⟨passed, leaf, rest, rfl, hpassed, hleaf, -⟩ := h
  refine ⟨passed, leaf, rest ++ more, by simp, hpassed, hleaf, fun fault hfault => ?_⟩
  cases hfault

/-- Behind leaves that failed, the next ones are tried. -/
theorem Tried.append_left {leaves more : List Single} {fault : Fault} {events : List Event}
    (h : Tried content path leaves (.error fault, events))
    {outcome : Except Fault (List String) × List Event} (hmore : Tried content path more outcome)
    (primary second : String) :
    Tried content path (leaves ++ more)
      (outcome.1, events ++ .fellBack primary fault.message second :: outcome.2) := by
  obtain ⟨passed, last, rest, rfl, hpassed, hlast, hrest⟩ := h
  obtain rfl : rest = [] := hrest fault rfl
  obtain ⟨passed', leaf, rest', rfl, hpassed', hleaf, hrest'⟩ := hmore
  refine ⟨passed ++ last :: passed', leaf, rest', by simp, ?_, hleaf, hrest'⟩
  exact List.rel_append hpassed (.cons ⟨fault, primary, second, hlast, rfl⟩ hpassed')

/-- A strategy tries its leaves. -/
theorem tried_extract (s : Strategy) (content path : String) :
    Tried content path s.leaves (s.extract content path) := by
  induction s with
  | single leaf => exact ⟨[], leaf, [], rfl, .nil, rfl, fun _ _ => rfl⟩
  | fallback primary second ih1 ih2 =>
    rw [leaves, extract]
    cases hfirst : primary.extract content path with
    | mk result events =>
      rw [hfirst] at ih1
      cases result with
      | ok specifiers => exact ih1.append_right _
      | error fault => exact ih1.append_left ih2 _ _

example : (fallback (fallback (failing "a") (failing "b")) (fixed ["./c"])).extract "" "" =
    (.ok ["./c"],
      [.fellBack "failing" "a" "failing", .fellBack "failing+failing" "b" "fixed"]) := rfl

theorem fails_of_tells {leaves : List Single} {events : List Event}
    (h : List.Forall₂ (Tells content path) leaves events) : ∀ l ∈ leaves, l.Fails content path := by
  have hboth : List.Forall₂ (fun l _ => l.Fails content path ∧ True) leaves events :=
    h.imp fun l event ⟨fault, _, _, hfault, _⟩ => ⟨⟨fault, hfault⟩, trivial⟩
  exact ((List.forall₂_and_left leaves events).mp hboth).1

/-- The leaf whose result counts: those before it fail, and it fails itself only as the last one. -/
def Decides (content path : String) (passed : List Single) (leaf : Single) (rest : List Single) :
    Prop :=
  (∀ l ∈ passed, l.Fails content path) ∧ (leaf.Fails content path → rest = [])

theorem Decides.unique {passed passed' rest rest' : List Single} {leaf leaf' : Single}
    (h : Decides content path passed leaf rest) (h' : Decides content path passed' leaf' rest')
    (heq : passed ++ leaf :: rest = passed' ++ leaf' :: rest') : leaf = leaf' := by
  -- a leaf that decides cannot stand among those that the other one has passed over
  have hno : ∀ {x : Single} {more : List Single}, (x.Fails content path → more = []) →
      x.Fails content path → ∀ {as bs : List Single} {y : Single}, more ≠ as ++ y :: bs := by
    intro x more hmore hx as bs y hsplit
    rw [hmore hx] at hsplit
    exact List.append_ne_nil_of_right_ne_nil _ (List.cons_ne_nil _ _) hsplit.symm
  induction passed generalizing passed' with
  | nil =>
    cases passed' with
    | nil => exact (List.cons.inj heq).1
    | cons x passed' =>
      obtain ⟨rfl, hrest⟩ := List.cons.inj heq
      exact absurd hrest (hno h.2 (h'.1 leaf List.mem_cons_self))
  | cons x passed ih =>
    cases passed' with
    | nil =>
      obtain ⟨rfl, hrest⟩ := List.cons.inj heq
      exact absurd hrest.symm (hno h'.2 (h.1 x List.mem_cons_self))
    | cons y passed' =>
      obtain ⟨rfl, hrest⟩ := List.cons.inj heq
      exact ih ⟨(List.forall_mem_cons.mp h.1).2, h.2⟩ ⟨(List.forall_mem_cons.mp h'.1).2, h'.2⟩ hrest

/-- The result of a strategy is that of the leaf that decides. -/
theorem extract_eq_iff {s : Strategy} {result : Except Fault (List String)} :
    (s.extract content path).1 = result ↔ ∃ passed leaf rest, s.leaves = passed ++ leaf :: rest ∧
      Decides content path passed leaf rest ∧ leaf.extract content path = result := by
  obtain ⟨passed, leaf, rest, hleaves, hpassed, hleaf, hrest⟩ := s.tried_extract content path
  have hdecides : Decides content path passed leaf rest := by
    refine ⟨fails_of_tells hpassed, fun ⟨fault, hfault⟩ => ?_⟩
    exact hrest fault (hleaf.symm.trans hfault)
  constructor
  · rintro rfl
    exact ⟨passed, leaf, rest, hleaves, hdecides, hleaf⟩
  · rintro ⟨passed', leaf', rest', hleaves', hdecides', rfl⟩
    rw [← hleaf, hdecides.unique hdecides' (hleaves.symm.trans hleaves')]

theorem extract_eq_ok_iff {s : Strategy} {specifiers : List String} :
    (s.extract content path).1 = .ok specifiers ↔ ∃ passed leaf rest,
      s.leaves = passed ++ leaf :: rest ∧ (∀ l ∈ passed, l.Fails content path) ∧
        leaf.extract content path = .ok specifiers := by
  rw [extract_eq_iff]
  constructor
  · rintro ⟨passed, leaf, rest, hleaves, hdecides, hleaf⟩
    exact ⟨passed, leaf, rest, hleaves, hdecides.1, hleaf⟩
  · rintro ⟨passed, leaf, rest, hleaves, hpassed, hleaf⟩
    refine ⟨passed, leaf, rest, hleaves, ⟨hpassed, fun ⟨fault, hfault⟩ => ?_⟩, hleaf⟩
    rw [hfault] at hleaf
    cases hleaf

theorem extract_eq_error_iff {s : Strategy} {fault : Fault} :
    (s.extract content path).1 = .error fault ↔ (∀ l ∈ s.leaves, l.Fails content path) ∧
      ∃ last ∈ s.leaves.getLast?, last.extract content path = .error fault := by
  rw [extract_eq_iff]
  constructor
  · rintro ⟨passed, leaf, rest, hleaves, hdecides, hleaf⟩
    obtain rfl : rest = [] := hdecides.2 ⟨fault, hleaf⟩
    rw [hleaves, List.getLast?_concat]
    refine ⟨fun l hl => ?_, leaf, rfl, hleaf⟩
    rcases List.mem_append.mp hl with hl | hl
    · exact hdecides.1 l hl
    · exact List.mem_singleton.mp hl ▸ ⟨fault, hleaf⟩
  · rintro ⟨hfails, last, hlast, hfault⟩
    obtain ⟨passed, hleaves⟩ := List.getLast?_eq_some_iff.mp hlast
    refine ⟨passed, last, [], hleaves, ⟨fun l hl => hfails l ?_, fun _ => rfl⟩, hfault⟩
    exact hleaves ▸ List.mem_append_left _ hl

/-- The textual strategy never fails, so neither does a strategy that comes to it. -/
theorem total_of_mem_leaves {s : Strategy} {leaf : Single} (hmem : leaf ∈ s.leaves)
    (hleaf : single leaf = textual) : s.Total := by
  intro content path
  cases hresult : (s.extract content path).1 with
  | ok specifiers => exact ⟨specifiers, rfl⟩
  | error fault =>
    obtain ⟨fault', hfault⟩ := (extract_eq_error_iff.mp hresult).1 leaf hmem
    have hok : leaf.extract content path = .ok (Specifier.Textual.extract content) :=
      congrArg (fun t : Strategy => (t.extract content path).1) hleaf
    rw [hfault] at hok
    cases hok

theorem leaves_ne_nil (s : Strategy) : s.leaves ≠ [] := by
  induction s with
  | single leaf => exact List.cons_ne_nil _ _
  | fallback primary second ih1 _ => exact List.append_ne_nil_of_left_ne_nil ih1 _

theorem name_eq_intercalate (s : Strategy) : s.name = "+".intercalate (s.leaves.map Single.name) := by
  induction s with
  | single leaf => rw [leaves, List.map_singleton, String.intercalate_singleton, name]
  | fallback primary second ih1 ih2 =>
    have hne : ∀ t : Strategy, t.leaves.map Single.name ≠ [] := fun t h =>
      t.leaves_ne_nil (List.map_eq_nil_iff.mp h)
    rw [leaves, List.map_append, String.intercalate_append_of_ne_nil (hne _) (hne _), ← ih1, ← ih2,
      name]

/-- Only its leaves count: a strategy gives what its first leaf gives that does not fail, and fails
just if all of them fail, with the fault of the last.  Its name is that of its leaves.  So the grouping
has no bearing on either, and with the textual strategy among the leaves there is always a result. -/
theorem extract_flat (s : Strategy) :
    (∀ content path specifiers, (s.extract content path).1 = .ok specifiers ↔
      ∃ passed leaf rest, s.leaves = passed ++ leaf :: rest ∧
        (∀ l ∈ passed, l.Fails content path) ∧ leaf.extract content path = .ok specifiers) ∧
    (∀ content path, (∃ fault, (s.extract content path).1 = .error fault) ↔
      ∀ l ∈ s.leaves, l.Fails content path) ∧
    (∀ content path fault, (s.extract content path).1 = .error fault →
      ∃ last ∈ s.leaves.getLast?, last.extract content path = .error fault) ∧
    s.name = "+".intercalate (s.leaves.map Single.name) ∧
    (∀ t : Strategy, t.leaves = s.leaves → t.name = s.name ∧
      ∀ content path, (t.extract content path).1 = (s.extract content path).1) ∧
    ((∃ leaf ∈ s.leaves, single leaf = textual) → s.Total) ∧
    (∃ leaf ∈ standard.leaves, single leaf = textual) ∧ standard.Total := by
  have hstandard : ∃ leaf ∈ standard.leaves, single leaf = textual :=
    ⟨_, List.mem_append_right _ List.mem_cons_self, rfl⟩
  refine ⟨fun _ _ _ => extract_eq_ok_iff, fun content path => ?_,
    fun _ _ _ h => (extract_eq_error_iff.mp h).2, s.name_eq_intercalate, fun t ht => ?_, ?_, hstandard,
    ?_⟩
  · constructor
    · exact fun ⟨_, hfault⟩ => (extract_eq_error_iff.mp hfault).1
    · intro hfails
      have hlast := List.getLast?_eq_some_getLast s.leaves_ne_nil
      obtain ⟨fault, hfault⟩ := hfails _ (List.getLast_mem s.leaves_ne_nil)
      exact ⟨fault, extract_eq_error_iff.mpr ⟨hfails, _, hlast, hfault⟩⟩
  · refine ⟨by rw [name_eq_intercalate, ht, ← name_eq_intercalate], fun content path => ?_⟩
    rw [extract_eq_iff, ht, ← extract_eq_iff]
  · exact fun ⟨_, hmem, hleaf⟩ => total_of_mem_leaves hmem hleaf
  · obtain ⟨leaf, hmem, hleaf⟩ := hstandard
    exact total_of_mem_leaves hmem hleaf

end Strategy
end ModuleAudit
