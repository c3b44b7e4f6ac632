import ModuleAudit.Manifest

/-
The entry point is the first candidate that can be used.

The candidates are the entry point that is asked for, the values at some places of the manifest, and the
usual entry point.  A place is a path of keys, so a value that lies in something else than an object is
not there at all.  Only a text that is not empty can be used; whatever else stands at a place is passed
over.
-/

namespace ModuleAudit

namespace Json

/-- The value that a path of keys leads to. -/
def at? : List String → Json → Option Json
  | [], value => some value
  | key :: rest, value => (value.member? key).bind (at? rest)

theorem text?_eq_some_iff {value : Json} {text : String} :
    value.text? = some text ↔ value = .string text ∧ text ≠ "" := by
  cases value with
  | string s =>
    by_cases hs : s = ""
    · simp only [text?, hs, beq_self_eq_true, if_true, reduceCtorEq, string.injEq, false_iff]
      rintro ⟨rfl, hne⟩
      exact hne rfl
    · simp only [text?, beq_iff_eq, hs, if_false, Option.some.injEq, string.injEq]
      exact ⟨fun h => ⟨h, h ▸ hs⟩, And.left⟩
  | _ => simp [text?]

end Json

namespace Manifest

/-- The places of a manifest that can name the entry point, in the order in which they count. -/
def entryPlaces : List (List String) :=
  [["main"], ["module"], ["browser"], ["exports"], ["exports", "."], ["exports", ".", "default"],
    ["exports", ".", "import"]]

/-- The value at a place of a manifest, if there is a manifest. -/
def value? (m : Option Manifest) (place : List String) : Option Json :=
  m.bind fun m => (Json.object m.members).at? place

/-- All that can be the entry point, in the order in which it counts. -/
def candidates (m : Option Manifest) (asked : Option String) : List (Option Json) :=
  asked.map Json.string :: entryPlaces.map (value? m) ++ [some (.string defaultEntry)]

/-- The text of a candidate that can be used. -/
def usable? (candidate : Option Json) : Option String := candidate.bind Json.text?

theorem usable?_eq_some_iff {candidate : Option Json} {text : String} :
    usable? candidate = some text ↔ candidate = some (.string text) ∧ text ≠ "" := by
  rw [usable?, Option.bind_eq_some_iff]
  simp only [Json.text?_eq_some_iff]
  constructor
  · rintro ⟨_, rfl, rfl, hne⟩
    exact ⟨rfl, hne⟩
  · rintro ⟨rfl, hne⟩
    exact ⟨_, rfl, rfl, hne⟩

theorem usable?_eq_none_iff {candidate : Option Json} :
    usable? candidate = none ↔ ∀ text, candidate = some (.string text) → text = "" := by
  rw [Option.eq_none_iff_forall_ne_some]
  refine forall_congr' fun text => ?_
  rw [Ne, usable?_eq_some_iff, not_and, Decidable.not_not]

theorem usable?_asked (asked : Option String) :
    usable? (asked.map Json.string) = asked.filter (· != "") := by
  cases asked with
  | none => rfl
  | some entry => by_cases h : entry = "" <;> simp [usable?, Json.text?, Option.filter, h]

theorem findSome?_cons_eq_or {α β : Type} (f : α → Option β) (a : α) (rest : List α) :
    (a :: rest).findSome? f = (f a).or (rest.findSome? f) := by
  rw [List.findSome?_cons]
  cases f a <;> rfl

theorem usable?_at_nil (value : Json) : usable? (value.at? []) = value.text? := rfl

theorem usable?_at_cons (value : Json) (key : String) (rest : List String) :
    usable? (value.at? (key :: rest)) =
      (value.member? key).bind fun inner => usable? (inner.at? rest) :=
  Option.bind_assoc ..

/-- A map of exports is asked for itself, for its root, and for the conditions of its root. -/
theorem fromExports_eq (exports : Json) :
    fromExports exports =
      [[], ["."], [".", "default"], [".", "import"]].findSome? fun place =>
        usable? (exports.at? place) := by
  simp only [findSome?_cons_eq_or, List.findSome?_nil, Option.or_none, usable?_at_nil, usable?_at_cons]
  cases exports with
  | object members =>
    have hself : (Json.object members).text? = none := rfl
    have hroot : (Json.object members).member? "." = members.lookup "." := rfl
    rw [fromExports, hself, hroot, Option.none_or]
    cases members.lookup "." with
    | none => rfl
    | some root =>
      simp only [Option.bind_some, exportConditions, findSome?_cons_eq_or, List.findSome?_nil,
        Option.or_none, Option.orElse_eq_orElse, Option.orElse_eq_or]
  | string s => exact Option.or_none.symm
  | _ => rfl

/-- The fields of a manifest are asked place by place. -/
theorem findSome?_fieldEntry (m : Manifest) :
    entryFields.findSome? m.fieldEntry =
      entryPlaces.findSome? fun place => usable? (value? (some m) place) := by
  have hvalue : ∀ field rest, usable? (value? (some m) (field :: rest)) =
      (m.members.get? field).bind fun value => usable? (value.at? rest) :=
    fun field rest => usable?_at_cons (.object m.members) field rest
  have hplain : ∀ field, field ≠ "exports" →
      m.fieldEntry field = usable? (value? (some m) [field]) := by
    intro field hfield
    have hbeq : (field == "exports") = false := beq_eq_false_iff_ne.mpr hfield
    rw [hvalue, fieldEntry, hbeq]
    rfl
  have hexports : m.fieldEntry "exports" = (m.members.get? "exports").bind fromExports := rfl
  simp only [entryFields, entryPlaces, findSome?_cons_eq_or, List.findSome?_nil, Option.or_none]
  rw [hplain "main" (by decide), hplain "module" (by decide), hplain "browser" (by decide), hexports]
  simp only [hvalue "exports"]
  cases m.members.get? "exports" with
  | none => rfl
  | some exports =>
    simp only [Option.bind_some, fromExports_eq, findSome?_cons_eq_or, List.findSome?_nil,
      Option.or_none]

theorem findSome?_candidates (m : Option Manifest) (asked : Option String) :
    (candidates m asked).findSome? usable? = some (entryPoint m asked) := by
  have hplaces : (entryPlaces.map (value? m)).findSome? usable? =
      m.bind fun m => entryFields.findSome? m.fieldEntry := by
    rw [List.findSome?_map]
    cases m with
    | none => rfl
    | some m => exact (findSome?_fieldEntry m).symm
  have hdefault : usable? (some (.string defaultEntry)) = some defaultEntry := by decide
  rw [candidates, List.cons_append, findSome?_cons_eq_or, List.findSome?_append, hplaces,
    List.findSome?_singleton, hdefault, usable?_asked, entryPoint]
  cases asked.filter (· != "") with
  | some entry => rfl
  | none => cases m.bind fun m => entryFields.findSome? m.fieldEntry <;> rfl

/-- The entry point is the first candidate that is a text and not empty, so it is never empty itself. -/
theorem entryPoint_first (m : Option Manifest) (asked : Option String) :
    (∀ entry, entryPoint m asked = entry ↔ ∃ before after,
      candidates m asked = before ++ some (.string entry) :: after ∧ entry ≠ "" ∧
        ∀ text, some (.string text) ∈ before → text = "") ∧
    entryPoint m asked ≠ "" := by
  have hfirst : ∀ entry, entryPoint m asked = entry ↔ ∃ before after,
      candidates m asked = before ++ some (.string entry) :: after ∧ entry ≠ "" ∧
        ∀ text, some (.string text) ∈ before → text = "" := by
    intro entry
    rw [← Option.some_inj, ← findSome?_candidates, List.findSome?_eq_some_iff]
    simp only [usable?_eq_some_iff, usable?_eq_none_iff]
    constructor
    · rintro ⟨before, _, after, hsplit, ⟨rfl, hne⟩, hbefore⟩
      exact ⟨before, after, hsplit, hne, fun text hmem => hbefore _ hmem text rfl⟩
    · rintro ⟨before, after, hsplit, hne, hbefore⟩
      refine ⟨before, _, after, hsplit, ⟨rfl, hne⟩, fun candidate hmem text htext => ?_⟩
      exact hbefore text (htext ▸ hmem)
  obtain ⟨_, _, -, hne, -⟩ := (hfirst _).mp rfl
  exact ⟨hfirst, hne⟩

end Manifest
end ModuleAudit
