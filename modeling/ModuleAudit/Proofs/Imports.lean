import ModuleAudit.Graph.Build
import ModuleAudit.Proofs.Session
import ModuleAudit.Proofs.Specifier

/-
The imports of a file, without the session.

`direct` reads a file straight from disk; if the strategy is total it comes to `onDisk`.
`returns_ofFile` says what a run through any session can give, whatever text it reads.  Through a
cache that agrees with the disk a run gives `direct`.
-/

namespace ModuleAudit

/-- The strategy finds specifiers in every file. -/
def Strategy.Total (strategy : Strategy) : Prop :=
  ∀ content path, ∃ specifiers, (strategy.extract content path).1 = .ok specifiers

theorem Strategy.Total.fallback (primary : Strategy) {second : Strategy} (h : second.Total) :
    (Strategy.fallback primary second).Total := by
  intro content path
  rw [Strategy.extract]
  cases hp : primary.extract content path with
  | mk result events =>
    cases result with
    | ok specifiers => exact ⟨specifiers, rfl⟩
    | error fault => exact h content path

theorem Strategy.total_standard : Strategy.standard.Total :=
  Strategy.Total.fallback _ fun content _ => ⟨Specifier.Textual.extract content, rfl⟩

namespace Imports

open Session

/-- The modules of the relative specifiers among some, each once. -/
def specified (disk : Disk) (extensions : List String) (path : String) (known : List String)
    (specifiers : List String) : List String :=
  ((specifiers.filter Specifier.isRelative).map fun specifier =>
    (Specifier.locate disk extensions path specifier).identity).foldl addNew known

/-- The imports of a file with a given text. -/
def ofText (disk : Disk) (extensions : List String) (strategy : Strategy) (path content : String) :
    Except Strategy.Fault (List String) :=
  if content.toList.all Text.isBlank then .ok []
  else (strategy.extract content path).1.map (specified disk extensions path [])

/-- The local modules that a file on disk imports; none if it cannot be made sense of. -/
def onDisk (disk : Disk) (extensions : List String) (strategy : Strategy) (path : String) :
    List String :=
  if disk.isFile path then
    match disk.readText path with
    | .error _ => []
    | .ok content =>
      match ofText disk extensions strategy path content with
      | .error _ => []
      | .ok imports => imports
  else []

theorem mem_addNew {modules : List String} {m d : String} :
    d ∈ addNew modules m ↔ d ∈ modules ∨ d = m := by
  unfold addNew
  split
  · rename_i h
    rw [List.contains_iff_mem] at h
    exact ⟨Or.inl, fun hd => hd.elim id fun e => e ▸ h⟩
  · rw [List.mem_append, List.mem_singleton]

theorem mem_foldl_addNew {found known : List String} {d : String} :
    d ∈ found.foldl addNew known ↔ d ∈ known ∨ d ∈ found := by
  induction found generalizing known with
  | nil => simp
  | cons m found ih => rw [List.foldl_cons, ih, mem_addNew, List.mem_cons, or_assoc]

theorem nodup_addNew {modules : List String} (h : modules.Nodup) (m : String) :
    (addNew modules m).Nodup := by
  unfold addNew
  split
  · exact h
  · rename_i hm
    rw [List.contains_iff_mem] at hm
    refine List.nodup_append.mpr ⟨h, List.nodup_singleton m, ?_⟩
    intro a ha b hb e
    exact hm (List.mem_singleton.mp hb ▸ e ▸ ha)

theorem nodup_foldl_addNew {found known : List String} (h : known.Nodup) :
    (found.foldl addNew known).Nodup := by
  induction found generalizing known with
  | nil => exact h
  | cons m found ih => exact ih (nodup_addNew h m)

theorem mem_specified {disk : Disk} {extensions : List String} {path d : String}
    {specifiers : List String} :
    d ∈ specified disk extensions path [] specifiers ↔
      ∃ specifier ∈ specifiers, Specifier.isRelative specifier = true ∧
        (Specifier.locate disk extensions path specifier).identity = d := by
  rw [specified, mem_foldl_addNew, List.mem_map]
  constructor
  · rintro (h | ⟨specifier, h, rfl⟩)
    · exact absurd h List.not_mem_nil
    · exact ⟨specifier, (List.mem_filter.mp h).1, (List.mem_filter.mp h).2, rfl⟩
  · rintro ⟨specifier, hmem, hrel, rfl⟩
    exact Or.inr ⟨specifier, List.mem_filter.mpr ⟨hmem, hrel⟩, rfl⟩

/-- A text gives nothing, or what its specifiers stand for. -/
theorem eq_nil_or_specified_of_ofText {disk : Disk} {extensions : List String}
    {strategy : Strategy} {path content : String} {imports : List String}
    (h : ofText disk extensions strategy path content = .ok imports) :
    imports = [] ∨ ∃ specifiers, imports = specified disk extensions path [] specifiers := by
  unfold ofText at h
  split at h
  · cases h
    exact Or.inl rfl
  · cases hx : (strategy.extract content path).1 with
    | error fault =>
      rw [hx] at h
      cases h
    | ok specifiers =>
      rw [hx] at h
      cases h
      exact Or.inr ⟨specifiers, rfl⟩

/-- Specifiers that stand for one module count once. -/
theorem nodup_of_ofText {disk : Disk} {extensions : List String} {strategy : Strategy}
    {path content : String} {imports : List String}
    (h : ofText disk extensions strategy path content = .ok imports) : imports.Nodup := by
  rcases eq_nil_or_specified_of_ofText h with rfl | ⟨specifiers, rfl⟩
  · exact List.nodup_nil
  · exact nodup_foldl_addNew List.nodup_nil

/-- Everything imported comes from a relative specifier. -/
theorem exists_specifier_of_ofText {disk : Disk} {extensions : List String} {strategy : Strategy}
    {path content : String} {imports : List String}
    (h : ofText disk extensions strategy path content = .ok imports) {d : String}
    (hd : d ∈ imports) :
    ∃ specifier, Specifier.isRelative specifier = true ∧
      (Specifier.locate disk extensions path specifier).identity = d := by
  rcases eq_nil_or_specified_of_ofText h with rfl | ⟨specifiers, rfl⟩
  · exact absurd hd List.not_mem_nil
  · obtain ⟨specifier, -, hrel, heq⟩ := mem_specified.mp hd
    exact ⟨specifier, hrel, heq⟩

theorem exists_specifier_of_mem_onDisk {disk : Disk} {extensions : List String}
    {strategy : Strategy} {path d : String} (h : d ∈ onDisk disk extensions strategy path) :
    ∃ specifier, Specifier.isRelative specifier = true ∧
      (Specifier.locate disk extensions path specifier).identity = d := by
  unfold onDisk at h
  split at h
  · split at h
    · exact absurd h List.not_mem_nil
    · split at h
      · exact absurd h List.not_mem_nil
      · rename_i htext
        exact exists_specifier_of_ofText htext h
  · exact absurd h List.not_mem_nil

/-- Imported modules are named by paths in normal form, as long as no extension has a slash. -/
theorem exists_canonical_of_mem_onDisk {disk : Disk} (hd : disk.WellFormed)
    {extensions : List String} (hext : ∀ ext ∈ extensions, '/' ∉ ext.toList) {strategy : Strategy}
    {path d : String} (h : d ∈ onDisk disk extensions strategy path) :
    ∃ p : Path, p.Canonical ∧ d = p.toString := by
  obtain ⟨specifier, hrel, rfl⟩ := exists_specifier_of_mem_onDisk h
  obtain ⟨p, hp, -, hidentity⟩ := Specifier.exists_canonical_identity hd hext _ hrel
  exact ⟨p, hp, hidentity⟩

/-! ## Through a session -/

section

variable {disk : Disk} {I : Session → Prop} (hI : Stable disk I) (extensions : List String)

include hI

theorem meets_resolve (prefetch : Bool) (base specifier : String) :
    Meets I (Specifier.resolve disk extensions prefetch base specifier)
      (· = (Specifier.locate disk extensions base specifier).identity) := by
  unfold Specifier.resolve
  cases Specifier.locate disk extensions base specifier with
  | package name => exact Meets.pure rfl
  | found path =>
    cases prefetch with
    | true => exact (hI.meets_prefetch path).bind fun _ _ => Meets.pure rfl
    | false => exact Meets.pure rfl
  | missing path => exact (hI.meets_note _).bind fun _ _ => Meets.pure rfl

theorem meets_resolveAll (path : String) (known specifiers : List String) :
    Meets I (resolveAll disk extensions path known specifiers)
      (· = specified disk extensions path known specifiers) := by
  induction specifiers generalizing known with
  | nil => exact Meets.pure rfl
  | cons specifier rest ih =>
    unfold resolveAll
    by_cases hrel : Specifier.isRelative specifier = true
    · rw [if_pos hrel]
      refine (meets_resolve hI extensions true path specifier).bind ?_
      rintro m rfl
      rw [specified, List.filter_cons_of_pos hrel]
      exact ih _
    · rw [if_neg hrel, specified, List.filter_cons_of_neg hrel]
      exact ih known

/-- What the imports of a file come to, whatever its text. -/
theorem returns_ofFile (strategy : Strategy) (path : String) {E : Prop} {P : List String → Prop}
    (hnone : P []) (htext : ∀ content, OrElse E P (ofText disk extensions strategy path content)) :
    Returns I E (ofFile disk extensions strategy path) P := by
  unfold ofFile
  cases disk.isFile path with
  | false => exact Returns.pure hnone
  | true =>
    refine (Returns.lift (hI.meets_read path)).bind ?_
    rintro (fault | content) -
    · exact (Returns.lift (hI.meets_note _)).bind fun _ _ => Returns.pure hnone
    · have ht := htext content
      unfold ofText at ht
      dsimp only
      split
      · exact Returns.pure hnone
      · rename_i hblank
        rw [if_neg hblank] at ht
        refine (Returns.lift (hI.meets_note _)).bind fun _ _ => ?_
        have hspecifiers : OrElse E (P <| specified disk extensions path [] ·)
            (strategy.extract content path).1 := by
          cases hx : (strategy.extract content path).1 with
          | error fault =>
            rw [hx] at ht
            cases ht with
            | error hE => exact .error hE
          | ok specifiers =>
            rw [hx] at ht
            cases ht with
            | ok hp => exact .ok hp
        refine (Returns.liftExcept hspecifiers).bind fun specifiers hp => Returns.lift ?_
        exact (meets_resolveAll hI extensions path [] specifiers).mono fun _ e => e ▸ hp

end

/-! ## Straight from disk -/

/-- The imports of a file, with every read going to disk. -/
def direct (disk : Disk) (extensions : List String) (strategy : Strategy) (path : String) :
    Except Strategy.Fault (List String) :=
  if !disk.isFile path then .ok []
  else
    match disk.readText path with
    | .error _ => .ok []
    | .ok content => ofText disk extensions strategy path content

theorem exists_ofText {strategy : Strategy} (htotal : strategy.Total) (disk : Disk)
    (extensions : List String) (path content : String) :
    ∃ imports, ofText disk extensions strategy path content = .ok imports := by
  unfold ofText
  split
  · exact ⟨[], rfl⟩
  · obtain ⟨specifiers, hx⟩ := htotal content path
    rw [hx]
    exact ⟨_, rfl⟩

theorem direct_eq_onDisk {strategy : Strategy} (htotal : strategy.Total) (disk : Disk)
    (extensions : List String) (path : String) :
    direct disk extensions strategy path = .ok (onDisk disk extensions strategy path) := by
  unfold direct onDisk
  cases disk.isFile path with
  | false => rfl
  | true =>
    cases disk.readText path with
    | error fault => rfl
    | ok content =>
      obtain ⟨imports, himports⟩ := exists_ofText htotal disk extensions path content
      simp [himports]

variable (disk : Disk) (extensions : List String) (strategy : Strategy)

theorem gives_ofFile (path : String) :
    Gives (fun s => s.cache.Faithful disk) (ofFile disk extensions strategy path)
      (direct disk extensions strategy path) := by
  have hI := stable_faithful disk
  unfold ofFile direct
  cases disk.isFile path with
  | false => exact Gives.pure []
  | true =>
    refine (Gives.lift (meets_read_faithful disk path)).bind (k := fun r => match r with
      | .error _ => .ok []
      | .ok content => ofText disk extensions strategy path content) ?_
    rintro (fault | content)
    · exact (hI.gives_note _).bind fun _ => Gives.pure []
    · dsimp only [ofText]
      split
      · exact Gives.pure []
      · refine (hI.gives_note _).bind (k := fun _ => _) fun _ => ?_
        have hfound := (Gives.liftExcept (I := fun s => s.cache.Faithful disk)
          (strategy.extract content path).1).bind fun specifiers =>
            Gives.lift (meets_resolveAll hI extensions path [] specifiers)
        cases hx : (strategy.extract content path).1 with
        | error fault => rwa [hx] at hfound
        | ok specifiers => rwa [hx] at hfound

/-- The imports of some files, one after the other through one session. -/
def ofFiles (paths : List String) :
    StateM Session (List (Except Strategy.Fault (List String))) :=
  paths.mapM fun path => (ofFile disk extensions strategy path).run

theorem meets_ofFiles (paths : List String) :
    Meets (fun s => s.cache.Faithful disk) (ofFiles disk extensions strategy paths)
      (· = paths.map (direct disk extensions strategy)) := by
  unfold ofFiles
  induction paths with
  | nil => exact Meets.pure rfl
  | cons path rest ih =>
    rw [List.mapM_cons]
    refine Meets.bind (gives_ofFile disk extensions strategy path) ?_
    rintro _ rfl
    refine ih.bind ?_
    rintro _ rfl
    exact Meets.pure rfl

end Imports
end ModuleAudit
