import ModuleAudit.Proofs.Cycle.Complete
import ModuleAudit.Proofs.Imports
import ModuleAudit.Proofs.Path.Relative
import ModuleAudit.Proofs.Unfolding

/-
The chains that a rendering reports as circular, and the cycles that the detector finds.

Both come down to one question: does the entry lead to a module that lies on a cycle?  A chain of the
unfolding that comes back to itself shows such a module.  If no chain comes back, every chain ends,
so imports are well founded from the entry on and no module on the way lies on a cycle.
-/

namespace ModuleAudit
namespace Graph

/-- The entry leads to a module that lies on a cycle. -/
def LeadsToCycle (g : Graph) (entry : String) : Prop :=
  ∃ m, Relation.ReflTransGen g.Edge entry m ∧ g.Cyclic m

theorem contains_of_leadsToCycle {g : Graph} {m : String} (h : g.LeadsToCycle m) :
    g.contains m = true := by
  obtain ⟨n, hn, hcyclic⟩ := h
  have hround : Relation.TransGen g.Edge m n := hcyclic.trans_right hn
  obtain ⟨d, hd, -⟩ := Relation.TransGen.head'_iff.mp hround
  exact hd.contains

/-- A module that leads to a cycle imports one that does. -/
theorem exists_inner_of_leadsToCycle {g : Graph} {m : String} (h : g.LeadsToCycle m) :
    ∃ d, g.Inner m d ∧ g.LeadsToCycle d := by
  obtain ⟨n, hn, hcyclic⟩ := h
  have hround : Relation.TransGen g.Edge m n := hcyclic.trans_right hn
  obtain ⟨d, hd, hrest⟩ := Relation.TransGen.head'_iff.mp hround
  have hleads : g.LeadsToCycle d := ⟨n, hrest, hcyclic⟩
  exact ⟨d, ⟨hd, contains_of_leadsToCycle hleads⟩, hleads⟩

theorem not_leadsToCycle_of_acc {g : Graph} {m : String} (h : Acc (fun d n => g.Inner n d) m) :
    ¬ g.LeadsToCycle m := by
  induction h with
  | intro m _ ih =>
    intro hleads
    obtain ⟨d, hd, hleads⟩ := exists_inner_of_leadsToCycle hleads
    exact ih d hd hleads

end Graph

/-- Where no name contains an arrow, the detector finds a cycle among what the entry leads to
whenever there is one. -/
theorem Cycle.exists_mem_all_iff {g : Graph} (h : ∀ m, g.Knows m → NoArrow m.toList)
    {entry : String} :
    (∃ c ∈ all g, ∃ x ∈ c, Relation.ReflTransGen g.Edge entry x) ↔ g.LeadsToCycle entry := by
  constructor
  · rintro ⟨c, hc, x, hx, hreach⟩
    obtain ⟨y, back, rfl, hchain, -⟩ := roundTrip_of_mem_all hc
    exact ⟨y, hreach.trans (reaches_of_roundTrip hchain hx).2, cyclic_of_roundTrip hchain⟩
  · rintro ⟨m, hreach, hcyclic⟩
    have hbroken : ¬ Relation.TransGen
        (fun a b => g.Edge a b ∧ (a, b) ∉ (all g).map closingEdge) m m := by
      intro hround
      refine not_transGen_of_wellFounded (Search.final_wellFounded g) m ?_
      refine Relation.TransGen.mono (fun a b hab => ⟨hab.1, fun hr => hab.2 ?_⟩) m m hround
      exact mem_closingEdges_of_reported h hr
    obtain ⟨c, hc, hon⟩ := exists_mem_all_of_cyclic hcyclic hbroken
    obtain ⟨y, back, rfl, -, -⟩ := roundTrip_of_mem_all hc
    have hy : y ∈ roundTrip y back := List.mem_cons_self
    exact ⟨_, hc, y, hy, hreach.trans (hon y hy).1⟩

theorem Cycle.format_of_ne {cycle : List String} (h : ∀ m ∈ cycle, m ≠ "") (cwd : Path)
    (dir : String) :
    format cwd dir cycle = .ok (arrows (cycle.map fun m => Path.relative cwd m dir)) := by
  have hpaths : (cycle.mapM fun m => Path.relative? cwd m dir) =
      .ok (cycle.map fun m => Path.relative cwd m dir) := by
    induction cycle with
    | nil => rfl
    | cons m rest ih =>
      obtain ⟨hm, hrest⟩ := List.forall_mem_cons.mp h
      rw [List.mapM_cons, Path.relative?_of_ne hm, ih hrest]
      rfl
  rw [format, hpaths]
  rfl

namespace Unfolding

variable {g : Graph}

theorem mem_distinct {t : String} {texts : List String} : t ∈ distinct texts ↔ t ∈ texts := by
  have hadd : t ∈ distinct texts ↔ t ∈ [] ∨ t ∈ texts := Imports.mem_foldl_addNew
  rwa [or_iff_right List.not_mem_nil] at hadd

theorem distinct_eq_nil_iff {texts : List String} : distinct texts = [] ↔ texts = [] := by
  rw [List.eq_nil_iff_forall_not_mem, List.eq_nil_iff_forall_not_mem]
  exact forall_congr' fun t => not_congr mem_distinct

/-! ## Chains that come back -/

theorem returns_repeating {room : Nat} {above : List String} {m : String} (h : m ∈ above)
    (chain : List String) : (ofModule g room above m).returns chain = [chain ++ [m]] := by
  have hcontains : above.contains m = true := List.contains_iff_mem.mpr h
  cases room with
  | zero => rw [ofModule, returns, if_pos hcontains]
  | succ room => rw [ofModule, if_pos hcontains, returns, if_pos rfl]

theorem returns_zero {above : List String} {m : String} (h : m ∉ above) (chain : List String) :
    (ofModule g 0 above m).returns chain = [] := by
  have hcontains : ¬ above.contains m = true := fun hc => h (List.contains_iff_mem.mp hc)
  rw [ofModule, returns, if_neg hcontains, List.flatMap_nil]

theorem returns_succ {room : Nat} {above : List String} {m : String} (h : m ∉ above)
    (chain : List String) :
    (ofModule g (room + 1) above m).returns chain =
      ((g.dependencies m).filter g.contains).flatMap fun d =>
        (ofModule g room (above ++ [m]) d).returns (chain ++ [m]) := by
  have hcontains : ¬ above.contains m = true := fun hc => h (List.contains_iff_mem.mp hc)
  rw [ofModule, if_neg hcontains, returns, if_neg Bool.false_ne_true, List.flatMap_map]

theorem mem_returns_succ {room : Nat} {above : List String} {m : String} (h : m ∉ above)
    {chain c : List String} :
    c ∈ (ofModule g (room + 1) above m).returns chain ↔
      ∃ d, g.Inner m d ∧ c ∈ (ofModule g room (above ++ [m]) d).returns (chain ++ [m]) := by
  rw [returns_succ h, List.mem_flatMap]
  exact exists_congr fun d => and_congr_left fun _ => List.mem_filter

/-- A chain that comes back leads to a cycle, as the modules above all lead to its top. -/
theorem leadsToCycle_of_mem_returns {room : Nat} {above : List String} {m : String}
    {chain c : List String} (habove : ∀ a ∈ above, Relation.TransGen g.Edge a m)
    (h : c ∈ (ofModule g room above m).returns chain) : g.LeadsToCycle m := by
  induction room generalizing above m chain with
  | zero =>
    by_cases hm : m ∈ above
    · exact ⟨m, .refl, habove m hm⟩
    · rw [returns_zero hm] at h
      exact absurd h List.not_mem_nil
  | succ room ih =>
    by_cases hm : m ∈ above
    · exact ⟨m, .refl, habove m hm⟩
    · obtain ⟨d, hd, hc⟩ := (mem_returns_succ hm).mp h
      have hbelow : ∀ a ∈ above ++ [m], Relation.TransGen g.Edge a d := by
        intro a ha
        rcases List.mem_append.mp ha with ha | ha
        · exact (habove a ha).tail hd.1
        · rw [List.mem_singleton.mp ha]
          exact .single hd.1
      obtain ⟨n, hn, hcyclic⟩ := ih hbelow hc
      exact ⟨n, .head hd.1 hn, hcyclic⟩

/-- Where no chain comes back, imports come to an end. -/
theorem acc_of_returns_eq_nil {entry : String} {room : Nat} {above : List String} {m : String}
    {chain : List String} (habove : OnChain g entry above)
    (hm : m = entry ∨ g.contains m = true) (hroom : g.forward.length + 1 < above.length + room)
    (h : (ofModule g room above m).returns chain = []) :
    Acc (fun d n => g.Inner n d) m := by
  induction room generalizing above m chain with
  | zero =>
    -- the chain above is as long as a chain can be
    have hle := habove.length_le
    omega
  | succ room ih =>
    have hnew : m ∉ above := by
      intro hmem
      rw [returns_repeating hmem] at h
      exact List.cons_ne_nil _ _ h
    have hlength : g.forward.length + 1 < (above ++ [m]).length + room := by
      rw [List.length_append, List.length_singleton]
      omega
    refine Acc.intro m fun d hd => ?_
    have hnone : (ofModule g room (above ++ [m]) d).returns (chain ++ [m]) = [] := by
      refine List.eq_nil_iff_forall_not_mem.mpr fun c hc => ?_
      have hmem : c ∈ (ofModule g (room + 1) above m).returns chain :=
        (mem_returns_succ hnew).mpr ⟨d, hd, hc⟩
      rw [h] at hmem
      exact List.not_mem_nil hmem
    exact ih (habove.concat hnew hm) (Or.inr hd.2) hlength hnone

theorem returns_ofEntry_ne_nil_iff {entry : String} :
    (ofEntry g entry).returns [] ≠ [] ↔ g.LeadsToCycle entry := by
  constructor
  · intro h
    obtain ⟨c, hc⟩ := List.exists_mem_of_ne_nil _ h
    exact leadsToCycle_of_mem_returns (fun a ha => absurd ha List.not_mem_nil) hc
  · intro hleads hnil
    have hacc := acc_of_returns_eq_nil (.nil g entry) (Or.inl rfl) (lt_room_ofEntry g) hnil
    exact Graph.not_leadsToCycle_of_acc hacc hleads

end Unfolding

namespace Rendering

/-- If no module has an arrow in its name, the rendering of an entry reports a circular chain just
when the detector finds a cycle with a module that the entry leads to.  There is a rendering unless
the entry leads to a module that was given to the graph under an empty name. -/
theorem circular_ne_nil_iff {g : Graph} (h : ∀ m, g.Knows m → ¬ ['-', '>'] <:+: m.toList)
    (cwd : Path) (entry dir : String) :
    let start := Graph.resolveEntry cwd entry dir
    ((∃ r, ofEntry cwd g entry dir = .ok r) ↔ ¬ Relation.ReflTransGen g.Inner start "") ∧
      ∀ r, ofEntry cwd g entry dir = .ok r →
        (r.circular ≠ [] ↔ ∃ c ∈ (Cycle.Detector.fresh.detect g).1, ∃ m ∈ c,
          Relation.ReflTransGen g.Edge start m) := by
  intro start
  rcases ofEntry_cases cwd g entry dir with ⟨hleads, herror⟩ | ⟨hnot, hok⟩
  · rw [herror]
    refine ⟨⟨fun ⟨r, hr⟩ => ?_, fun hno => absurd hleads hno⟩, fun r hr => ?_⟩
    · cases hr
    · cases hr
  · rw [hok]
    refine ⟨⟨fun _ => hnot, fun _ => ⟨_, rfl⟩⟩, ?_⟩
    rintro r ⟨⟩
    rw [Ne, Unfolding.distinct_eq_nil_iff, List.map_eq_nil_iff]
    exact Unfolding.returns_ofEntry_ne_nil_iff.trans (Cycle.exists_mem_all_iff h).symm

/-- A cycle that is entered from outside. -/
def entered : Graph :=
  (((Graph.empty [] 1).addModule 2 "/src/a" ["/src/b", "x"]).addModule 3 "/src/b" ["/src/a"]).addModule
    4 "/src/i" ["/src/b"]

theorem noArrow_entered : ∀ m, entered.Knows m → ¬ ['-', '>'] <:+: m.toList :=
  Graph.forall_knows (by decide)

theorem circular_ne_nil_iff_entered :
    (∀ m, entered.Knows m → ¬ ['-', '>'] <:+: m.toList) ∧
      (Cycle.Detector.fresh.detect entered).1 = [["/src/a", "/src/b", "/src/a"]] ∧
      ∃ r, ofEntry ⟨.slash, ["src"]⟩ entered "i" "/src" = .ok r ∧ r.circular ≠ [] := by
  have hstart : Graph.resolveEntry ⟨.slash, ["src"]⟩ "i" "/src" = "/src/i" := by decide +kernel
  have hfound : (Cycle.Detector.fresh.detect entered).1 = [["/src/a", "/src/b", "/src/a"]] := by
    decide +kernel
  have hedge : entered.Edge "/src/i" "/src/b" := List.mem_cons_self
  obtain ⟨hexists, hcircular⟩ := circular_ne_nil_iff noArrow_entered ⟨.slash, ["src"]⟩ "i" "/src"
  have hnamed : ¬ Relation.ReflTransGen entered.Inner
      (Graph.resolveEntry ⟨.slash, ["src"]⟩ "i" "/src") "" := by
    intro hreach
    rw [hstart] at hreach
    have hgiven := Unfolding.contains_of_mem_names (Unfolding.mem_names_ofEntry.mpr hreach)
    exact absurd hgiven (by decide)
  obtain ⟨r, hr⟩ := hexists.mpr hnamed
  refine ⟨noArrow_entered, hfound, r, hr, (hcircular r hr).mpr ?_⟩
  rw [hstart, hfound]
  exact ⟨_, List.mem_cons_self, "/src/b", by decide, .single hedge⟩

/-- A module that imports itself, and a module with an empty name. -/
def unnamed : Graph :=
  ((Graph.empty [] 1).addModule 2 "/src/a" ["", "/src/a"]).addModule 3 "" []

/-- The detector finds the cycle at the entry, and there is no rendering to report it. -/
theorem circular_unnamed :
    (∀ m, unnamed.Knows m → ¬ ['-', '>'] <:+: m.toList) ∧
      (∃ c ∈ (Cycle.Detector.fresh.detect unnamed).1, ∃ m ∈ c, Relation.ReflTransGen unnamed.Edge
        (Graph.resolveEntry ⟨.slash, ["src"]⟩ "a" "/src") m) ∧
      ¬ ∃ r, ofEntry ⟨.slash, ["src"]⟩ unnamed "a" "/src" = .ok r ∧ r.circular ≠ [] := by
  have hnames : ∀ m, unnamed.Knows m → ¬ ['-', '>'] <:+: m.toList :=
    Graph.forall_knows (by decide)
  have hstart : Graph.resolveEntry ⟨.slash, ["src"]⟩ "a" "/src" = "/src/a" := by decide +kernel
  have hfound : (Cycle.Detector.fresh.detect unnamed).1 = [["/src/a", "/src/a"]] := by
    decide +kernel
  have hinner : unnamed.Inner "/src/a" "" := ⟨List.mem_cons_self, rfl⟩
  refine ⟨hnames, ?_, ?_⟩
  · rw [hstart, hfound]
    exact ⟨_, List.mem_cons_self, "/src/a", List.mem_cons_self, .refl⟩
  · rintro ⟨r, hr, -⟩
    rcases ofEntry_cases ⟨.slash, ["src"]⟩ unnamed "a" "/src" with ⟨-, herror⟩ | ⟨hnot, -⟩
    · rw [herror] at hr
      cases hr
    · rw [hstart] at hnot
      exact hnot (.single hinner)

end Rendering
end ModuleAudit
