import ModuleAudit.Proofs.Outline
import ModuleAudit.Proofs.Unfolding.Chains

/-
The rendering of an entry as a loop over frames.

The loop keeps a stack of frames.  A frame is a module, the chain of modules above it, and the place
where the nodes below it are to be put.  There is no record of the modules that were dealt with: a
module is taken up again below every chain that comes to it, and only the chain above a frame tells
where to stop.  `Ends` says that the loop comes to an end.  It is shown along the unfolding of the
frame's module: the modules on a chain differ, so the chains above the frames that a frame leads to
cannot grow for ever.

Places refer to places that were made later.  While the loop deals with a frame, it changes the place
of the frame and places that are new, so what other frames have put down stays, and what the loop
leaves in the end is the outline of the unfolding.
-/

namespace ModuleAudit

/-- The entries at a place: labels, each with the place of what stands below, or with none for a
remark. -/
abbrev Store := List (Table (Option Nat))

namespace Store

/-- The node of an entry, where `below` tells what places hold. -/
def nodeOf (below : Nat → List Outline) (entry : String × Option Nat) : Outline :=
  entry.2.elim (.leaf entry.1) fun child => .node entry.1 (below child)

/-- What a place holds.  Places below it were made later. -/
def read (store : Store) (place : Nat) : List Outline :=
  (store.getD place []).map fun entry =>
    nodeOf (fun child => if place < child ∧ child < store.length then read store child else []) entry
termination_by store.length - place

end Store

/-- A module to unfold, the chain above it, and the place for the nodes below it. -/
structure Growth.Frame where
  module : String
  above : List String
  place : Nat

/-- A state of the loop. -/
structure Growth where
  stack : List Growth.Frame
  store : Store
  circular : List String

namespace Growth

/-- The store with one more place, entered under a label at a place. -/
def addPlace (store : Store) (place : Nat) (label : String) : Store :=
  store.modify place (·.put label (some store.length)) ++ [[]]

section

variable (cwd : Path) (g : Graph) (dir : String)

/-- Makes a place for each of the modules and enters it under the module's label at `place`, and gives
the frames for the modules.  Their chain is `chain`. -/
def hang (chain : List String) (place : Nat) :
    List String → Store → Except Path.Unspecified (Store × List Frame)
  | [], store => .ok (store, [])
  | d :: rest, store => do
    let path ← Path.relative? cwd d dir
    let hung ← hang chain place rest (addPlace store place (Unfolding.label g (fun _ => path) d))
    .ok (hung.1, ⟨d, chain, store.length⟩ :: hung.2)

/-- Deals with a frame: notes a chain that comes back, or hangs up the imports of the module and puts
their frames in front of the others. -/
def expand (f : Frame) (rest : List Frame) (s : Growth) : Except Path.Unspecified Growth :=
  if f.above.contains f.module then do
    let text ← Cycle.format cwd dir (f.above ++ [f.module])
    .ok
      { stack := rest
        store := s.store.modify f.place (·.put Unfolding.returnMark none)
        circular := Imports.addNew s.circular text }
  else do
    let hung ← hang cwd g dir (f.above ++ [f.module]) f.place
      ((g.dependencies f.module).filter g.contains) s.store
    .ok { s with stack := hung.2 ++ rest, store := hung.1 }

/-- One round of the loop.  There is none when no frame is left. -/
def step? (s : Growth) : Option (Except Path.Unspecified Growth) :=
  match s.stack with
  | [] => none
  | f :: rest => some (expand cwd g dir f rest s)

/-- The loop comes to an end: with a last state, or with the fault of a round. -/
inductive Ends : Growth → Except Path.Unspecified Growth → Prop where
  | done {s : Growth} (h : step? cwd g dir s = none) : Ends s (.ok s)
  | fault {s : Growth} {fault : Path.Unspecified} (h : step? cwd g dir s = some (.error fault)) :
      Ends s (.error fault)
  | round {s next : Growth} {outcome : Except Path.Unspecified Growth}
      (h : step? cwd g dir s = some (.ok next)) (hnext : Ends next outcome) : Ends s outcome

/-- The state in which the loop starts: a frame for the entry, and an empty place for it. -/
def initial (entry : String) : Growth := { stack := [⟨entry, [], 0⟩], store := [[]], circular := [] }

/-- How an entry is rendered: it gets its label, the loop comes to an end, and what stands at the first
place goes below the label. -/
inductive Renders (entry : String) : Except Path.Unspecified Rendering → Prop where
  | unnamed {fault : Path.Unspecified}
      (hlabel : Path.relative? cwd (Graph.resolveEntry cwd entry dir) dir = .error fault) :
      Renders entry (.error fault)
  | fault {label : String} {fault : Path.Unspecified}
      (hlabel : Path.relative? cwd (Graph.resolveEntry cwd entry dir) dir = .ok label)
      (hends : Ends cwd g dir (initial (Graph.resolveEntry cwd entry dir)) (.error fault)) :
      Renders entry (.error fault)
  | done {label : String} {s : Growth}
      (hlabel : Path.relative? cwd (Graph.resolveEntry cwd entry dir) dir = .ok label)
      (hends : Ends cwd g dir (initial (Graph.resolveEntry cwd entry dir)) (.ok s)) :
      Renders entry (.ok { outline := .node label (s.store.read 0), circular := s.circular })

end

/-! ## What a place holds -/

theorem label_nodeOf (below : Nat → List Outline) (entry : String × Option Nat) :
    (Store.nodeOf below entry).label = entry.1 := by
  obtain ⟨label, child⟩ := entry
  cases child <;> rfl

/-- Entering a label at a place puts a node with that label among the nodes. -/
theorem map_nodeOf_put (below : Nat → List Outline) (entries : Table (Option Nat)) (label : String)
    (child : Option Nat) :
    (entries.put label child).map (Store.nodeOf below) =
      Outline.put (entries.map (Store.nodeOf below)) (Store.nodeOf below (label, child)) := by
  induction entries with
  | nil => rfl
  | cons entry rest ih =>
    obtain ⟨k, v⟩ := entry
    rw [Table.put_cons, List.map_cons, Outline.put, label_nodeOf, label_nodeOf]
    by_cases hk : k = label
    · subst hk
      simp
    · simp [hk, ih]

/-- A place whose entries lead to places made later holds the nodes of its entries. -/
theorem read_eq {store : Store} {place : Nat} {entries : Table (Option Nat)}
    (h : store[place]? = some entries)
    (hlater : ∀ entry ∈ entries, ∀ child ∈ entry.2, place < child ∧ child < store.length) :
    store.read place = entries.map (Store.nodeOf store.read) := by
  rw [Store.read, List.getD_eq_getElem?_getD, h, Option.getD_some]
  refine List.map_congr_left fun entry hentry => ?_
  obtain ⟨label, child⟩ := entry
  cases child with
  | none => rfl
  | some child =>
    have hchild := hlater _ hentry child rfl
    simp only [Store.nodeOf, Option.elim_some, if_pos hchild]

/-- From one store to a later one the given places were filled, each with its nodes.  No other place of
the first store has changed.  What a filled place holds is seen in every store that has the same there
and at the places made in between. -/
structure Filled (before after : Store) (nodes : List (Nat × List Outline)) : Prop where
  length_le : before.length ≤ after.length
  kept : ∀ i < before.length, i ∉ nodes.map (·.1) → after[i]? = before[i]?
  holds : ∀ n ∈ nodes, ∀ store : Store, store[n.1]? = after[n.1]? →
    (∀ i, before.length ≤ i → i < after.length → store[i]? = after[i]?) → store.read n.1 = n.2

theorem Filled.nil (store : Store) : Filled store store [] where
  length_le := Nat.le_refl _
  kept := fun _ _ _ => rfl
  holds := fun _ h => absurd h List.not_mem_nil

/-- Places that were there before can be filled one after the other. -/
theorem Filled.append {before middle after : Store} {nodes more : List (Nat × List Outline)}
    (h : Filled before middle nodes) (hmore : Filled middle after more)
    (hold : ∀ n ∈ nodes ++ more, n.1 < before.length)
    (hdisjoint : ∀ n ∈ nodes, n.1 ∉ more.map (·.1)) : Filled before after (nodes ++ more) := by
  have hle := h.length_le
  have hle' := hmore.length_le
  have hnew : ∀ i, before.length ≤ i → i ∉ more.map (·.1) := by
    intro i hi hmem
    obtain ⟨n, hn, rfl⟩ := List.mem_map.mp hmem
    have := hold n (List.mem_append_right _ hn)
    omega
  refine ⟨by omega, fun i hi hmem => ?_, fun n hn store hplace hmade => ?_⟩
  · rw [List.map_append, List.mem_append, not_or] at hmem
    rw [hmore.kept i (by omega) hmem.2, h.kept i hi hmem.1]
  · rcases List.mem_append.mp hn with hn | hn
    · have hlt := hold n (List.mem_append_left _ hn)
      refine h.holds n hn store ?_ fun i hi hi' => ?_
      · rw [hplace, hmore.kept n.1 (by omega) (hdisjoint n hn)]
      · rw [hmade i hi (by omega), hmore.kept i hi' (hnew i hi)]
    · exact hmore.holds n hn store hplace fun i hi hi' => hmade i (by omega) hi'

/-! ## Hanging up imports -/

section

variable {cwd : Path} {g : Graph} {dir : String}

/-- The entries of modules with the places made for them, behind older entries. -/
def entries (g : Graph) (shown : String → String) (old : Table (Option Nat))
    (placed : List (String × Nat)) : Table (Option Nat) :=
  placed.foldl (fun kept d => kept.put (Unfolding.label g shown d.1) (some d.2)) old

/-- Entries that lead to what `nodes` gives for the modules are the nodes of the modules, each put among
those before it. -/
theorem map_nodeOf_entries {shown : String → String} {below : Nat → List Outline}
    {nodes : String → List Outline} {placed : List (String × Nat)}
    (h : ∀ d ∈ placed, below d.2 = nodes d.1) (old : Table (Option Nat)) :
    (entries g shown old placed).map (Store.nodeOf below) =
      ((placed.map (·.1)).map fun d => Outline.node (Unfolding.label g shown d) (nodes d)).foldl
        Outline.put (old.map (Store.nodeOf below)) := by
  induction placed generalizing old with
  | nil => rfl
  | cons d rest ih =>
    obtain ⟨hd, hrest⟩ := List.forall_mem_cons.mp h
    rw [List.map_cons, List.map_cons, List.foldl_cons, ← hd]
    exact (ih hrest _).trans (by rw [map_nodeOf_put]; rfl)

/-- An entry was there before, or it leads to the place of a module. -/
theorem mem_or_of_mem_entries {shown : String → String} {placed : List (String × Nat)}
    {old : Table (Option Nat)} {entry : String × Option Nat}
    (h : entry ∈ entries g shown old placed) : entry ∈ old ∨ ∃ d ∈ placed, entry.2 = some d.2 := by
  induction placed generalizing old with
  | nil => exact Or.inl h
  | cons d rest ih =>
    rcases ih h with h | ⟨e, he, heq⟩
    · rcases Table.mem_of_mem_put h with h | rfl
      · exact Or.inl h
      · exact Or.inr ⟨d, List.mem_cons_self, rfl⟩
    · exact Or.inr ⟨e, List.mem_cons_of_mem _ he, heq⟩

/-- From one store to another, modules were hung up: each has an empty place of its own behind those
there were, and an entry at the given place, whose entries were `old`. -/
structure Hung (g : Graph) (shown : String → String) (place : Nat) (old : Table (Option Nat))
    (ds : List String) (before after : Store) : Prop where
  length_eq : after.length = before.length + ds.length
  entered : after[place]? = some (entries g shown old (ds.zipIdx before.length))
  kept : ∀ i < before.length, i ≠ place → after[i]? = before[i]?
  made : ∀ i, before.length ≤ i → i < after.length → after[i]? = some []

theorem length_addPlace (store : Store) (place : Nat) (label : String) :
    (addPlace store place label).length = store.length + 1 := by
  rw [addPlace, List.length_append, List.length_modify, List.length_singleton]

theorem getElem?_addPlace_self {store : Store} {place : Nat} {old : Table (Option Nat)}
    (h : store[place]? = some old) (label : String) :
    (addPlace store place label)[place]? = some (old.put label (some store.length)) := by
  have hlt : place < store.length := (List.getElem?_eq_some_iff.mp h).1
  rw [addPlace, List.getElem?_append_left (by rwa [List.length_modify]), List.getElem?_modify_eq, h]
  rfl

theorem getElem?_addPlace_ne {store : Store} {place i : Nat} (hi : i < store.length) (hne : i ≠ place)
    (label : String) : (addPlace store place label)[i]? = store[i]? := by
  rw [addPlace, List.getElem?_append_left (by rwa [List.length_modify]),
    List.getElem?_modify_ne _ _ (Ne.symm hne)]

theorem getElem?_addPlace_length (store : Store) (place : Nat) (label : String) :
    (addPlace store place label)[store.length]? = some [] := by
  rw [addPlace, List.getElem?_append_right (by rw [List.length_modify]), List.length_modify,
    Nat.sub_self]
  rfl

theorem Hung.cons {shown : String → String} {place : Nat} {old : Table (Option Nat)} {d : String}
    {ds : List String} {before after : Store} (hplace : before[place]? = some old)
    (h : Hung g shown place (old.put (Unfolding.label g shown d) (some before.length)) ds
      (addPlace before place (Unfolding.label g shown d)) after) :
    Hung g shown place old (d :: ds) before after := by
  have hlt : place < before.length := (List.getElem?_eq_some_iff.mp hplace).1
  have hlength := length_addPlace before place (Unfolding.label g shown d)
  refine ⟨?_, ?_, fun i hi hne => ?_, fun i hi hi' => ?_⟩
  · rw [h.length_eq, hlength, List.length_cons]
    omega
  · rw [h.entered, hlength]
    rfl
  · rw [h.kept i (by omega) hne, getElem?_addPlace_ne hi hne]
  · by_cases he : i = before.length
    · rw [h.kept i (by omega) (by omega), he, getElem?_addPlace_length]
    · exact h.made i (by omega) hi'

/-- A label shows the path of its own module only. -/
theorem label_const (g : Graph) (shown : String → String) (m : String) :
    Unfolding.label g (fun _ => shown m) m = Unfolding.label g shown m := by
  rw [Unfolding.label, Unfolding.label]

theorem hang_cons {d : String} (hd : d ≠ "") (chain : List String) (place : Nat) (rest : List String)
    (store : Store) :
    hang cwd g dir chain place (d :: rest) store =
      (hang cwd g dir chain place rest
        (addPlace store place (Unfolding.label g (Path.relative cwd · dir) d))).map
        fun hung => (hung.1, ⟨d, chain, store.length⟩ :: hung.2) := by
  rw [hang, Path.relative?_of_ne hd, ← label_const]
  simp only [bind, Except.bind]
  cases hang cwd g dir chain place rest _ <;> rfl

/-- Modules with names are hung up. -/
theorem hang_eq (cwd : Path) (g : Graph) (dir : String) (chain : List String) {place : Nat}
    {ds : List String} (hds : "" ∉ ds) {store : Store} {old : Table (Option Nat)}
    (hplace : store[place]? = some old) :
    ∃ hung, hang cwd g dir chain place ds store =
        .ok (hung, (ds.zipIdx store.length).map fun d => ⟨d.1, chain, d.2⟩) ∧
      Hung g (Path.relative cwd · dir) place old ds store hung := by
  induction ds generalizing store old with
  | nil =>
    refine ⟨store, rfl, rfl, hplace, fun _ _ _ => rfl, fun i hi hi' => ?_⟩
    exact absurd hi (Nat.not_le.mpr hi')
  | cons d rest ih =>
    rw [List.mem_cons, not_or] at hds
    obtain ⟨hung, heq, hhung⟩ := ih hds.2 (getElem?_addPlace_self hplace
      (Unfolding.label g (Path.relative cwd · dir) d))
    refine ⟨hung, ?_, hhung.cons hplace⟩
    rw [hang_cons (Ne.symm hds.1), heq, length_addPlace]
    rfl

theorem hang_eq_error {chain : List String} {place : Nat} {ds : List String} (hds : "" ∈ ds)
    (store : Store) : hang cwd g dir chain place ds store = .error {} := by
  induction ds generalizing store with
  | nil => exact absurd hds List.not_mem_nil
  | cons d rest ih =>
    by_cases hd : d = ""
    · subst hd
      rfl
    · rw [hang_cons hd, ih ((List.mem_cons.mp hds).resolve_left (Ne.symm hd))]
      rfl

section

variable {shown : String → String} {place : Nat} {ds : List String} {before hung : Store}
  {old : Table (Option Nat)} (h : Hung g shown place old ds before hung)

include h

theorem Hung.of_mem {d : String × Nat} (hd : d ∈ ds.zipIdx before.length) :
    before.length ≤ d.2 ∧ d.2 < hung.length ∧ hung[d.2]? = some [] := by
  have hle := List.le_snd_of_mem_zipIdx hd
  have hlt := List.snd_lt_add_of_mem_zipIdx hd
  rw [← h.length_eq] at hlt
  exact ⟨hle, hlt, h.made d.2 hle hlt⟩

/-- Once the new places are filled, the place where they were entered is filled as well. -/
theorem Hung.filled (hold : old = []) (hplace : place < before.length)
    {nodes : String → List Outline} {after : Store}
    (hfilled : Filled hung after ((ds.zipIdx before.length).map fun d => (d.2, nodes d.1))) :
    Filled before after
      [(place, Outline.putAll (ds.map fun d => .node (Unfolding.label g shown d) (nodes d)))] := by
  have hle := hfilled.length_le
  have hlength := h.length_eq
  have hnew : ∀ i < before.length,
      i ∉ ((ds.zipIdx before.length).map fun d => (d.2, nodes d.1)).map (·.1) := by
    intro i hi hmem
    rw [List.map_map] at hmem
    obtain ⟨d, hd, rfl⟩ := List.mem_map.mp hmem
    exact absurd (h.of_mem hd).1 (Nat.not_le.mpr hi)
  refine ⟨by omega, fun i hi hne => ?_, fun n hn store hsame hmade => ?_⟩
  · rw [List.map_singleton, List.mem_singleton] at hne
    rw [hfilled.kept i (by omega) (hnew i hi), h.kept i hi hne]
  obtain rfl := List.mem_singleton.mp hn
  have hentries : store[place]? = some (entries g shown [] (ds.zipIdx before.length)) := by
    rw [hsame, hfilled.kept place (by omega) (hnew place hplace), h.entered, hold]
  have hbelow : ∀ d ∈ ds.zipIdx before.length, store[d.2]? = after[d.2]? := by
    intro d hd
    obtain ⟨hge, hlt, -⟩ := h.of_mem hd
    exact hmade d.2 hge (by omega)
  have hread : ∀ d ∈ ds.zipIdx before.length, store.read d.2 = nodes d.1 := fun d hd =>
    hfilled.holds _ (List.mem_map_of_mem hd) store (hbelow d hd) fun i hi hi' =>
      hmade i (by omega) hi'
  rw [read_eq hentries, map_nodeOf_entries hread, List.zipIdx_map_fst]
  · rfl
  · intro entry hentry child hchild
    obtain ⟨d, hd, heq⟩ := (mem_or_of_mem_entries hentry).resolve_left List.not_mem_nil
    rw [heq, Option.mem_some_iff] at hchild
    subst hchild
    obtain ⟨hge, hlt, -⟩ := h.of_mem hd
    refine ⟨Nat.lt_of_lt_of_le hplace hge, ?_⟩
    -- the place is one of the later store, which `store` agrees with there
    have hsome := List.getElem?_eq_getElem (l := after) (i := d.2) (by omega)
    rw [← hbelow d hd] at hsome
    exact (List.getElem?_eq_some_iff.mp hsome).1

end

/-! ## Dealing with frames -/

/-- The loop gets done with the frames on top of the stack, leaves the store `after` and notes the
chains. -/
def Clears (cwd : Path) (g : Graph) (dir : String) (frames : List Frame) (before after : Store)
    (chains : List (List String)) : Prop :=
  ∀ rest circular outcome,
    Ends cwd g dir ⟨rest, after, (chains.map fun chain =>
      Cycle.arrows (chain.map (Path.relative cwd · dir))).foldl Imports.addNew circular⟩ outcome →
    Ends cwd g dir ⟨frames ++ rest, before, circular⟩ outcome

/-- The frames on top of the stack make the loop fail. -/
def Fails (cwd : Path) (g : Graph) (dir : String) (frames : List Frame) (store : Store) : Prop :=
  ∀ rest circular, Ends cwd g dir ⟨frames ++ rest, store, circular⟩ (.error {})

theorem Clears.append {frames more : List Frame} {before middle after : Store}
    {chains further : List (List String)} (h : Clears cwd g dir frames before middle chains)
    (hmore : Clears cwd g dir more middle after further) :
    Clears cwd g dir (frames ++ more) before after (chains ++ further) := by
  intro rest circular outcome hends
  rw [List.map_append, List.foldl_append] at hends
  rw [List.append_assoc]
  exact h _ _ _ (hmore _ _ _ hends)

theorem Clears.fails {frames more : List Frame} {before middle : Store} {chains : List (List String)}
    (h : Clears cwd g dir frames before middle chains) (hmore : Fails cwd g dir more middle) :
    Fails cwd g dir (frames ++ more) before := by
  intro rest circular
  rw [List.append_assoc]
  exact h _ _ _ (hmore _ _)

theorem Fails.append {frames : List Frame} {store : Store} (h : Fails cwd g dir frames store)
    (more : List Frame) : Fails cwd g dir (frames ++ more) store := by
  intro rest circular
  rw [List.append_assoc]
  exact h _ _

/-- Dealing with a frame comes to an end.  If all modules below it have names, its place is filled with
the nodes of the unfolding, and the chains that come back are noted; otherwise the loop fails. -/
def Settles (cwd : Path) (g : Graph) (dir : String) (f : Frame) (u : Unfolding) (store : Store) :
    Prop :=
  ("" ∉ u.inside ∧ ∃ after,
      Filled store after [(f.place, u.content g (Path.relative cwd · dir))] ∧
      Clears cwd g dir [f] store after (u.returns f.above)) ∨
    "" ∈ u.inside ∧ Fails cwd g dir [f] store

/-- A frame whose module is on the chain above it is noted and gets the mark of a return. -/
theorem settles_repeating {m : String} {above : List String} (hm : m ∈ above)
    (hnamed : ∀ x ∈ above ++ [m], x ≠ "") (room place : Nat) {store : Store}
    (hplace : store[place]? = some []) :
    Settles cwd g dir ⟨m, above, place⟩ (Unfolding.ofModule g room above m) store := by
  have hmark : (store.modify place (·.put Unfolding.returnMark none))[place]? =
      some [(Unfolding.returnMark, none)] := by
    rw [List.getElem?_modify_eq, hplace]
    rfl
  refine Or.inl ⟨?_, store.modify place (·.put Unfolding.returnMark none), ?_, ?_⟩
  · rw [Unfolding.inside_repeating hm]
    exact List.not_mem_nil
  · rw [Unfolding.content_repeating hm]
    refine ⟨by rw [List.length_modify], fun i _ hi => ?_, fun n hn later hsame _ => ?_⟩
    · rw [List.map_singleton, List.mem_singleton] at hi
      exact List.getElem?_modify_ne _ _ (Ne.symm hi)
    · rw [List.mem_singleton.mp hn] at hsame ⊢
      rw [hmark] at hsame
      refine (read_eq hsame fun entry hentry child hchild => ?_).trans rfl
      rw [List.mem_singleton.mp hentry] at hchild
      cases hchild
  · intro rest circular outcome hends
    rw [Unfolding.returns_repeating hm] at hends
    refine .round ?_ hends
    show some (expand cwd g dir ⟨m, above, place⟩ rest _) = _
    rw [expand, if_pos (List.contains_iff_mem.mpr hm), Cycle.format_of_ne hnamed]
    rfl

/-- Frames of modules that settle wherever their places are settle one after the other. -/
theorem settle_all {chain : List String} {unfold : String → Unfolding} {placed : List (String × Nat)}
    (hone : ∀ d ∈ placed, ∀ (place : Nat) (store : Store), store[place]? = some [] →
      Settles cwd g dir ⟨d.1, chain, place⟩ (unfold d.1) store)
    (hnodup : (placed.map (·.2)).Nodup) {store : Store} (hempty : ∀ d ∈ placed, store[d.2]? = some []) :
    ((∀ d ∈ placed.map (·.1), "" ∉ (unfold d).inside) ∧ ∃ after,
      Filled store after (placed.map fun d =>
        (d.2, (unfold d.1).content g (Path.relative cwd · dir))) ∧
      Clears cwd g dir (placed.map fun d => ⟨d.1, chain, d.2⟩) store after
        ((placed.map (·.1)).flatMap fun d => (unfold d).returns chain)) ∨
    (∃ d ∈ placed.map (·.1), "" ∈ (unfold d).inside) ∧
      Fails cwd g dir (placed.map fun d => ⟨d.1, chain, d.2⟩) store := by
  induction placed generalizing store with
  | nil =>
    exact Or.inl ⟨fun d hd => absurd hd List.not_mem_nil, store, .nil store, fun _ _ _ h => h⟩
  | cons d rest ih =>
    obtain ⟨hd, hrest⟩ := List.forall_mem_cons.mp hone
    rw [List.map_cons, List.nodup_cons] at hnodup
    have hplace : ∀ e ∈ d :: rest, e.2 < store.length := fun e he =>
      (List.getElem?_eq_some_iff.mp (hempty e he)).1
    rcases hd d.2 store (hempty d List.mem_cons_self) with
      ⟨hnamed, middle, hfilled, hclears⟩ | ⟨hunnamed, hfails⟩
    · -- the places of the other frames are still empty
      have hempty' : ∀ e ∈ rest, middle[e.2]? = some [] := by
        intro e he
        have hne : e.2 ≠ d.2 := fun h => hnodup.1 (h ▸ List.mem_map_of_mem he)
        rw [hfilled.kept e.2 (hplace e (List.mem_cons_of_mem _ he)) (by simpa using hne)]
        exact hempty e (List.mem_cons_of_mem _ he)
      rcases ih hrest hnodup.2 hempty' with ⟨hnamed', after, hfilled', hclears'⟩ |
        ⟨⟨e, he, hunnamed⟩, hfails⟩
      · refine Or.inl ⟨List.forall_mem_cons.mpr ⟨hnamed, hnamed'⟩, after, ?_,
          hclears.append hclears'⟩
        refine hfilled.append hfilled' (fun n hn => ?_) (fun n hn => ?_)
        · rcases List.mem_append.mp hn with hn | hn
          · rw [List.mem_singleton.mp hn]
            exact hplace d List.mem_cons_self
          · obtain ⟨e, he, rfl⟩ := List.mem_map.mp hn
            exact hplace e (List.mem_cons_of_mem _ he)
        · rw [List.mem_singleton.mp hn, List.map_map]
          exact hnodup.1
      · exact Or.inr ⟨⟨e, List.mem_cons_of_mem _ he, hunnamed⟩, hclears.fails hfails⟩
    · exact Or.inr ⟨⟨d.1, List.mem_cons_self, hunnamed⟩, hfails.append _⟩

theorem mem_inside_succ {room : Nat} {above : List String} {m n : String} (hm : m ∉ above) :
    n ∈ (Unfolding.ofModule g (room + 1) above m).inside ↔
      n ∈ (g.dependencies m).filter g.contains ∨ ∃ d ∈ (g.dependencies m).filter g.contains,
        n ∈ (Unfolding.ofModule g room (above ++ [m]) d).inside := by
  have hnames : ∀ d, n ∈ (Unfolding.ofModule g room (above ++ [m]) d).names ↔
      n = d ∨ n ∈ (Unfolding.ofModule g room (above ++ [m]) d).inside := by
    intro d
    rw [Unfolding.names_eq, Unfolding.name_ofModule, List.mem_cons]
  simp only [Unfolding.mem_inside_iff hm, hnames, Graph.Inner, Graph.Edge, List.mem_filter]
  constructor
  · rintro ⟨d, hd, rfl | hn⟩
    · exact Or.inl hd
    · exact Or.inr ⟨d, hd, hn⟩
  · rintro (hn | ⟨d, hd, hn⟩)
    · exact ⟨n, hn, Or.inl rfl⟩
    · exact ⟨d, hd, Or.inr hn⟩

/-- A frame whose module is new on its chain is replaced by frames for the imports, and settles when
these do. -/
theorem settles_expanding {room : Nat} {m : String} {above : List String} (hm : m ∉ above)
    (hone : ∀ d ∈ (g.dependencies m).filter g.contains, d ≠ "" → ∀ (place : Nat) (store : Store),
      store[place]? = some [] → Settles cwd g dir ⟨d, above ++ [m], place⟩
        (Unfolding.ofModule g room (above ++ [m]) d) store)
    {place : Nat} {store : Store} (hplace : store[place]? = some []) :
    Settles cwd g dir ⟨m, above, place⟩ (Unfolding.ofModule g (room + 1) above m) store := by
  have hnew : ¬ above.contains m = true := fun hc => hm (List.contains_iff_mem.mp hc)
  rw [Settles, mem_inside_succ hm, Unfolding.content_ofModule hm, Unfolding.returns_succ hm]
  generalize hds : (g.dependencies m).filter g.contains = ds at hone
  by_cases hunnamed : "" ∈ ds
  · refine Or.inr ⟨Or.inl hunnamed, fun rest circular => .fault ?_⟩
    show some (expand cwd g dir ⟨m, above, place⟩ rest _) = _
    rw [expand, if_neg hnew, hds, hang_eq_error hunnamed]
    rfl
  obtain ⟨hung, heq, hhung⟩ := hang_eq cwd g dir (above ++ [m]) hunnamed hplace
  have hround : ∀ rest circular, step? cwd g dir ⟨⟨m, above, place⟩ :: rest, store, circular⟩ =
      some (.ok ⟨((ds.zipIdx store.length).map fun d => ⟨d.1, above ++ [m], d.2⟩) ++ rest, hung,
        circular⟩) := by
    intro rest circular
    show some (expand cwd g dir ⟨m, above, place⟩ rest _) = _
    rw [expand, if_neg hnew, hds, heq]
    rfl
  have hmodules : ∀ d ∈ ds.zipIdx store.length, d.1 ∈ ds := fun d hd =>
    List.fst_mem_of_mem_zipIdx hd
  have hall := settle_all (fun d hd => hone d.1 (hmodules d hd) fun e => hunnamed (e ▸ hmodules d hd))
    (by rw [List.zipIdx_map_snd]; exact List.nodup_range') (fun d hd => (hhung.of_mem hd).2.2)
  rw [List.zipIdx_map_fst] at hall
  rcases hall with ⟨hnamed, after, hfilled, hclears⟩ | ⟨⟨d, hd, hmem⟩, hfails⟩
  · refine Or.inl ⟨not_or.mpr ⟨hunnamed, fun ⟨d, hd, hmem⟩ => hnamed d hd hmem⟩, after,
      hhung.filled rfl (List.getElem?_eq_some_iff.mp hplace).1 hfilled,
      fun rest circular outcome hends => ?_⟩
    exact .round (hround rest circular) (hclears rest circular outcome hends)
  · refine Or.inr ⟨Or.inr ⟨d, hd, hmem⟩, fun rest circular => ?_⟩
    exact .round (hround rest circular) (hfails rest circular)

/-- Every frame settles: the chain above it has room for as many modules as there are, and no more. -/
theorem settles_ofModule {entry : String} {room : Nat} {above : List String} {m : String}
    (habove : Unfolding.OnChain g entry above) (hm : m = entry ∨ g.contains m = true)
    (hroom : g.forward.length + 1 < above.length + room) (hnamed : ∀ x ∈ above ++ [m], x ≠ "")
    (place : Nat) (store : Store) (hplace : store[place]? = some []) :
    Settles cwd g dir ⟨m, above, place⟩ (Unfolding.ofModule g room above m) store := by
  induction room generalizing above m place store with
  | zero =>
    have hle := habove.length_le
    omega
  | succ room ih =>
    by_cases hrepeats : m ∈ above
    · exact settles_repeating hrepeats hnamed _ _ hplace
    · refine settles_expanding hrepeats (fun d hd hne => ?_) hplace
      refine ih (habove.concat hrepeats hm) (Or.inr (List.mem_filter.mp hd).2) ?_ ?_
      · rw [List.length_append, List.length_singleton]
        omega
      · exact List.forall_mem_append.mpr ⟨hnamed, List.forall_mem_singleton.mpr hne⟩

theorem settles_initial (cwd : Path) (g : Graph) (dir : String) {start : String}
    (hstart : start ≠ "") :
    Settles cwd g dir ⟨start, [], 0⟩ (Unfolding.ofEntry g start) [[]] := by
  exact settles_ofModule (.nil g start) (Or.inl rfl) (Unfolding.lt_room_ofEntry g)
    (List.forall_mem_singleton.mpr hstart) 0 [[]] rfl

/-- The loop renders an entry as its unfolding does. -/
theorem renders_ofEntry (cwd : Path) (g : Graph) (entry dir : String) :
    Renders cwd g dir entry (Rendering.ofEntry cwd g entry dir) := by
  generalize hstart : Graph.resolveEntry cwd entry dir = start
  have hnames : Relation.ReflTransGen g.Inner start "" ↔
      "" = start ∨ "" ∈ (Unfolding.ofEntry g start).inside := by
    rw [← Unfolding.mem_names_ofEntry, Unfolding.names_eq, Unfolding.ofEntry,
      Unfolding.name_ofModule, List.mem_cons]
  have hcases := Rendering.ofEntry_cases cwd g entry dir
  simp only [hstart, hnames] at hcases
  by_cases hempty : start = ""
  · rcases hcases with ⟨-, herror⟩ | ⟨hnot, -⟩
    · rw [herror]
      refine .unnamed ?_
      rw [hstart, hempty]
      rfl
    · exact absurd (Or.inl hempty.symm) hnot
  have hlabel := Path.relative?_of_ne hempty cwd dir
  rcases settles_initial cwd g dir hempty with
    ⟨hnamed, after, hfilled, hclears⟩ | ⟨hunnamed, hfails⟩
  · rcases hcases with ⟨hmem, -⟩ | ⟨-, hok⟩
    · exact absurd hmem (not_or.mpr ⟨Ne.symm hempty, hnamed⟩)
    · have hread := hfilled.holds _ List.mem_cons_self after rfl fun _ _ _ => rfl
      subst hstart
      have hdone := Renders.done (g := g) hlabel (hclears [] [] _ (.done rfl))
      rw [hread] at hdone
      rw [hok, Unfolding.outline, Unfolding.ofEntry, Unfolding.name_ofModule]
      exact hdone
  · rcases hcases with ⟨-, herror⟩ | ⟨hnot, -⟩
    · rw [herror]
      exact .fault (hstart.symm ▸ hlabel) (hstart.symm ▸ hfails [] [])
    · exact absurd (Or.inr hunnamed) hnot

end

end Growth

/-! ## How deep an outline is -/

namespace Outline

/-- The labels on the ways from the top of an outline down to where nothing stands below. -/
def descents : Outline → List (List String)
  | leaf label => [[label]]
  | node label children =>
    if children.isEmpty then [[label]] else (children.flatMap descents).map (label :: ·)

theorem mem_descents_node {label : String} {children : List Outline} {path : List String} :
    path ∈ (node label children).descents ↔
      (children = [] ∧ path = [label]) ∨
        ∃ o ∈ children, ∃ tail ∈ o.descents, path = label :: tail := by
  rw [descents]
  cases children with
  | nil => simp
  | cons child rest =>
    simp only [List.isEmpty_cons, Bool.false_eq_true, if_false, List.mem_map, List.mem_flatMap,
      reduceCtorEq, false_and, false_or]
    constructor
    · rintro ⟨tail, ⟨o, ho, htail⟩, rfl⟩
      exact ⟨o, ho, tail, htail, rfl⟩
    · rintro ⟨o, ho, tail, htail, rfl⟩
      exact ⟨tail, ⟨o, ho, htail⟩, rfl⟩

end Outline

namespace Unfolding

variable {g : Graph} {shown : String → String}

/-- Below a chain of different modules of the graph, the ways down are as long as there are modules left
for the chain, with room for the module that comes back and for the mark below it. -/
theorem length_le_of_mem_descents {room : Nat} {above path : List String} {m label : String}
    (hnodup : above.Nodup) (hknown : ∀ x ∈ above, g.contains x = true)
    (h : path ∈ (Outline.node label (content g shown (ofModule g room above m))).descents) :
    above.length + path.length ≤ g.forward.length + 2 := by
  induction room using Nat.strongRecOn generalizing above path m label with
  | ind room ih =>
    have habove : above.length ≤ g.forward.length := by
      have hsubset : above ⊆ g.forward.keys := fun x hx => Graph.contains_iff.mp (hknown x hx)
      have hle := (List.subperm_of_subset hnodup hsubset).length_le
      rwa [Table.keys, List.length_map] at hle
    rcases Outline.mem_descents_node.mp h with ⟨-, rfl⟩ | ⟨o, ho, tail, htail, rfl⟩
    · rw [List.length_singleton]
      omega
    rw [List.length_cons]
    rcases content_cases ho with ⟨-, rfl⟩ | ⟨hm, rest, d, rfl, hd, rfl⟩
    · rw [Outline.descents, List.mem_singleton] at htail
      rw [htail, List.length_singleton]
      omega
    · -- a module with an import was given to the graph, so the longer chain is one of its modules too
      have hnodup' : (above ++ [m]).Nodup := by
        rw [List.nodup_append_comm]
        exact List.nodup_cons.mpr ⟨hm, hnodup⟩
      have hknown' : ∀ x ∈ above ++ [m], g.contains x = true :=
        List.forall_mem_append.mpr ⟨hknown, List.forall_mem_singleton.mpr hd.1.contains⟩
      have hle := ih rest (Nat.lt_succ_self rest) hnodup' hknown' htail
      rw [List.length_append, List.length_singleton] at hle
      omega

end Unfolding

namespace Rendering

/-- However the imports go round, the loop that renders an entry comes to an end.  It fails exactly when
the entry leads to a module without a name, and otherwise no way down its outline is longer than the
number of modules and two more. -/
theorem growth_ends (cwd : Path) (g : Graph) (entry dir : String) :
    Growth.Renders cwd g dir entry (ofEntry cwd g entry dir) ∧
      ((Relation.ReflTransGen g.Inner (Graph.resolveEntry cwd entry dir) "" ∧
          ofEntry cwd g entry dir = .error {}) ∨
        ¬ Relation.ReflTransGen g.Inner (Graph.resolveEntry cwd entry dir) "" ∧
          ∃ r, ofEntry cwd g entry dir = .ok r ∧
            ∀ path ∈ r.outline.descents, path.length ≤ g.forward.length + 2) := by
  refine ⟨Growth.renders_ofEntry cwd g entry dir, ?_⟩
  rcases ofEntry_cases cwd g entry dir with ⟨hleads, herror⟩ | ⟨hnot, hok⟩
  · exact Or.inl ⟨hleads, herror⟩
  · refine Or.inr ⟨hnot, _, hok, fun path hpath => ?_⟩
    have hnone : ∀ x ∈ ([] : List String), g.contains x = true := fun x hx =>
      absurd hx List.not_mem_nil
    have hle := Unfolding.length_le_of_mem_descents List.nodup_nil hnone hpath
    rwa [List.length_nil, Nat.zero_add] at hle

end Rendering
end ModuleAudit
