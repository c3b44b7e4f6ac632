import Mathlib.Data.List.DropRight
import ModuleAudit.Proofs.Table
import ModuleAudit.TextCache

/-
A bounded cache as the history of its accesses.

Beside the cache, a history keeps a record of every text that was put or read since the cache was last
cleared, with a mark on the records whose path was new to the cache.  A path that was dropped is new when
it comes back, so the marked records are the insertions.

The table of texts is in the order of the queue, and the two lose the same entries (`evict_eq`).  So the
whole cache is the end of its history: the queue holds the last insertions, as many as there is room for,
and the text of a path is the last one recorded since the path was inserted.
-/

namespace ModuleAudit
namespace TextCache

inductive Access where
  | put (path text : String)
  /-- The disk may have changed since the last access, so each read has its own. -/
  | read (disk : Disk) (path : String)
  | prefetch (disk : Disk) (path : String)
  | clear

structure Record where
  path : String
  text : String
  /-- The path was not in the cache. -/
  isNew : Bool
  deriving DecidableEq

def perform (c : TextCache) : Access → TextCache
  | .put path text => c.put path text
  | .read disk path => (read disk c path).2
  | .prefetch disk path => (prefetch disk c path).2
  | .clear => c.clear

/-- The text that an access puts or reads.  Prefetching a path that is in the cache reads nothing. -/
def recorded (c : TextCache) : Access → Option Record
  | .put path text => some ⟨path, text, !c.contains path⟩
  | .read disk path =>
    (read disk c path).1.toOption.map fun text => ⟨path, text, !c.contains path⟩
  | .prefetch disk path =>
    if c.contains path then none
    else (disk.readText path).toOption.map fun text => ⟨path, text, true⟩
  | .clear => none

structure History where
  cache : TextCache
  /-- What was put and read since the cache was last cleared, oldest first. -/
  records : List Record

namespace History

def perform (s : History) (access : Access) : History where
  cache := s.cache.perform access
  records :=
    match access with
    | .clear => []
    | access => s.records ++ (s.cache.recorded access).toList

def run (c : TextCache) (accesses : List Access) : History :=
  accesses.foldl perform ⟨c, []⟩

end History

/-- The paths that came into the cache, oldest first. -/
def insertions (records : List Record) : List String :=
  (records.filter (·.isNew)).map (·.path)

/-- The texts recorded for a path, oldest first. -/
def textsOf (path : String) (records : List Record) : List String :=
  (records.filter (·.path == path)).map (·.text)

/-- The last text recorded for a path since the path was last inserted. -/
def Latest (records : List Record) (path text : String) : Prop :=
  ∃ earlier first later, records = earlier ++ first :: later ∧
    first.path = path ∧ first.isNew = true ∧
    (∀ r ∈ later, r.path = path → r.isNew = false) ∧
    (textsOf path (first :: later)).getLast? = some text

/-! ## The end of a list -/

theorem rtake_cons {α : Type} (a : α) (l : List α) (n : Nat) :
    (a :: l).rtake n = if n < l.length + 1 then l.rtake n else a :: l := by
  unfold List.rtake
  split
  · have hdrop : (a :: l).length - n = (l.length - n) + 1 := by
      rw [List.length_cons]
      omega
    rw [hdrop, List.drop_succ_cons]
  · have hdrop : (a :: l).length - n = 0 := by
      rw [List.length_cons]
      omega
    rw [hdrop, List.drop_zero]

theorem rtake_of_length_le {α : Type} {l : List α} {n : Nat} (h : l.length ≤ n) :
    l.rtake n = l := by
  have hdrop : l.length - n = 0 := by omega
  rw [List.rtake, hdrop, List.drop_zero]

theorem length_rtake_le {α : Type} (l : List α) (n : Nat) : (l.rtake n).length ≤ n := by
  rw [List.rtake, List.length_drop]
  omega

theorem rtake_rtake {α : Type} (l : List α) {m n : Nat} (h : m ≤ n) :
    (l.rtake n).rtake m = l.rtake m := by
  have hdrop : l.length - n + (l.length - (l.length - n) - m) = l.length - m := by omega
  rw [List.rtake, List.rtake, List.rtake, List.drop_drop, List.length_drop, hdrop]

/-- One more element at the end of a list, or at the end of its end. -/
theorem rtake_concat_rtake {α : Type} (l : List α) (a : α) (n : Nat) :
    (l.rtake n ++ [a]).rtake n = (l ++ [a]).rtake n := by
  cases n with
  | zero => rw [List.rtake_zero, List.rtake_zero]
  | succ n => rw [List.rtake_concat_succ, List.rtake_concat_succ, rtake_rtake l (by omega)]

theorem mem_rtake_concat {α : Type} (l : List α) (a : α) {n : Nat} (h : 1 ≤ n) :
    a ∈ (l ++ [a]).rtake n := by
  cases n with
  | zero => omega
  | succ n =>
    rw [List.rtake_concat_succ]
    exact List.mem_append_right _ List.mem_cons_self

theorem keys_rtake (t : Table String) (n : Nat) : Table.keys (t.rtake n) = t.keys.rtake n := by
  rw [Table.keys, Table.keys, List.rtake, List.rtake, List.map_drop, List.length_map]

/-! ## Queue and texts -/

/-- The oldest entries leave the queue and the table together. -/
theorem evict_eq (capacity : Nat) {texts : Table String} (h : texts.keys.Nodup) :
    evict capacity texts.keys texts = (texts.keys.rtake capacity, texts.rtake capacity) := by
  induction texts with
  | nil => simp [Table.keys, evict]
  | cons entry rest ih =>
    obtain ⟨oldest, text⟩ := entry
    rw [Table.keys_cons, List.nodup_cons] at h
    have herase : Table.erase ((oldest, text) :: rest) oldest = rest := by
      rw [Table.erase, List.filter_cons_of_neg (by simp)]
      apply List.filter_eq_self.mpr
      intro e he
      have hne : e.1 ≠ oldest := fun heq => h.1 (heq ▸ List.mem_map_of_mem he)
      simpa using hne
    have hlength : (Table.keys rest).length = rest.length := List.length_map _
    rw [Table.keys_cons, evict, rtake_cons, rtake_cons, hlength, herase]
    split
    · exact ih h.2
    · rfl

structure InStep (c : TextCache) : Prop where
  keys_eq : c.texts.keys = c.queue
  nodup : c.queue.Nodup
  length_le : c.queue.length ≤ c.capacity

theorem contains_iff_get? {c : TextCache} {path : String} :
    c.contains path = true ↔ ∃ text, c.get? path = some text := by
  rw [contains, Table.has_iff_mem_keys, Table.mem_keys_iff_get?]
  rfl

namespace InStep

variable {c : TextCache} (h : InStep c)

include h

theorem nodup_keys : c.texts.keys.Nodup := by
  rw [h.keys_eq]
  exact h.nodup

theorem size_le : c.size ≤ c.capacity := by
  have hlength : c.texts.keys.length = c.size := List.length_map _
  have hroom := h.length_le
  rw [← h.keys_eq] at hroom
  omega

theorem put_of_contains {path : String} (hpath : c.contains path = true) (text : String) :
    c.put path text = { c with texts := c.texts.put path text } := by
  have hkeys : (c.texts.put path text).keys = c.queue := by
    rw [Table.keys_put_of_mem text (Table.has_iff_mem_keys.mp hpath), h.keys_eq]
  have hnodup : (c.texts.put path text).keys.Nodup := hkeys ▸ h.nodup
  have hlength : (c.texts.put path text).length ≤ c.capacity := by
    have hmap : (c.texts.put path text).keys.length = (c.texts.put path text).length :=
      List.length_map _
    rw [← hmap, hkeys]
    exact h.length_le
  have hevict : evict c.capacity c.queue (c.texts.put path text) =
      (c.queue, c.texts.put path text) := by
    have heq := evict_eq c.capacity hnodup
    rwa [hkeys, rtake_of_length_le h.length_le, rtake_of_length_le hlength] at heq
  rw [put, if_pos hpath, hevict]

theorem put_of_not_contains {path : String} (hpath : ¬ c.contains path = true) (text : String) :
    c.put path text =
      { c with
        queue := (c.queue ++ [path]).rtake c.capacity
        texts := (c.texts ++ [(path, text)]).rtake c.capacity } := by
  have hmem : path ∉ c.texts.keys := fun hmem => hpath (Table.has_iff_mem_keys.mpr hmem)
  have hkeys : (c.texts ++ [(path, text)]).keys = c.queue ++ [path] := by
    rw [Table.keys_append, h.keys_eq]
    rfl
  have hnodup : (c.texts ++ [(path, text)]).keys.Nodup := by
    have hput := Table.nodup_keys_put path text h.nodup_keys
    rwa [Table.put_of_not_mem text hmem] at hput
  have hevict := evict_eq c.capacity hnodup
  rw [hkeys] at hevict
  rw [put, if_neg hpath, Table.put_of_not_mem text hmem, hevict]

theorem put (path text : String) : InStep (c.put path text) := by
  by_cases hpath : c.contains path = true
  · rw [h.put_of_contains hpath]
    refine ⟨?_, h.nodup, h.length_le⟩
    exact (Table.keys_put_of_mem text (Table.has_iff_mem_keys.mp hpath)).trans h.keys_eq
  · rw [h.put_of_not_contains hpath]
    have hmem : path ∉ c.queue := by
      rw [← h.keys_eq]
      exact fun hmem => hpath (Table.has_iff_mem_keys.mpr hmem)
    have hnodup : (c.queue ++ [path]).Nodup :=
      List.nodup_append_comm.mp (List.nodup_cons.mpr ⟨hmem, h.nodup⟩)
    refine ⟨?_, hnodup.sublist (List.drop_sublist _ _), length_rtake_le _ _⟩
    show Table.keys ((c.texts ++ [(path, text)]).rtake c.capacity) = _
    rw [keys_rtake, Table.keys_append, h.keys_eq]
    rfl

/-- A text that was just put is there, whatever had to make room for it. -/
theorem get?_put_self (hcapacity : 1 ≤ c.capacity) (path text : String) :
    (c.put path text).get? path = some text := by
  have hput := h.put path text
  by_cases hpath : c.contains path = true
  · rw [h.put_of_contains hpath]
    exact Table.get?_put_self _ _ _
  · refine Table.get?_eq_some_of_mem hput.nodup_keys ?_
    rw [h.put_of_not_contains hpath]
    exact mem_rtake_concat _ _ hcapacity

/-- The other texts are as before, or gone. -/
theorem get?_of_get?_put {path text other found : String} (hne : other ≠ path)
    (hfound : (c.put path text).get? other = some found) : c.get? other = some found := by
  by_cases hpath : c.contains path = true
  · rw [h.put_of_contains hpath] at hfound
    rwa [get?, Table.get?_put_ne _ _ hne] at hfound
  · have hmem := Table.mem_of_get? hfound
    rw [h.put_of_not_contains hpath] at hmem
    have hold : (other, found) ∈ c.texts ++ [(path, text)] := List.mem_of_mem_drop hmem
    rcases List.mem_append.mp hold with hold | hold
    · exact Table.get?_eq_some_of_mem h.nodup_keys hold
    · exact absurd (congrArg Prod.fst (List.mem_singleton.mp hold)) hne

end InStep

/-! ## What an access can do -/

theorem read_cases (disk : Disk) (c : TextCache) (path : String) :
    (∃ text, c.get? path = some text ∧ read disk c path = (.ok text, c)) ∨
    c.contains path = false ∧
      ((∃ text, disk.readText path = .ok text ∧ read disk c path = (.ok text, c.put path text)) ∨
       ∃ fault, disk.readText path = .error fault ∧ read disk c path = (.error fault, c)) := by
  cases hget : c.get? path with
  | some text =>
    refine Or.inl ⟨text, rfl, ?_⟩
    rw [read, hget]
  | none =>
    have hpath : c.contains path = false := by
      apply Bool.eq_false_iff.mpr
      intro hpath
      obtain ⟨text, hsome⟩ := contains_iff_get?.mp hpath
      exact absurd (hget.symm.trans hsome) (by simp)
    refine Or.inr ⟨hpath, ?_⟩
    cases ht : disk.readText path with
    | ok text =>
      refine Or.inl ⟨text, rfl, ?_⟩
      rw [read, hget, ht]
    | error fault =>
      refine Or.inr ⟨fault, rfl, ?_⟩
      rw [read, hget, ht]

theorem prefetch_cases (disk : Disk) (c : TextCache) (path : String) :
    c.contains path = true ∧ prefetch disk c path = (none, c) ∨
    c.contains path = false ∧
      ((∃ text, disk.readText path = .ok text ∧ prefetch disk c path = (none, c.put path text)) ∨
       ∃ fault, disk.readText path = .error fault ∧ prefetch disk c path = (some fault, c)) := by
  cases hpath : c.contains path with
  | true =>
    refine Or.inl ⟨rfl, ?_⟩
    rw [prefetch, if_pos hpath]
  | false =>
    refine Or.inr ⟨rfl, ?_⟩
    have hno : ¬ c.contains path = true := by simp [hpath]
    rcases read_cases disk c path with ⟨text, hget, -⟩ | ⟨-, ⟨text, ht, hread⟩ | ⟨fault, ht, hread⟩⟩
    · exact absurd (contains_iff_get?.mpr ⟨text, hget⟩) hno
    · refine Or.inl ⟨text, ht, ?_⟩
      rw [prefetch, if_neg hno, hread]
    · refine Or.inr ⟨fault, ht, ?_⟩
      rw [prefetch, if_neg hno, hread]

inductive Step (s : History) : History → Prop where
  | store (path text : String) :
      Step s ⟨s.cache.put path text, s.records ++ [⟨path, text, !s.cache.contains path⟩]⟩
  | see {path text : String} (h : s.cache.get? path = some text) :
      Step s ⟨s.cache, s.records ++ [⟨path, text, false⟩]⟩
  | idle : Step s s
  | clear : Step s ⟨s.cache.clear, []⟩

theorem step_read (c : TextCache) (records : List Record) (disk : Disk) (path : String) :
    Step ⟨c, records⟩ (History.perform ⟨c, records⟩ (.read disk path)) := by
  unfold History.perform perform recorded
  dsimp only
  rcases read_cases disk c path with ⟨text, hget, hread⟩ | ⟨-, ⟨text, -, hread⟩ | ⟨fault, -, hread⟩⟩
  · have hpath : c.contains path = true := contains_iff_get?.mpr ⟨text, hget⟩
    rw [hread, hpath]
    exact .see hget
  · rw [hread]
    exact .store path text
  · rw [hread]
    simpa [Except.toOption] using Step.idle

theorem step_prefetch (c : TextCache) (records : List Record) (disk : Disk) (path : String) :
    Step ⟨c, records⟩ (History.perform ⟨c, records⟩ (.prefetch disk path)) := by
  unfold History.perform perform recorded
  dsimp only
  rcases prefetch_cases disk c path with
    ⟨hpath, hfetch⟩ | ⟨hpath, ⟨text, ht, hfetch⟩ | ⟨fault, ht, hfetch⟩⟩
  · rw [hfetch, hpath]
    simpa using Step.idle
  · have hstore := Step.store (s := ⟨c, records⟩) path text
    rw [hfetch, hpath, ht]
    simpa [Except.toOption, hpath] using hstore
  · rw [hfetch, hpath, ht]
    simpa [Except.toOption] using Step.idle

theorem step_perform (s : History) (access : Access) : Step s (s.perform access) := by
  cases access with
  | put path text => exact .store path text
  | read disk path => exact step_read s.cache s.records disk path
  | prefetch disk path => exact step_prefetch s.cache s.records disk path
  | clear => exact .clear

/-! ## What the records say -/

theorem insertions_concat (records : List Record) (r : Record) :
    insertions (records ++ [r]) = insertions records ++ if r.isNew then [r.path] else [] := by
  rw [insertions, List.filter_append, List.map_append]
  cases hnew : r.isNew <;> simp [insertions, hnew]

theorem textsOf_concat (path : String) (records : List Record) (r : Record) :
    textsOf path (records ++ [r]) =
      textsOf path records ++ if r.path = path then [r.text] else [] := by
  rw [textsOf, List.filter_append, List.map_append]
  by_cases hpath : r.path = path <;> simp [textsOf, hpath]

section

variable {records : List Record} {path text : String}

theorem latest_concat_new (records : List Record) (path text : String) :
    Latest (records ++ [⟨path, text, true⟩]) path text := by
  refine ⟨records, ⟨path, text, true⟩, [], rfl, rfl, rfl, ?_, ?_⟩
  · intro r hr
    exact absurd hr List.not_mem_nil
  · simp [textsOf]

/-- A later text of the same path takes the place of the old one. -/
theorem Latest.concat_same {old : String} (h : Latest records path old) (text : String) :
    Latest (records ++ [⟨path, text, false⟩]) path text := by
  obtain ⟨earlier, first, later, hrecords, hfirst, hnew, hlater, -⟩ := h
  refine ⟨earlier, first, later ++ [⟨path, text, false⟩], ?_, hfirst, hnew, ?_, ?_⟩
  · rw [hrecords, List.append_assoc, List.cons_append]
  · intro r hr hpath
    rcases List.mem_append.mp hr with hr | hr
    · exact hlater r hr hpath
    · rw [List.mem_singleton.mp hr]
  · rw [← List.cons_append, textsOf_concat, if_pos rfl, List.getLast?_concat]

theorem Latest.concat_other (h : Latest records path text) {r : Record} (hne : r.path ≠ path) :
    Latest (records ++ [r]) path text := by
  obtain ⟨earlier, first, later, hrecords, hfirst, hnew, hlater, hlast⟩ := h
  refine ⟨earlier, first, later ++ [r], ?_, hfirst, hnew, ?_, ?_⟩
  · rw [hrecords, List.append_assoc, List.cons_append]
  · intro x hx hpath
    rcases List.mem_append.mp hx with hx | hx
    · exact hlater x hx hpath
    · exact absurd (List.mem_singleton.mp hx ▸ hpath) hne
  · rw [← List.cons_append, textsOf_concat, if_neg hne, List.append_nil, hlast]

end

/-! ## The cache is the end of its history -/

structure Fifo (capacity : Nat) (s : History) : Prop where
  capacity_eq : s.cache.capacity = capacity
  inStep : InStep s.cache
  recent : s.cache.queue = (insertions s.records).rtake capacity
  latest : ∀ path text, s.cache.get? path = some text → Latest s.records path text

namespace Fifo

variable {capacity : Nat} {s s' : History}

theorem start (capacity : Nat) : Fifo capacity ⟨empty capacity, []⟩ where
  capacity_eq := rfl
  inStep := ⟨rfl, List.nodup_nil, Nat.zero_le _⟩
  recent := (List.rtake_nil _).symm
  latest path text h := absurd h (by simp [empty, get?, Table.get?_nil])

theorem put (h : Fifo capacity s) (hcapacity : 1 ≤ capacity) (path text : String) :
    Fifo capacity ⟨s.cache.put path text, s.records ++ [⟨path, text, !s.cache.contains path⟩]⟩ := by
  have hroom : 1 ≤ s.cache.capacity := by
    rw [h.capacity_eq]
    exact hcapacity
  have hother : ∀ other found, other ≠ path → (s.cache.put path text).get? other = some found →
      Latest (s.records ++ [⟨path, text, !s.cache.contains path⟩]) other found := by
    intro other found hne hfound
    exact (h.latest other found (h.inStep.get?_of_get?_put hne hfound)).concat_other (Ne.symm hne)
  have hself : Latest (s.records ++ [⟨path, text, !s.cache.contains path⟩]) path text := by
    cases hpath : s.cache.contains path with
    | false => exact latest_concat_new s.records path text
    | true =>
      obtain ⟨old, hold⟩ := contains_iff_get?.mp hpath
      exact (h.latest path old hold).concat_same text
  refine ⟨?_, h.inStep.put path text, ?_, ?_⟩
  · exact h.capacity_eq
  · rw [insertions_concat]
    by_cases hpath : s.cache.contains path = true
    · rw [h.inStep.put_of_contains hpath, hpath]
      simpa using h.recent
    · rw [h.inStep.put_of_not_contains hpath, h.recent, h.capacity_eq,
        Bool.not_eq_true _ |>.mp hpath]
      exact rtake_concat_rtake _ _ _
  · intro other found hfound
    by_cases hne : other = path
    · subst hne
      rw [h.inStep.get?_put_self hroom, Option.some.injEq] at hfound
      exact hfound ▸ hself
    · exact hother other found hne hfound

theorem step (h : Fifo capacity s) (hcapacity : 1 ≤ capacity) (hstep : Step s s') :
    Fifo capacity s' := by
  cases hstep with
  | store path text => exact h.put hcapacity path text
  | idle => exact h
  | @see path text hget =>
    refine ⟨h.capacity_eq, h.inStep, ?_, ?_⟩
    · rw [insertions_concat]
      simpa using h.recent
    · intro other found hfound
      by_cases hne : other = path
      · subst hne
        have hsame : text = found := Option.some.inj (hget.symm.trans hfound)
        exact hsame ▸ (h.latest other text hget).concat_same text
      · exact (h.latest other found hfound).concat_other (Ne.symm hne)
  | clear =>
    have hempty := start capacity
    refine ⟨h.capacity_eq, ⟨rfl, List.nodup_nil, Nat.zero_le _⟩, hempty.recent, hempty.latest⟩

theorem run (hcapacity : 1 ≤ capacity) (accesses : List Access) :
    Fifo capacity (History.run (empty capacity) accesses) := by
  have hrun : ∀ s, Fifo capacity s → Fifo capacity (accesses.foldl History.perform s) := by
    induction accesses with
    | nil => exact fun s h => h
    | cons access rest ih =>
      intro s h
      exact ih _ (h.step hcapacity (step_perform s access))
  exact hrun _ (start capacity)

end Fifo

/-! ## The next access -/

/-- What the next access leaves as it is, and what is there after it. -/
structure Steady (c : TextCache) : Prop where
  put_present : ∀ path text, c.contains path = true →
    (c.put path text).queue = c.queue ∧
      ∀ other, other ≠ path → (c.put path text).get? other = c.get? other
  read_present : ∀ disk path, c.contains path = true → (read disk c path).2 = c
  prefetch_present : ∀ disk path, c.contains path = true → (prefetch disk c path).2 = c
  get?_put : ∀ path text, (c.put path text).get? path = some text
  get?_read : ∀ disk path text, (read disk c path).1 = .ok text →
    (read disk c path).2.get? path = some text
  contains_prefetch : ∀ disk path, (prefetch disk c path).1 = none →
    (prefetch disk c path).2.contains path = true
  read_failed : ∀ disk path fault, (read disk c path).1 = .error fault →
    (read disk c path).2 = c
  prefetch_failed : ∀ disk path fault, (prefetch disk c path).1 = some fault →
    (prefetch disk c path).2 = c

theorem InStep.steady {c : TextCache} (h : InStep c) (hcapacity : 1 ≤ c.capacity) : Steady c where
  put_present := by
    intro path text hpath
    rw [h.put_of_contains hpath]
    exact ⟨rfl, fun other hne => Table.get?_put_ne _ _ hne⟩
  get?_put := h.get?_put_self hcapacity
  read_present := by
    intro disk path hpath
    rcases read_cases disk c path with ⟨text, -, hread⟩ | ⟨hno, -⟩
    · rw [hread]
    · exact absurd hpath (by simp [hno])
  prefetch_present := by
    intro disk path hpath
    rw [prefetch, if_pos hpath]
  get?_read := by
    intro disk path text hok
    rcases read_cases disk c path with
      ⟨found, hget, hread⟩ | ⟨-, ⟨found, -, hread⟩ | ⟨fault, -, hread⟩⟩
    · rw [hread] at hok ⊢
      rw [hget, Except.ok.inj hok]
    · rw [hread] at hok ⊢
      rw [Except.ok.inj hok]
      exact h.get?_put_self hcapacity path text
    · rw [hread] at hok
      exact absurd hok (by simp)
  contains_prefetch := by
    intro disk path hnone
    rcases prefetch_cases disk c path with
      ⟨hpath, hfetch⟩ | ⟨-, ⟨text, -, hfetch⟩ | ⟨fault, -, hfetch⟩⟩
    · rw [hfetch]
      exact hpath
    · rw [hfetch]
      exact contains_iff_get?.mpr ⟨text, h.get?_put_self hcapacity path text⟩
    · rw [hfetch] at hnone
      exact absurd hnone (by simp)
  read_failed := by
    intro disk path fault herror
    rcases read_cases disk c path with ⟨text, -, hread⟩ | ⟨-, ⟨text, -, hread⟩ | ⟨fault, -, hread⟩⟩
    · rw [hread]
    · rw [hread] at herror
      exact absurd herror (by simp)
    · rw [hread]
  prefetch_failed := by
    intro disk path fault hsome
    rcases prefetch_cases disk c path with
      ⟨-, hfetch⟩ | ⟨-, ⟨text, -, hfetch⟩ | ⟨fault, -, hfetch⟩⟩
    · rw [hfetch]
    · rw [hfetch] at hsome
      exact absurd hsome (by simp)
    · rw [hfetch]

theorem ofCapacity_of_pos {capacity : Int} (h : 1 ≤ capacity) :
    ofCapacity capacity = .ok (empty capacity.toNat) := by
  have hlt : ¬ capacity < 1 := by omega
  rw [ofCapacity, if_neg hlt]

/-- After any accesses the queue is the end of the sequence of insertions and lists the texts in their
order, there are no more of them than the capacity, and each is the last one that was put or read under
its path since the path came in.  Putting or reading a path that is there moves and drops nothing, what
was just stored is there, and what cannot be read changes nothing. -/
theorem fifo_history (capacity : Int) (h : 1 ≤ capacity) :
    ∃ start, ofCapacity capacity = .ok start ∧ ∀ accesses,
      Fifo capacity.toNat (History.run start accesses) ∧
        (History.run start accesses).cache.size ≤ capacity.toNat ∧
        Steady (History.run start accesses).cache := by
  have hcapacity : 1 ≤ capacity.toNat := by omega
  refine ⟨empty capacity.toNat, ofCapacity_of_pos h, fun accesses => ?_⟩
  have hfifo := Fifo.run hcapacity accesses
  have hsize := hfifo.inStep.size_le
  have hroom := hfifo.capacity_eq
  exact ⟨hfifo, by omega, hfifo.inStep.steady (by omega)⟩

/-- A file with a text, and one that is no text. -/
def shelf : Disk where
  root := .folder [("a", .file [65]), ("z", .file [255])]
  cwd := ⟨.slash, []⟩

/-- Two reads that fail, a path that is put twice, and a path that comes back after it was dropped. -/
def visits : List Access :=
  [.read shelf "/a", .put "/b" "b", .read shelf "/missing", .prefetch shelf "/z", .put "/b" "B",
    .put "/c" "c", .prefetch shelf "/a", .read shelf "/c"]

theorem fifo_history_visits :
    (1 : Int) ≤ 2 ∧ ∃ start, ofCapacity 2 = .ok start ∧
      (History.run start visits).cache.queue = ["/c", "/a"] ∧
      insertions (History.run start visits).records = ["/a", "/b", "/c", "/a"] ∧
      Fifo 2 (History.run start visits) ∧ Steady (History.run start visits).cache := by
  obtain ⟨start, hstart, hrun⟩ := fifo_history 2 (by decide)
  have hempty : start = empty 2 := Except.ok.inj (hstart.symm.trans (ofCapacity_of_pos (by decide)))
  refine ⟨by decide, start, hstart, ?_, ?_, (hrun visits).1, (hrun visits).2.2⟩
  · rw [hempty]
    decide
  · rw [hempty]
    decide

end TextCache
end ModuleAudit
