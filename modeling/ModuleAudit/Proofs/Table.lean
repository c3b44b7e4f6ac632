import Mathlib.Data.List.Nodup
import ModuleAudit.Table

/-
What a table holds after a value was put into it.

Every fact about `put` is one induction along the entries, split at the entry whose key is the
one that is put.  The order of the keys matters to the search for cycles, where it is the order in
which modules were first met, so `keys_put_of_mem` and `keys_put_of_not_mem` say exactly where a
key goes.
-/

namespace ModuleAudit
namespace Table

variable {α : Type}

theorem get?_nil (key : String) : get? ([] : Table α) key = none := rfl

theorem get?_cons (k : String) (v : α) (rest : Table α) (key : String) :
    get? ((k, v) :: rest) key = if key = k then some v else get? rest key := by
  by_cases h : key = k
  · simp [get?, h]
  · have hb : (key == k) = false := beq_eq_false_iff_ne.mpr h
    rw [if_neg h, get?, List.lookup_cons, hb]
    rfl

theorem keys_cons (k : String) (v : α) (rest : Table α) :
    keys ((k, v) :: rest) = k :: keys rest := rfl

theorem keys_append (t u : Table α) : keys (t ++ u) = keys t ++ keys u := List.map_append

theorem values_append (t u : Table α) : values (t ++ u) = values t ++ values u := List.map_append

theorem put_cons (k : String) (v : α) (rest : Table α) (key : String) (value : α) :
    put ((k, v) :: rest) key value =
      if k = key then (k, value) :: rest else (k, v) :: put rest key value := by
  simp only [put, beq_iff_eq]

theorem get?_put (t : Table α) (key : String) (value : α) (k : String) :
    (t.put key value).get? k = if k = key then some value else t.get? k := by
  induction t with
  | nil => rw [put, get?_cons]
  | cons entry rest ih =>
    obtain ⟨k', v⟩ := entry
    rw [put_cons]
    by_cases hk : k' = key
    · subst hk
      rw [if_pos rfl, get?_cons, get?_cons]
      by_cases h : k = k'
      · rw [if_pos h, if_pos h]
      · rw [if_neg h, if_neg h, if_neg h]
    · rw [if_neg hk, get?_cons, get?_cons, ih]
      by_cases h : k = k'
      · rw [if_pos h, if_neg (fun e => hk (h ▸ e)), if_pos h]
      · rw [if_neg h, if_neg h]

theorem get?_put_self (t : Table α) (key : String) (value : α) :
    (t.put key value).get? key = some value := by
  rw [get?_put, if_pos rfl]

theorem get?_put_ne (t : Table α) {key k : String} (value : α) (h : k ≠ key) :
    (t.put key value).get? k = t.get? k := by
  rw [get?_put, if_neg h]

theorem get?_erase (t : Table α) (key k : String) :
    (t.erase key).get? k = if k = key then none else t.get? k := by
  induction t with
  | nil => simp [erase, get?_nil]
  | cons entry rest ih =>
    obtain ⟨first, value⟩ := entry
    rw [erase] at ih
    rw [erase, List.filter_cons, get?_cons]
    by_cases hf : first = key
    · rw [if_neg (by simp [hf]), ih, hf]
      by_cases hk : k = key
      · rw [if_pos hk, if_pos hk]
      · rw [if_neg hk, if_neg hk, if_neg hk]
    · rw [if_pos (by simpa using hf), get?_cons, ih]
      by_cases hk : k = first
      · rw [if_pos hk, if_neg (fun e => hf (hk ▸ e)), if_pos hk]
      · rw [if_neg hk, if_neg hk]

theorem keys_put_of_mem {t : Table α} {key : String} (value : α) (h : key ∈ t.keys) :
    (t.put key value).keys = t.keys := by
  induction t with
  | nil => exact absurd h List.not_mem_nil
  | cons entry rest ih =>
    obtain ⟨k, v⟩ := entry
    rw [put_cons]
    by_cases hk : k = key
    · rw [if_pos hk]
      rfl
    · have hrest : key ∈ keys rest := (List.mem_cons.mp h).resolve_left (fun e => hk e.symm)
      rw [if_neg hk, keys_cons, keys_cons, ih hrest]

theorem put_of_not_mem {t : Table α} {key : String} (value : α) (h : key ∉ t.keys) :
    t.put key value = t ++ [(key, value)] := by
  induction t with
  | nil => rfl
  | cons entry rest ih =>
    obtain ⟨k, v⟩ := entry
    rw [keys_cons, List.mem_cons, not_or] at h
    rw [put_cons, if_neg (fun e => h.1 e.symm), ih h.2, List.cons_append]

theorem keys_put_of_not_mem {t : Table α} {key : String} (value : α) (h : key ∉ t.keys) :
    (t.put key value).keys = t.keys ++ [key] := by
  rw [put_of_not_mem value h, keys_append]
  rfl

theorem mem_keys_put {t : Table α} {key : String} {value : α} {k : String} :
    k ∈ (t.put key value).keys ↔ k = key ∨ k ∈ t.keys := by
  by_cases h : key ∈ t.keys
  · rw [keys_put_of_mem value h]
    constructor
    · exact Or.inr
    · rintro (rfl | hk)
      · exact h
      · exact hk
  · rw [keys_put_of_not_mem value h, List.mem_append, List.mem_singleton, or_comm]

theorem mem_of_mem_put {t : Table α} {key : String} {value : α} {entry : String × α}
    (h : entry ∈ t.put key value) : entry ∈ t ∨ entry = (key, value) := by
  induction t with
  | nil => exact Or.inr (List.mem_singleton.mp h)
  | cons first rest ih =>
    obtain ⟨k, v⟩ := first
    rw [put_cons] at h
    split at h
    · next hk =>
      rcases List.mem_cons.mp h with rfl | h
      · exact Or.inr (by rw [hk])
      · exact Or.inl (List.mem_cons_of_mem _ h)
    · rcases List.mem_cons.mp h with rfl | h
      · exact Or.inl List.mem_cons_self
      · exact (ih h).imp_left (List.mem_cons_of_mem _)

theorem nodup_keys_put {t : Table α} (key : String) (value : α) (h : t.keys.Nodup) :
    (t.put key value).keys.Nodup := by
  by_cases hk : key ∈ t.keys
  · rw [keys_put_of_mem value hk]
    exact h
  · rw [keys_put_of_not_mem value hk]
    refine List.nodup_append.mpr ⟨h, List.nodup_singleton key, ?_⟩
    rintro x hx y hy rfl
    exact hk (List.mem_singleton.mp hy ▸ hx)

theorem has_iff_mem_keys {t : Table α} {key : String} : t.has key = true ↔ key ∈ t.keys := by
  rw [has, List.any_eq_true, keys, List.mem_map]
  constructor
  · rintro ⟨entry, he, hk⟩
    exact ⟨entry, he, beq_iff_eq.mp hk⟩
  · rintro ⟨entry, he, hk⟩
    exact ⟨entry, he, beq_iff_eq.mpr hk⟩

theorem mem_keys_iff_get? {t : Table α} {key : String} :
    key ∈ t.keys ↔ ∃ value, t.get? key = some value := by
  induction t with
  | nil => simp [keys, get?_nil]
  | cons entry rest ih =>
    obtain ⟨k, v⟩ := entry
    rw [keys_cons, List.mem_cons, get?_cons, ih]
    by_cases h : key = k
    · simp [h]
    · simp [h]

theorem get?_eq_none_of_not_mem {t : Table α} {key : String} (h : key ∉ t.keys) :
    t.get? key = none := by
  cases hg : t.get? key with
  | none => rfl
  | some value => exact absurd (mem_keys_iff_get?.mpr ⟨value, hg⟩) h

theorem mem_of_get? {t : Table α} {key : String} {value : α} (h : t.get? key = some value) :
    (key, value) ∈ t := by
  induction t with
  | nil => exact absurd h (by simp [get?_nil])
  | cons entry rest ih =>
    obtain ⟨k, v⟩ := entry
    rw [get?_cons] at h
    by_cases hk : key = k
    · rw [if_pos hk, Option.some.injEq] at h
      rw [hk, h]
      exact List.mem_cons_self
    · rw [if_neg hk] at h
      exact List.mem_cons_of_mem _ (ih h)

/-- A key that stands in one entry only finds the value of that entry. -/
theorem get?_eq_some_of_mem {t : Table α} {key : String} {value : α} (hn : t.keys.Nodup)
    (h : (key, value) ∈ t) : t.get? key = some value := by
  induction t with
  | nil => exact absurd h List.not_mem_nil
  | cons entry rest ih =>
    obtain ⟨k, v⟩ := entry
    rw [keys_cons, List.nodup_cons] at hn
    rw [get?_cons]
    rcases List.mem_cons.mp h with he | he
    · obtain ⟨rfl, rfl⟩ := Prod.mk.inj he
      rw [if_pos rfl]
    · have hne : key ≠ k := by
        rintro rfl
        exact hn.1 (List.mem_map_of_mem he)
      rw [if_neg hne]
      exact ih hn.2 he

end Table
end ModuleAudit
