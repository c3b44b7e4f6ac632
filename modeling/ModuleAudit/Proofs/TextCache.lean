import ModuleAudit.Proofs.Table
import ModuleAudit.TextCache

/-
A cache that agrees with the disk.

Texts come into the cache from disk only and leave it whole, so as long as the disk stays the same
a read through the cache gives what a read from disk would give.
-/

namespace ModuleAudit
namespace TextCache

/-- Every cached text is the one on disk. -/
def Faithful (disk : Disk) (c : TextCache) : Prop :=
  ∀ path text, c.get? path = some text → disk.readText path = .ok text

variable {disk : Disk} {c : TextCache}

theorem faithful_empty (disk : Disk) (capacity : Nat) : (empty capacity).Faithful disk := by
  intro path text h
  exact absurd h (by simp [empty, get?, Table.get?_nil])

theorem get?_of_get?_evict {capacity : Nat} {queue : List String} {texts : Table String}
    {path text : String} (h : (evict capacity queue texts).2.get? path = some text) :
    texts.get? path = some text := by
  induction queue generalizing texts with
  | nil => exact h
  | cons oldest queue ih =>
    rw [evict] at h
    split at h
    · have herase := ih h
      rw [Table.get?_erase] at herase
      split at herase
      · exact absurd herase (by simp)
      · exact herase
    · exact h

theorem Faithful.put (h : c.Faithful disk) {path text : String}
    (ht : disk.readText path = .ok text) : (c.put path text).Faithful disk := by
  intro other found hfound
  have hput : (c.texts.put path text).get? other = some found := get?_of_get?_evict hfound
  by_cases ho : other = path
  · subst ho
    rw [Table.get?_put_self] at hput
    rw [ht, Option.some.inj hput]
  · rw [Table.get?_put_ne _ _ ho] at hput
    exact h other found hput

theorem Faithful.read (h : c.Faithful disk) (path : String) :
    (c.read disk path).1 = disk.readText path ∧ (c.read disk path).2.Faithful disk := by
  unfold TextCache.read
  cases hget : c.get? path with
  | some text => exact ⟨(h path text hget).symm, h⟩
  | none =>
    cases ht : disk.readText path with
    | error fault => exact ⟨rfl, h⟩
    | ok text => exact ⟨rfl, h.put ht⟩

theorem Faithful.prefetch (h : c.Faithful disk) (path : String) :
    (c.prefetch disk path).2.Faithful disk := by
  unfold TextCache.prefetch
  split
  · exact h
  · have hread := (h.read path).2
    split <;> rename_i heq <;> rw [heq] at hread <;> exact hread

end TextCache
end ModuleAudit
