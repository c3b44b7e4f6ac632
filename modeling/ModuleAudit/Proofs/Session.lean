import ModuleAudit.Proofs.TextCache
import ModuleAudit.Session

/-
Reasoning about computations that carry a session along.

`Meets I x P` says that `x`, run from a session with the invariant `I`, returns something with `P`
and leaves a session with `I`.  `Returns` is the same for computations that can fail, with the
proposition that a failure would give: `False` where there are no failures, `True` where they are
left open.  `Gives` names the outcome, be it a success or a failure: the session makes no difference
to it.
-/

namespace ModuleAudit
namespace Session

variable {α β ε : Type} {I : Session → Prop} {E : Prop}

def Meets (I : Session → Prop) (x : StateM Session α) (P : α → Prop) : Prop :=
  ∀ s, I s → P (x.run s).1 ∧ I (x.run s).2

/-- A success with `P`, or a failure and `E`. -/
inductive OrElse (E : Prop) (P : α → Prop) : Except ε α → Prop where
  | ok {a : α} : P a → OrElse E P (.ok a)
  | error {fault : ε} : E → OrElse E P (.error fault)

theorem OrElse.exists_ok {P : α → Prop} {x : Except ε α} (h : OrElse False P x) :
    ∃ a, x = .ok a ∧ P a := by
  cases h with
  | ok ha => exact ⟨_, rfl, ha⟩
  | error hE => exact hE.elim

def Returns (I : Session → Prop) (E : Prop) (x : ExceptT ε (StateM Session) α) (P : α → Prop) :
    Prop :=
  Meets I x.run (OrElse E P)

theorem Meets.mono {x : StateM Session α} {P Q : α → Prop} (h : Meets I x P)
    (hPQ : ∀ a, P a → Q a) : Meets I x Q := fun s hs =>
  ⟨hPQ _ (h s hs).1, (h s hs).2⟩

theorem Meets.pure {a : α} {P : α → Prop} (h : P a) : Meets I (Pure.pure a) P := fun _ hs =>
  ⟨h, hs⟩

theorem Meets.bind {x : StateM Session α} {f : α → StateM Session β} {P : α → Prop}
    {Q : β → Prop} (hx : Meets I x P) (hf : ∀ a, P a → Meets I (f a) Q) :
    Meets I (x >>= f) Q := fun s hs =>
  hf _ (hx s hs).1 _ (hx s hs).2

theorem Returns.mono {x : ExceptT ε (StateM Session) α} {P Q : α → Prop} (h : Returns I E x P)
    (hPQ : ∀ a, P a → Q a) : Returns I E x Q := by
  refine Meets.mono h ?_
  rintro r (ha | hE)
  · exact .ok (hPQ _ ha)
  · exact .error hE

/-- A value or a fault that is given from outside. -/
theorem Returns.liftExcept {x : Except ε α} {P : α → Prop} (h : OrElse E P x) :
    Returns I E (liftM x : ExceptT ε (StateM Session) α) P :=
  Meets.pure h

theorem Returns.pure {a : α} {P : α → Prop} (h : P a) :
    Returns I E (Pure.pure a : ExceptT ε (StateM Session) α) P :=
  Returns.liftExcept (.ok h)

theorem Returns.bind {x : ExceptT ε (StateM Session) α} {f : α → ExceptT ε (StateM Session) β}
    {P : α → Prop} {Q : β → Prop} (hx : Returns I E x P) (hf : ∀ a, P a → Returns I E (f a) Q) :
    Returns I E (x >>= f) Q := by
  have hcont : ∀ r, OrElse E P r → Meets I (ExceptT.bindCont f r) (OrElse E Q) := by
    rintro r (ha | hE)
    · exact hf _ ha
    · exact Meets.pure (.error hE)
  exact Meets.bind hx hcont

/-- A computation that cannot fail, among those that can. -/
theorem Returns.lift {x : StateM Session α} {P : α → Prop} (h : Meets I x P) :
    Returns I E (liftM x : ExceptT ε (StateM Session) α) P :=
  Meets.bind h fun _ ha => Meets.pure (.ok ha)

theorem Returns.map {x : ExceptT ε (StateM Session) α} {P : α → Prop} (h : Returns I E x P)
    {f : α → β} {Q : β → Prop} (hf : ∀ a, P a → Q (f a)) : Returns I E (f <$> x) Q := by
  rw [map_eq_pure_bind]
  exact h.bind fun a ha => Returns.pure (hf a ha)

theorem Returns.adapt {ε' : Type} {x : ExceptT ε (StateM Session) α} {P : α → Prop}
    (h : Returns I E x P) (f : ε → ε') : Returns I E (ExceptT.adapt f x) P := by
  intro s hs
  obtain ⟨hresult, hsession⟩ := h s hs
  refine ⟨?_, hsession⟩
  change OrElse E P ((x.run.run s).1.mapError f)
  generalize (x.run.run s).1 = r at hresult
  cases hresult with
  | ok ha => exact .ok ha
  | error hE => exact .error hE

/-- What holds of a session whatever is read and noted. -/
structure Stable (disk : Disk) (I : Session → Prop) : Prop where
  note : ∀ s events, I s → I { s with events := s.events ++ events }
  read : ∀ s path, I s → I ((Session.read disk path).run s).2
  prefetch : ∀ s path, I s → I ((Session.prefetch disk path).run s).2

theorem stable_true (disk : Disk) : Stable disk fun _ => True :=
  ⟨fun _ _ _ => trivial, fun _ _ _ => trivial, fun _ _ _ => trivial⟩

/-- Apart from events, only the cache changes. -/
theorem exists_run_prefetch (disk : Disk) (path : String) (s : Session) :
    ∃ events, ((Session.prefetch disk path).run s).2 =
      { s with cache := (TextCache.prefetch disk s.cache path).2, events } := by
  cases hresult : TextCache.prefetch disk s.cache path with
  | mk fault cache =>
    unfold Session.prefetch
    cases fault <;>
      simp only [modify, modifyGet, MonadStateOf.modifyGet, StateT.modifyGet, StateT.run, hresult] <;>
      exact ⟨_, rfl⟩

theorem stable_faithful (disk : Disk) : Stable disk fun s => s.cache.Faithful disk where
  note _ _ h := h
  read _ path h := (h.read path).2
  prefetch s path h := by
    obtain ⟨events, hrun⟩ := exists_run_prefetch disk path s
    rw [hrun]
    exact h.prefetch path

variable {disk : Disk}

theorem Stable.meets_read (h : Stable disk I) (path : String) :
    Meets I (Session.read disk path) fun _ => True := fun s hs =>
  ⟨trivial, h.read s path hs⟩

theorem Stable.meets_note (h : Stable disk I) (events : List Event) :
    Meets I (Session.note events) fun _ => True := fun s hs =>
  ⟨trivial, h.note s events hs⟩

theorem Stable.meets_prefetch (h : Stable disk I) (path : String) :
    Meets I (Session.prefetch disk path) fun _ => True := fun s hs =>
  ⟨trivial, h.prefetch s path hs⟩

/-- Through a cache that agrees with the disk, reading is reading from disk. -/
theorem meets_read_faithful (disk : Disk) (path : String) :
    Meets (fun s => s.cache.Faithful disk) (Session.read disk path) (· = disk.readText path) :=
  fun _ hs => hs.read path

/-! ## Computations with one outcome -/

def Gives (I : Session → Prop) (x : ExceptT ε (StateM Session) α) (r : Except ε α) : Prop :=
  Meets I x.run (· = r)

theorem Gives.returns {x : ExceptT ε (StateM Session) α} {r : Except ε α} {P : α → Prop}
    (h : Gives I x r) (hr : OrElse E P r) : Returns I E x P := by
  refine Meets.mono h ?_
  rintro _ rfl
  exact hr

theorem Gives.liftExcept (r : Except ε α) :
    Gives I (liftM r : ExceptT ε (StateM Session) α) r :=
  Meets.pure rfl

theorem Gives.pure (a : α) : Gives I (Pure.pure a : ExceptT ε (StateM Session) α) (.ok a) :=
  Meets.pure rfl

/-- The outcome of the first part decides how the second one goes on. -/
theorem Gives.bind_outcome {x : ExceptT ε (StateM Session) α}
    {f : α → ExceptT ε (StateM Session) β} {r : Except ε α} {r' : Except ε β} (hx : Gives I x r)
    (hf : Meets I (ExceptT.bindCont f r) (· = r')) : Gives I (x >>= f) r' := by
  have hcont : ∀ a, a = r → Meets I (ExceptT.bindCont f a) (· = r') := by
    intro a ha
    rw [ha]
    exact hf
  exact Meets.bind hx hcont

theorem Gives.bind {x : ExceptT ε (StateM Session) α} {f : α → ExceptT ε (StateM Session) β}
    {r : Except ε α} {k : α → Except ε β} (hx : Gives I x r) (hf : ∀ a, Gives I (f a) (k a)) :
    Gives I (x >>= f) (r >>= k) := by
  apply hx.bind_outcome
  cases r with
  | error fault => exact Meets.pure rfl
  | ok a => exact hf a

theorem Gives.bind_ok {x : ExceptT ε (StateM Session) α} {f : α → ExceptT ε (StateM Session) β}
    {a : α} {r : Except ε β} (hx : Gives I x (.ok a)) (hf : Gives I (f a) r) :
    Gives I (x >>= f) r :=
  hx.bind_outcome hf

theorem Gives.bind_error {x : ExceptT ε (StateM Session) α}
    {f : α → ExceptT ε (StateM Session) β} {fault : ε} (hx : Gives I x (.error fault)) :
    Gives I (x >>= f) (.error fault) :=
  hx.bind_outcome (Meets.pure rfl)

theorem Gives.lift {x : StateM Session α} {a : α} (h : Meets I x (· = a)) :
    Gives I (liftM x : ExceptT ε (StateM Session) α) (.ok a) := by
  refine Meets.bind (f := fun a => Pure.pure (Except.ok a)) h ?_
  rintro _ rfl
  exact Meets.pure rfl

theorem Gives.adapt {ε' : Type} {x : ExceptT ε (StateM Session) α} {r : Except ε α}
    (h : Gives I x r) (f : ε → ε') : Gives I (ExceptT.adapt f x) (r.mapError f) := by
  intro s hs
  obtain ⟨hresult, hsession⟩ := h s hs
  refine ⟨?_, hsession⟩
  change (x.run.run s).1.mapError f = r.mapError f
  rw [hresult]

theorem Gives.map {x : ExceptT ε (StateM Session) α} {r : Except ε α} (h : Gives I x r)
    (f : α → β) : Gives I (f <$> x) (f <$> r) := by
  rw [map_eq_pure_bind, map_eq_pure_bind]
  exact h.bind fun a => Gives.pure (f a)

theorem Stable.gives_note (h : Stable disk I) (events : List Event) :
    Gives I (liftM (Session.note events) : ExceptT ε (StateM Session) Unit) (.ok ()) :=
  Gives.lift ((h.meets_note events).mono fun _ _ => rfl)

/-! ## Stages -/

/-- What holds of a session whatever is announced. -/
def Announceable (I : Session → Prop) : Prop :=
  ∀ (s : Session) announced, I s → I { s with announced }

theorem announceable_faithful (disk : Disk) : Announceable fun s => s.cache.Faithful disk :=
  fun _ _ h => h

namespace Announceable

variable (hI : Announceable I)
include hI

theorem meets_announce (announcement : Announcement) :
    Meets I (Session.announce announcement) fun _ => True := fun s hs =>
  ⟨trivial, hI s _ hs⟩

theorem returns_staged (stage : String) {x : ExceptT ε (StateM Session) α} {P : α → Prop}
    (h : Returns I E x P) : Returns I E (Session.staged stage x) P := by
  refine (Returns.lift (hI.meets_announce _)).bind fun _ _ => ?_
  refine h.bind fun a ha => ?_
  exact (Returns.lift (hI.meets_announce _)).bind fun _ _ => Returns.pure ha

theorem gives_staged (stage : String) {x : ExceptT ε (StateM Session) α} {r : Except ε α}
    (h : Gives I x r) : Gives I (Session.staged stage x) r := by
  have hannounce : ∀ a, Gives I (liftM (Session.announce a) : ExceptT ε (StateM Session) Unit)
      (.ok ()) := fun a => Gives.lift ((hI.meets_announce a).mono fun _ _ => rfl)
  refine Gives.bind_ok (hannounce _) ?_
  cases r with
  | error fault => exact h.bind_error
  | ok a => exact h.bind_ok (Gives.bind_ok (hannounce _) (Gives.pure a))

end Announceable
end Session
end ModuleAudit
