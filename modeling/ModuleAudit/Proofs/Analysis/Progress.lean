import ModuleAudit.Proofs.Analysis.Verdict

/-
The announcements of an analysis tell how far it came.

`Announces x P` relates the outcome of `x` to what `x` adds to the announcements, from any session.
Most computations are `Quiet`: they add nothing, and the failures they can end with are of one kind.  A
stage around a quiet computation adds one announcement if it fails and two if it comes through.

So the outcome of an analysis decides what was announced.  Without room in the cache, or with a manifest
that is nested too deep, nothing was.  A failing strategy leaves the first stage open, and a path that
cannot be shown comes up after the last announcement.
-/

namespace ModuleAudit
namespace Session

variable {α β γ ε : Type}

/-- `x` adds to the announcements, and `P` relates its outcome to what it adds. -/
def Announces (x : ExceptT ε (StateM Session) α) (P : Except ε α → List Announcement → Prop) : Prop :=
  ∀ s, ∃ added, (x.run.run s).2.announced = s.announced ++ added ∧ P (x.run.run s).1 added

/-- The failures are of the kind `f`. -/
def FailsWith (f : γ → ε) (r : Except ε α) : Prop :=
  ∀ fault, r = .error fault → ∃ cause, fault = f cause

theorem failsWith_mapError (f : γ → ε) (r : Except γ α) : FailsWith f (r.mapError f) := by
  intro fault h
  cases r with
  | error cause => exact ⟨cause, (Except.error.inj h).symm⟩
  | ok a => cases h

theorem failsWith_ok (f : γ → ε) (a : α) : FailsWith f (.ok a) := nofun

/-- `x` announces nothing, and its failures are of the kind `f`. -/
def Quiet (f : γ → ε) (x : ExceptT ε (StateM Session) α) : Prop :=
  Announces x fun r added => FailsWith f r ∧ added = []

/-- What a stage announces on the way to an outcome. -/
def around (stage : String) : Except ε α → List Announcement
  | .error _ => [(stage, 0, 1)]
  | .ok _ => [(stage, 0, 1), (stage, 1, 1)]

namespace Announces

variable {x : ExceptT ε (StateM Session) α} {k : α → ExceptT ε (StateM Session) β}
  {P : Except ε α → List Announcement → Prop} {Q : Except ε β → List Announcement → Prop}

theorem mono {P' : Except ε α → List Announcement → Prop} (h : Announces x P)
    (hP : ∀ r added, P r added → P' r added) : Announces x P' := by
  intro s
  obtain ⟨added, hadded, hr⟩ := h s
  exact ⟨added, hadded, hP _ _ hr⟩

theorem liftExcept {r : Except ε α} (h : P r []) :
    Announces (liftM r : ExceptT ε (StateM Session) α) P := fun _ =>
  ⟨[], (List.append_nil _).symm, h⟩

/-- The second part adds to what the first one added. -/
theorem bind (hx : Announces x P)
    (herror : ∀ fault added, P (.error fault) added → Q (.error fault) added)
    (hk : ∀ a before, P (.ok a) before → Announces (k a) fun r after => Q r (before ++ after)) :
    Announces (x >>= k) Q := by
  intro s
  obtain ⟨before, hbefore, hr⟩ := hx s
  have hrun : (x >>= k).run.run s =
      StateT.run (ExceptT.bindCont k (x.run.run s).1) (x.run.run s).2 := rfl
  rw [hrun]
  generalize x.run.run s = result at hbefore hr
  obtain ⟨r, s'⟩ := result
  cases r with
  | error fault => exact ⟨before, hbefore, herror fault before hr⟩
  | ok a =>
    obtain ⟨after, hafter, hQ⟩ := hk a before hr s'
    replace hbefore : s'.announced = s.announced ++ before := hbefore
    rw [hbefore, List.append_assoc] at hafter
    exact ⟨before ++ after, hafter, hQ⟩

theorem bind_quiet {f : γ → ε} (hx : Quiet f x) (herror : ∀ cause, Q (.error (f cause)) [])
    (hk : ∀ a, Announces (k a) Q) : Announces (x >>= k) Q := by
  refine hx.bind ?_ ?_
  · rintro fault _ ⟨hfault, rfl⟩
    obtain ⟨cause, rfl⟩ := hfault fault rfl
    exact herror cause
  · rintro a _ ⟨-, rfl⟩
    exact hk a

theorem announce_bind {announcement : Announcement} {k : Unit → ExceptT ε (StateM Session) β}
    (hk : Announces (k ()) fun r after => Q r (announcement :: after)) :
    Announces (liftM (Session.announce announcement) >>= k) Q := by
  intro s
  obtain ⟨after, hafter, hQ⟩ := hk { s with announced := s.announced ++ [announcement] }
  rw [List.append_assoc] at hafter
  exact ⟨announcement :: after, hafter, hQ⟩

theorem staged {f : γ → ε} (hx : Quiet f x) (stage : String) :
    Announces (Session.staged stage x) fun r added => FailsWith f r ∧ added = around stage r := by
  refine announce_bind (bind hx ?_ ?_)
  · rintro fault _ ⟨hfault, rfl⟩
    exact ⟨hfault, rfl⟩
  · rintro a _ ⟨-, rfl⟩
    exact announce_bind (liftExcept ⟨failsWith_ok f a, rfl⟩)

end Announces

namespace Quiet

variable {x : ExceptT ε (StateM Session) α} {k : α → ExceptT ε (StateM Session) β} {f : γ → ε}

theorem bind (hx : Quiet f x) (hk : ∀ a, Quiet f (k a)) : Quiet f (x >>= k) := by
  refine Announces.bind_quiet hx (fun cause => ⟨?_, rfl⟩) hk
  intro fault h
  exact ⟨cause, (Except.error.inj h).symm⟩

theorem pure (a : α) : Quiet f (Pure.pure a : ExceptT ε (StateM Session) α) :=
  Announces.liftExcept ⟨failsWith_ok f a, rfl⟩

theorem map (hx : Quiet f x) (g : α → β) : Quiet f (g <$> x) := by
  rw [map_eq_pure_bind]
  exact hx.bind fun a => Quiet.pure (g a)

theorem mapError (f : γ → ε) (r : Except γ α) :
    Quiet f (liftM (r.mapError f) : ExceptT ε (StateM Session) α) :=
  Announces.liftExcept ⟨failsWith_mapError f r, rfl⟩

/-- A computation that keeps the announcements as they are, among those that can fail. -/
theorem lift {y : StateM Session α} (h : ∀ l, Meets (·.announced = l) y fun _ => True) :
    Quiet f (liftM y : ExceptT ε (StateM Session) α) := fun s =>
  ⟨[], (h _ s rfl).2.trans (List.append_nil _).symm, failsWith_ok f _, rfl⟩

theorem adapt {y : ExceptT γ (StateM Session) α}
    (h : ∀ l, Returns (·.announced = l) True y fun _ => True) (f : γ → ε) :
    Quiet f (ExceptT.adapt f y) := fun s =>
  ⟨[], (h _ s rfl).2.trans (List.append_nil _).symm, failsWith_mapError f _, rfl⟩

end Quiet

/-- Reading and noting announce nothing. -/
theorem stable_announced (disk : Disk) (l : List Announcement) : Stable disk (·.announced = l) where
  note _ _ h := h
  read _ _ h := h
  prefetch s path h := by
    obtain ⟨events, hrun⟩ := exists_run_prefetch disk path s
    rw [hrun]
    exact h

end Session

theorem Package.meets_unused_of_stable {disk : Disk} {I : Session → Prop}
    (hI : Session.Stable disk I) (declared files : List String) :
    Session.Meets I (unused disk declared files) fun _ => True := by
  have hreadAll : Session.Meets I (readAll disk files) fun _ => True := by
    induction files with
    | nil => exact .pure trivial
    | cons file rest ih =>
      refine (hI.meets_read file).bind ?_
      rintro (fault | content) -
      · exact (hI.meets_note _).bind fun _ _ => ih
      · exact ih.bind fun _ _ => .pure trivial
  unfold unused
  split
  · exact .pure trivial
  · exact hreadAll.bind fun _ _ => .pure trivial

namespace Analysis

open Session

/-- What is announced on the way to an outcome. -/
def announcedBefore : Except Failure Report → List Announcement
  | .ok _ => stages
  | .error (.unspecified _) => stages
  | .error (.strategy _) => stages.take 1
  | .error (.capacity _) => []
  | .error (.manifest _) => []

theorem quiet_scanAndBuild (disk : Disk) (strategy : Strategy) (config : Config) :
    Quiet Failure.strategy (ExceptT.adapt .strategy (scanAndBuild disk strategy config)) := by
  refine Quiet.adapt (fun l => ?_) _
  have hI := stable_announced disk l
  have hopen : ∀ r : Except Strategy.Fault (List String), OrElse True (fun _ => True) r := by
    rintro (fault | imports)
    · exact .error trivial
    · exact .ok trivial
  have hfile : ∀ f, Returns (·.announced = l) True
      (Imports.ofFile disk config.filter.extensions strategy f) fun _ => True := fun f =>
    Imports.returns_ofFile hI _ strategy f trivial fun _ => hopen _
  exact (Graph.returns_scanAndBuild hI hfile).mono fun _ _ => trivial

theorem announces_report (disk : Disk) (strategy : Strategy) (config : Config) :
    Announces (report disk strategy config) fun r added => added = announcedBefore r := by
  have hnote : ∀ events, Quiet (Empty.elim : Empty → Failure) (liftM (Session.note events)) :=
    fun events => Quiet.lift fun l => (stable_announced disk l).meets_note events
  unfold report
  dsimp only
  refine Announces.bind_quiet (Quiet.mapError Failure.manifest _) (fun _ => rfl) fun loaded => ?_
  refine Announces.bind_quiet (hnote _) nofun fun _ => ?_
  refine Announces.bind_quiet (hnote _) nofun fun _ => ?_
  refine (Announces.staged (quiet_scanAndBuild disk strategy config) _).bind ?_ ?_
  · rintro fault _ ⟨hfault, rfl⟩
    obtain ⟨cause, rfl⟩ := hfault fault rfl
    rfl
  rintro ⟨files, g⟩ _ ⟨-, rfl⟩
  refine (Announces.staged (Quiet.pure (f := Empty.elim) (Cycle.all g)) _).bind ?_ ?_
  · rintro fault _ ⟨hfault, -⟩
    exact (hfault fault rfl).elim fun cause _ => cause.elim
  rintro cycles _ ⟨-, rfl⟩
  dsimp only
  -- both stages are over, and what follows is quiet
  have hlast : ∀ {x : ExceptT Failure (StateM Session) Report}, Quiet Failure.unspecified x →
      Announces x fun r after => around "Scanning" (.ok (files, g) : Except Failure _) ++
        (around "Detecting cycles" (.ok cycles : Except Failure _) ++ after) = announcedBefore r := by
    intro x hx
    refine hx.mono ?_
    rintro (fault | r) _ ⟨hfault, rfl⟩
    · obtain ⟨cause, rfl⟩ := hfault fault rfl
      rfl
    · rfl
  apply hlast
  have hpackages := Quiet.lift (f := Failure.unspecified) fun l => Package.meets_unused_of_stable
    (stable_announced disk l) (Manifest.dependencies loaded.1) files
  refine (Quiet.mapError _ _).bind fun tree => ?_
  split
  · exact (Quiet.pure "").bind fun _ => hpackages.bind fun _ => Quiet.pure _
  · exact ((Quiet.mapError _ _).map _).bind fun _ => hpackages.bind fun _ => Quiet.pure _

/-- The outcome of an analysis decides what was announced. -/
theorem announced_eq (disk : Disk) (strategy : Strategy) (config : Config) :
    announced disk strategy config = announcedBefore (run disk strategy config).1 := by
  unfold announced run perform
  cases TextCache.ofCapacity config.cacheSize with
  | error fault => rfl
  | ok cache =>
    obtain ⟨added, hadded, hr⟩ := announces_report disk strategy config (.ofCache cache)
    dsimp only
    generalize (report disk strategy config).run.run (.ofCache cache) = result at hadded hr
    rw [hr] at hadded
    exact hadded

end Analysis
end ModuleAudit
