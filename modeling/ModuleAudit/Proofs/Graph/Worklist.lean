import ModuleAudit.Proofs.Graph.Trace
import ModuleAudit.Proofs.Path.Basic

/-
The rounds of a trace come to an end.

A round takes one module off the worklist, and if it visits the module it puts all imports of that module
on.  Modules are put on again and again, and cycles lead back to modules that were visited.  But only a
visit puts modules on, and a module is visited once.  So `work`, which counts what is pending together
with the imports of all modules not yet visited, falls with every round.

`trace_exact` puts this together with `mem_trace`: a trace is what the rounds end with, and it holds the
modules at the ends of chains.
-/

namespace ModuleAudit
namespace Graph

structure Worklist where
  pending : List String
  visited : List String

inductive Round (g : Graph) (onDisk : String → Bool) : Worklist → Worklist → Prop where
  | skip {next : String} {pending visited : List String}
      (h : ¬ Fresh onDisk visited (Path.normalize next)) :
      Round g onDisk ⟨next :: pending, visited⟩ ⟨pending, visited⟩
  | visit {next : String} {pending visited : List String}
      (h : Fresh onDisk visited (Path.normalize next)) :
      Round g onDisk ⟨next :: pending, visited⟩
        ⟨g.dependencies (Path.normalize next) ++ pending, visited ++ [Path.normalize next]⟩

/-- The imports in the rows of a table whose modules were not visited. -/
def unvisited (t : Table (List String)) (visited : List String) : List String :=
  (t.filter fun row => !visited.contains row.1).flatMap (·.2)

def work (g : Graph) (s : Worklist) : Nat :=
  s.pending.length + (unvisited g.forward s.visited).length

/-- A row counts until its module is visited. -/
theorem length_unvisited_cons (m : String) (imports : List String) (rest : Table (List String))
    (visited : List String) :
    (unvisited ((m, imports) :: rest) visited).length =
      (if m ∈ visited then 0 else imports.length) + (unvisited rest visited).length := by
  unfold unvisited
  by_cases hm : m ∈ visited
  · simp [hm]
  · simp [hm]

theorem length_unvisited_visit (t : Table (List String)) {visited : List String} {m : String}
    (hm : m ∉ visited) :
    ((t.get? m).getD []).length + (unvisited t (visited ++ [m])).length ≤
      (unvisited t visited).length := by
  induction t with
  | nil => simp [unvisited, Table.get?_nil]
  | cons row rest ih =>
    obtain ⟨k, imports⟩ := row
    rw [length_unvisited_cons, length_unvisited_cons, Table.get?_cons]
    by_cases hk : m = k
    · subst hk
      simp only [List.mem_append, List.mem_singleton, hm, or_true, if_true, if_false,
        Option.getD_some]
      omega
    · have hmem : k ∈ visited ++ [m] ↔ k ∈ visited := by simp [Ne.symm hk]
      simp only [hmem, if_neg hk]
      omega

variable {g : Graph} {onDisk : String → Bool} {s s' : Worklist}

theorem Round.work_lt (h : Round g onDisk s s') : g.work s' < g.work s := by
  cases h with
  | skip h =>
    simp only [work, List.length_cons]
    omega
  | @visit next pending visited h =>
    have hunvisited := length_unvisited_visit g.forward h.2
    simp only [work, List.length_append, List.length_cons, dependencies]
    omega

theorem wellFounded_round (g : Graph) (onDisk : String → Bool) :
    WellFounded fun s' s => Round g onDisk s s' :=
  Subrelation.wf Round.work_lt (measure g.work).wf

theorem traceFrom_of_round (h : Round g onDisk s s') (room : Nat) :
    g.traceFrom onDisk (room + 1) s.pending s.visited =
      g.traceFrom onDisk room s'.pending s'.visited := by
  cases h with
  | skip h => rw [traceFrom, if_pos (skip_iff.mpr h)]
  | visit h => rw [traceFrom, if_neg (fun hskip => skip_iff.mp hskip h)]

theorem exists_round (g : Graph) (onDisk : String → Bool) (next : String)
    (pending visited : List String) : ∃ s', Round g onDisk ⟨next :: pending, visited⟩ s' := by
  by_cases hfresh : Fresh onDisk visited (Path.normalize next)
  · exact ⟨_, .visit hfresh⟩
  · exact ⟨_, .skip hfresh⟩

/-- With room for its work, a trace follows the rounds until nothing is pending. -/
theorem rounds_traceFrom {room : Nat} (h : g.work s < room) :
    Relation.ReflTransGen (Round g onDisk) s ⟨[], g.traceFrom onDisk room s.pending s.visited⟩ := by
  induction room generalizing s with
  | zero => omega
  | succ room ih =>
    obtain ⟨pending, visited⟩ := s
    cases pending with
    | nil => exact .refl
    | cons next pending =>
      obtain ⟨s', hround⟩ := exists_round g onDisk next pending visited
      have hwork := hround.work_lt
      have htrace := traceFrom_of_round hround room
      dsimp only at htrace
      rw [htrace]
      exact .head hround (ih (by omega))

theorem length_unvisited_le (t : Table (List String)) (visited : List String) :
    (unvisited t visited).length ≤ t.values.flatten.length := by
  induction t with
  | nil => simp [unvisited]
  | cons row rest ih =>
    obtain ⟨m, imports⟩ := row
    have hvalues : (Table.values ((m, imports) :: rest)).flatten.length =
        imports.length + (Table.values rest).flatten.length := by
      simp [Table.values]
    rw [length_unvisited_cons, hvalues]
    split <;> omega

theorem normalize_resolveEntry {cwd : Path} (hcwd : cwd.Canonical) (entry sourceDir : String) :
    Path.normalize (resolveEntry cwd entry sourceDir) = resolveEntry cwd entry sourceDir :=
  (Path.canonical_collapse_join (hcwd.absolute (Path.proper_ofString sourceDir))
    (Path.proper_ofString entry)).normalize_toString

/-- The rounds of a trace end, wherever they start.  From the entry and the modules visited before, they
end with nothing pending and with the modules of the trace visited.  These are the ones visited before
and those at the ends of chains of imports, each in normal form, on disk and not visited before. -/
theorem trace_exact {cwd : Path} (hcwd : cwd.Canonical) (g : Graph) (onDisk : String → Bool)
    (entry sourceDir : String) (visited : List String) :
    (WellFounded fun s' s => Round g onDisk s s') ∧
      Relation.ReflTransGen (Round g onDisk) ⟨[resolveEntry cwd entry sourceDir], visited⟩
        ⟨[], g.trace onDisk (resolveEntry cwd entry sourceDir) visited⟩ ∧
      ∀ m, m ∈ g.trace onDisk (resolveEntry cwd entry sourceDir) visited ↔
        m ∈ visited ∨
          Chain (Fresh onDisk visited) g.Leads (resolveEntry cwd entry sourceDir) m := by
  refine ⟨wellFounded_round g onDisk, ?_, fun m => ?_⟩
  · have hunvisited := length_unvisited_le g.forward visited
    have hcount := g.edgeCount_eq
    apply rounds_traceFrom
    simp only [work, List.length_singleton]
    omega
  · rw [mem_trace, normalize_resolveEntry hcwd]

/-- Names that are not in normal form, an import that is not on disk, and a cycle. -/
def looped : Graph where
  files := []
  forward := [("/src/i", ["/src//a", "/src/gone", "/src/./a"]), ("/src/a", ["/src/b/../i", "/src/v"]),
    ("/src/v", ["/src/w"])]
  reverse := []
  version := 1

/-- What lies behind a module that was visited before is not reached. -/
theorem trace_exact_looped :
    Path.Canonical ⟨.slash, ["src"]⟩ ∧
      looped.trace (· != "/src/gone") (resolveEntry ⟨.slash, ["src"]⟩ "x/../i" ".") ["/src/v"] =
        ["/src/v", "/src/i", "/src/a"] ∧
      Chain (Fresh (· != "/src/gone") ["/src/v"]) looped.Leads
        (resolveEntry ⟨.slash, ["src"]⟩ "x/../i" ".") "/src/a" ∧
      ¬ Chain (Fresh (· != "/src/gone") ["/src/v"]) looped.Leads
        (resolveEntry ⟨.slash, ["src"]⟩ "x/../i" ".") "/src/w" := by
  have hcwd : Path.Canonical ⟨.slash, ["src"]⟩ := ⟨rfl, by decide⟩
  have htrace : looped.trace (· != "/src/gone") (resolveEntry ⟨.slash, ["src"]⟩ "x/../i" ".")
      ["/src/v"] = ["/src/v", "/src/i", "/src/a"] := by decide
  obtain ⟨-, -, hmem⟩ := trace_exact hcwd looped (· != "/src/gone") "x/../i" "." ["/src/v"]
  rw [htrace] at hmem
  refine ⟨hcwd, htrace, ?_, ?_⟩
  · exact ((hmem "/src/a").mp (by decide)).resolve_left (by decide)
  · intro hchain
    exact absurd ((hmem "/src/w").mpr (Or.inr hchain)) (by decide)

end Graph
end ModuleAudit
