import ModuleAudit.Proofs.Path.Extend
import ModuleAudit.Proofs.Specifier
import ModuleAudit.Scan

/-
Specifiers that are made for a file.

The way from the folder of a module to a file, behind a dot and a slash, is a relative specifier.  The
text is read as the way again, and the way taken from the folder ends at the file, so in that module the
specifier asks for the file's own path.  A path with an extension is tried as it is.  Together, a file with
an extension can be named in every module, wherever that lies and however its path is written.
-/

namespace ModuleAudit
namespace Specifier

open ModuleAudit.Path

/-- The specifier for `file` in the module `base`. -/
def wayTo (cwd : Path) (file base : String) : String :=
  "./" ++ relative cwd file (cwd.absolute (.ofString base)).parent.toString

theorem isRelative_wayTo (cwd : Path) (file base : String) :
    isRelative (wayTo cwd file base) = true := by
  rw [isRelative, wayTo, String.toList_append]
  rfl

theorem requested_wayTo {p : Path} (hp : p.Canonical) {cwd : Path} {base : String}
    (hbase : (cwd.absolute (.ofString base)).Canonical)
    (hroot : (cwd.absolute (.ofString base)).root = p.root) :
    requested cwd base (wayTo cwd p.toString base) = p := by
  rw [requested, wayTo]
  generalize cwd.absolute (.ofString base) = module at hbase hroot
  have hway : relative cwd p.toString module.parent.toString =
      (p.relativeTo module.parent).toString := by
    rw [hp.relative_toString, ofString_toString hbase.parent.proper, hbase.parent.absolute_eq]
  have hread : ofString ("./" ++ (p.relativeTo module.parent).toString) =
      p.relativeTo module.parent := by
    rw [ofString_dotSlash, ofString_toString (proper_relativeTo hp _),
      ← root_relativeTo p module.parent]
  rw [hway, hread]
  exact join_relativeTo hp hbase.parent hroot

theorem locate_wayTo {disk : Disk} {p : Path} (hp : p.Canonical)
    (hfile : disk.isFile p.toString = true) (hext : Path.extension p.toString ≠ "") {base : String}
    (hroot : (ofString base).root = p.root) (extensions : List String) :
    locate disk extensions base (wayTo disk.cwd p.toString base) = .found p.toString := by
  have hrooted : (ofString base).isRooted = true := by
    rw [isRooted, hroot]
    exact hp.rooted
  have hbase : disk.cwd.absolute (ofString base) = (ofString base).collapse :=
    absolute_of_isRooted hrooted disk.cwd
  have hrequested : requested disk.cwd base (wayTo disk.cwd p.toString base) = p := by
    apply requested_wayTo hp
    · rw [hbase]
      exact canonical_collapse hrooted (proper_ofString base)
    · rw [hbase]
      exact hroot
  have hno : ¬ (!isRelative (wayTo disk.cwd p.toString base)) = true := by
    rw [isRelative_wayTo]
    decide
  rw [locate, if_neg hno, hrequested]
  dsimp only
  rw [if_pos (bne_iff_ne.mpr hext), List.find?_cons_of_pos hfile]

/-- Every file with an extension can be named from everywhere.  From a module at any absolute path, in
normal form or not and on disk or not, the specifier made for the file stands for the file, and
nothing is noted. -/
theorem resolve_wayTo {disk : Disk} {p : Path} (hp : p.Canonical)
    (hfile : disk.isFile p.toString = true) (hext : Path.extension p.toString ≠ "") {base : String}
    (hroot : (ofString base).root = p.root) (extensions : List String) (s : Session) :
    (resolve disk extensions false base (wayTo disk.cwd p.toString base)).run s =
      (p.toString, s) := by
  unfold resolve
  rw [locate_wayTo hp hfile hext hroot]
  rfl

/-- A file in a folder, beside a file without an extension. -/
def drawer : Disk where
  root := .folder [("src", .folder [("lib.v2", .folder [("b.js", .file [])]), ("notes", .file [])])]
  cwd := ⟨.slash, []⟩

/-- From a module that is not there, and whose path leads above the root on the way. -/
theorem resolve_wayTo_drawer :
    Canonical ⟨.slash, ["src", "lib.v2", "b.js"]⟩ ∧ drawer.isFile "/src/lib.v2/b.js" = true ∧
      Path.extension "/src/lib.v2/b.js" ≠ "" ∧ (ofString "/x/../../src//deep/./y/m").root = .slash ∧
      wayTo drawer.cwd "/src/lib.v2/b.js" "/x/../../src//deep/./y/m" = "./../../lib.v2/b.js" ∧
      (resolve drawer Scan.sourceExtensions false "/x/../../src//deep/./y/m"
        "./../../lib.v2/b.js").run (.ofCache (.empty 1)) =
          ("/src/lib.v2/b.js", .ofCache (.empty 1)) := by
  have hp : Canonical ⟨.slash, ["src", "lib.v2", "b.js"]⟩ := ⟨rfl, by decide⟩
  have hfile : drawer.isFile "/src/lib.v2/b.js" = true := by decide
  have hext : Path.extension "/src/lib.v2/b.js" ≠ "" := by decide
  have hroot : (ofString "/x/../../src//deep/./y/m").root = .slash := by decide
  have hway : wayTo drawer.cwd "/src/lib.v2/b.js" "/x/../../src//deep/./y/m" =
      "./../../lib.v2/b.js" := by decide
  refine ⟨hp, hfile, hext, hroot, hway, ?_⟩
  rw [← hway]
  exact resolve_wayTo hp hfile hext hroot Scan.sourceExtensions (.ofCache (.empty 1))

end Specifier
end ModuleAudit
