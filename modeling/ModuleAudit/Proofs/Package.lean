import ModuleAudit.Manifest
import ModuleAudit.Package
import ModuleAudit.Proofs.Pattern
import ModuleAudit.Proofs.Session

/-
Packages that are used are those that some file mentions.

A text mentions a package if it has the name in quotes, alone or followed by a slash and a path
without quotes.  The patterns for imports and calls of `require` all hold such a mention, so only
the last of the patterns decides.
-/

namespace ModuleAudit
namespace Package

open Pattern Pattern.Script Session

/-- Nothing, or a slash and a path without quotes. -/
def Subpath (below : List Char) : Prop :=
  below = [] ∨ ∃ path, below = '/' :: path ∧ ∀ c ∈ path, isQuote c = false

/-- The name of the package, or a path below it, between quotes at the start of a text. -/
def Quoted (name : String) (text : List Char) : Prop :=
  ∃ opening below closing rest, text = opening :: (name.toList ++ (below ++ closing :: rest)) ∧
    isQuote opening = true ∧ Subpath below ∧ isQuote closing = true

def Mentions (text name : String) : Prop :=
  ∃ front rest, text.toList = front ++ rest ∧ Quoted name rest

theorem reads_subpath_iff {before : Option Char} {word after : List Char}
    {caught : Option (List Char)} :
    (Pattern.optional (all [literal ['/'], most 0 fun c => !isQuote c])).Reads before word after
        caught ↔ Subpath word ∧ caught = none := by
  constructor
  · rintro (⟨_, _, _, _, rfl, ⟨rfl, rfl⟩, hpath, rfl⟩ | ⟨rfl, rfl⟩)
    · obtain ⟨path, _, _, _, rfl, ⟨⟨-, hpath⟩, rfl⟩, ⟨rfl, rfl⟩, rfl⟩ := hpath
      rw [List.append_nil]
      exact ⟨Or.inr ⟨path, rfl, fun c hc => by simpa using hpath c hc⟩, rfl⟩
    · exact ⟨Or.inl rfl, rfl⟩
  · rintro ⟨rfl | ⟨path, rfl, hpath⟩, rfl⟩
    · exact Or.inr ⟨rfl, rfl⟩
    · have hword : ∀ c ∈ path, (!isQuote c) = true := fun c hc => by simp [hpath c hc]
      refine Or.inl ⟨['/'], path, none, none, rfl, ⟨rfl, rfl⟩, ?_, rfl⟩
      exact ⟨path, [], none, none, (List.append_nil path).symm, ⟨⟨Nat.zero_le _, hword⟩, rfl⟩,
        ⟨rfl, rfl⟩, rfl⟩

theorem matches_mention_iff {s : Spot} {name : String} :
    (∃ e, (mention name).Matches s e) ↔ Quoted name s.rest := by
  constructor
  · rintro ⟨e, he⟩
    obtain ⟨_, after, _, hrest, hreads, -⟩ := matches_iff.mp he
    obtain ⟨_, _, _, _, rfl, ⟨⟨opening, rfl, hopening⟩, -⟩, hreads, -⟩ := hreads
    obtain ⟨_, _, _, _, rfl, ⟨rfl, -⟩, hreads, -⟩ := hreads
    obtain ⟨below, _, _, _, rfl, hbelow, hreads, -⟩ := hreads
    obtain ⟨_, _, _, _, rfl, ⟨⟨closing, rfl, hclosing⟩, -⟩, ⟨rfl, -⟩, -⟩ := hreads
    refine ⟨opening, below, closing, after, ?_, hopening, (reads_subpath_iff.mp hbelow).1, hclosing⟩
    rw [hrest]
    simp
  · rintro ⟨opening, below, closing, rest, hrest, hopening, hbelow, hclosing⟩
    refine ⟨_, matches_iff.mpr ⟨opening :: (name.toList ++ (below ++ [closing])), rest, none, ?_, ?_,
      rfl⟩⟩
    · rw [hrest]
      simp
    · refine ⟨[opening], _, none, none, rfl, ⟨⟨opening, rfl, hopening⟩, rfl⟩, ?_, rfl⟩
      refine ⟨name.toList, _, none, none, rfl, ⟨rfl, rfl⟩, ?_, rfl⟩
      refine ⟨below, _, none, none, rfl, reads_subpath_iff.mpr ⟨hbelow, rfl⟩, ?_, rfl⟩
      exact ⟨[closing], [], none, none, rfl, ⟨⟨closing, rfl, hclosing⟩, rfl⟩, ⟨rfl, rfl⟩, rfl⟩

/-- Every way to use a package holds a mention of it. -/
theorem through_mention {name : String} {p : Pattern} (h : p ∈ usages name) :
    Through p (mention name) := by
  have hcalled : Through (called (mention name)) (mention name) := through_all (by simp)
  simp only [usages, List.mem_cons, List.not_mem_nil, or_false] at h
  rcases h with rfl | rfl | rfl | rfl | rfl
  · exact through_all (by simp)
  · exact through_all (by simp)
  · exact Through.trans (through_all (by simp)) hcalled
  · exact Through.trans (through_all (by simp)) hcalled
  · exact Through.refl _

theorem any_usages_iff {name text : String} :
    (usages name).any (·.isFound text.toList) = true ↔ Mentions text name := by
  rw [List.any_eq_true]
  constructor
  · rintro ⟨p, hp, hfound⟩
    obtain ⟨front, rest, htext, e, he⟩ := isFound_iff.mp hfound
    obtain ⟨m, n, ⟨skipped, hskipped⟩, hmention⟩ := through_mention hp _ _ he
    refine ⟨front ++ skipped, m.rest, ?_, matches_mention_iff.mp ⟨n, hmention⟩⟩
    rw [htext, List.append_assoc, hskipped]
  · rintro ⟨front, rest, htext, hquoted⟩
    refine ⟨mention name, by simp [usages], isFound_iff.mpr ⟨front, rest, htext, ?_⟩⟩
    exact matches_mention_iff.mpr hquoted

theorem isUsed_iff {name : String} {contents : List String} :
    isUsed name contents = true ↔ ∃ text ∈ contents, Mentions text name := by
  rw [isUsed, List.any_eq_true]
  exact exists_congr fun text => and_congr_right fun _ => any_usages_iff

/-- An empty text mentions no package. -/
theorem not_mentions_empty (name : String) : ¬ Mentions "" name := by
  rintro ⟨front, rest, htext, opening, below, closing, tail, hrest, -⟩
  rw [hrest, String.toList_empty] at htext
  exact absurd htext (by simp)

/-! ## Straight from disk -/

/-- The texts of the files that can be read. -/
def readable (disk : Disk) (files : List String) : List String :=
  files.filterMap fun file => (disk.readText file).toOption

/-- The unused packages, with every read going to disk. -/
def direct (disk : Disk) (declared files : List String) : List String :=
  declared.filter (!isUsed · (readable disk files))

theorem mem_readable {disk : Disk} {files : List String} {text : String} :
    text ∈ readable disk files ↔ ∃ file ∈ files, disk.readText file = .ok text := by
  rw [readable, List.mem_filterMap]
  refine exists_congr fun file => and_congr_right fun _ => ?_
  cases disk.readText file with
  | error fault => simp [Except.toOption]
  | ok content => simp [Except.toOption]

theorem isUsed_readable_iff {disk : Disk} {files : List String} {name : String} :
    isUsed name (readable disk files) = true ↔
      ∃ file ∈ files, ∃ text, disk.readText file = .ok text ∧ Mentions text name := by
  rw [isUsed_iff]
  constructor
  · rintro ⟨text, htext, hmention⟩
    obtain ⟨file, hfile, hread⟩ := mem_readable.mp htext
    exact ⟨file, hfile, text, hread, hmention⟩
  · rintro ⟨file, hfile, text, hread, hmention⟩
    exact ⟨text, mem_readable.mpr ⟨file, hfile, hread⟩, hmention⟩

theorem mem_direct {disk : Disk} {declared files : List String} {name : String} :
    name ∈ direct disk declared files ↔ name ∈ declared ∧
      ∀ file ∈ files, ∀ text, disk.readText file = .ok text → ¬ Mentions text name := by
  rw [direct, List.mem_filter, Bool.not_eq_true', ← Bool.not_eq_true, isUsed_readable_iff]
  simp only [not_exists, not_and]

/-! ## Through a session -/

theorem meets_readAll (disk : Disk) (files : List String) :
    Meets (fun s => s.cache.Faithful disk) (readAll disk files) (· = readable disk files) := by
  induction files with
  | nil => exact Meets.pure rfl
  | cons file rest ih =>
    refine (meets_read_faithful disk file).bind ?_
    rintro (fault | content) hread
    · have hskip : readable disk (file :: rest) = readable disk rest :=
        List.filterMap_cons_none (by rw [← hread]; rfl)
      rw [hskip]
      exact ((stable_faithful disk).meets_note _).bind fun _ _ => ih
    · have htake : readable disk (file :: rest) = content :: readable disk rest :=
        List.filterMap_cons_some (by rw [← hread]; rfl)
      rw [htake]
      refine ih.bind ?_
      rintro _ rfl
      exact Meets.pure rfl

theorem meets_unused_direct (disk : Disk) (declared files : List String) :
    Meets (fun s => s.cache.Faithful disk) (unused disk declared files)
      (· = direct disk declared files) := by
  unfold unused
  split
  · rename_i hempty
    rw [List.isEmpty_iff.mp hempty]
    exact Meets.pure rfl
  · refine (meets_readAll disk files).bind ?_
    rintro _ rfl
    exact Meets.pure rfl

/-- The packages reported are the declared ones that no readable file mentions. -/
theorem meets_unused (disk : Disk) (declared files : List String) :
    Meets (fun s => s.cache.Faithful disk) (unused disk declared files) fun found =>
      ∀ name, name ∈ found ↔ name ∈ declared ∧
        ∀ file ∈ files, ∀ text, disk.readText file = .ok text → ¬ Mentions text name := by
  refine (meets_unused_direct disk declared files).mono ?_
  rintro _ rfl name
  exact mem_direct

/-! ## Declared packages

The same, said about the texts themselves: a package is unused if its name, alone or followed by a
path, stands in quotes in none of them.  This holds of any texts, also of those from a cache that no
longer agrees with the disk. -/

def quotes : List Char := ['\'', '"']

theorem isQuote_iff {c : Char} : isQuote c = true ↔ c ∈ quotes := by
  simp [isQuote, quotes]

/-- Some part of the text is the name in quotes, or the name, a slash and a path without quotes. -/
def InQuotes (name text : String) : Prop :=
  ∃ opening ∈ quotes, ∃ closing ∈ quotes,
    (opening :: (name.toList ++ [closing])) <:+: text.toList ∨
    ∃ path, (∀ c ∈ path, c ∉ quotes) ∧
      (opening :: (name.toList ++ '/' :: (path ++ [closing]))) <:+: text.toList

theorem subpath_iff {below : List Char} :
    Subpath below ↔ below = [] ∨ ∃ path, below = '/' :: path ∧ ∀ c ∈ path, c ∉ quotes := by
  have hpath : ∀ path : List Char, (∀ c ∈ path, isQuote c = false) ↔ ∀ c ∈ path, c ∉ quotes :=
    fun path => forall₂_congr fun c _ => by rw [← isQuote_iff, Bool.not_eq_true]
  simp only [Subpath, hpath]

theorem mentions_iff_inQuotes {text name : String} : Mentions text name ↔ InQuotes name text := by
  constructor
  · rintro ⟨front, _, htext, opening, below, closing, rest, rfl, hopening, hbelow, hclosing⟩
    refine ⟨opening, isQuote_iff.mp hopening, closing, isQuote_iff.mp hclosing, ?_⟩
    rcases subpath_iff.mp hbelow with rfl | ⟨path, rfl, hpath⟩
    · exact Or.inl ⟨front, rest, by simp [htext]⟩
    · exact Or.inr ⟨path, hpath, front, rest, by simp [htext]⟩
  · rintro ⟨opening, hopening, closing, hclosing, ⟨front, rest, htext⟩ | ⟨path, hpath, front, rest, htext⟩⟩
    · exact ⟨front, opening :: (name.toList ++ ([] ++ closing :: rest)), by simp [← htext], opening, [],
        closing, rest, rfl, isQuote_iff.mpr hopening, subpath_iff.mpr (Or.inl rfl),
        isQuote_iff.mpr hclosing⟩
    · exact ⟨front, opening :: (name.toList ++ ('/' :: path ++ closing :: rest)), by simp [← htext],
        opening, '/' :: path, closing, rest, rfl, isQuote_iff.mpr hopening,
        subpath_iff.mpr (Or.inr ⟨path, rfl, hpath⟩), isQuote_iff.mpr hclosing⟩

/-- The last pattern finds what any of them finds. -/
theorem isFound_mention_iff {name text : String} :
    (mention name).isFound text.toList = true ↔ Mentions text name := by
  rw [isFound_iff]
  exact exists₂_congr fun front rest => and_congr_right fun _ => matches_mention_iff

theorem run_unused (disk : Disk) (declared files : List String) (s : Session) :
    ((unused disk declared files).run s).1 =
      declared.filter (!isUsed · ((readAll disk files).run s).1) := by
  unfold unused
  split
  · rename_i hempty
    rw [List.isEmpty_iff.mp hempty]
    rfl
  · rfl

theorem isUsed_eq_any_mention (name : String) (texts : List String) :
    isUsed name texts = texts.any ((mention name).isFound ·.toList) := by
  rw [Bool.eq_iff_iff, isUsed_iff, List.any_eq_true]
  exact exists_congr fun text => and_congr_right fun _ => isFound_mention_iff.symm

/-- The unused packages are the declared ones whose names stand in quotes in no text that was read, and
these are the texts on disk if the cache agrees with it.  The last pattern alone decides. -/
theorem mem_unused_iff_not_inQuotes (disk : Disk) {manifest : Manifest}
    {members : List (String × Json)}
    (hm : manifest.members.get? "dependencies" = some (.object members)) (files : List String)
    (s : Session) :
    (∀ name, name ∈ ((unused disk (Manifest.dependencies manifest) files).run s).1 ↔
      name ∈ Table.keys members ∧
        ∀ text ∈ ((readAll disk files).run s).1, ¬ InQuotes name text) ∧
    (s.cache.Faithful disk → ∀ name,
      name ∈ ((unused disk (Manifest.dependencies manifest) files).run s).1 ↔
        name ∈ Table.keys members ∧
          ∀ file ∈ files, ∀ text, disk.readText file = .ok text → ¬ InQuotes name text) ∧
    ((unused disk (Manifest.dependencies manifest) files).run s).1 =
      (Table.keys members).filter fun name =>
        !((readAll disk files).run s).1.any ((mention name).isFound ·.toList) := by
  have hdeclared : Manifest.dependencies manifest = Table.keys members := by
    rw [Manifest.dependencies, Option.bind_some, hm]
  rw [hdeclared]
  refine ⟨fun name => ?_, fun hs name => ?_, ?_⟩
  · rw [run_unused, List.mem_filter, Bool.not_eq_true', ← Bool.not_eq_true, isUsed_iff]
    simp only [not_exists, not_and, mentions_iff_inQuotes]
  · simp only [← mentions_iff_inQuotes]
    exact (meets_unused disk (Table.keys members) files s hs).1 name
  · rw [run_unused]
    simp only [isUsed_eq_any_mention]

/-- A text of one quoted path, in a file. -/
def quoting : Disk where
  root := .folder [("x.js", .file [0x27, 0x61, 0x2E, 0x62, 0x2F, 0x63, 0x27])]
  cwd := ⟨.slash, []⟩

/-- A manifest that declares three packages. -/
def quotingManifest : Manifest where
  members := [("dependencies", .object [("a.b", .null), ("a", .null), ("", .null)])]

/-- The path is below `a.b`, and it mentions neither `a` nor the package without a name. -/
theorem mem_unused_iff_not_inQuotes_quoting :
    quotingManifest.members.get? "dependencies" =
        some (.object [("a.b", .null), ("a", .null), ("", .null)]) ∧
      (TextCache.empty 1).Faithful quoting ∧
      quoting.readText "/x.js" = .ok "'a.b/c'" ∧ InQuotes "a.b" "'a.b/c'" ∧
      "a.b" ∉ ((unused quoting ["a.b", "a", ""] ["/x.js", "/y.js"]).run (.ofCache (.empty 1))).1 ∧
      ((unused quoting ["a.b", "a", ""] ["/x.js", "/y.js"]).run (.ofCache (.empty 1))).1 =
        ["a", ""] := by
  have hread : quoting.readText "/x.js" = .ok "'a.b/c'" := by decide
  have hinside : InQuotes "a.b" "'a.b/c'" :=
    ⟨'\'', by decide, '\'', by decide, Or.inr ⟨['c'], by simp [quotes], [], [], by decide⟩⟩
  have hfaithful : (TextCache.empty 1).Faithful quoting := TextCache.faithful_empty quoting 1
  have hdeclared : quotingManifest.members.get? "dependencies" =
      some (.object [("a.b", .null), ("a", .null), ("", .null)]) := rfl
  obtain ⟨-, hdisk, hfound⟩ := mem_unused_iff_not_inQuotes quoting hdeclared
    ["/x.js", "/y.js"] (.ofCache (.empty 1))
  refine ⟨hdeclared, hfaithful, hread, hinside, fun hmem => ?_, hfound.trans (by decide)⟩
  exact ((hdisk hfaithful "a.b").mp hmem).2 "/x.js" (by decide) _ hread hinside

end Package
end ModuleAudit
