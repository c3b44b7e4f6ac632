import ModuleAudit.Proofs.Specifier.Captured
import ModuleAudit.Strategy

/-
Printed statements and the specifiers that the patterns find in them.

Every statement stands on a line of its own and has one pair of quotes, around its specifier.  What a
pattern captures stands between two quotes with no line break between them, so it is the specifier of
a statement.  What a pattern reads before the quotes has no semicolon in it, and every line ends in
one, so a match stays on its line.  On the line of each statement one of the patterns matches.
-/

namespace ModuleAudit
namespace Specifier

open Pattern Pattern.Script

/-- The usual statements that name a module. -/
inductive Form where
  | importDefault
  | importNamed
  | importAll
  | importBare
  | exportNamed
  | exportAll
  | importCall
  | requireDefault
  | requireNamed
  | requireCall

namespace Form

/-- What stands before the quotes. -/
def opening : Form → String
  | importDefault => "import x from "
  | importNamed => "import { x } from "
  | importAll => "import * as x from "
  | importBare => "import "
  | exportNamed => "export { x } from "
  | exportAll => "export * from "
  | importCall => "import("
  | requireDefault => "const x = require("
  | requireNamed => "const { x } = require("
  | requireCall => "require("

/-- What stands behind the quotes. -/
def closing : Form → String
  | importCall | requireDefault | requireNamed | requireCall => ");"
  | _ => ";"

end Form

structure Statement where
  form : Form
  specifier : String

def isSpecifierPart (c : Char) : Bool := c.isAlphanum || ['_', '.', '/', '@', '-'].contains c

namespace Statement

/-- The line of a statement. -/
def line (s : Statement) : String :=
  s.form.opening ++ "'" ++ s.specifier ++ "'" ++ s.form.closing ++ "\n"

/-- A specifier that is not empty and has plain characters only. -/
structure Plain (s : Statement) : Prop where
  ne_empty : s.specifier ≠ ""
  plain : ∀ c ∈ s.specifier.toList, isSpecifierPart c = true

instance (s : Statement) : Decidable s.Plain :=
  decidable_of_iff (s.specifier ≠ "" ∧ s.specifier.toList.all isSpecifierPart = true)
    ⟨fun h => ⟨h.1, List.all_eq_true.mp h.2⟩, fun h => ⟨h.ne_empty, List.all_eq_true.mpr h.plain⟩⟩

/-- The characters of the line of a statement. -/
def chars (s : Statement) : List Char :=
  s.form.opening.toList ++
    '\'' :: (s.specifier.toList ++ '\'' :: (s.form.closing.toList ++ ['\n']))

end Statement

/-- The lines of statements, one below the other. -/
def printed (statements : List Statement) : String := String.join (statements.map Statement.line)

theorem toList_printed (statements : List Statement) :
    (printed statements).toList = statements.flatMap Statement.chars := by
  rw [printed, String.toList_join, List.flatMap_map]
  refine List.flatMap_congr fun s _ => ?_
  simp [Statement.line, Statement.chars, String.toList_append]

example : printed [⟨.importNamed, "./a"⟩, ⟨.requireCall, "b"⟩] =
    "import { x } from './a';\nrequire('b');\n" := by decide

/-! ## Where the quotes and the braces stand -/

theorem append_eq_append_cons_cases {front rest as bs : List Char} {x : Char}
    (h : front ++ rest = as ++ x :: bs) :
    (∃ as', as = front ++ as' ∧ rest = as' ++ x :: bs) ∨
      ∃ bs', front = as ++ x :: bs' ∧ bs = bs' ++ rest := by
  rcases List.append_eq_append_iff.mp h with ⟨as', has, hrest⟩ | ⟨cs, hcs, hx⟩
  · exact Or.inl ⟨as', has, hrest⟩
  · rcases List.cons_eq_append_iff.mp hx with ⟨rfl, hrest⟩ | ⟨bs', rfl, hbs⟩
    · exact Or.inl ⟨[], by rw [hcs, List.append_nil, List.append_nil], hrest⟩
    · exact Or.inr ⟨bs', hcs, hbs⟩

/-- A character of a class stands behind a text that has none of the class. -/
theorem exists_eq_append {p : Char → Bool} {front rest as bs : List Char} {x : Char}
    (hfront : ∀ c ∈ front, p c = false) (hx : p x = true) (h : front ++ rest = as ++ x :: bs) :
    ∃ as', as = front ++ as' ∧ rest = as' ++ x :: bs := by
  refine (append_eq_append_cons_cases h).resolve_right ?_
  rintro ⟨bs', rfl, -⟩
  rw [hfront x (List.mem_append_right _ List.mem_cons_self)] at hx
  cases hx

theorem length_le_of_notMem {front rest as bs : List Char} {x : Char}
    (h : front ++ rest = as ++ x :: bs) (hx : x ∉ front) : front.length ≤ as.length := by
  rcases append_eq_append_cons_cases h with ⟨as', rfl, -⟩ | ⟨bs', rfl, -⟩
  · rw [List.length_append]
    exact Nat.le_add_right _ _
  · exact absurd (List.mem_append_right _ List.mem_cons_self) hx

theorem length_lt_of_notMem {front rest as bs : List Char} {x : Char}
    (h : front ++ rest = as ++ x :: bs) (hx : x ∉ rest) : as.length < front.length := by
  rcases append_eq_append_cons_cases h with ⟨as', -, rfl⟩ | ⟨bs', rfl, -⟩
  · exact absurd (List.mem_append_right _ List.mem_cons_self) hx
  · rw [List.length_append, List.length_cons]
    omega

theorem Form.exists_closing (form : Form) : ∃ inner, form.closing.toList = inner ++ [';'] :=
  ⟨form.closing.toList.dropLast, by cases form <;> decide⟩

/-- The lines end in a semicolon and a line break. -/
theorem exists_flatMap_chars (statements : List Statement) :
    statements = [] ∨ ∃ lines, statements.flatMap Statement.chars = lines ++ [';', '\n'] := by
  rcases List.eq_nil_or_concat statements with rfl | ⟨earlier, s, rfl⟩
  · exact Or.inl rfl
  · obtain ⟨inner, hinner⟩ := s.form.exists_closing
    refine Or.inr ⟨earlier.flatMap Statement.chars ++
      (s.form.opening.toList ++ '\'' :: (s.specifier.toList ++ '\'' :: inner)), ?_⟩
    simp [Statement.chars, hinner]

theorem Form.opening_unquoted (form : Form) : ∀ c ∈ form.opening.toList, isQuoteMark c = false := by
  have h : form.opening.toList.all (!isQuoteMark ·) = true := by cases form <;> decide
  simpa using h

theorem Form.closing_unquoted (form : Form) :
    ∀ c ∈ form.closing.toList ++ ['\n'], isQuoteMark c = false := by
  have h : (form.closing.toList ++ ['\n']).all (!isQuoteMark ·) = true := by cases form <;> decide
  intro c hc
  simpa using List.all_eq_true.mp h c hc

theorem Statement.Plain.ne {s : Statement} (h : s.Plain) {x : Char}
    (hx : isSpecifierPart x = false) : ∀ c ∈ s.specifier.toList, c ≠ x := by
  rintro c hc rfl
  rw [h.plain c hc] at hx
  cases hx

theorem Statement.Plain.unquoted {s : Statement} (h : s.Plain) :
    ∀ c ∈ s.specifier.toList, isQuoteMark c = false := by
  intro c hc
  have h₁ : c ≠ '\'' := h.ne (by decide) c hc
  have h₂ : c ≠ '"' := h.ne (by decide) c hc
  have h₃ : c ≠ '\x60' := h.ne (by decide) c hc
  simp [isQuoteMark, isQuote, h₁, h₂, h₃]

theorem Statement.Plain.behind_ne {s : Statement} (h : s.Plain) {x : Char}
    (hx : isSpecifierPart x = false) (hx' : x ∉ ['\'', ')', ';', '\n']) :
    ∀ c ∈ '\'' :: (s.specifier.toList ++ '\'' :: (s.form.closing.toList ++ ['\n'])),
      (c == x) = false := by
  have hclosing : s.form.closing.toList ⊆ ['\'', ')', ';', '\n'] := by cases s.form <;> decide
  intro c hc
  rw [beq_eq_false_iff_ne]
  rintro rfl
  simp only [List.mem_cons, List.mem_append, List.not_mem_nil, or_false] at hc
  rcases hc with rfl | hc | rfl | hc | rfl
  · exact hx' List.mem_cons_self
  · exact h.ne hx c hc rfl
  · exact hx' List.mem_cons_self
  · exact hx' (hclosing hc)
  · exact hx' (by decide)

/-- A text on one line between two quotes is the specifier of a statement. -/
theorem exists_statement_of_quotes {statements : List Statement} (hplain : ∀ s ∈ statements, s.Plain)
    {front body rest : List Char} {q q' : Char} (hquoted : IsQuoted q body q')
    (h : statements.flatMap Statement.chars = front ++ q :: (body ++ q' :: rest)) :
    ∃ before s after, statements = before ++ s :: after ∧
      front = before.flatMap Statement.chars ++ s.form.opening.toList ∧
      body = s.specifier.toList ∧
      rest = s.form.closing.toList ++ '\n' :: after.flatMap Statement.chars := by
  induction statements generalizing front with
  | nil => exact absurd h.symm (List.append_ne_nil_of_right_ne_nil _ (List.cons_ne_nil _ _))
  | cons s statements ih =>
    obtain ⟨hs, hplain⟩ := List.forall_mem_cons.mp hplain
    simp only [List.flatMap_cons, Statement.chars, List.append_assoc, List.cons_append] at h
    obtain ⟨front₁, rfl, h₁⟩ := exists_eq_append s.form.opening_unquoted hquoted.opens h
    rcases List.cons_eq_append_iff.mp h₁ with ⟨rfl, h₂⟩ | ⟨front₂, rfl, h₂⟩
    · -- the first quote opens the specifier of `s`
      obtain ⟨extra, rfl, h₃⟩ := exists_eq_append hs.unquoted hquoted.closes
        (List.cons.inj h₂).2.symm
      rcases List.cons_eq_append_iff.mp h₃ with ⟨rfl, h₄⟩ | ⟨extra', rfl, -⟩
      · refine ⟨[], s, statements, rfl, by simp, List.append_nil _, (List.cons.inj h₄).2⟩
      · have hno := (hquoted.plain '\'' (by simp)).1
        exact absurd hno (by decide)
    · obtain ⟨front₃, rfl, h₃⟩ := exists_eq_append hs.unquoted hquoted.opens h₂
      rcases List.cons_eq_append_iff.mp h₃ with ⟨rfl, h₄⟩ | ⟨front₄, rfl, h₄⟩
      · -- the first quote closes it, and the line ends before another one comes
        have h₅ := (List.cons.inj h₄).2.symm
        rw [← List.singleton_append, ← List.append_assoc] at h₅
        obtain ⟨extra, rfl, -⟩ := exists_eq_append s.form.closing_unquoted hquoted.closes h₅
        exact absurd rfl (hquoted.plain '\n' (by simp)).2
      · rw [← List.singleton_append, ← List.append_assoc] at h₄
        obtain ⟨front₅, rfl, h₅⟩ := exists_eq_append s.form.closing_unquoted hquoted.opens h₄
        obtain ⟨before, s', after, rfl, rfl, hspec, hrest⟩ := ih hplain h₅
        exact ⟨s :: before, s', after, rfl, by simp [Statement.chars], hspec, hrest⟩

theorem Form.prefix_of_brace {form : Form} {front rest : List Char}
    (h : form.opening.toList = front ++ '{' :: rest) : [' ', 'x', ' ', '}'] <+: rest := by
  have hall : form.opening.toList.tails.all
      (fun o => o.head? != some '{' || [' ', 'x', ' ', '}'].isPrefixOf o.tail) = true := by
    cases form <;> decide
  have hmem : '{' :: rest ∈ form.opening.toList.tails := (List.mem_tails _ _).mpr ⟨front, h.symm⟩
  simpa using List.all_eq_true.mp hall _ hmem

/-- A brace opens around a single name. -/
theorem exists_of_brace {statements : List Statement} (hplain : ∀ s ∈ statements, s.Plain)
    {front rest : List Char} (h : statements.flatMap Statement.chars = front ++ '{' :: rest) :
    ∃ rest', rest = [' ', 'x', ' ', '}'] ++ rest' := by
  induction statements generalizing front with
  | nil => exact absurd h.symm (List.append_ne_nil_of_right_ne_nil _ (List.cons_ne_nil _ _))
  | cons s statements ih =>
    obtain ⟨hs, hplain⟩ := List.forall_mem_cons.mp hplain
    rw [List.flatMap_cons, Statement.chars, List.append_assoc] at h
    rcases append_eq_append_cons_cases h with ⟨front₁, -, h₁⟩ | ⟨opened, hopened, rfl⟩
    · obtain ⟨front₂, -, h₂⟩ := exists_eq_append (hs.behind_ne (by decide) (by decide))
        (beq_self_eq_true '{') h₁
      exact ih hplain h₂
    · obtain ⟨rest', rfl⟩ := Form.prefix_of_brace hopened
      exact ⟨rest' ++ _, List.append_assoc ..⟩

theorem bracket_notMem {statements : List Statement} (hplain : ∀ s ∈ statements, s.Plain) :
    '[' ∉ statements.flatMap Statement.chars := by
  intro h
  obtain ⟨s, hs, hmem⟩ := List.mem_flatMap.mp h
  rcases List.mem_append.mp hmem with hopening | hbehind
  · revert hopening
    cases s.form <;> decide
  · have hno := (hplain s hs).behind_ne (x := '[') (by decide) (by decide) _ hbehind
    exact absurd hno (by decide)

/-! ## What the patterns read -/

/-- A bracketed reading has none of `ch`, if in the text no bracket opens around one. -/
theorem clear_bracketed {text : List Char} {opening closing ch : Char}
    (h : ∀ front rest, text = front ++ opening :: rest →
      ∃ inside rest', rest = inside ++ closing :: rest' ∧ ch ∉ inside)
    (hopening : ch ≠ opening) (hclosing : ch ≠ closing) :
    Throughout text (bracketed opening closing) (Clear ch) := by
  rintro front before _ after _ htext ⟨_, _, _, _, rfl, ⟨rfl, rfl⟩, hrest, rfl⟩
  obtain ⟨read, _, _, _, rfl, ⟨⟨-, hread⟩, rfl⟩, hrest, rfl⟩ := hrest
  obtain ⟨_, _, _, _, rfl, ⟨rfl, rfl⟩, ⟨rfl, rfl⟩, rfl⟩ := hrest
  obtain ⟨inside, rest', hrest, hinside⟩ := h front (read ++ closing :: after) (by simp [htext])
  -- what was read ends at the first closing bracket
  obtain ⟨inside', rfl, -⟩ := exists_eq_append (p := (· == closing))
    (fun c hc => by simpa using hread c hc) (beq_self_eq_true closing) hrest
  refine ⟨?_, rfl⟩
  simp only [List.mem_append, not_or] at hinside
  simp [hopening, hclosing, hinside.1]

section Patterns

variable {statements : List Statement} (hplain : ∀ s ∈ statements, s.Plain)
include hplain

theorem clear_braced :
    Throughout (statements.flatMap Statement.chars) (bracketed '{' '}') (Clear ';') := by
  refine clear_bracketed (fun front rest htext => ?_) (by decide) (by decide)
  obtain ⟨rest', rfl⟩ := exists_of_brace hplain htext
  exact ⟨[' ', 'x', ' '], rest', rfl, by decide⟩

theorem clear_listed :
    Throughout (statements.flatMap Statement.chars) (bracketed '[' ']') (Clear ';') := by
  refine clear_bracketed (fun front rest htext => ?_) (by decide) (by decide)
  exact absurd (htext ▸ List.mem_append_right _ List.mem_cons_self) (bracket_notMem hplain)

/-- Of the parts before the quotes only a bracketed one can read a semicolon, and it does not do so in
the lines of statements. -/
theorem quoting_of_mem_patterns {p : Pattern} (hp : p ∈ Textual.patterns) :
    Throughout (statements.flatMap Statement.chars) p (Quoting (· ≠ ';')) := by
  have hP : ∀ c : Char, c ≠ ';' → c ≠ ';' := fun _ h => h
  have hquoted : ∀ {text}, Throughout text (all [Textual.quotedSpecifier]) (Quoting (· ≠ ';')) :=
    quoting_last hP quoting_quotedSpecifier
  have hsource : ∀ {text},
      Throughout text (all [source, Textual.quotedSpecifier]) (Quoting (· ≠ ';')) :=
    quoting_skip hP (by decide) hquoted
  have hcalled : ∀ {text},
      Throughout text (all [called Textual.quotedSpecifier]) (Quoting (· ≠ ';')) :=
    quoting_last hP (quoting_called hP quoting_quotedSpecifier)
  simp only [Textual.patterns, List.mem_cons, List.not_mem_nil, or_false] at hp
  rcases hp with rfl | rfl | rfl | rfl | rfl | rfl
  · exact quoting_skip hP (by decide) <|
      quoting_skip hP (by decide) <|
      quoting_skip hP (by decide) <|
      quoting_skip hP (by decide) hsource
  · exact quoting_skip hP (by decide) <|
      quoting_skip hP (by decide) hquoted
  · exact quoting_skip hP (by decide) <|
      quoting_skip hP (by decide) <|
      quoting_skip hP (by decide) <|
      quoting_clear hP (.choice (Throughout.of_skips (by decide)) (clear_braced hplain)) hsource
  · exact quoting_skip hP (by decide) <|
      quoting_last hP (quoting_called hP quoting_anyQuotedSpecifier)
  · have hnames := Throughout.choice (Throughout.of_skips (by decide : name.skips ';' = true))
      ((clear_braced hplain).choice (clear_listed hplain))
    exact quoting_skip hP (by decide) <|
      quoting_skip hP (by decide) <|
      quoting_skip hP (by decide) <|
      quoting_clear hP hnames <|
      quoting_skip hP (by decide) <|
      quoting_skip hP (by decide) <|
      quoting_skip hP (by decide) <|
      quoting_skip hP (by decide) hcalled
  · exact quoting_skip hP (by decide) hcalled

/-- A match of a pattern captures the specifier of a statement, and stays on its line; it may begin
with the line break before. -/
theorem exists_statement_of_reads {p : Pattern} (hp : p ∈ Textual.patterns)
    {front word after : List Char} {before : Option Char} {caught : Option (List Char)}
    (htext : statements.flatMap Statement.chars = front ++ (word ++ after))
    (hreads : p.Reads before word after caught) :
    ∃ earlier s later, statements = earlier ++ s :: later ∧ caught = some s.specifier.toList ∧
      (earlier.flatMap Statement.chars).length ≤ front.length + 1 ∧ 0 < word.length ∧
      front.length + word.length < (earlier.flatMap Statement.chars).length + s.chars.length := by
  obtain ⟨lead, q, body, q', trail, rfl, rfl, hquoted, hlead, htrail⟩ :=
    quoting_of_mem_patterns hplain hp front before word after caught htext hreads
  have hquotes : statements.flatMap Statement.chars =
      (front ++ lead) ++ q :: (body ++ q' :: (trail ++ after)) := by simp [htext]
  obtain ⟨earlier, s, later, hstatements, hfront, rfl, hrest⟩ :=
    exists_statement_of_quotes hplain hquoted hquotes
  obtain ⟨inner, hinner⟩ := s.form.exists_closing
  have hlength := congrArg List.length hfront
  have htrail' : trail.length ≤ inner.length := by
    rw [hinner, List.append_assoc, List.singleton_append] at hrest
    exact length_le_of_notMem hrest fun h => htrail _ h rfl
  have hlead' : (earlier.flatMap Statement.chars).length ≤ front.length + 1 := by
    rcases exists_flatMap_chars earlier with rfl | ⟨lines, hlines⟩
    · exact Nat.zero_le _
    · rw [hlines, List.append_assoc, List.cons_append] at hfront
      have hlt := length_lt_of_notMem hfront fun h => hlead _ h rfl
      rw [hlines, List.length_append]
      exact Nat.succ_le_succ hlt
  refine ⟨earlier, s, later, hstatements, rfl, hlead', ?_, ?_⟩
  · simp only [List.length_append, List.length_cons]
    omega
  · simp only [Statement.chars, hinner, List.length_append, List.length_cons, List.length_nil]
      at hlength ⊢
    omega

end Patterns

/-! ## Where the patterns match -/

/-- The specifier in its quotes. -/
def Statement.quoted (s : Statement) : List Char := '\'' :: (s.specifier.toList ++ ['\''])

theorem Statement.chars_eq (s : Statement) :
    s.chars = s.form.opening.toList ++ (s.quoted ++ (s.form.closing.toList ++ ['\n'])) := by
  simp [chars, quoted]

theorem Statement.Plain.reads_quoted {s : Statement} (hs : s.Plain) {isMark isBody : Char → Bool}
    (hmark : isMark '\'' = true)
    (hbody : ∀ c, isQuoteMark c = false → c ≠ '\n' → isBody c = true)
    (before : Option Char) (after : List Char) :
    (all [one isMark, capture (most 1 isBody), one isMark]).Reads before s.quoted after
      (some s.specifier.toList) := by
  refine reads_quoted_iff.mpr ⟨'\'', s.specifier.toList, '\'', rfl, rfl, hmark, hmark, ?_, ?_⟩
  · exact fun h => hs.ne_empty (String.toList_eq_nil_iff.mp h)
  · exact fun c hc => hbody c (hs.unquoted c hc) (hs.ne (by decide) c hc)

theorem Statement.Plain.reads_quotedSpecifier {s : Statement} (hs : s.Plain) :
    ∀ before after,
      Textual.quotedSpecifier.Reads before s.quoted after (some s.specifier.toList) := by
  refine hs.reads_quoted rfl fun c hquote hbreak => ?_
  rw [(Bool.or_eq_false_iff.mp hquote).1, bne_iff_ne.mpr hbreak]
  rfl

theorem Statement.Plain.reads_anyQuotedSpecifier {s : Statement} (hs : s.Plain) :
    ∀ before after,
      Textual.anyQuotedSpecifier.Reads before s.quoted after (some s.specifier.toList) := by
  refine hs.reads_quoted rfl fun c hquote hbreak => ?_
  rw [bne_iff_ne.mpr hbreak, Bool.and_true, Bool.not_eq_true']
  exact hquote

section Matching

variable {p : Pattern} {word body : List Char}
  (hp : ∀ before after, p.Reads before word after (some body))
include hp

theorem reads_between {parts rest : List Pattern} {lead trail : List Char}
    (hlead : (all parts).spells lead = true) (htrail : (all rest).spells trail = true)
    (before : Option Char) (after : List Char) :
    (all (parts ++ p :: rest)).Reads before (lead ++ (word ++ trail)) after (some body) :=
  reads_all_append (reads_of_spells hlead _ _)
    ⟨word, trail, some body, none, rfl, hp _ _, reads_of_spells htrail _ _, rfl⟩

theorem reads_single (before : Option Char) (after : List Char) :
    (all [p]).Reads before word after (some body) :=
  ⟨word, [], some body, none, (List.append_nil word).symm, hp _ _, ⟨rfl, rfl⟩, rfl⟩

theorem reads_called (before : Option Char) (after : List Char) :
    (called p).Reads before ('(' :: (word ++ [')'])) after (some body) := by
  have hlead : (all [blanks, literal ['('], blanks]).spells ['('] = true := by decide
  have htrail : (all [blanks, literal [')']]).spells [')'] = true := by decide
  exact reads_between hp hlead htrail before after

/-- A word that stands behind no other one. -/
theorem reads_word {w : String} (hw : w.toList.head?.any Text.isWord = true) {before : Option Char}
    (hbefore : before.any Text.isWord = false) (after : List Char) :
    (Pattern.sequence (Script.word w) p).Reads before (w.toList ++ word) after (some body) := by
  refine ⟨w.toList, word, none, some body, rfl, ?_, hp _ _, rfl⟩
  refine ⟨[], w.toList, none, none, rfl, ⟨⟨rfl, rfl⟩, ?_⟩, ⟨rfl, rfl⟩, rfl⟩
  have hhead : (w.toList ++ (word ++ after)).head?.any Text.isWord = true := by
    cases hchars : w.toList with
    | nil => rw [hchars] at hw; cases hw
    | cons c cs => rw [hchars] at hw; exact hw
  rw [hbefore, hhead]
  exact Bool.false_ne_true

end Matching

/-- A pattern matches on the line of the statement and captures its specifier, where the line stands
between `before` and `after`. -/
def Statement.Matched (s : Statement) (before : Option Char) (after : List Char) : Prop :=
  ∃ p ∈ Textual.patterns, ∃ front word trail, s.chars = front ++ (word ++ trail) ∧ word ≠ [] ∧
    trail ≠ [] ∧ p.Reads (front.getLast?.or before) word (trail ++ after) (some s.specifier.toList)

section Matched

variable {form : Form} {specifier : String} {p : Pattern} {w : String} (front : List Char)
  {lead : List Char} (hp : Pattern.sequence (Script.word w) p ∈ Textual.patterns)
  (hopening : form.opening.toList = front ++ (w.toList ++ lead))
  (hw : w.toList.head?.any Text.isWord = true) {before : Option Char}
  (hbefore : (front.getLast?.or before).any Text.isWord = false) (after : List Char)
include hp hopening hw hbefore

/-- The pattern reads a keyword, then `lead`, the quoted specifier and `trail`. -/
theorem matched_of_word {trail : List Char} (htrail : trail <+: form.closing.toList)
    (hreads : ∀ before after, p.Reads before
      (lead ++ (Statement.quoted ⟨form, specifier⟩ ++ trail)) after (some specifier.toList)) :
    Statement.Matched ⟨form, specifier⟩ before after := by
  obtain ⟨trail', hclosing⟩ := htrail
  refine ⟨_, hp, front, _, trail' ++ ['\n'], ?_, ?_, ?_, reads_word hreads hw hbefore _⟩
  · rw [Statement.chars_eq, hopening, ← hclosing]
    simp
  · simp [Statement.quoted]
  · exact List.append_ne_nil_of_right_ne_nil _ (List.cons_ne_nil _ _)

theorem matched_of_named (hs : Statement.Plain ⟨form, specifier⟩) {parts : List Pattern}
    (hparts : p = all (parts ++ [Textual.quotedSpecifier]))
    (hlead : (all parts).spells lead = true) : Statement.Matched ⟨form, specifier⟩ before after := by
  subst hparts
  exact matched_of_word front hp hopening hw hbefore after List.nil_prefix
    (reads_between hs.reads_quotedSpecifier hlead rfl)

theorem matched_of_called {q : Pattern} (hq : p = all [called q]) (hlead : lead = ['('])
    (hclosing : [')'] <+: form.closing.toList)
    (hreads : ∀ before after,
      q.Reads before (Statement.quoted ⟨form, specifier⟩) after (some specifier.toList)) :
    Statement.Matched ⟨form, specifier⟩ before after := by
  subst hq hlead
  exact matched_of_word front hp hopening hw hbefore after hclosing
    (reads_single (reads_called hreads))

end Matched

theorem Statement.Plain.matched {s : Statement} (hs : s.Plain) {before : Option Char}
    (hbefore : before.any Text.isWord = false) (after : List Char) : s.Matched before after := by
  have hfrom : Textual.importFrom ∈ Textual.patterns := by simp [Textual.patterns]
  have hbare : Textual.importBare ∈ Textual.patterns := by simp [Textual.patterns]
  have hexport : Textual.exportFrom ∈ Textual.patterns := by simp [Textual.patterns]
  have himport : Textual.importCall ∈ Textual.patterns := by simp [Textual.patterns]
  have hrequire : Textual.requireCall ∈ Textual.patterns := by simp [Textual.patterns]
  have hquoted := hs.reads_quotedSpecifier
  have hany := hs.reads_anyQuotedSpecifier
  obtain ⟨form, specifier⟩ := s
  cases form with
  | importDefault =>
    have hlead : (all [gap, Textual.typeMark, fewest 1 isClausePart, source]).spells
      " x from ".toList = true := by decide
    exact matched_of_named [] hfrom (by decide) rfl hbefore after hs rfl hlead
  | importNamed =>
    have hlead : (all [gap, Textual.typeMark, fewest 1 isClausePart, source]).spells
      " { x } from ".toList = true := by decide
    exact matched_of_named [] hfrom (by decide) rfl hbefore after hs rfl hlead
  | importAll =>
    have hlead : (all [gap, Textual.typeMark, fewest 1 isClausePart, source]).spells
      " * as x from ".toList = true := by decide
    exact matched_of_named [] hfrom (by decide) rfl hbefore after hs rfl hlead
  | importBare =>
    have hlead : (all [blanks]).spells [' '] = true := by decide
    exact matched_of_named [] hbare (by decide) rfl hbefore after hs rfl hlead
  | exportNamed =>
    have hlead : (all [gap, Textual.typeMark, choice Textual.everything (bracketed '{' '}'),
      source]).spells " { x } from ".toList = true := by decide
    exact matched_of_named [] hexport (by decide) rfl hbefore after hs rfl hlead
  | exportAll =>
    have hlead : (all [gap, Textual.typeMark, choice Textual.everything (bracketed '{' '}'),
      source]).spells " * from ".toList = true := by decide
    exact matched_of_named [] hexport (by decide) rfl hbefore after hs rfl hlead
  | importCall =>
    exact matched_of_called [] himport (by decide) rfl hbefore after rfl rfl (by decide) hany
  | requireDefault =>
    exact matched_of_called "const x = ".toList hrequire (by decide) rfl (by rfl) after rfl rfl
      (by decide) hquoted
  | requireNamed =>
    exact matched_of_called "const { x } = ".toList hrequire (by decide) rfl (by rfl) after rfl rfl
      (by decide) hquoted
  | requireCall =>
    exact matched_of_called [] hrequire (by decide) rfl hbefore after rfl rfl (by decide) hquoted

/-! ## The specifiers of printed statements -/

theorem eq_of_overlap {earlier later earlier' later' : List Statement} {s s' : Statement}
    (h : earlier ++ s :: later = earlier' ++ s' :: later')
    (hlt : (earlier'.flatMap Statement.chars).length <
      (earlier.flatMap Statement.chars).length + s.chars.length)
    (hlt' : (earlier.flatMap Statement.chars).length <
      (earlier'.flatMap Statement.chars).length + s'.chars.length) : s = s' := by
  rcases List.append_eq_append_iff.mp h with ⟨between, rfl, hs⟩ | ⟨between, rfl, hs⟩
  · rcases List.cons_eq_append_iff.mp hs with ⟨-, hs⟩ | ⟨between', rfl, -⟩
    · exact (List.cons.inj hs).1.symm
    · simp only [List.flatMap_append, List.flatMap_cons, List.length_append] at hlt
      omega
  · rcases List.cons_eq_append_iff.mp hs with ⟨-, hs⟩ | ⟨between', rfl, -⟩
    · exact (List.cons.inj hs).1
    · simp only [List.flatMap_append, List.flatMap_cons, List.length_append] at hlt'
      omega

theorem not_isWord_before (statements : List Statement) :
    (statements.flatMap Statement.chars).getLast?.any Text.isWord = false := by
  rcases exists_flatMap_chars statements with rfl | ⟨lines, hlines⟩
  · rfl
  · rw [hlines, List.getLast?_append]
    rfl

/-- A pattern captures the specifier of every statement. -/
theorem exists_captured {statements : List Statement} (hplain : ∀ s ∈ statements, s.Plain)
    {s : Statement} (hs : s ∈ statements) :
    ∃ p ∈ Textual.patterns, ∃ found ∈ p.allMatches (statements.flatMap Statement.chars),
      found.captured = s.specifier.toList := by
  obtain ⟨earlier, later, rfl⟩ := List.append_of_mem hs
  obtain ⟨p, hp, front, word, trail, hchars, hword, htrail, hreads⟩ :=
    (hplain s hs).matched (not_isWord_before earlier) (later.flatMap Statement.chars)
  have htext : (earlier ++ s :: later).flatMap Statement.chars =
      (earlier.flatMap Statement.chars ++ front) ++
        (word ++ (trail ++ later.flatMap Statement.chars)) := by
    simp [hchars]
  rw [← List.getLast?_append] at hreads
  obtain ⟨found, hfound, hplace⟩ := exists_mem_allMatches hword hreads
  rw [← htext] at hfound
  refine ⟨p, hp, found, hfound, ?_⟩
  -- the match that was found stays on a line, and that shares a place with the line of `s`
  obtain ⟨front', word', after', caught, htext', hreads', rfl⟩ := of_mem_allMatches hfound
  obtain ⟨earlier', s', later', hstatements, rfl, hbegin, hpos, hend⟩ :=
    exists_statement_of_reads hplain hp htext' hreads'
  have hlength := congrArg List.length hchars
  have hword' := List.length_pos_of_ne_nil hword
  have htrail' := List.length_pos_of_ne_nil htrail
  simp only [List.length_append] at hlength hplace
  rw [eq_of_overlap hstatements (by omega) (by omega)]
  rfl

theorem mem_extract_printed {statements : List Statement} (hplain : ∀ s ∈ statements, s.Plain)
    {t : String} :
    t ∈ Textual.extract (printed statements) ↔ ∃ s ∈ statements, s.specifier = t := by
  rw [Textual.extract, toList_printed]
  simp only [List.mem_flatMap, List.mem_map]
  constructor
  · rintro ⟨p, hp, found, hfound, rfl⟩
    obtain ⟨front, word, after, caught, htext, hreads, rfl⟩ := of_mem_allMatches hfound
    obtain ⟨earlier, s, later, rfl, rfl, -⟩ := exists_statement_of_reads hplain hp htext hreads
    exact ⟨s, List.mem_append_right _ List.mem_cons_self, String.ofList_toList.symm⟩
  · rintro ⟨s, hs, rfl⟩
    obtain ⟨p, hp, found, hfound, hcaptured⟩ := exists_captured hplain hs
    exact ⟨p, hp, found, hfound, by rw [hcaptured, String.ofList_toList]⟩

/-- From printed statements the textual strategy gets exactly their specifiers, whatever file they
stand in. -/
theorem textual_extract_printed {statements : List Statement}
    (hplain : ∀ s ∈ statements, s.Plain) (path : String) :
    ∃ specifiers, Strategy.textual.extract (printed statements) path = (.ok specifiers, []) ∧
      ∀ t, t ∈ specifiers ↔ ∃ s ∈ statements, s.specifier = t :=
  ⟨Textual.extract (printed statements), rfl, fun _ => mem_extract_printed hplain⟩

/-- Statements whose specifiers look like statements. -/
def lookalikes : List Statement :=
  [⟨.importBare, "import"⟩, ⟨.requireNamed, "./require/from"⟩, ⟨.importAll, "from"⟩,
    ⟨.importCall, "@import/export.x"⟩, ⟨.importBare, "import"⟩, ⟨.exportNamed, "const-x"⟩]

theorem textual_extract_printed_lookalikes :
    (∀ s ∈ lookalikes, s.Plain) ∧
      ∃ specifiers, Strategy.textual.extract (printed lookalikes) "/src/a.js" = (.ok specifiers, []) ∧
        ∀ t, t ∈ specifiers ↔ ∃ s ∈ lookalikes, s.specifier = t :=
  ⟨by decide, textual_extract_printed (by decide) "/src/a.js"⟩

end Specifier
end ModuleAudit
