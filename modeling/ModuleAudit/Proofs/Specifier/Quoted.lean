import ModuleAudit.Proofs.Specifier.Captured
import ModuleAudit.Strategy

/-
What the patterns capture stands in the text, in quotes and behind a keyword.

Every pattern reads a keyword, something in between and a quoted text, and captures what is in the
quotes.  Where the parts stand follows from the way a pattern is put together: `Captures` says it of
the quoted part and those around it, and `NamesModule` of the keyword before them.  Nothing is assumed
of the text, which may have quotes, braces and keywords in any order.
-/

namespace ModuleAudit

namespace Text

/-- The code points of the blank characters. -/
def blankCodes : List Nat :=
  List.range' 0x09 5 ++ List.range' 0x1C 5 ++ [0x85, 0xA0, 0x1680] ++ List.range' 0x2000 11 ++
    [0x2028, 0x2029, 0x202F, 0x205F, 0x3000]

theorem mem_blankCodes {c : Char} (h : isBlank c = true) : c.toNat ∈ blankCodes := by
  simp only [isBlank, Bool.or_eq_true, Bool.and_eq_true, decide_eq_true_iff, beq_iff_eq] at h
  simp only [blankCodes, List.mem_append, List.mem_range'_1, List.mem_cons, List.not_mem_nil,
    or_false]
  omega

set_option maxRecDepth 8000 in
theorem not_isWord_blankCodes : blankCodes.all (fun n => !isWord (Char.ofNat n)) = true := by
  decide

theorem not_isWord_of_isBlank {c : Char} (h : isBlank c = true) : isWord c = false := by
  have hcode := List.all_eq_true.mp not_isWord_blankCodes _ (mem_blankCodes h)
  rwa [Char.ofNat_toNat, Bool.not_eq_true'] at hcode

end Text

namespace Specifier

open Pattern Pattern.Script

/-- The words that announce a specifier. -/
def keywords : List String := ["import", "export", "require"]

/-- The word stands in the text, with no word character next to it. -/
def HasWord (w : String) (text : List Char) : Prop :=
  ∃ front rest, text = front ++ (w.toList ++ rest) ∧ front.getLast?.any Text.isWord = false ∧
    rest.head?.any Text.isWord = false

theorem isQuoteMark_iff {c : Char} : isQuoteMark c = true ↔ c ∈ ['\'', '"', '\x60'] := by
  simp [isQuoteMark, isQuote, or_assoc]

theorem IsQuoted.notMem_of_isQuote {q q' : Char} {body : List Char} (h : IsQuoted q body q') {c : Char}
    (hc : isQuote c = true) : c ∉ body := by
  intro hmem
  rw [(h.plain c hmem).1] at hc
  cases hc

/-- Whatever stands in the text, what `p` reads has a quoted text in it, and that is what it captures. -/
def Captures (p : Pattern) : Prop := ∀ text, Throughout text p (Quoting fun _ => True)

theorem Captures.behind {r : Pattern} (hr : Captures r) (p : Pattern) : Captures (.sequence p r) :=
  fun text => quoting_behind (fun _ _ _ _ _ _ _ _ _ => trivial) (hr text)

/-! ## Behind a keyword -/

/-- What `p` reads starts with a character that is no part of a word. -/
def StartsApart (p : Pattern) : Prop :=
  ∀ before word after caught, p.Reads before word after caught →
    ∃ c rest, word = c :: rest ∧ Text.isWord c = false

theorem StartsApart.first {p : Pattern} (hp : StartsApart p) (r : Pattern) :
    StartsApart (.sequence p r) := by
  rintro before _ after _ ⟨word₁, word₂, caught₁, caught₂, rfl, hfirst, -, rfl⟩
  obtain ⟨c, rest, rfl, hc⟩ := hp _ _ _ _ hfirst
  exact ⟨c, rest ++ word₂, rfl, hc⟩

theorem startsApart_gap : StartsApart gap := by
  rintro before word after _ ⟨⟨hlength, hblank⟩, -⟩
  obtain ⟨c, rest, rfl⟩ := List.exists_cons_of_length_pos hlength
  exact ⟨c, rest, rfl, Text.not_isWord_of_isBlank (hblank c List.mem_cons_self)⟩

theorem StartsApart.behind_blanks {p : Pattern} (hp : StartsApart p) :
    StartsApart (.sequence blanks p) := by
  rintro before _ after _ ⟨word₁, word₂, caught₁, caught₂, rfl, ⟨⟨-, hblank⟩, -⟩, hsecond, rfl⟩
  cases word₁ with
  | nil => exact hp _ _ _ _ hsecond
  | cons c rest =>
    exact ⟨c, rest ++ word₂, rfl, Text.not_isWord_of_isBlank (hblank c List.mem_cons_self)⟩

theorem startsApart_quotedSpecifier : StartsApart Textual.quotedSpecifier := by
  intro before word after caught hreads
  obtain ⟨q, body, q', rfl, -, hq, -⟩ := reads_quoted_iff.mp hreads
  refine ⟨q, body ++ [q'], rfl, ?_⟩
  rcases Bool.or_eq_true_iff.mp hq with h | h
  · rw [beq_iff_eq.mp h]
    decide
  · rw [beq_iff_eq.mp h]
    decide

theorem startsApart_called (p : Pattern) : StartsApart (called p) := by
  refine StartsApart.behind_blanks ?_
  rintro before _ after _ ⟨_, word₂, caught₁, caught₂, rfl, ⟨rfl, rfl⟩, -, rfl⟩
  exact ⟨'(', word₂, rfl, by decide⟩

/-- A keyword stands in the word, apart from other words, and behind it the quoted text that was
captured.  The word is read behind the character `before`. -/
def Announces (before : Option Char) (word : List Char) (caught : Option (List Char)) : Prop :=
  ∃ front w between q body q' trail, w ∈ keywords ∧
    word = front ++ (w.toList ++ (between ++ q :: (body ++ q' :: trail))) ∧
    (front.getLast?.or before).any Text.isWord = false ∧
    between.head?.any Text.isWord = false ∧ caught = some body ∧ IsQuoted q body q'

/-- Whatever `p` reads, it captures what a keyword announces. -/
def NamesModule (p : Pattern) : Prop :=
  ∀ before word after caught, p.Reads before word after caught → Announces before word caught

theorem NamesModule.behind {r : Pattern} (hr : NamesModule r) (p : Pattern) :
    NamesModule (.sequence p r) := by
  rintro before _ after _ ⟨word₁, word₂, caught₁, caught₂, rfl, -, hsecond, rfl⟩
  obtain ⟨front, w, between, q, body, q', trail, hw, rfl, hfront, hbetween, rfl, hquoted⟩ :=
    hr _ _ _ _ hsecond
  refine ⟨word₁ ++ front, w, between, q, body, q', trail, hw, by simp, ?_, hbetween, rfl, hquoted⟩
  rwa [List.getLast?_append, Option.or_assoc]

section Keyword

variable {rest : Pattern} (hrest : Captures rest) (hapart : StartsApart rest)
include hrest hapart

theorem announces_of_reads {w : String} (hw : w ∈ keywords) {front word after : List Char}
    {before behind : Option Char} {caught : Option (List Char)}
    (hfront : (front.getLast?.or before).any Text.isWord = false)
    (hreads : rest.Reads behind word after caught) :
    Announces before (front ++ (w.toList ++ word)) caught := by
  obtain ⟨between, q, body, q', trail, rfl, rfl, hquoted, -⟩ :=
    hrest (word ++ after) [] behind word after caught rfl hreads
  refine ⟨front, w, between, q, body, q', trail, hw, rfl, hfront, ?_, rfl, hquoted⟩
  obtain ⟨c, rest', hhead, hc⟩ := hapart _ _ _ _ hreads
  cases between with
  | nil => rfl
  | cons b between =>
    rw [(List.cons.inj hhead).1]
    exact hc

theorem namesModule_word {w : String} (hw : w ∈ keywords) :
    NamesModule (.sequence (word w) rest) := by
  rintro before _ after _ ⟨_, word₂, _, caught₂, rfl, hword, hsecond, rfl⟩
  obtain ⟨_, _, _, _, rfl, ⟨⟨rfl, rfl⟩, hboundary⟩, ⟨rfl, rfl⟩, rfl⟩ := hword
  -- a keyword starts with a word character, so at its boundary there is none before it
  have hhead : (w.toList ++ (word₂ ++ after)).head?.any Text.isWord = true := by
    simp only [keywords, List.mem_cons, List.not_mem_nil, or_false] at hw
    rcases hw with rfl | rfl | rfl <;> rfl
  rw [hhead, Ne, Bool.not_eq_true] at hboundary
  have hfront : (([] : List Char).getLast?.or before).any Text.isWord = false := hboundary
  simpa using announces_of_reads hrest hapart hw hfront hsecond

/-- Between the equals sign and the keyword behind it there are only blanks. -/
theorem namesModule_assigned {w : String} (hw : w ∈ keywords) :
    NamesModule (.sequence (literal ['=']) (.sequence blanks (.sequence (text w) rest))) := by
  rintro before _ after _ ⟨_, _, _, _, rfl, ⟨rfl, rfl⟩, hsecond, rfl⟩
  obtain ⟨between, _, _, _, rfl, ⟨⟨-, hblank⟩, rfl⟩, hthird, rfl⟩ := hsecond
  obtain ⟨_, word₂, _, caught₂, rfl, ⟨rfl, rfl⟩, hreads, rfl⟩ := hthird
  have hfront : ((['='] ++ between).getLast?.or before).any Text.isWord = false := by
    rcases List.eq_nil_or_concat between with rfl | ⟨init, c, rfl⟩
    · rfl
    · rw [List.concat_eq_append, ← List.append_assoc, List.getLast?_concat]
      exact Text.not_isWord_of_isBlank (hblank c (by simp))
  simpa using announces_of_reads hrest hapart hw hfront hreads

end Keyword

theorem namesModule_of_mem_patterns {p : Pattern} (hp : p ∈ Textual.patterns) : NamesModule p := by
  have hP : ∀ c : Char, c ≠ ';' → True := fun _ _ => trivial
  have hquoted : Captures (all [Textual.quotedSpecifier]) := fun _ =>
    quoting_last hP quoting_quotedSpecifier
  have hcalled : Captures (all [called Textual.quotedSpecifier]) := fun _ =>
    quoting_last hP (quoting_called hP quoting_quotedSpecifier)
  have hcalled' : Captures (all [called Textual.anyQuotedSpecifier]) := fun _ =>
    quoting_last hP (quoting_called hP quoting_anyQuotedSpecifier)
  have hparen : ∀ inner, StartsApart (all [called inner]) := fun inner =>
    (startsApart_called inner).first _
  simp only [Textual.patterns, List.mem_cons, List.not_mem_nil, or_false] at hp
  rcases hp with rfl | rfl | rfl | rfl | rfl | rfl
  · exact namesModule_word ((((hquoted.behind _).behind _).behind _).behind _)
      (startsApart_gap.first _) (by decide)
  · exact namesModule_word (hquoted.behind _)
      (startsApart_quotedSpecifier.first _).behind_blanks (by decide)
  · exact namesModule_word ((((hquoted.behind _).behind _).behind _).behind _)
      (startsApart_gap.first _) (by decide)
  · exact namesModule_word hcalled' (hparen _) (by decide)
  · have hassigned := namesModule_assigned hcalled (hparen _) (by decide : "require" ∈ keywords)
    exact ((((hassigned.behind _).behind _).behind _).behind _).behind _
  · exact namesModule_word hcalled (hparen _) (by decide)

/-- The search reports nothing that does not stand in the text, in quotes and behind a keyword. -/
theorem textual_extract_quoted (content path : String) :
    ∃ specifiers, Strategy.textual.extract content path = (.ok specifiers, []) ∧
      ∀ s ∈ specifiers, s ≠ "" ∧ '\'' ∉ s.toList ∧ '"' ∉ s.toList ∧ '\n' ∉ s.toList ∧
        ∃ front q q' rest, content.toList = front ++ q :: (s.toList ++ q' :: rest) ∧
          q ∈ ['\'', '"', '\x60'] ∧ q' ∈ ['\'', '"', '\x60'] ∧ ∃ w ∈ keywords, HasWord w front := by
  refine ⟨Textual.extract content, rfl, fun s hs => ?_⟩
  obtain ⟨p, hp, hs⟩ := List.mem_flatMap.mp hs
  obtain ⟨found, hfound, rfl⟩ := List.mem_map.mp hs
  obtain ⟨front, word, after, caught, htext, hreads, rfl⟩ := of_mem_allMatches hfound
  obtain ⟨front', w, between, q, body, q', trail, hw, rfl, hfront, hbetween, rfl, hquoted⟩ :=
    namesModule_of_mem_patterns hp _ _ _ _ hreads
  rw [Option.getD_some, String.toList_ofList, Ne, String.ofList_eq_empty_iff]
  refine ⟨hquoted.ne_nil, hquoted.notMem_of_isQuote rfl, hquoted.notMem_of_isQuote rfl,
    fun h => (hquoted.plain _ h).2 rfl, front ++ (front' ++ (w.toList ++ between)), q, q',
    trail ++ after, by simp [htext], isQuoteMark_iff.mp hquoted.opens,
    isQuoteMark_iff.mp hquoted.closes, w, hw, front ++ front', between, by simp, ?_, hbetween⟩
  rwa [List.getLast?_append]

example : Textual.extract "import(\x60a\x60), reimport('b')" = ["a"] := by decide

end Specifier
end ModuleAudit
