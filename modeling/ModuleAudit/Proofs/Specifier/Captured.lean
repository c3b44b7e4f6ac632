import ModuleAudit.Proofs.Pattern.Words
import ModuleAudit.Specifier.Textual

/-
What the patterns for specifiers capture stands in quotes.

Every pattern ends in a quoted text, with blanks and a parenthesis behind it at most.  `Quoting P` says
of a reading that a quoted text was captured, and that the characters around it have the property `P`.
It is carried from the quoted part through the parts before and behind it.  Only bracketed parts can
read a semicolon, so `P` is asked of the other characters alone.
-/

namespace ModuleAudit
namespace Specifier

open Pattern Pattern.Script

/-- A quote of any kind. -/
def isQuoteMark (c : Char) : Bool := isQuote c || c == '\x60'

/-- A text between two quotes that could be a specifier: not empty, on one line, and without a quote. -/
structure IsQuoted (q : Char) (body : List Char) (q' : Char) : Prop where
  opens : isQuoteMark q = true
  closes : isQuoteMark q' = true
  ne_nil : body ≠ []
  plain : ∀ c ∈ body, isQuote c = false ∧ c ≠ '\n'

/-- The word has a quoted text in it, which was captured, and only characters with `P` around that. -/
def Quoting (P : Char → Prop) (word : List Char) (caught : Option (List Char)) : Prop :=
  ∃ lead q body q' trail, word = lead ++ q :: (body ++ q' :: trail) ∧ caught = some body ∧
    IsQuoted q body q' ∧ (∀ c ∈ lead, P c) ∧ ∀ c ∈ trail, P c

theorem reads_quoted_iff {isMark isBody : Char → Bool} {before : Option Char}
    {word after : List Char} {caught : Option (List Char)} :
    (all [one isMark, capture (most 1 isBody), one isMark]).Reads before word after caught ↔
      ∃ q body q', word = q :: (body ++ [q']) ∧ caught = some body ∧ isMark q = true ∧
        isMark q' = true ∧ body ≠ [] ∧ ∀ c ∈ body, isBody c = true := by
  constructor
  · rintro ⟨_, _, _, _, rfl, ⟨⟨q, rfl, hq⟩, rfl⟩, hrest, rfl⟩
    obtain ⟨body, _, _, _, rfl, ⟨⟨_, ⟨hlength, hbody⟩, -⟩, rfl⟩, hrest, rfl⟩ := hrest
    obtain ⟨_, _, _, _, rfl, ⟨⟨q', rfl, hq'⟩, rfl⟩, ⟨rfl, rfl⟩, rfl⟩ := hrest
    exact ⟨q, body, q', rfl, rfl, hq, hq', List.ne_nil_of_length_pos hlength, hbody⟩
  · rintro ⟨q, body, q', rfl, rfl, hq, hq', hne, hbody⟩
    refine ⟨[q], body ++ [q'], none, some body, rfl, ⟨⟨q, rfl, hq⟩, rfl⟩, ?_, rfl⟩
    refine ⟨body, [q'], some body, none, rfl, ⟨⟨none, ⟨?_, hbody⟩, rfl⟩, rfl⟩, ?_, rfl⟩
    · exact List.length_pos_of_ne_nil hne
    · exact ⟨[q'], [], none, none, rfl, ⟨⟨q', rfl, hq'⟩, rfl⟩, ⟨rfl, rfl⟩, rfl⟩

section

variable {P : Char → Prop} {text : List Char} {p r : Pattern}

theorem quoting_of_reads_quoted {isMark isBody : Char → Bool}
    (hmark : ∀ c, isMark c = true → isQuoteMark c = true)
    (hbody : ∀ c, isBody c = true → isQuote c = false ∧ c ≠ '\n') :
    Throughout text (all [one isMark, capture (most 1 isBody), one isMark]) (Quoting P) := by
  intro _ _ _ _ _ _ hreads
  obtain ⟨q, body, q', rfl, rfl, hq, hq', hne, hall⟩ := reads_quoted_iff.mp hreads
  exact ⟨[], q, body, q', [], rfl, rfl,
    ⟨hmark q hq, hmark q' hq', hne, fun c hc => hbody c (hall c hc)⟩,
    fun c hc => absurd hc List.not_mem_nil, fun c hc => absurd hc List.not_mem_nil⟩

theorem quoting_quotedSpecifier : Throughout text Textual.quotedSpecifier (Quoting P) := by
  refine quoting_of_reads_quoted (fun c hc => ?_) fun c hc => ?_
  · rw [isQuoteMark, hc, Bool.true_or]
  · simpa using hc

theorem quoting_anyQuotedSpecifier : Throughout text Textual.anyQuotedSpecifier (Quoting P) := by
  refine quoting_of_reads_quoted (fun c hc => hc) fun c hc => ?_
  simp only [Bool.and_eq_true, Bool.not_eq_true', Bool.or_eq_false_iff, bne_iff_ne] at hc
  exact ⟨hc.1.1, hc.2⟩

/-- A part before the quotes may capture what it likes: the last capture counts. -/
theorem quoting_behind (hp : Throughout text p fun word _ => ∀ c ∈ word, P c)
    (hr : Throughout text r (Quoting P)) : Throughout text (.sequence p r) (Quoting P) := by
  refine Throughout.sequence hp hr fun word₁ word₂ caught₁ caught₂ h₁ h₂ => ?_
  obtain ⟨lead, q, body, q', trail, rfl, rfl, hquoted, hlead, htrail⟩ := h₂
  exact ⟨word₁ ++ lead, q, body, q', trail, (List.append_assoc ..).symm, rfl, hquoted,
    List.forall_mem_append.mpr ⟨h₁, hlead⟩, htrail⟩

variable (hP : ∀ c, c ≠ ';' → P c)
include hP

theorem quoting_before (hp : Throughout text p (Quoting P)) (hr : r.skips ';' = true) :
    Throughout text (.sequence p r) (Quoting P) := by
  refine Throughout.sequence hp (Throughout.of_skips hr) fun word₁ word₂ caught₁ caught₂ h₁ h₂ => ?_
  obtain ⟨hword₂, rfl⟩ := h₂
  obtain ⟨lead, q, body, q', trail, rfl, rfl, hquoted, hlead, htrail⟩ := h₁
  have hword : ∀ c ∈ word₂, P c := fun c hc => hP c fun e => hword₂ (e ▸ hc)
  exact ⟨lead, q, body, q', trail ++ word₂, by simp, rfl, hquoted, hlead,
    List.forall_mem_append.mpr ⟨htrail, hword⟩⟩

theorem quoting_clear (hp : Throughout text p (Clear ';')) (hr : Throughout text r (Quoting P)) :
    Throughout text (.sequence p r) (Quoting P) := by
  refine quoting_behind (fun front before word after caught htext hreads c hc => hP c ?_) hr
  rintro rfl
  exact (hp front before word after caught htext hreads).1 hc

theorem quoting_skip (hp : p.skips ';' = true) (hr : Throughout text r (Quoting P)) :
    Throughout text (.sequence p r) (Quoting P) :=
  quoting_clear hP (Throughout.of_skips hp) hr

theorem quoting_last (hp : Throughout text p (Quoting P)) : Throughout text (all [p]) (Quoting P) :=
  quoting_before hP hp rfl

theorem quoting_called (hp : Throughout text p (Quoting P)) :
    Throughout text (called p) (Quoting P) :=
  quoting_skip hP (by decide) <|
    quoting_skip hP (by decide) <|
    quoting_skip hP (by decide) <|
    quoting_before hP hp (by decide)

end

end Specifier
end ModuleAudit
