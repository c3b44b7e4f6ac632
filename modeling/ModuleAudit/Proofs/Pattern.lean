import Mathlib.Data.List.Infix
import ModuleAudit.Pattern.Basic

/-
What patterns match, without the order of preference.

`Matches p s e` says that a match of `p` at the spot `s` can end at the spot `e`.  The search tries
all these ends, so a pattern is found exactly where it has a match.  `Reads` says what a match is in
terms of the text alone, without spots.  `Through` carries a match of a composite pattern to a match
of one of its parts further on in the text.
-/

namespace ModuleAudit
namespace Pattern

def Matches : Pattern → Spot → Spot → Prop
  | nothing, s, e => e = s
  | literal text, s, e => readLiteral text s = some e
  | one p, s, e => s.next? p = some e
  | most least p, s, e => e ∈ s.run p ∧ s.offset + least ≤ e.offset
  | fewest least p, s, e => e ∈ s.run p ∧ s.offset + least ≤ e.offset
  | sequence first second, s, e => ∃ m, first.Matches s m ∧ second.Matches m e
  | choice first second, s, e => first.Matches s e ∨ second.Matches s e
  | capture inner, s, e => ∃ m, inner.Matches s m ∧ e = { m with captured := s.since m }
  | boundary, s, e => s.atBoundary = true ∧ e = s
  | finish, s, e => s.atFinish = true ∧ e = s

theorem isSome_bind_iff {α β : Type} {x : Option α} {k : α → Option β} :
    (x.bind k).isSome = true ↔ ∃ a, x = some a ∧ (k a).isSome = true := by
  cases x <;> simp

theorem isSome_guarded_iff {β : Type} {c : Prop} [Decidable c] {x : Option β} :
    (if c then x else none).isSome = true ↔ c ∧ x.isSome = true := by
  by_cases hc : c <;> simp [hc]

theorem isSome_findSome?_iff {α β : Type} {l : List α} {k : α → Option β} :
    (l.findSome? k).isSome = true ↔ ∃ a ∈ l, (k a).isSome = true := by
  rw [List.findSome?_isSome_iff]

/-- The search succeeds if the continuation accepts the end of some match. -/
theorem isSome_find?_iff {β : Type} {p : Pattern} {k : Spot → Option β} {s : Spot} :
    (p.find? k s).isSome = true ↔ ∃ e, p.Matches s e ∧ (k e).isSome = true := by
  induction p generalizing k s with
  | nothing => simp [find?, Matches]
  | literal text => simp only [find?, isSome_bind_iff, Matches]
  | one p => simp only [find?, isSome_bind_iff, Matches]
  | most least p =>
    simp only [find?, isSome_findSome?_iff, isSome_guarded_iff, Matches, and_assoc]
  | fewest least p =>
    simp only [find?, isSome_findSome?_iff, isSome_guarded_iff, Matches, and_assoc,
      List.mem_reverse]
  | sequence first second ih1 ih2 =>
    rw [find?, ih1]
    constructor
    · rintro ⟨m, hm, hk⟩
      obtain ⟨e, he, hk⟩ := ih2.mp hk
      exact ⟨e, ⟨m, hm, he⟩, hk⟩
    · rintro ⟨e, ⟨m, hm, he⟩, hk⟩
      exact ⟨m, hm, ih2.mpr ⟨e, he, hk⟩⟩
  | choice first second ih1 ih2 =>
    have hor : ((choice first second).find? k s).isSome = true ↔
        (first.find? k s).isSome = true ∨ (second.find? k s).isSome = true := by
      rw [find?]
      cases first.find? k s <;> simp
    rw [hor, ih1, ih2, ← exists_or]
    simp only [Matches, or_and_right]
  | capture inner ih =>
    rw [find?, ih]
    constructor
    · rintro ⟨m, hm, hk⟩
      exact ⟨_, ⟨m, hm, rfl⟩, hk⟩
    · rintro ⟨e, ⟨m, hm, rfl⟩, hk⟩
      exact ⟨m, hm, hk⟩
  | boundary => simp [find?, Matches, isSome_guarded_iff]
  | finish => simp [find?, Matches, isSome_guarded_iff]

/-! ## Searching a text -/

theorem getLast?_cons_or (c : Char) (front : List Char) (before : Option Char) :
    (c :: front).getLast?.or before = front.getLast?.or (some c) := by
  cases hf : front.getLast? <;> simp [List.getLast?_cons, hf]

theorem isSome_searchFrom_iff {p : Pattern} {offset : Nat} {before : Option Char}
    {text : List Char} :
    (p.searchFrom offset before text).isSome = true ↔
      ∃ front rest, text = front ++ rest ∧
        ∃ e, p.Matches ⟨offset + front.length, front.getLast?.or before, rest, []⟩ e := by
  induction text generalizing offset before with
  | nil =>
    rw [searchFrom, matchAt, isSome_find?_iff]
    constructor
    · rintro ⟨e, he, -⟩
      exact ⟨[], [], rfl, e, he⟩
    · rintro ⟨front, rest, htext, e, he⟩
      obtain ⟨rfl, rfl⟩ := List.nil_eq_append_iff.mp htext
      exact ⟨e, he, rfl⟩
  | cons c cs ih =>
    have hor : (p.searchFrom offset before (c :: cs)).isSome = true ↔
        (p.matchAt { offset, before, rest := c :: cs, captured := [] }).isSome = true ∨
          (p.searchFrom (offset + 1) (some c) cs).isSome = true := by
      rw [searchFrom]
      cases p.matchAt { offset, before, rest := c :: cs, captured := [] } <;> simp
    rw [hor, ih, matchAt, isSome_find?_iff]
    constructor
    · rintro (⟨e, he, -⟩ | ⟨front, rest, rfl, e, he⟩)
      · exact ⟨[], c :: cs, rfl, e, he⟩
      · refine ⟨c :: front, rest, rfl, e, ?_⟩
        rw [getLast?_cons_or, List.length_cons, ← Nat.add_assoc, Nat.add_right_comm]
        exact he
    · rintro ⟨front, rest, htext, e, he⟩
      cases front with
      | nil =>
        rw [List.nil_append] at htext
        subst htext
        exact Or.inl ⟨e, he, rfl⟩
      | cons d front =>
        rw [List.cons_append, List.cons.injEq] at htext
        obtain ⟨rfl, rfl⟩ := htext
        refine Or.inr ⟨front, rest, rfl, e, ?_⟩
        rw [getLast?_cons_or, List.length_cons, ← Nat.add_assoc, Nat.add_right_comm] at he
        exact he

theorem isFound_iff {p : Pattern} {text : List Char} :
    p.isFound text = true ↔
      ∃ front rest, text = front ++ rest ∧
        ∃ e, p.Matches ⟨front.length, front.getLast?, rest, []⟩ e := by
  rw [isFound, search?, isSome_searchFrom_iff]
  simp only [Nat.zero_add, Option.or_none]

/-! ## The words that are read -/

/-- `p` can read `word` behind the character `before` and in front of the text `after`, and captures
`caught` on the way. -/
def Reads : Pattern → (before : Option Char) → (word after : List Char) →
    (caught : Option (List Char)) → Prop
  | nothing, _, word, _, caught => word = [] ∧ caught = none
  | literal text, _, word, _, caught => word = text ∧ caught = none
  | one p, _, word, _, caught => (∃ c, word = [c] ∧ p c = true) ∧ caught = none
  | most least p, _, word, _, caught =>
    (least ≤ word.length ∧ ∀ c ∈ word, p c = true) ∧ caught = none
  | fewest least p, _, word, _, caught =>
    (least ≤ word.length ∧ ∀ c ∈ word, p c = true) ∧ caught = none
  | sequence first second, before, word, after, caught =>
    ∃ word₁ word₂ caught₁ caught₂, word = word₁ ++ word₂ ∧
      first.Reads before word₁ (word₂ ++ after) caught₁ ∧
      second.Reads (word₁.getLast?.or before) word₂ after caught₂ ∧ caught = caught₂.or caught₁
  | choice first second, before, word, after, caught =>
    first.Reads before word after caught ∨ second.Reads before word after caught
  | capture inner, before, word, after, caught =>
    (∃ given, inner.Reads before word after given) ∧ caught = some word
  | boundary, before, word, after, caught =>
    (word = [] ∧ caught = none) ∧ before.any Text.isWord ≠ after.head?.any Text.isWord
  | finish, _, word, after, caught => (word = [] ∧ caught = none) ∧ (after = [] ∨ after = ['\n'])

/-- The spot behind a word. -/
def Spot.past (s : Spot) (word after : List Char) (caught : Option (List Char)) : Spot where
  offset := s.offset + word.length
  before := word.getLast?.or s.before
  rest := after
  captured := caught.getD s.captured

theorem Spot.past_past (s : Spot) (word₁ word₂ after₁ after₂ : List Char)
    (caught₁ caught₂ : Option (List Char)) :
    (s.past word₁ after₁ caught₁).past word₂ after₂ caught₂ =
      s.past (word₁ ++ word₂) after₂ (caught₂.or caught₁) := by
  simp only [past, List.length_append, Nat.add_assoc, List.getLast?_append]
  cases word₂.getLast? <;> cases caught₂ <;> rfl

theorem next?_eq_some_iff {p : Char → Bool} {s e : Spot} :
    s.next? p = some e ↔ ∃ c after, s.rest = c :: after ∧ p c = true ∧ e = s.past [c] after none := by
  unfold Spot.next?
  cases hrest : s.rest with
  | nil => simp
  | cons c cs =>
    by_cases hc : p c = true
    · simp only [hc, if_true, Option.some.injEq, List.cons.injEq]
      constructor
      · rintro rfl
        exact ⟨c, cs, ⟨rfl, rfl⟩, hc, rfl⟩
      · rintro ⟨_, _, ⟨rfl, rfl⟩, -, rfl⟩
        rfl
    · simp [hc]

theorem readLiteral_eq_some_iff {text : List Char} {s e : Spot} :
    readLiteral text s = some e ↔ ∃ after, s.rest = text ++ after ∧ e = s.past text after none := by
  induction text generalizing s with
  | nil =>
    simp only [readLiteral, Option.some.injEq, List.nil_append]
    exact ⟨fun h => ⟨s.rest, rfl, h.symm⟩, fun ⟨_, hrest, h⟩ => by rw [h, ← hrest]; rfl⟩
  | cons c cs ih =>
    rw [readLiteral, Option.bind_eq_some_iff]
    simp only [next?_eq_some_iff, ih]
    constructor
    · rintro ⟨m, ⟨d, rest, hrest, hd, rfl⟩, after, hafter, rfl⟩
      obtain rfl := beq_iff_eq.mp hd
      refine ⟨after, ?_, ?_⟩
      · rw [hrest, show rest = cs ++ after from hafter, List.cons_append]
      · rw [Spot.past_past]; rfl
    · rintro ⟨after, hrest, rfl⟩
      refine ⟨_, ⟨c, cs ++ after, hrest, beq_self_eq_true c, rfl⟩, after, rfl, ?_⟩
      rw [Spot.past_past]; rfl

theorem mem_runFrom_iff {p : Char → Bool} {offset : Nat} {before : Option Char}
    {cs captured : List Char} {passed : List Spot} {e : Spot} :
    e ∈ Spot.runFrom p (⟨offset, before, cs, captured⟩ :: passed) offset captured cs ↔
      e ∈ passed ∨ ∃ word after, cs = word ++ after ∧ (∀ c ∈ word, p c = true) ∧
        e = Spot.past ⟨offset, before, cs, captured⟩ word after none := by
  have hnone : ∀ c ∈ ([] : List Char), p c = true := fun c hc => absurd hc List.not_mem_nil
  induction cs generalizing offset before passed with
  | nil =>
    rw [Spot.runFrom, List.mem_cons, or_comm]
    refine or_congr_right ⟨fun h => ⟨[], [], rfl, hnone, h⟩, ?_⟩
    rintro ⟨word, after, hword, -, he⟩
    obtain ⟨rfl, rfl⟩ := List.nil_eq_append_iff.mp hword
    exact he
  | cons c cs ih =>
    rw [Spot.runFrom]
    by_cases hc : p c = true
    · rw [if_pos hc]
      refine ih.trans ?_
      rw [List.mem_cons]
      constructor
      · rintro ((rfl | h) | ⟨word, after, rfl, hword, rfl⟩)
        · exact Or.inr ⟨[], c :: cs, rfl, hnone, rfl⟩
        · exact Or.inl h
        · refine Or.inr ⟨c :: word, after, rfl, List.forall_mem_cons.mpr ⟨hc, hword⟩, ?_⟩
          exact Spot.past_past ⟨offset, before, c :: (word ++ after), captured⟩ [c] word _ _ none none
      · rintro (h | ⟨word, after, heq, hword, rfl⟩)
        · exact Or.inl (Or.inr h)
        · cases word with
          | nil => exact Or.inl (Or.inl (congrArg (Spot.past _ [] · none) heq.symm))
          | cons d word =>
            obtain ⟨rfl, rfl⟩ := List.cons.inj heq
            refine Or.inr ⟨word, after, rfl, (List.forall_mem_cons.mp hword).2, ?_⟩
            exact (Spot.past_past ⟨offset, before, c :: (word ++ after), captured⟩ [c] word _ _ none
              none).symm
    · rw [if_neg hc, List.mem_cons, or_comm]
      refine or_congr_right ⟨fun h => ⟨[], c :: cs, rfl, hnone, h⟩, ?_⟩
      rintro ⟨word, after, heq, hword, rfl⟩
      cases word with
      | nil => exact congrArg (Spot.past _ [] · none) heq.symm
      | cons d word =>
        obtain ⟨rfl, -⟩ := List.cons.inj heq
        exact absurd (hword c List.mem_cons_self) hc

theorem mem_run_iff {p : Char → Bool} {s e : Spot} :
    e ∈ s.run p ↔ ∃ word after, s.rest = word ++ after ∧ (∀ c ∈ word, p c = true) ∧
      e = s.past word after none := by
  exact mem_runFrom_iff.trans (or_iff_right List.not_mem_nil)

/-- A match at a spot is a word of the text from there on. -/
theorem matches_iff {p : Pattern} {s e : Spot} :
    p.Matches s e ↔ ∃ word after caught, s.rest = word ++ after ∧
      p.Reads s.before word after caught ∧ e = s.past word after caught := by
  induction p generalizing s e with
  | nothing =>
    constructor
    · rintro rfl
      exact ⟨[], e.rest, none, rfl, ⟨rfl, rfl⟩, rfl⟩
    · rintro ⟨_, after, _, hrest, ⟨rfl, rfl⟩, rfl⟩
      rw [← show s.rest = after from hrest]
      rfl
  | literal text =>
    rw [Matches, readLiteral_eq_some_iff]
    constructor
    · rintro ⟨after, hrest, rfl⟩
      exact ⟨text, after, none, hrest, ⟨rfl, rfl⟩, rfl⟩
    · rintro ⟨_, after, _, hrest, ⟨rfl, rfl⟩, rfl⟩
      exact ⟨after, hrest, rfl⟩
  | one p =>
    rw [Matches, next?_eq_some_iff]
    constructor
    · rintro ⟨c, after, hrest, hc, rfl⟩
      exact ⟨[c], after, none, hrest, ⟨⟨c, rfl, hc⟩, rfl⟩, rfl⟩
    · rintro ⟨_, after, _, hrest, ⟨⟨c, rfl, hc⟩, rfl⟩, rfl⟩
      exact ⟨c, after, hrest, hc, rfl⟩
  | most least p =>
    rw [Matches, mem_run_iff]
    constructor
    · rintro ⟨⟨word, after, hrest, hword, rfl⟩, hleast⟩
      exact ⟨word, after, none, hrest, ⟨⟨Nat.le_of_add_le_add_left hleast, hword⟩, rfl⟩, rfl⟩
    · rintro ⟨word, after, _, hrest, ⟨⟨hleast, hword⟩, rfl⟩, rfl⟩
      exact ⟨⟨word, after, hrest, hword, rfl⟩, Nat.add_le_add_left hleast _⟩
  | fewest least p =>
    rw [Matches, mem_run_iff]
    constructor
    · rintro ⟨⟨word, after, hrest, hword, rfl⟩, hleast⟩
      exact ⟨word, after, none, hrest, ⟨⟨Nat.le_of_add_le_add_left hleast, hword⟩, rfl⟩, rfl⟩
    · rintro ⟨word, after, _, hrest, ⟨⟨hleast, hword⟩, rfl⟩, rfl⟩
      exact ⟨⟨word, after, hrest, hword, rfl⟩, Nat.add_le_add_left hleast _⟩
  | sequence first second ih1 ih2 =>
    simp only [Matches, ih1, ih2]
    constructor
    · rintro ⟨_, ⟨word₁, rest, caught₁, hrest, hfirst, rfl⟩, hsecond⟩
      obtain ⟨word₂, after, caught₂, hrest₂, hsecond, rfl⟩ := hsecond
      obtain rfl : rest = word₂ ++ after := hrest₂
      refine ⟨word₁ ++ word₂, after, _, ?_,
        ⟨word₁, word₂, caught₁, caught₂, rfl, hfirst, hsecond, rfl⟩, Spot.past_past ..⟩
      rw [hrest, List.append_assoc]
    · rintro ⟨_, after, _, hrest, hreads, rfl⟩
      obtain ⟨word₁, word₂, caught₁, caught₂, rfl, hfirst, hsecond, rfl⟩ := hreads
      refine ⟨_, ⟨word₁, word₂ ++ after, caught₁, ?_, hfirst, rfl⟩, word₂, after, caught₂, rfl,
        hsecond, (Spot.past_past ..).symm⟩
      rw [hrest, List.append_assoc]
  | choice first second ih1 ih2 =>
    simp only [Matches, ih1, ih2, Reads, or_and_right, and_or_left, exists_or]
  | capture inner ih =>
    have hsince : ∀ {word after : List Char} {given : Option (List Char)}, s.rest = word ++ after →
        s.since (s.past word after given) = word := by
      intro word after given hrest
      rw [Spot.since, Spot.past, Nat.add_sub_cancel_left, hrest, List.take_left]
    simp only [Matches, ih]
    constructor
    · rintro ⟨_, ⟨word, after, given, hrest, hinner, rfl⟩, rfl⟩
      refine ⟨word, after, some word, hrest, ⟨⟨given, hinner⟩, rfl⟩, ?_⟩
      rw [hsince hrest]
      rfl
    · rintro ⟨word, after, _, hrest, ⟨⟨given, hinner⟩, rfl⟩, rfl⟩
      refine ⟨_, ⟨word, after, given, hrest, hinner, rfl⟩, ?_⟩
      rw [hsince hrest]
      rfl
  | boundary =>
    constructor
    · rintro ⟨hb, rfl⟩
      exact ⟨[], e.rest, none, rfl, ⟨⟨rfl, rfl⟩, bne_iff_ne.mp hb⟩, rfl⟩
    · rintro ⟨_, after, _, hrest, ⟨⟨rfl, rfl⟩, hb⟩, rfl⟩
      obtain rfl : s.rest = after := hrest
      exact ⟨bne_iff_ne.mpr hb, rfl⟩
  | finish =>
    have hfinish : ∀ s : Spot, s.atFinish = true ↔ s.rest = [] ∨ s.rest = ['\n'] := by
      intro s
      rw [Spot.atFinish, Bool.or_eq_true, List.isEmpty_iff, beq_iff_eq]
    constructor
    · rintro ⟨hf, rfl⟩
      exact ⟨[], e.rest, none, rfl, ⟨⟨rfl, rfl⟩, (hfinish e).mp hf⟩, rfl⟩
    · rintro ⟨_, after, _, hrest, ⟨⟨rfl, rfl⟩, hf⟩, rfl⟩
      obtain rfl : s.rest = after := hrest
      exact ⟨(hfinish s).mpr hf, rfl⟩

/-- A pattern is found where it reads a word of the text. -/
theorem isFound_iff_reads {p : Pattern} {text : List Char} :
    p.isFound text = true ↔ ∃ front word after caught, text = front ++ (word ++ after) ∧
      p.Reads front.getLast? word after caught := by
  rw [isFound_iff]
  constructor
  · intro ⟨front, rest, htext, e, he⟩
    obtain ⟨word, after, caught, hrest, hreads, -⟩ := matches_iff.mp he
    exact ⟨front, word, after, caught, hrest ▸ htext, hreads⟩
  · intro ⟨front, word, after, caught, htext, hreads⟩
    exact ⟨front, word ++ after, htext, _, matches_iff.mpr ⟨word, after, caught, rfl, hreads, rfl⟩⟩

theorem isFound_text_iff {s : String} {text : List Char} :
    (Pattern.text s).isFound text = true ↔ s.toList <:+: text := by
  rw [isFound_iff_reads]
  constructor
  · intro ⟨front, word, after, caught, htext, hword, _⟩
    exact ⟨front, after, by rw [htext, hword, List.append_assoc]⟩
  · intro ⟨front, after, htext⟩
    exact ⟨front, s.toList, after, none, by rw [← htext, List.append_assoc], rfl, rfl⟩

/-- Matching goes forward. -/
theorem Matches.suffix {p : Pattern} {s e : Spot} (h : p.Matches s e) : e.rest <:+ s.rest := by
  obtain ⟨word, after, caught, hrest, -, rfl⟩ := matches_iff.mp h
  exact ⟨word, hrest.symm⟩

/-! ## Parts of composite patterns -/

/-- Every match of `p` goes through a match of `part`. -/
def Through (p part : Pattern) : Prop :=
  ∀ s e, p.Matches s e → ∃ m n, m.rest <:+ s.rest ∧ part.Matches m n

theorem Through.refl (p : Pattern) : Through p p := fun s e h => ⟨s, e, List.suffix_rfl, h⟩

theorem Through.trans {p q r : Pattern} (hpq : Through p q) (hqr : Through q r) : Through p r := by
  intro s e h
  obtain ⟨m, n, hm, hq⟩ := hpq s e h
  obtain ⟨m', n', hm', hr⟩ := hqr m n hq
  exact ⟨m', n', hm'.trans hm, hr⟩

theorem through_all {parts : List Pattern} {part : Pattern} (h : part ∈ parts) :
    Through (all parts) part := by
  induction parts with
  | nil => exact absurd h List.not_mem_nil
  | cons first rest ih =>
    rintro s e ⟨m, hfirst, hrest⟩
    rcases List.mem_cons.mp h with rfl | h
    · exact ⟨s, m, List.suffix_rfl, hfirst⟩
    · obtain ⟨m', n', hm', hpart⟩ := ih h m e hrest
      exact ⟨m', n', hm'.trans hfirst.suffix, hpart⟩

end Pattern
end ModuleAudit
