import ModuleAudit.Proofs.Pattern

/-
The matches that a search finds, and what their words look like.

The search for all matches goes from left to right and skips what it has matched, so a place where the
pattern matches lies in a match that was found.  `skips` and `spells` compute what the words of a
pattern never hold, and which words it reads.
-/

namespace ModuleAudit
namespace Pattern

/-! ## All matches in a text -/

theorem exists_matches_of_find? {β : Type} {p : Pattern} {k : Spot → Option β} {s : Spot} {b : β}
    (h : p.find? k s = some b) : ∃ e, p.Matches s e ∧ k e = some b := by
  induction p generalizing k s with
  | nothing => exact ⟨s, rfl, h⟩
  | literal text => exact Option.bind_eq_some_iff.mp h
  | one p => exact Option.bind_eq_some_iff.mp h
  | most least p =>
    obtain ⟨e, he, hk⟩ := List.exists_of_findSome?_eq_some h
    obtain ⟨hleast, hk⟩ := Option.ite_none_right_eq_some.mp hk
    exact ⟨e, ⟨he, hleast⟩, hk⟩
  | fewest least p =>
    obtain ⟨e, he, hk⟩ := List.exists_of_findSome?_eq_some h
    obtain ⟨hleast, hk⟩ := Option.ite_none_right_eq_some.mp hk
    exact ⟨e, ⟨List.mem_reverse.mp he, hleast⟩, hk⟩
  | sequence first second ih1 ih2 =>
    obtain ⟨m, hm, hk⟩ := ih1 h
    obtain ⟨e, he, hk⟩ := ih2 hk
    exact ⟨e, ⟨m, hm, he⟩, hk⟩
  | choice first second ih1 ih2 =>
    rw [find?] at h
    cases hfirst : first.find? k s with
    | some found =>
      rw [hfirst] at h
      obtain ⟨e, he, hk⟩ := ih1 (hfirst.trans h)
      exact ⟨e, Or.inl he, hk⟩
    | none =>
      rw [hfirst] at h
      obtain ⟨e, he, hk⟩ := ih2 h
      exact ⟨e, Or.inr he, hk⟩
  | capture inner ih =>
    obtain ⟨m, hm, hk⟩ := ih h
    exact ⟨_, ⟨m, hm, rfl⟩, hk⟩
  | boundary =>
    obtain ⟨hb, hk⟩ := Option.ite_none_right_eq_some.mp h
    exact ⟨s, ⟨hb, rfl⟩, hk⟩
  | finish =>
    obtain ⟨hf, hk⟩ := Option.ite_none_right_eq_some.mp h
    exact ⟨s, ⟨hf, rfl⟩, hk⟩

theorem of_matchAt {p : Pattern} {s : Spot} {found : Found} (h : p.matchAt s = some found) :
    ∃ word after caught, s.rest = word ++ after ∧ p.Reads s.before word after caught ∧
      found = ⟨s.offset, s.offset + word.length, caught.getD s.captured⟩ := by
  obtain ⟨e, he, hfound⟩ := exists_matches_of_find? h
  obtain ⟨word, after, caught, hrest, hreads, rfl⟩ := matches_iff.mp he
  exact ⟨word, after, caught, hrest, hreads, (Option.some.inj hfound).symm⟩

theorem matchAt_ne_none {p : Pattern} {s : Spot} {word after : List Char}
    {caught : Option (List Char)} (hrest : s.rest = word ++ after)
    (h : p.Reads s.before word after caught) : p.matchAt s ≠ none := by
  rw [← Option.isSome_iff_ne_none, matchAt, isSome_find?_iff]
  exact ⟨_, matches_iff.mpr ⟨word, after, caught, hrest, h, rfl⟩, rfl⟩

/-- Every match that is found is a word of the text. -/
theorem of_mem_matchesFrom {p : Pattern} {offset : Nat} {before : Option Char} {skip : Nat}
    {text : List Char} {found : Found} (h : found ∈ p.matchesFrom offset before skip text) :
    ∃ front word after caught, text = front ++ (word ++ after) ∧
      p.Reads (front.getLast?.or before) word after caught ∧
      found = ⟨offset + front.length, offset + front.length + word.length, caught.getD []⟩ := by
  induction text generalizing offset before skip with
  | nil => exact absurd h List.not_mem_nil
  | cons c cs ih =>
    have hlater : ∀ {skip}, found ∈ p.matchesFrom (offset + 1) (some c) skip cs →
        ∃ front word after caught, c :: cs = front ++ (word ++ after) ∧
          p.Reads (front.getLast?.or before) word after caught ∧
          found = ⟨offset + front.length, offset + front.length + word.length, caught.getD []⟩ := by
      intro skip hmem
      obtain ⟨front, word, after, caught, rfl, hreads, rfl⟩ := ih hmem
      refine ⟨c :: front, word, after, caught, rfl, ?_, ?_⟩
      · rwa [getLast?_cons_or]
      · rw [List.length_cons, Nat.add_assoc offset 1, Nat.add_comm 1]
    cases skip with
    | succ skip => exact hlater h
    | zero =>
      rw [matchesFrom] at h
      cases hmatch : p.matchAt { offset, before, rest := c :: cs, captured := [] } with
      | none =>
        rw [hmatch] at h
        exact hlater h
      | some first =>
        rw [hmatch] at h
        rcases List.mem_cons.mp h with rfl | h
        · obtain ⟨word, after, caught, hrest, hreads, rfl⟩ := of_matchAt hmatch
          exact ⟨[], word, after, caught, hrest, hreads, rfl⟩
        · exact hlater h

/-- A place where the pattern matches starts a match that is found, or lies in one. -/
theorem exists_mem_matchesFrom {p : Pattern} {offset : Nat} {before : Option Char} {skip : Nat}
    {front word after : List Char} {caught : Option (List Char)} (hskip : skip ≤ front.length)
    (hne : word ≠ []) (h : p.Reads (front.getLast?.or before) word after caught) :
    ∃ found ∈ p.matchesFrom offset before skip (front ++ (word ++ after)),
      found.first = offset + front.length ∨
        found.first ≤ offset + front.length ∧ offset + front.length < found.last := by
  induction front generalizing offset before skip with
  | nil =>
    obtain ⟨c, word, rfl⟩ := List.exists_cons_of_ne_nil hne
    obtain rfl : skip = 0 := Nat.le_zero.mp hskip
    rw [List.nil_append, List.cons_append, matchesFrom]
    cases hmatch : p.matchAt { offset, before, rest := c :: (word ++ after), captured := [] } with
    | none => exact absurd hmatch (matchAt_ne_none rfl h)
    | some found =>
      obtain ⟨_, _, _, -, -, hfound⟩ := of_matchAt hmatch
      exact ⟨found, List.mem_cons_self, Or.inl (congrArg Found.first hfound)⟩
  | cons c front ih =>
    rw [getLast?_cons_or] at h
    have hlength : offset + (c :: front).length = offset + 1 + front.length := by
      rw [List.length_cons]
      omega
    rw [hlength, List.cons_append]
    cases skip with
    | succ skip => exact ih (Nat.le_of_succ_le_succ hskip) h
    | zero =>
      rw [matchesFrom]
      cases hmatch : p.matchAt
          { offset, before, rest := c :: (front ++ (word ++ after)), captured := [] } with
      | none => exact ih (Nat.zero_le _) h
      | some first =>
        by_cases hlast : first.last - offset - 1 ≤ front.length
        · obtain ⟨found, hmem, hfound⟩ := ih hlast h
          exact ⟨found, List.mem_cons_of_mem _ hmem, hfound⟩
        · -- the match at `c` reaches beyond the place
          obtain ⟨_, _, _, -, -, rfl⟩ := of_matchAt hmatch
          dsimp only at hlast
          exact ⟨_, List.mem_cons_self, Or.inr (by dsimp only; omega)⟩

theorem of_mem_allMatches {p : Pattern} {text : List Char} {found : Found}
    (h : found ∈ p.allMatches text) :
    ∃ front word after caught, text = front ++ (word ++ after) ∧
      p.Reads front.getLast? word after caught ∧
      found = ⟨front.length, front.length + word.length, caught.getD []⟩ := by
  obtain ⟨front, word, after, caught, htext, hreads, hfound⟩ := of_mem_matchesFrom h
  rw [Option.or_none] at hreads
  rw [Nat.zero_add] at hfound
  exact ⟨front, word, after, caught, htext, hreads, hfound⟩

theorem exists_mem_allMatches {p : Pattern} {front word after : List Char}
    {caught : Option (List Char)} (hne : word ≠ []) (h : p.Reads front.getLast? word after caught) :
    ∃ found ∈ p.allMatches (front ++ (word ++ after)),
      found.first = front.length ∨ found.first ≤ front.length ∧ front.length < found.last := by
  rw [← Option.or_none (o := front.getLast?)] at h
  rw [allMatches, ← Nat.zero_add front.length]
  exact exists_mem_matchesFrom (Nat.zero_le _) hne h

/-! ## What is read in a text -/

/-- Whatever `p` reads in the text has the property. -/
def Throughout (text : List Char) (p : Pattern) (P : List Char → Option (List Char) → Prop) : Prop :=
  ∀ front before word after caught, text = front ++ (word ++ after) →
    p.Reads before word after caught → P word caught

theorem Throughout.sequence {text : List Char} {p q : Pattern}
    {P Q R : List Char → Option (List Char) → Prop} (hp : Throughout text p P)
    (hq : Throughout text q Q)
    (h : ∀ word₁ word₂ caught₁ caught₂, P word₁ caught₁ → Q word₂ caught₂ →
      R (word₁ ++ word₂) (caught₂.or caught₁)) : Throughout text (.sequence p q) R := by
  rintro front before _ after _ htext ⟨word₁, word₂, caught₁, caught₂, rfl, hfirst, hsecond, rfl⟩
  refine h _ _ _ _ (hp front _ _ _ _ ?_ hfirst) (hq (front ++ word₁) _ _ _ _ ?_ hsecond)
  · rw [htext, List.append_assoc]
  · rw [htext, List.append_assoc, List.append_assoc]

theorem Throughout.choice {text : List Char} {p q : Pattern}
    {P : List Char → Option (List Char) → Prop} (hp : Throughout text p P) (hq : Throughout text q P) :
    Throughout text (.choice p q) P := by
  rintro front before word after caught htext (hfirst | hsecond)
  · exact hp front before word after caught htext hfirst
  · exact hq front before word after caught htext hsecond

/-- Neither a given character was read nor anything captured. -/
def Clear (ch : Char) (word : List Char) (caught : Option (List Char)) : Prop :=
  ch ∉ word ∧ caught = none

theorem Clear.append {ch : Char} {word₁ word₂ : List Char} {caught₁ caught₂ : Option (List Char)}
    (h₁ : Clear ch word₁ caught₁) (h₂ : Clear ch word₂ caught₂) :
    Clear ch (word₁ ++ word₂) (caught₂.or caught₁) := by
  obtain ⟨hword₁, rfl⟩ := h₁
  obtain ⟨hword₂, rfl⟩ := h₂
  exact ⟨fun h => (List.mem_append.mp h).elim hword₁ hword₂, rfl⟩

/-- Whether a pattern reads no word with a given character, and captures nothing. -/
def skips (ch : Char) : Pattern → Bool
  | nothing | boundary | finish => true
  | literal text => !text.contains ch
  | one p | most _ p | fewest _ p => !p ch
  | sequence first second | choice first second => first.skips ch && second.skips ch
  | capture _ => false

theorem clear_of_skips {ch : Char} {p : Pattern} (h : p.skips ch = true) {before : Option Char}
    {word after : List Char} {caught : Option (List Char)}
    (hreads : p.Reads before word after caught) : Clear ch word caught := by
  have hclass : ∀ {q : Char → Bool} {word : List Char}, (!q ch) = true →
      (∀ c ∈ word, q c = true) → ch ∉ word := by
    intro q word hq hword hmem
    rw [hword ch hmem] at hq
    cases hq
  induction p generalizing before word after caught with
  | nothing =>
    obtain ⟨rfl, rfl⟩ := hreads
    exact ⟨List.not_mem_nil, rfl⟩
  | literal text =>
    obtain ⟨rfl, rfl⟩ := hreads
    exact ⟨by simpa [skips] using h, rfl⟩
  | one q =>
    obtain ⟨⟨c, rfl, hc⟩, rfl⟩ := hreads
    exact ⟨hclass h (List.forall_mem_singleton.mpr hc), rfl⟩
  | most least q => exact ⟨hclass h hreads.1.2, hreads.2⟩
  | fewest least q => exact ⟨hclass h hreads.1.2, hreads.2⟩
  | sequence first second ih1 ih2 =>
    obtain ⟨h₁, h₂⟩ := Bool.and_eq_true_iff.mp h
    obtain ⟨word₁, word₂, caught₁, caught₂, rfl, hfirst, hsecond, rfl⟩ := hreads
    exact (ih1 h₁ hfirst).append (ih2 h₂ hsecond)
  | choice first second ih1 ih2 =>
    obtain ⟨h₁, h₂⟩ := Bool.and_eq_true_iff.mp h
    exact hreads.elim (ih1 h₁) (ih2 h₂)
  | capture inner => cases h
  | boundary =>
    obtain ⟨⟨rfl, rfl⟩, -⟩ := hreads
    exact ⟨List.not_mem_nil, rfl⟩
  | finish =>
    obtain ⟨⟨rfl, rfl⟩, -⟩ := hreads
    exact ⟨List.not_mem_nil, rfl⟩

theorem Throughout.of_skips {text : List Char} {ch : Char} {p : Pattern} (h : p.skips ch = true) :
    Throughout text p (Clear ch) :=
  fun _ _ _ _ _ _ hreads => clear_of_skips h hreads

/-- Whether a pattern reads a word wherever that stands, and captures nothing. -/
def spells : Pattern → List Char → Bool
  | nothing, word => word.isEmpty
  | literal text, word => word == text
  | one p, word => word.length == 1 && word.all p
  | most least p, word | fewest least p, word => decide (least ≤ word.length) && word.all p
  | sequence first second, word =>
    (List.range (word.length + 1)).any fun n =>
      first.spells (word.take n) && second.spells (word.drop n)
  | choice first second, word => first.spells word || second.spells word
  | capture _, _ | boundary, _ | finish, _ => false

theorem reads_of_spells {p : Pattern} {word : List Char} (h : p.spells word = true)
    (before : Option Char) (after : List Char) : p.Reads before word after none := by
  induction p generalizing word before after with
  | nothing => exact ⟨List.isEmpty_iff.mp h, rfl⟩
  | literal text => exact ⟨beq_iff_eq.mp h, rfl⟩
  | one p =>
    obtain ⟨hlength, hall⟩ := Bool.and_eq_true_iff.mp h
    obtain ⟨c, rfl⟩ := List.length_eq_one_iff.mp (beq_iff_eq.mp hlength)
    exact ⟨⟨c, rfl, List.all_eq_true.mp hall c List.mem_cons_self⟩, rfl⟩
  | most least p =>
    obtain ⟨hlength, hall⟩ := Bool.and_eq_true_iff.mp h
    exact ⟨⟨of_decide_eq_true hlength, List.all_eq_true.mp hall⟩, rfl⟩
  | fewest least p =>
    obtain ⟨hlength, hall⟩ := Bool.and_eq_true_iff.mp h
    exact ⟨⟨of_decide_eq_true hlength, List.all_eq_true.mp hall⟩, rfl⟩
  | sequence first second ih1 ih2 =>
    obtain ⟨n, -, hn⟩ := List.any_eq_true.mp h
    obtain ⟨hfirst, hsecond⟩ := Bool.and_eq_true_iff.mp hn
    exact ⟨word.take n, word.drop n, none, none, (List.take_append_drop n word).symm,
      ih1 hfirst _ _, ih2 hsecond _ _, rfl⟩
  | choice first second ih1 ih2 =>
    exact (Bool.or_eq_true_iff.mp h).imp (ih1 · before after) (ih2 · before after)
  | capture inner => cases h
  | boundary => cases h
  | finish => cases h

/-- Parts that capture nothing can stand before others. -/
theorem reads_all_append {parts rest : List Pattern} {before : Option Char}
    {lead word after : List Char} {caught : Option (List Char)}
    (hlead : (all parts).Reads before lead (word ++ after) none)
    (hword : (all rest).Reads (lead.getLast?.or before) word after caught) :
    (all (parts ++ rest)).Reads before (lead ++ word) after caught := by
  induction parts generalizing before lead with
  | nil =>
    obtain ⟨rfl, -⟩ := hlead
    exact hword
  | cons p parts ih =>
    obtain ⟨word₁, word₂, caught₁, caught₂, rfl, hfirst, hsecond, hcaught⟩ := hlead
    obtain ⟨rfl, rfl⟩ := Option.or_eq_none_iff.mp hcaught.symm
    rw [List.getLast?_append, Option.or_assoc] at hword
    refine ⟨word₁, word₂ ++ word, none, caught, List.append_assoc .., ?_, ih hsecond hword,
      (Option.or_none ..).symm⟩
    rwa [List.append_assoc]

end Pattern
end ModuleAudit
