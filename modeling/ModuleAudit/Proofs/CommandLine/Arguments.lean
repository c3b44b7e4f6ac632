import ModuleAudit.CommandLine.Arguments

/-
An entry point behind the other arguments.

What a reader of the command line leaves over are words.  The directory and the entry point are found
among the words alone, and a word that starts with a dash is neither.  `KeepsWord` is what this asks of
a reader: a word at the end is left over behind the others.  The arguments are read one after the other
here, so an argument at the end leaves alone how those before it were read.
-/

namespace ModuleAudit
namespace CommandLine
namespace Arguments

theorem add_of_word (a : Arguments) {text : String} (h : isUnknownOption text = false) :
    a.add text = .ok (a.addWords [text], none) := by
  rw [isUnknownOption, beq_eq_false_iff_ne] at h
  unfold add
  split
  · rename_i hdash
    rw [hdash] at h
    exact absurd rfl h
  · rfl

section

variable {a next : Arguments} {arg : String} (hdashes : ¬ (arg == "--") = true)
include hdashes

theorem addAll_cons (hadd : a.add arg = .ok (next, none)) (rest : List String) :
    a.addAll (arg :: rest) = next.addAll rest := by
  conv => lhs; unfold addAll
  rw [if_neg hdashes, hadd]

theorem addAll_cons_cons {name : String} (hadd : a.add arg = .ok (next, some name)) (value : String)
    (rest : List String) :
    a.addAll (arg :: value :: rest) = ({ next with testDir := some value }).addAll rest := by
  conv => lhs; unfold addAll
  rw [if_neg hdashes, hadd]

end

theorem addAll_dashes (a : Arguments) {arg : String} (hdashes : (arg == "--") = true)
    (rest : List String) : a.addAll (arg :: rest) = .ok (a.addWords rest) := by
  unfold addAll
  rw [if_pos hdashes]

/-- Reading an argument at the end adds it to what the arguments before it came to. -/
theorem addAll_concat {a b : Arguments} {args : List String} {text : String}
    (htext : isUnknownOption text = false) (h : a.addAll args = .ok b) :
    a.addAll (args ++ [text]) = .ok (b.addWords [text]) := by
  fun_induction addAll a args with
  | case1 a =>
    cases h
    have hdashes : ¬ (text == "--") = true := by
      rw [beq_iff_eq]
      rintro rfl
      exact absurd htext (by decide)
    exact addAll_cons hdashes (add_of_word b htext) []
  | case2 a arg rest hdashes =>
    cases h
    rw [List.cons_append, addAll_dashes a hdashes, addWords, addWords, addWords, List.append_assoc]
  | case3 a arg rest hdashes fault hadd => cases h
  | case4 a arg hdashes next rest hadd ih => exact (addAll_cons hdashes hadd _).trans (ih h)
  | case5 a arg hdashes next name hadd => cases h
  | case6 a arg hdashes next name value rest hadd ih =>
    exact (addAll_cons_cons hdashes hadd value _).trans (ih h)

theorem positional_addWords (a : Arguments) {text : String} (h : isUnknownOption text = false) :
    (a.addWords [text]).positional = a.positional ++ [text] := by
  simp [positional, addWords, List.filter_append, h]

theorem not_isUnknownOption_of_entryPoint {a : Arguments} {text : String}
    (h : a.entryPoint = some text) : isUnknownOption text = false := by
  have hmem : text ∈ a.positional := List.mem_of_mem_tail (List.mem_of_head? h)
  simpa using (List.mem_filter.mp hmem).2

/-- Behind words that name the directory alone, a further word becomes the entry point. -/
theorem addWords_of_directory {a : Arguments} {dir text : String} (hdir : a.positional = [dir])
    (htext : isUnknownOption text = false) :
    (a.addWords [text]).directory = dir ∧ (a.addWords [text]).entryPoint = some text := by
  have hwords : (a.addWords [text]).positional = [dir, text] := by
    rw [positional_addWords a htext, hdir, List.singleton_append]
  rw [directory, entryPoint, hwords]
  exact ⟨rfl, rfl⟩

/-- A reader of the command line leaves over a word at the end, behind what it leaves over without it,
and changes nothing else. -/
def KeepsWord (parse : List String → Except UsageFault Arguments) : Prop :=
  ∀ args a text, parse args = .ok a → isUnknownOption text = false →
    parse (args ++ [text]) = .ok (a.addWords [text])

theorem keepsWord_parse : KeepsWord parse := fun _ _ _ h htext => addAll_concat htext h

end Arguments
end CommandLine
end ModuleAudit
