/-
Coloured text on a terminal.

A style is switched on by control sequences before the text and switched off after it.  Where no
colours are wanted, every control sequence is taken out of the text again.
-/

namespace ModuleAudit
namespace CommandLine

inductive Style where
  | red
  | green
  | yellow
  | blue
  | magenta
  | cyan
  | bold
  | dim
  deriving DecidableEq, Repr

namespace Style

def code : Style → Nat
  | bold => 1
  | dim => 2
  | red => 31
  | green => 32
  | yellow => 33
  | blue => 34
  | magenta => 35
  | cyan => 36

/-- The control sequence with a number. -/
def sequence (n : Nat) : String := "\x1b[" ++ toString n ++ "m"

/-- A text in some styles. -/
def paint (styles : List Style) (text : String) : String :=
  String.join (styles.map fun s => sequence s.code) ++ text ++ sequence 0

end Style

/-! ## Plain text -/

/-- A character between the bracket and the letter of a control sequence. -/
def isParameter (c : Char) : Bool := c.isDigit || c == ';' || c == '?'

/-- What follows a control sequence after its bracket, unless the sequence has no final letter. -/
def afterParameters : List Char → Option (List Char)
  | [] => none
  | c :: rest =>
    if isParameter c then afterParameters rest
    else if c.isAlpha then some rest
    else none

theorem length_lt_of_afterParameters {cs rest : List Char} (h : afterParameters cs = some rest) :
    rest.length < cs.length := by
  induction cs with
  | nil => cases h
  | cons c cs ih =>
    rw [afterParameters] at h
    split at h
    · have := ih h
      simp only [List.length_cons]
      omega
    · split at h
      · cases h
        simp only [List.length_cons]
        omega
      · cases h

/-- The characters outside control sequences. -/
def plainChars : List Char → List Char
  | [] => []
  | '\x1b' :: '[' :: rest =>
    match h : afterParameters rest with
    | some after =>
      have := length_lt_of_afterParameters h
      plainChars after
    | none => '\x1b' :: plainChars ('[' :: rest)
  | c :: rest => c :: plainChars rest
termination_by cs => cs.length
decreasing_by
  all_goals
    simp only [List.length_cons]
    omega

def plain (text : String) : String := String.ofList (plainChars text.toList)

end CommandLine
end ModuleAudit
