/-
Glob patterns for names.

A star stands for any text, a question mark for any character, and brackets for one character of
a set, or with an exclamation mark for one that is not in it.  A bracket that is never closed
stands for itself.  There are no escapes.
-/

namespace ModuleAudit

namespace Glob

/-- What a part of a name has to be. -/
inductive Item where
  /-- Any text, also an empty one. -/
  | star
  | any
  | char (c : Char)
  /-- A character in one of the ranges, or in none of them if `negated`. -/
  | set (negated : Bool) (ranges : List (Char × Char))
  deriving DecidableEq, Repr

/-! ## Sets -/

/-- The number of characters at the start of a set that cannot close it: the mark of a negated
set, and a bracket that comes first. -/
def setStart : List Char → Nat
  | '!' :: ']' :: _ => 2
  | '!' :: _ => 1
  | ']' :: _ => 1
  | _ => 0

/-- The text of a set up to its closing bracket, and what follows it. -/
def setText? (cs : List Char) : Option (List Char × List Char) :=
  match (cs.drop (setStart cs)).dropWhile (· != ']') with
  | [] => none
  | _ :: after => some (cs.take (cs.length - after.length - 1), after)

theorem length_setText? {cs inner after : List Char} (h : setText? cs = some (inner, after)) :
    after.length < cs.length := by
  have short : _ ≤ (cs.drop (setStart cs)).length :=
    (List.dropWhile_sublist (· != ']')).length_le
  unfold setText? at h
  split at h
  · simp at h
  · next found =>
    rw [found] at short
    simp only [Option.some.injEq, Prod.mk.injEq] at h
    simp only [List.length_cons, List.length_drop] at short
    rw [← h.2]
    omega

/-- Cuts the text of a set at the hyphens that make ranges.  `skip` characters are passed before
a hyphen can be one: the start of the first range, and after that the end of a range and the
character behind it.  `piece` collects characters, last first. -/
def cut (skip : Nat) (piece : List Char) : List Char → List (List Char)
  | [] => [piece.reverse]
  | c :: cs =>
    match skip with
    | skip + 1 => cut skip (c :: piece) cs
    | 0 => if c == '-' then piece.reverse :: cut 2 [] cs else cut 0 (c :: piece) cs

/-- A hyphen at the very end belongs to the piece before it. -/
def closeLast : List (List Char) → List (List Char)
  | [piece, []] => [piece ++ ['-']]
  | piece :: rest => piece :: closeLast rest
  | [] => []

/-- Takes out a range that runs backwards, together with its ends. -/
def joinRange (piece : List Char) : List (List Char) → List (List Char)
  | [] => [piece]
  | next :: rest =>
    match piece.getLast?, next.head? with
    | some low, some high =>
      if high < low then (piece.dropLast ++ next.tail) :: rest else piece :: next :: rest
    | _, _ => piece :: next :: rest

/-- The pieces as one list of characters, with `none` for the hyphens between them. -/
def members (pieces : List (List Char)) : List (Option Char) :=
  [none].intercalate (pieces.map (·.map some))

/-- The ranges of a set; a character by itself is a range of one. -/
def ranges : List (Option Char) → List (Char × Char)
  | some a :: none :: some b :: rest => (a, b) :: ranges rest
  | some a :: rest => (a, a) :: ranges rest
  | none :: rest => ('-', '-') :: ranges rest
  | [] => []

/-- The set that the text between the brackets describes. -/
def setItem (text : List Char) : Item :=
  let pieces := closeLast (cut (if text.head? == some '!' then 2 else 1) [] text)
  match members (pieces.foldr joinRange []) with
  | some '!' :: rest => .set true (ranges rest)
  | rest => .set false (ranges rest)

/-! ## Patterns -/

/-- The items of a pattern. -/
def parse (cs : List Char) : List Item :=
  match cs with
  | [] => []
  | '*' :: rest => .star :: parse rest
  | '?' :: rest => .any :: parse rest
  | '[' :: rest =>
    match h : setText? rest with
    | none => .char '[' :: parse rest
    | some (text, after) =>
      have := length_setText? h
      setItem text :: parse after
  | c :: rest => .char c :: parse rest
termination_by cs.length

namespace Item

/-- Whether an item that stands for one character stands for `c`. -/
def accepts (c : Char) : Item → Bool
  | star => false
  | any => true
  | char d => c == d
  | set negated ranges => ranges.any (fun (low, high) => low ≤ c && c ≤ high) != negated

end Item

/-- Whether a whole name fits the items. -/
def fits (items : List Item) (cs : List Char) : Bool :=
  match items, cs with
  | [], cs => cs.isEmpty
  | .star :: items, [] => fits items []
  | .star :: items, c :: cs => fits items (c :: cs) || fits (.star :: items) cs
  | item :: items, c :: cs => item.accepts c && fits items cs
  | _ :: _, [] => false
termination_by items.length + cs.length

end Glob

/-- Whether a name matches a glob pattern as a whole. -/
def Glob.matches (pattern name : String) : Bool := fits (parse pattern.toList) name.toList

end ModuleAudit
