import ModuleAudit.Text.Word

/-
Text patterns with an order of preference.

A pattern can match at one place in several ways.  They are ranked: the first branch of a choice
before the second, a longer run before a shorter one, or the other way round for a run that is
marked so.  A sequence takes the best way of its first part for which its second part matches.
`Pattern.find?` hands each end of a match, best first, to a continuation until one is accepted.
-/

namespace ModuleAudit

inductive Pattern where
  /-- Matches without reading anything. -/
  | nothing
  | literal (text : List Char)
  /-- One character of a class. -/
  | one (p : Char → Bool)
  /-- Characters of a class, at least `least` of them, as many as possible. -/
  | most (least : Nat) (p : Char → Bool)
  /-- Characters of a class, at least `least` of them, as few as possible. -/
  | fewest (least : Nat) (p : Char → Bool)
  | sequence (first second : Pattern)
  | choice (first second : Pattern)
  /-- Keeps the text that the inner pattern matched. -/
  | capture (inner : Pattern)
  /-- A place between a word character and one that is none. -/
  | boundary
  /-- The end of the text, or the place before a newline that ends it. -/
  | finish

namespace Pattern

/-- A place in a text: what was read last, what comes next, and the text captured on the way. -/
structure Spot where
  offset : Nat
  before : Option Char
  rest : List Char
  captured : List Char

namespace Spot

def start (text : List Char) : Spot := { offset := 0, before := none, rest := text, captured := [] }

/-- The spot after the next character, if that has the property. -/
def next? (p : Char → Bool) (s : Spot) : Option Spot :=
  match s.rest with
  | [] => none
  | c :: cs =>
    if p c then some { s with offset := s.offset + 1, before := some c, rest := cs } else none

/-- The spots reached by reading characters of a class one by one, the last of them first.
`passed` holds the spots already reached, last first. -/
def runFrom (p : Char → Bool) (passed : List Spot) (offset : Nat) (captured : List Char) :
    List Char → List Spot
  | [] => passed
  | c :: cs =>
    if p c then
      let spot := { offset := offset + 1, before := some c, rest := cs, captured }
      runFrom p (spot :: passed) (offset + 1) captured cs
    else passed

/-- All spots that a run of characters of a class can end at, the longest run first. -/
def run (p : Char → Bool) (s : Spot) : List Spot :=
  runFrom p [s] s.offset s.captured s.rest

/-- The word status changes here. -/
def atBoundary (s : Spot) : Bool :=
  s.before.any Text.isWord != s.rest.head?.any Text.isWord

def atFinish (s : Spot) : Bool := s.rest.isEmpty || s.rest == ['\n']

/-- The characters read since `s`. -/
def since (s now : Spot) : List Char := s.rest.take (now.offset - s.offset)

end Spot

/-- The spot after a literal text. -/
def readLiteral : List Char → Spot → Option Spot
  | [], s => some s
  | c :: cs, s => (s.next? (· == c)).bind (readLiteral cs)

/-- Tries the continuation `k` at the ends of matches from a spot, best match first. -/
def find? {β : Type} : Pattern → (Spot → Option β) → Spot → Option β
  | nothing, k, s => k s
  | literal text, k, s => (readLiteral text s).bind k
  | one p, k, s => (s.next? p).bind k
  | most least p, k, s =>
    (s.run p).findSome? fun e => if s.offset + least ≤ e.offset then k e else none
  | fewest least p, k, s =>
    (s.run p).reverse.findSome? fun e => if s.offset + least ≤ e.offset then k e else none
  | sequence first second, k, s => first.find? (second.find? k) s
  | choice first second, k, s =>
    match first.find? k s with
    | some found => some found
    | none => second.find? k s
  | capture inner, k, s => inner.find? (fun e => k { e with captured := s.since e }) s
  | boundary, k, s => if s.atBoundary then k s else none
  | finish, k, s => if s.atFinish then k s else none

/-! ## Composite patterns -/

def all (parts : List Pattern) : Pattern := parts.foldr sequence nothing

def oneOf : List Pattern → Pattern
  | [] => one fun _ => false
  | [p] => p
  | p :: ps => choice p (oneOf ps)

/-- The pattern, or nothing where it cannot match. -/
def optional (p : Pattern) : Pattern := choice p nothing

def text (s : String) : Pattern := literal s.toList

/-! ## Searching -/

/-- Where a pattern matched, and the text it captured. -/
structure Found where
  first : Nat
  last : Nat
  captured : List Char

/-- The best match at a spot. -/
def matchAt (p : Pattern) (s : Spot) : Option Found :=
  p.find? (fun e => some { first := s.offset, last := e.offset, captured := e.captured }) s

/-- The first match from a place on. -/
def searchFrom (p : Pattern) (offset : Nat) (before : Option Char) : List Char → Option Found
  | [] => p.matchAt { offset, before, rest := [], captured := [] }
  | c :: cs =>
    match p.matchAt { offset, before, rest := c :: cs, captured := [] } with
    | some found => some found
    | none => searchFrom p (offset + 1) (some c) cs

/-- The first match in a text. -/
def search? (p : Pattern) (text : List Char) : Option Found := p.searchFrom 0 none text

def isFound (p : Pattern) (text : List Char) : Bool := (p.search? text).isSome

/-- The matches from a place on, after `skip` more characters. -/
def matchesFrom (p : Pattern) (offset : Nat) (before : Option Char) (skip : Nat) :
    List Char → List Found
  | [] => []
  | c :: cs =>
    match skip with
    | skip + 1 => matchesFrom p (offset + 1) (some c) skip cs
    | 0 =>
      match p.matchAt { offset, before, rest := c :: cs, captured := [] } with
      | some found =>
        found :: matchesFrom p (offset + 1) (some c) (found.last - offset - 1) cs
      | none => matchesFrom p (offset + 1) (some c) 0 cs

/-- All matches in a text, from left to right, none overlapping another.  Matches of the empty
text after the last character are left out. -/
def allMatches (p : Pattern) (text : List Char) : List Found := p.matchesFrom 0 none 0 text

end Pattern
end ModuleAudit
