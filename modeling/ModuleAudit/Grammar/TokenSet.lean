/-
Sets of tokens.

The tokens of a grammar are numbered, and a set of them is kept as bits in four machine words, so
a grammar may have at most 256 tokens.  Larger numbers are in no set.
-/

namespace ModuleAudit
namespace Grammar

structure TokenSet where
  low : UInt64
  second : UInt64
  third : UInt64
  high : UInt64
  deriving DecidableEq, Repr

namespace TokenSet

def empty : TokenSet := ⟨0, 0, 0, 0⟩

instance : Inhabited TokenSet := ⟨empty⟩

/-- The word with only bit `n` set, for `n` below 64. -/
def bit (n : Nat) : UInt64 := (1 : UInt64) <<< n.toUInt64

def single (n : Nat) : TokenSet :=
  if n < 64 then ⟨bit n, 0, 0, 0⟩
  else if n < 128 then ⟨0, bit (n - 64), 0, 0⟩
  else if n < 192 then ⟨0, 0, bit (n - 128), 0⟩
  else if n < 256 then ⟨0, 0, 0, bit (n - 192)⟩
  else empty

def union (s t : TokenSet) : TokenSet :=
  ⟨s.low ||| t.low, s.second ||| t.second, s.third ||| t.third, s.high ||| t.high⟩

def insert (s : TokenSet) (n : Nat) : TokenSet := s.union (single n)

def contains (s : TokenSet) (n : Nat) : Bool :=
  if n < 64 then s.low &&& bit n != 0
  else if n < 128 then s.second &&& bit (n - 64) != 0
  else if n < 192 then s.third &&& bit (n - 128) != 0
  else if n < 256 then s.high &&& bit (n - 192) != 0
  else false

/-- The two sets have a token in common. -/
def meets (s t : TokenSet) : Bool :=
  (s.low &&& t.low) ||| (s.second &&& t.second) ||| (s.third &&& t.third) ||| (s.high &&& t.high)
    != 0

def ofList (ns : List Nat) : TokenSet := ns.foldl insert empty

end TokenSet
end Grammar
end ModuleAudit
