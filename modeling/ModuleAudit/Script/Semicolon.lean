import ModuleAudit.Script.Dialect
import ModuleAudit.Script.Character

/-
Automatic semicolons: where a statement may end without one being written.

The decision looks only at the text that follows the last token.  A statement ends at the end of
the text, before a closing brace, and at a line break whose next token does not continue the
statement.  Which tokens continue it depends on the dialect and on what could come next instead:
an operator, or the body of a function.  A zero character counts as the end of the text.
-/

namespace ModuleAudit
namespace Script

/-- A zero character stands for the end of the text. -/
def isOver (c : Char) : Bool := c == '\x00'

namespace Semicolon

/-- What could follow the last token instead of a semicolon. -/
structure Outlook where
  /-- A binary operator. -/
  operator : Bool
  /-- The body of a function. -/
  body : Bool
  deriving DecidableEq, Repr

/-- The decision about a semicolon. -/
inductive Outcome where
  | supplied
  /-- No semicolon.  `next` is the text at which this was clear, and `commented` says whether a
  comment stands in front of it. -/
  | refused (next : List Char) (commented : Bool)
  deriving DecidableEq, Repr

theorem length_dropWhile_le (p : Char → Bool) (cs : List Char) :
    (cs.dropWhile p).length ≤ cs.length :=
  (List.dropWhile_sublist p).length_le

/-- What follows a block comment, given the text after its opening, and whether the comment has a
line break in it.  A comment that is not closed reaches to the end of the text. -/
def afterBlock (broken : Bool) : List Char → List Char × Bool
  | [] => ([], true)
  | '*' :: '/' :: cs => (cs, broken)
  | c :: cs => if isOver c then (c :: cs, true) else afterBlock (broken || isLineEnd c) cs

theorem length_afterBlock_le (broken : Bool) (cs : List Char) :
    (afterBlock broken cs).1.length ≤ cs.length := by
  fun_induction afterBlock broken cs with
  | case1 => exact Nat.le_refl _
  | case2 _ cs => simp only [List.length_cons]; omega
  | case3 => exact Nat.le_refl _
  | case4 _ c cs _ _ ih => simp only [List.length_cons]; omega

/-- The text behind blanks and comments. -/
structure Gap where
  next : List Char
  commented : Bool
  /-- The gap was read to its end, or a block comment in it has a line break. -/
  broken : Bool
  /-- A slash that opens no comment lies behind. -/
  slash : Bool
  deriving DecidableEq, Repr

/-- Skips plain blanks and comments.  If `pausing`, the gap ends early at a block comment that no
slash follows. -/
def skipGap (lineEnd : Char → Bool) (pausing commented broken : Bool) (cs : List Char) : Gap :=
  match _split : cs.dropWhile isPlainBlank with
  | '/' :: '/' :: rest =>
    have := length_dropWhile_le isPlainBlank cs
    have := length_dropWhile_le (fun c => !lineEnd c && !isOver c) rest
    skipGap lineEnd pausing true broken (rest.dropWhile fun c => !lineEnd c && !isOver c)
  | '/' :: '*' :: rest =>
    have := length_dropWhile_le isPlainBlank cs
    have := length_afterBlock_le broken rest
    let block := afterBlock broken rest
    if pausing && block.1.head? != some '/' then ⟨block.1, true, block.2, false⟩
    else skipGap lineEnd pausing true block.2 block.1
  | '/' :: rest => ⟨rest, commented, broken, true⟩
  | rest => ⟨rest, commented, true, false⟩
termination_by cs.length
decreasing_by all_goals simp_all only [List.length_cons]; omega

theorem length_next_skipGap_le (lineEnd : Char → Bool) (pausing commented broken : Bool)
    (cs : List Char) : (skipGap lineEnd pausing commented broken cs).next.length ≤ cs.length := by
  fun_induction skipGap lineEnd pausing commented broken cs <;>
    simp_all only [List.length_cons] <;> grind [length_dropWhile_le, length_afterBlock_le]

/-- Letters, as far as telling `in` and `instanceof` from longer names. -/
def isLetter (c : Char) : Bool := c.isAlpha || (0x80 ≤ c.toNat && isNamePart c)

/-- The text goes on with the operator `in` or `instanceof`, given what follows its first letter.
Yields what follows the operator. -/
def afterIn : List Char → Option (List Char)
  | 'n' :: rest =>
    let word := "stanceof".toList
    if !rest.head?.any isLetter then some rest
    else if word.isPrefixOf rest && !(rest.drop word.length).head?.any isLetter then
      some (rest.drop word.length)
    else none
  | _ => none

/-- What the first token of a new line decides: whether it leaves the statement of the line before
complete. -/
def atLine (dialect : Dialect) (outlook : Outlook) (commented : Bool) (cs : List Char) : Outcome :=
  let supplyIf (b : Bool) (next : List Char) : Outcome :=
    if b then .supplied else .refused next commented
  match cs with
  | [] => .supplied
  | '+' :: rest => supplyIf (rest.head? == some '+') rest
  | '-' :: rest => supplyIf (rest.head? == some '-') rest
  | '!' :: rest => supplyIf (rest.head? != some '=') rest
  | '.' :: rest => supplyIf (!dialect.typed && rest.head?.any Char.isDigit) rest
  | 'i' :: rest =>
    match afterIn rest with
    | some next => .refused next commented
    | none => .supplied
  | c :: _ =>
    let continues :=
      if c == '{' then dialect.typed && outlook.body
      else if c == '(' || c == '[' then !dialect.typed || outlook.operator
      else "`,:;*%><=?^|&/".toList.contains c
    supplyIf (!continues) cs

/-- What a line break decides, given the text behind it. -/
def afterLine (dialect : Dialect) (outlook : Outlook) (commented : Bool) (cs : List Char) :
    Outcome :=
  let lineEnd := if dialect.typed then (· == '\n') else isLineEnd
  let gap := skipGap lineEnd false commented false cs
  if gap.slash then .refused gap.next gap.commented
  else atLine dialect outlook gap.commented gap.next

/-- The comments at the front of a text and the blanks between them. -/
def leadingComments (commented : Bool) (cs : List Char) : Gap :=
  if cs.head? == some '/' then skipGap isLineEnd true commented false cs
  else ⟨cs, commented, false, false⟩

theorem length_next_leadingComments_le (commented : Bool) (cs : List Char) :
    (leadingComments commented cs).next.length ≤ cs.length := by
  unfold leadingComments
  split
  · exact length_next_skipGap_le ..
  · exact Nat.le_refl _

/-- The rule of the untyped dialect.  A comment on the line of the last token ends the statement
if a line break is passed with it, unless an operator could follow. -/
def untyped (outlook : Outlook) (commented : Bool) (cs : List Char) : Outcome :=
  let gap := leadingComments commented cs
  if cs.head?.all isOver then .supplied
  else if gap.slash then .refused gap.next gap.commented
  else if gap.broken && !outlook.operator && !gap.next.head?.any [',', '='].contains then
    .supplied
  else
    match _next : gap.next with
    | '}' :: _ => .supplied
    | c :: rest =>
      have := length_next_leadingComments_le commented cs
      if isLineEnd c then afterLine .javascript outlook gap.commented rest
      else if isPlainBlank c then untyped outlook gap.commented rest
      else .refused (c :: rest) gap.commented
    | [] => .refused [] gap.commented
termination_by cs.length
decreasing_by simp_all only [gap, List.length_cons]; omega

/-- The rule of the typed dialects.  Before a brace that a colon follows, a statement ends only
where an operator could follow: the brace may close the pattern of an annotated parameter. -/
def typed (outlook : Outlook) : List Char → Outcome
  | [] => .supplied
  | '}' :: cs =>
    if (cs.dropWhile isPlainBlank).head? == some ':' && !outlook.operator then .refused cs false
    else .supplied
  | c :: cs =>
    if isOver c then .supplied
    else if c == '\n' then afterLine .typescript outlook false cs
    else if isPlainBlank c then typed outlook cs
    else .refused (c :: cs) false

/-- Decides on a semicolon in front of `cs`, the text right after the last token. -/
def outcome (dialect : Dialect) (outlook : Outlook) (cs : List Char) : Outcome :=
  if dialect.typed then typed outlook cs else untyped outlook false cs

end Semicolon
end Script
end ModuleAudit
