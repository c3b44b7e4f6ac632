import ModuleAudit.Script.Semicolon
import ModuleAudit.Script.Token

/-
Tokens that depend on what is expected.

The text of a template or between elements, a supplied semicolon, the question mark of a choice
and a comment in the manner of markup are looked for before all other tokens, and only where they
are expected.
-/

namespace ModuleAudit
namespace Script
namespace Contextual

/-- What is expected at a point of the text, as far as the tokens here depend on it. -/
structure Expected where
  templateFragment : Bool
  elementText : Bool
  automaticSemicolon : Bool
  signatureSemicolon : Bool
  choiceMark : Bool
  markupComment : Bool
  /-- An operator. -/
  operator : Bool
  /-- The inside of a string or of a regular expression. -/
  literal : Bool
  deriving DecidableEq, Repr

/-- A token and the number of characters in front of it and in it. -/
structure Found where
  token : Token
  lead : Nat
  length : Nat
  deriving DecidableEq, Repr

/-- The number of characters of a template, `n` of which have been read, up to its end, a
substitution or an escape.  Zero if the text ends first. -/
def templateFrom (n : Nat) : List Char → Nat
  | [] => 0
  | '`' :: _ => n
  | '\\' :: _ => n
  | '$' :: '{' :: _ => n
  | c :: cs => if isOver c then 0 else templateFrom (n + 1) cs

/-- The number of characters between elements, `n` of which have been read.  Zero if there is only
a line break with the blanks behind it; `broken` if that is all so far, and `solid` if there is
more. -/
def elementTextFrom (n : Nat) (broken solid : Bool) : List Char → Nat
  | [] => if solid then n else 0
  | c :: cs =>
    if isOver c || ['<', '>', '{', '}', '&'].contains c then if solid then n else 0
    else
      let stillBroken := c == '\n' || (broken && isPlainBlank c)
      elementTextFrom (n + 1) stillBroken (solid || !stillBroken) cs

/-- Whether a question mark, given what follows it, belongs to a choice between expressions, and
not to an operator or to an optional parameter. -/
def opensChoice (dialect : Dialect) : List Char → Bool
  | '?' :: _ => false
  | '.' :: cs => cs.head?.any Char.isDigit
  | cs =>
    match cs.dropWhile isPlainBlank with
    | '.' :: rest => !dialect.typed || rest.head?.any Char.isDigit
    | c :: _ => !(dialect.typed && [':', ')', ','].contains c)
    | [] => true

/-- The question mark of a choice, `passed` characters behind. -/
def choiceMark? (dialect : Dialect) (passed : Nat) (cs : List Char) : Option Found :=
  let blanks := cs.takeWhile isPlainBlank
  match cs.dropWhile isPlainBlank with
  | '?' :: rest =>
    if opensChoice dialect rest then some ⟨.choiceMark, passed + blanks.length, 1⟩ else none
  | _ => none

def markupComment? (cs : List Char) : Option Found :=
  let blanks := cs.takeWhile isPlainBlank
  let body := cs.dropWhile isPlainBlank
  if "<!--".toList.isPrefixOf body || "-->".toList.isPrefixOf body then
    let line := body.takeWhile fun c => !isLineEnd c && !isOver c
    some ⟨.markupComment, blanks.length, line.length⟩
  else none

/-- A supplied semicolon, or the mark of a choice if that is what stands in its place. -/
def semicolon? (dialect : Dialect) (e : Expected) (cs : List Char) : Option Found :=
  match Semicolon.outcome dialect ⟨e.operator, e.signatureSemicolon⟩ cs with
  | .supplied => some ⟨.automaticSemicolon, 0, 0⟩
  | .refused next commented =>
    if !commented && e.choiceMark && next.head? == some '?' then
      choiceMark? dialect (cs.length - next.length) next
    else none

/-- The token at the front of a text, if it is one of those that go first. -/
def token? (dialect : Dialect) (e : Expected) (cs : List Char) : Option Found :=
  if e.templateFragment then
    let length := templateFrom 0 cs
    if e.automaticSemicolon || length == 0 then none else some ⟨.templateFragment, 0, length⟩
  else
    let length := if e.elementText then elementTextFrom 0 false false cs else 0
    if 0 < length then some ⟨.elementText, 0, length⟩
    else if e.automaticSemicolon || e.signatureSemicolon then semicolon? dialect e cs
    else if e.choiceMark then choiceMark? dialect 0 cs
    else if e.markupComment && !e.operator && !e.literal then markupComment? cs
    else none

end Contextual
end Script
end ModuleAudit
