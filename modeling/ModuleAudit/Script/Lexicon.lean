import Std.Data.HashMap
import ModuleAudit.Grammar.Parse
import ModuleAudit.Script.Contextual
import ModuleAudit.Script.Lexeme

/-
The tokens of a dialect by their numbers, and how the next one is read off a text.

Only tokens that are expected are considered.  Of those that match, the one of the highest class
is taken, then the longest, then one that is given by its text.  Words are read as names first; a
name that is also an expected keyword is that keyword, and a reserved word is one wherever not
every name is allowed.
-/

namespace ModuleAudit
namespace Script

open Grammar (TokenSet)

/-- A token that is a class of texts. -/
structure TokenClass where
  number : Nat
  /-- The number of characters at the front of a text that belong to the token. -/
  length : List Char → Nat
  /-- No blanks may stand in front. -/
  immediate : Bool
  /-- Matches of a higher class are taken first, however long others are. -/
  precedence : Nat

/-- How a token is written that is a class of texts: its length, whether it stands without blanks
in front, and its precedence. -/
def Token.spelling? : Token → Option ((List Char → Nat) × Bool × Nat)
  | .doubleFragment => some (Lexeme.fragment '"', true, 2)
  | .singleFragment => some (Lexeme.fragment '\'', true, 2)
  | .doubleAttributeFragment => some (Lexeme.attributeFragment '"', true, 2)
  | .singleAttributeFragment => some (Lexeme.attributeFragment '\'', true, 2)
  | .regexClose => some (fun cs => if cs.head? == some '/' then 1 else 0, true, 2)
  | .regexFlags => some (Lexeme.regexFlags, true, 1)
  | .escape => some (Lexeme.escape, true, 1)
  | .name => some (Lexeme.name, false, 1)
  | .privateName => some (Lexeme.privateName, false, 1)
  | .number => some (Lexeme.number, false, 1)
  | .interpreterLine => some (Lexeme.interpreterLine, false, 1)
  | .comment => some (Lexeme.comment, false, 1)
  | .hyphenatedName => some (Lexeme.hyphenatedName, false, 1)
  | .characterReference => some (Lexeme.characterReference, false, 1)
  | .staticGetter => some (Lexeme.staticGetter, false, 1)
  | .regexPattern => some (Lexeme.regexPattern, true, 0)
  | _ => none

structure Lexicon where
  dialect : Dialect
  numbers : Std.HashMap Token Nat
  /-- The tokens that are words, by their text. -/
  keywords : Std.HashMap String Nat
  keywordSet : TokenSet
  reserved : TokenSet
  /-- All other tokens that are given by their text, the longest first. -/
  operators : List (List Char × Nat)
  /-- Classes of texts.  Of two matches of one length the earlier class is taken. -/
  classes : List TokenClass

namespace Lexicon

/-- A text that could be a name. -/
def isWord (text : String) : Bool := text.toList.all isNamePart

def ofTokens (dialect : Dialect) (tokens : Array Token) (reserved : TokenSet) : Lexicon :=
  let numbered := tokens.toList.zipIdx
  let texts := numbered.filterMap fun (token, n) =>
    match token with
    | .text text => some (text, n)
    | _ => none
  let words := texts.filter fun (text, _) => isWord text
  let operators := (texts.filter fun (text, _) => !isWord text).mergeSort
    fun (s, _) (t, _) => t.length ≤ s.length
  let classes := numbered.filterMap fun (token, n) =>
    token.spelling?.map fun (length, immediate, precedence) => ⟨n, length, immediate, precedence⟩
  { dialect
    numbers := .ofList numbered
    keywords := .ofList words
    keywordSet := .ofList (words.map (·.2))
    reserved
    operators := operators.map fun (text, n) => (text.toList, n)
    -- Flags go before names, which may be spelt alike.
    classes := classes.filter (·.immediate) ++ classes.filter (!·.immediate) }

/-- Whether a token is among those expected. -/
def expects (lexicon : Lexicon) (expected : TokenSet) (token : Token) : Bool :=
  lexicon.numbers[token]?.any expected.contains

/-- What the tokens that go first depend on. -/
def outlook (lexicon : Lexicon) (expected : TokenSet) : Contextual.Expected :=
  let expects := lexicon.expects expected
  { templateFragment := expects .templateFragment
    elementText := expects .elementText
    automaticSemicolon := expects .automaticSemicolon
    signatureSemicolon := expects .signatureSemicolon
    choiceMark := expects .choiceMark
    markupComment := expects .markupComment
    operator := expects (.text "||")
    literal := expects .escape || expects .regexPattern }

/-- A token that matches: its number, precedence and length, and whether it stands without blanks
in front. -/
structure Match where
  number : Nat
  precedence : Nat
  length : Nat
  immediate : Bool

/-- The end of a match from the last token on, `blanks` lying between. -/
def Match.stop (blanks : Nat) (m : Match) : Nat :=
  if m.immediate then m.length else blanks + m.length

/-- The new match if it is better than the one known, else the one known. -/
def better (blanks : Nat) (known : Option Match) (m : Match) : Option Match :=
  match known with
  | none => some m
  | some k =>
    if k.precedence < m.precedence ||
        (k.precedence == m.precedence && k.stop blanks < m.stop blanks) then some m
    else some k

/-- The best match among the classes of texts. -/
def classMatch (lexicon : Lexicon) (expected : TokenSet) (blanks : Nat) (cs body : List Char) :
    Option Match :=
  lexicon.classes.foldl (fun known c =>
    if expected.contains c.number ||
        (c.number == Grammar.Automaton.name && expected.meets lexicon.keywordSet) then
      let length := c.length (if c.immediate then cs else body)
      if length == 0 then known else better blanks known ⟨c.number, c.precedence, length, c.immediate⟩
    else known) none

/-- The longest operator at the front of a text. -/
def operatorMatch (lexicon : Lexicon) (expected : TokenSet) (body : List Char) : Option Match := do
  let (text, n) ← lexicon.operators.find? fun (text, n) =>
    expected.contains n && text.isPrefixOf body
  return ⟨n, 1, text.length, false⟩

/-- The operator, unless the other match is better. -/
def preferred (blanks : Nat) (operator other : Option Match) : Option Match :=
  match operator with
  | none => other
  | some m => better blanks (some m) (other.getD m)

/-- The token that a name is. -/
def wordToken (lexicon : Lexicon) (expected : TokenSet) (word : String) : Option Nat := do
  let n ← lexicon.keywords[word]?
  if expected.contains n ||
      (lexicon.reserved.contains n && !expected.contains Grammar.Automaton.anyName) then
    return n
  none

/-- The next token of a text, among those expected. -/
def lex (lexicon : Lexicon) (expected : TokenSet) (cs : List Char) : Option Grammar.Lexeme :=
  match Contextual.token? lexicon.dialect (lexicon.outlook expected) cs with
  | some found =>
    let body := cs.drop found.lead
    lexicon.numbers[found.token]?.map fun n =>
      ⟨n, cs.take found.lead, body.take found.length, body.drop found.length, false⟩
  | none =>
    let lead := cs.takeWhile isBlank
    let body := cs.dropWhile isBlank
    let blanks := lead.length
    match preferred blanks (lexicon.operatorMatch expected body)
        (lexicon.classMatch expected blanks cs body) with
    | none => if body.isEmpty then some ⟨Grammar.Automaton.finish, lead, [], [], false⟩ else none
    | some m =>
      let (lead, body) := if m.immediate then ([], cs) else (lead, body)
      let text := body.take m.length
      let keyword :=
        if m.number == Grammar.Automaton.name then
          lexicon.wordToken expected (String.ofList text)
        else none
      some ⟨keyword.getD m.number, lead, text, body.drop m.length, keyword.isSome⟩

end Lexicon
end Script
end ModuleAudit
