import ModuleAudit.Script.Language
import ModuleAudit.Script.Lexicon
import ModuleAudit.Script.Tree

/-
Whole script files.

The automaton and the lexicon of each dialect are constants of the library, worked out when a file
of the dialect is first read.
-/

namespace ModuleAudit
namespace Script

/-- What it takes to read files of a dialect. -/
structure Reader where
  automaton : Grammar.Automaton Token Construct Level
  lexicon : Lexicon

namespace Reader

def ofDialect (dialect : Dialect) : Reader :=
  let automaton := Grammar.Automaton.ofLanguage dialect.language
  ⟨automaton, .ofTokens dialect automaton.tokens automaton.reserved⟩

/-- The tree of a text, or none if it has a syntax error. -/
def parse (reader : Reader) (text : List Char) : Option Tree :=
  reader.automaton.parse reader.lexicon.lex text

def javascript : Thunk Reader := Thunk.mk fun _ => ofDialect .javascript

def typescript : Thunk Reader := Thunk.mk fun _ => ofDialect .typescript

def tsx : Thunk Reader := Thunk.mk fun _ => ofDialect .tsx

end Reader

/-- The reader of a dialect. -/
def Dialect.reader : Dialect → Reader
  | .javascript => Reader.javascript.get
  | .typescript => Reader.typescript.get
  | .tsx => Reader.tsx.get

namespace Program

/-- The syntax tree of a file, or none if it has a syntax error. -/
def parse (dialect : Dialect) (source : String) : Option Tree :=
  dialect.reader.parse source.toList

end Program
end Script
end ModuleAudit
