import ModuleAudit.Grammar.Reading

/-
Parsing: following all readings of a text to its end.

The readings are taken forward in turn, each to the point of the text that the one before it has
come to, and then those that meet are joined.  A reading that admits no action at the next token
is given up.  The text is well formed if some reading reaches its end.
-/

namespace ModuleAudit
namespace Grammar

/-- A token of a text, with the blanks in front of it. -/
structure Lexeme where
  token : Nat
  lead : List Char
  text : List Char
  rest : List Char
  /-- A keyword, which may turn out to be a name. -/
  keyword : Bool

namespace Readings

variable {τ κ ρ : Type}

/-- Gives up the reading at place `version`. -/
def drop (r : Readings τ κ) (version : Nat) : Readings τ κ :=
  { r with tops := r.tops.modify version fun _ => none }

/-- Puts a token on the stack of the reading at place `version`. -/
def shift (a : Automaton τ κ ρ) [Inhabited τ] (r : Readings τ κ) (version top : Nat)
    (lexeme : Lexeme) (extra : Bool) : Readings τ κ :=
  let under := r.node top
  let symbol := Symbol.token lexeme.token
  let token := a.tokens.getD lexeme.token default
  let tree := Tree.leaf token (String.ofList lexeme.lead) (String.ofList lexeme.text)
  let (r, n) := r.push
    { state := if extra then under.state else under.state.next a symbol
      offset := under.offset + lexeme.lead.length + lexeme.text.length
      rest := lexeme.rest
      score := under.score
      links := [⟨symbol, extra, 0, tree, top⟩] }
  { r with tops := r.tops.modify version fun _ => some n }

/-- Moves the reading at place `made` to place `version`. -/
def replace (r : Readings τ κ) (version made : Nat) : Readings τ κ :=
  let top := r.tops.getD made none
  { r with tops := (r.tops.modify version fun _ => top).eraseIdxIfInBounds made }

variable [DecidableEq τ] [DecidableEq κ] [DecidableEq ρ]

/-- Carries out the closings among some actions.  Yields the place of the first reading that the
last of them made, and whether there were any. -/
def closeAll (a : Automaton τ κ ρ) (r : Readings τ κ) (version top : Nat) (actions : List Action) :
    Readings τ κ × Option Nat × Bool :=
  actions.foldl (fun (r, made, any) action =>
    match action with
    | .close construct length score =>
      if construct == 0 then (r.accept a top length, made, true)
      else
        let (r, new) := r.close a version top construct length score
        (r, new.or made, true)
    | _ => (r, made, any)) (r, none, false)

/-- A keyword that no rule admits here is a name, unless it is reserved. -/
def mayBeName (a : Automaton τ κ ρ) (s : State) (lexeme : Lexeme) : Bool :=
  lexeme.keyword && (!a.reserved.contains lexeme.token || s.admitsAnyName a) &&
    !(s.actions a Automaton.name).isEmpty

/-- Takes the reading at place `version` over the token `lexeme`. -/
def advance [Inhabited τ] (a : Automaton τ κ ρ) (version : Nat) :
    (room : Nat) → Lexeme → Readings τ κ → Readings τ κ
  | 0, _, r => r.drop version
  | room + 1, lexeme, r =>
    match r.tops.getD version none with
    | none => r
    | some top =>
      let state := (r.node top).state
      let actions := state.actions a lexeme.token
      let (r, made, closed) := r.closeAll a version top actions
      if actions.contains .shift then r.shift a version top lexeme false
      else if actions.contains .skip then r.shift a version top lexeme true
      else
        match made with
        | some n => advance a version room lexeme (r.replace version n)
        | none =>
          if !closed && mayBeName a state lexeme then
            advance a version room { lexeme with token := Automaton.name, keyword := false } r
          else r.drop version

/-- Takes the reading at place `version` forward until it has come to offset `reached`, or past it
if it is the first one.  Yields the offset that it came to. -/
def catchUp [Inhabited τ] (a : Automaton τ κ ρ) (lex : TokenSet → List Char → Option Lexeme)
    (version : Nat) : (room : Nat) → (reached : Nat) → Readings τ κ → Readings τ κ × Nat
  | 0, reached, r => (r.drop version, reached)
  | room + 1, reached, r =>
    match r.tops.getD version none with
    | none => (r, reached)
    | some top =>
      let node := r.node top
      match lex (node.state.expected a) node.rest with
      | none => (r.drop version, reached)
      | some lexeme =>
        let r := advance a version (r.nodes.size + 64) lexeme r
        match r.tops.getD version none with
        | none => (r, reached)
        | some top =>
          let offset := (r.node top).offset
          if reached < offset || (0 < version && offset == reached) then (r, offset)
          else catchUp a lex version room reached r

/-- Takes every reading forward, from the one at place `version` on. -/
def round [Inhabited τ] (a : Automaton τ κ ρ) (lex : TokenSet → List Char → Option Lexeme)
    (size : Nat) : (room : Nat) → (version reached : Nat) → Readings τ κ → Readings τ κ × Nat
  | 0, _, reached, r => (r, reached)
  | room + 1, version, reached, r =>
    if version < r.tops.size then
      let (r, reached) := catchUp a lex version size reached r
      round a lex size room (version + 1) reached r
    else (r, reached)

/-- Adds a reading to those already sorted, the highest score first, or joins it to one that it
meets. -/
def sortIn (r : Readings τ κ) (n : Nat) : List Nat → Readings τ κ × List Nat
  | [] => (r, [n])
  | m :: rest =>
    if n == m then (r, m :: rest)
    else if (r.node m).meets (r.node n) then (r.join m n, m :: rest)
    else if (r.node m).score < (r.node n).score then
      let (r, rest) := sortIn r m rest
      (r, n :: rest)
    else
      let (r, rest) := sortIn r n rest
      (r, m :: rest)

/-- Joins the readings that meet, and keeps the best of the rest. -/
def condense (r : Readings τ κ) : Readings τ κ :=
  let (r, tops) := (r.tops.toList.filterMap id).foldl (fun (r, sorted) n => r.sortIn n sorted)
    (r, [])
  { r with tops := ((tops.take maxReadings).map some).toArray }

/-- Follows all readings to the end of the text. -/
def follow [Inhabited τ] (a : Automaton τ κ ρ) (lex : TokenSet → List Char → Option Lexeme)
    (size : Nat) : (room : Nat) → (reached : Nat) → Readings τ κ → Option (Tree τ κ)
  | 0, _, r => r.best.map (·.1)
  | room + 1, reached, r =>
    if r.tops.isEmpty then r.best.map (·.1)
    else
      let (r, reached) := round a lex size size 0 reached r
      follow a lex size room reached r.condense

end Readings

namespace Automaton

variable {τ κ ρ : Type} [DecidableEq τ] [DecidableEq κ] [DecidableEq ρ] [Inhabited τ]

/-- The tree of a text, or none if it is not well formed.  `lex` reads a token among those that
are expected. -/
def parse (a : Automaton τ κ ρ) (lex : TokenSet → List Char → Option Lexeme) (text : List Char) :
    Option (Tree τ κ) :=
  let size := 64 * (text.length + 16)
  Readings.follow a lex size size 0
    { nodes := #[{ state := .initial a, offset := 0, rest := text, score := 0, links := [] }]
      tops := #[some 0]
      best := none }

end Automaton
end Grammar
end ModuleAudit
