import ModuleAudit.Config
import ModuleAudit.Text.Quoted

/-
The arguments of the command line.

Options and words can be mixed.  A long option takes its value from behind an equals sign or from
the next argument, a short one from the rest of its bundle or from the next argument.  What is not
recognised is left over among the words: a long option as it stands, and the unknown letters of a
bundle together.
-/

namespace ModuleAudit
namespace CommandLine

/-- Something to print in place of an analysis. -/
inductive Request where
  | help
  | version
  deriving DecidableEq, Repr

inductive Switch where
  | request (r : Request)
  | verbose
  | ci
  | failOnCircular
  | failOnUnused
  | failOnUnusedPackages
  deriving DecidableEq, Repr

inductive Setting where
  | switch (s : Switch)
  | testDir
  deriving DecidableEq, Repr

/-- The options with two dashes. -/
def longOptions : List (String × Setting) := [
  ("--version", .switch (.request .version)),
  ("--test-dir", .testDir),
  ("--ci", .switch .ci),
  ("--fail-on-circular", .switch .failOnCircular),
  ("--fail-on-unused", .switch .failOnUnused),
  ("--fail-on-unused-deps", .switch .failOnUnusedPackages),
  ("--verbose", .switch .verbose),
  ("--help", .switch (.request .help))]

/-- The letters of the options with one dash. -/
def shortOptions : List (Char × Setting) :=
  [('t', .testDir), ('v', .switch .verbose), ('h', .switch (.request .help))]

inductive UsageFault where
  | missingValue (option : String)
  | unwantedValue (option : String)
  deriving DecidableEq, Repr

def UsageFault.message : UsageFault → String
  | missingValue option => "Option " ++ Text.quoted option ++ " requires an argument."
  | unwantedValue option => "Option " ++ Text.quoted option ++ " does not take a value."

structure Arguments where
  testDir : Option String := none
  ci : Bool := false
  failOn : Checks := {}
  verbose : Bool := false
  /-- The first request. -/
  request : Option Request := none
  /-- The words and what was not recognised, in order. -/
  words : List String := []
  deriving DecidableEq, Repr

namespace Arguments

def set (a : Arguments) : Switch → Arguments
  | .request r => { a with request := a.request <|> some r }
  | .verbose => { a with verbose := true }
  | .ci => { a with ci := true }
  | .failOnCircular => { a with failOn := { a.failOn with circular := true } }
  | .failOnUnused => { a with failOn := { a.failOn with unused := true } }
  | .failOnUnusedPackages => { a with failOn := { a.failOn with packages := true } }

def addWords (a : Arguments) (words : List String) : Arguments := { a with words := a.words ++ words }

/-- Leaves over the unknown letters of a bundle. -/
def leaveLetters (a : Arguments) : List Char → Arguments
  | [] => a
  | letters => a.addWords [String.ofList ('-' :: letters)]

/-- Reads the letters of a bundle, with the unknown ones so far.  The second part is the option
that still wants a value. -/
def addBundle (a : Arguments) (unknown : List Char) : List Char → Arguments × Option String
  | [] => (a.leaveLetters unknown, none)
  | c :: rest =>
    match shortOptions.lookup c with
    | none => addBundle a (unknown ++ [c]) rest
    | some (.switch s) => addBundle (a.set s) unknown rest
    | some .testDir =>
      let a := a.leaveLetters unknown
      if rest.isEmpty then (a, some (String.ofList ['-', c]))
      else ({ a with testDir := some (String.ofList rest) }, none)

/-- An argument as a name and what stands behind the first equals sign. -/
def nameAndValue (arg : List Char) : String × Option String :=
  let name := String.ofList (arg.takeWhile (· != '='))
  match arg.dropWhile (· != '=') with
  | [] => (name, none)
  | _ :: value => (name, some (String.ofList value))

/-- Reads one argument.  The second part is the option that still wants a value. -/
def add (a : Arguments) (arg : String) : Except UsageFault (Arguments × Option String) :=
  match arg.toList with
  | '-' :: c :: rest =>
    let (name, value) := nameAndValue ('-' :: c :: rest)
    match longOptions.lookup name, value with
    | some (.switch s), none => .ok (a.set s, none)
    | some (.switch _), some _ => .error (.unwantedValue name)
    | some .testDir, none => .ok (a, some name)
    | some .testDir, some value => .ok ({ a with testDir := some value }, none)
    | none, _ => .ok (if c == '-' then (a.addWords [arg], none) else a.addBundle [] (c :: rest))
  | _ => .ok (a.addWords [arg], none)

/-- Reads the arguments.  Behind two dashes all are words. -/
def addAll (a : Arguments) : List String → Except UsageFault Arguments
  | [] => .ok a
  | arg :: rest =>
    if arg == "--" then .ok (a.addWords rest)
    else
      match a.add arg, rest with
      | .error fault, _ => .error fault
      | .ok (a, none), rest => addAll a rest
      | .ok (_, some name), [] => .error (.missingValue name)
      | .ok (a, some _), value :: rest => addAll { a with testDir := some value } rest

def parse (args : List String) : Except UsageFault Arguments := ({} : Arguments).addAll args

/-! ## What the words mean -/

def isUnknownOption (word : String) : Bool := word.toList.head? == some '-'

def unknownOptions (a : Arguments) : List String := a.words.filter isUnknownOption

/-- The words proper: the directory, the entry point, and no more. -/
def positional (a : Arguments) : List String := a.words.filter (!isUnknownOption ·)

def directory (a : Arguments) : String := a.positional.head?.getD "."

def entryPoint (a : Arguments) : Option String := a.positional.tail.head?

/-- The analysis that is asked for. -/
def config (a : Arguments) : Config :=
  { sourceDir := a.directory
    entryPoint := a.entryPoint
    testDir := a.testDir
    ci := a.ci
    failOn := a.failOn }

/-- What is wrong with the words: unknown options, and words too many. -/
def warnings (a : Arguments) : List String :=
  a.unknownOptions.map ("Warning: Unknown option " ++ ·) ++
    (a.positional.drop 2).map ("Warning: Ignoring extra argument " ++ ·)

end Arguments
end CommandLine
end ModuleAudit
