import ModuleAudit.Grammar.Tree
import ModuleAudit.Script.Character
import ModuleAudit.Script.Construct
import ModuleAudit.Script.Token

/-
Syntax trees of script files, and the module specifiers in them.

A declaration names a module by a string; a call does if its callee is the word `import` or the
name `require`, and its first argument a string or a template without substitutions.
`Tree.specifiers` walks a tree with an explicit list of trees still to visit and lists the
specifiers in document order.
-/

namespace ModuleAudit
namespace Script

abbrev Tree := Grammar.Tree Token Construct

namespace Tree

/-- The tree is a node of the given kind. -/
def isKind (kind : Construct) : Tree → Bool
  | .node k _ => k == kind
  | _ => false

def isComment : Tree → Bool
  | .leaf .comment _ _ => true
  | .leaf .markupComment _ _ => true
  | _ => false

/-- A bracket or a comma of a list of arguments. -/
def isPunctuation : Tree → Bool
  | .leaf (.text text) _ _ => text == "(" || text == "," || text == ")"
  | _ => false

mutual

/-- The trees that stand for a tree once repetitions and nodes that only group are opened, in front
of those in `rest`. -/
def openOnto (rest : List Tree) : Tree → List Tree
  | .leaf token lead text => .leaf token lead text :: rest
  | .node kind parts => if kind.isHidden then openAllOnto rest parts else .node kind parts :: rest
  | .run parts => openAllOnto rest parts

def openAllOnto (rest : List Tree) : List Tree → List Tree
  | [] => rest
  | t :: ts => openOnto (openAllOnto rest ts) t

end

/-- The members of a list of parts, repetitions and nodes that only group opened. -/
def members (parts : List Tree) : List Tree := openAllOnto [] parts

/-- The text between the quotes of a literal, escapes left as written. -/
def quoted (t : Tree) : String :=
  String.ofList ((t.content.toList.dropWhile isBlank).drop 1).dropLast

/-- The text of a literal that names a module: a string, or a template without substitutions. -/
def literal? : Tree → Option String
  | .node .string parts => some (quoted (.node .string parts))
  | .node .template parts =>
    if (members parts).any (isKind .templateSubstitution) then none
    else some (quoted (.node .template parts))
  | _ => none

/-- A call of one of these loads the module its first argument names. -/
def isLoader : Tree → Bool
  | .node .importWord _ => true
  | .leaf .name _ text => text == "require"
  | _ => false

/-- The string that a declaration names its source by, directly or after the word `from`. -/
def source? (parts : List Tree) : Option Tree :=
  let inner := parts.flatMap fun
    | .node .fromClause parts => parts
    | t => [t]
  inner.find? (isKind .string)

/-- What a list of arguments starts with, if the tree is one. -/
def firstArgument? : Tree → Option Tree
  | .node .arguments parts => (members parts).find? (!·.isPunctuation)
  | _ => none

/-- The specifier of a call with the given parts. -/
def loaded? (parts : List Tree) : Option String := do
  let parts := (members parts).filter (!·.isComment)
  let callee ← parts.head?
  let last ← parts.getLast?
  let argument ← firstArgument? last
  if callee.isLoader then argument.literal? else none

/-- The specifier a node contributes by itself, its descendants left aside. -/
def specifier? : Tree → Option String
  | .node .importStatement parts => (source? parts).bind literal?
  | .node .exportStatement parts => (source? parts).bind literal?
  | .node .importRequire parts => (source? parts).bind literal?
  | .node .callExpression parts => loaded? parts
  | .node .typeQueryCall parts => loaded? parts
  | .node .importTypeCall parts => loaded? parts
  | .node .decoratorCall parts => loaded? parts
  | _ => none

theorem sizeOf_append (xs ys : List Tree) : sizeOf (xs ++ ys) + 1 = sizeOf xs + sizeOf ys := by
  induction xs with
  | nil => simp; omega
  | cons x xs ih => simp only [List.cons_append, List.cons.sizeOf_spec]; omega

theorem sizeOf_parts_le (t : Tree) : sizeOf t.parts ≤ sizeOf t := by
  cases t with
  | leaf =>
    simp only [Grammar.Tree.parts, List.nil.sizeOf_spec, Grammar.Tree.leaf.sizeOf_spec]; omega
  | node => simp only [Grammar.Tree.parts, Grammar.Tree.node.sizeOf_spec]; omega
  | run => simp only [Grammar.Tree.parts, Grammar.Tree.run.sizeOf_spec]; omega

/-- The specifiers of the trees on `pending`, first tree first, behind those found before.  A
tree's parts go in front of what is already pending, so they are visited before its later
siblings. -/
def walk (found : List String) (pending : List Tree) : List String :=
  match pending with
  | [] => found.reverse
  | t :: rest => walk (t.specifier?.toList ++ found) (t.parts ++ rest)
termination_by sizeOf pending
decreasing_by
  have h := sizeOf_append t.parts rest
  have := sizeOf_parts_le t
  simp only [List.cons.sizeOf_spec]
  omega

/-- Every module specifier of a syntax tree, in document order. -/
def specifiers (t : Tree) : List String := walk [] [t]

end Tree
end Script
end ModuleAudit
