/-
Tables: values under text keys, in the order in which the keys were first put.
-/

namespace ModuleAudit

abbrev Table (α : Type) := List (String × α)

namespace Table

variable {α : Type}

def keys (t : Table α) : List String := t.map (·.1)

def values (t : Table α) : List α := t.map (·.2)

def get? (t : Table α) (key : String) : Option α := t.lookup key

def has (t : Table α) (key : String) : Bool := t.any (·.1 == key)

/-- Stores a value.  A key that is already there keeps its place and takes the new value. -/
def put : Table α → String → α → Table α
  | [], key, value => [(key, value)]
  | (k, v) :: rest, key, value =>
    if k == key then (k, value) :: rest else (k, v) :: put rest key value

def erase (t : Table α) (key : String) : Table α := t.filter (·.1 != key)

end Table
end ModuleAudit
