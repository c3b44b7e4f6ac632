import ModuleAudit.Disk.Basic

/-
A bounded cache of file texts, oldest entry first out.

The cache keeps the texts by path and, beside them, the queue of paths in the order in which they
came in.  Once the queue is longer than the capacity, paths leave it from the front and their
texts go with them.  Storing or reading a path that is already in the cache does not move it.
-/

namespace ModuleAudit

structure TextCache where
  capacity : Nat
  /-- The cached paths, oldest first. -/
  queue : List String
  texts : Table String
  deriving Repr

namespace TextCache

/-- A capacity that leaves no room for an entry. -/
structure CapacityFault where
  capacity : Int
  deriving DecidableEq, Repr

def CapacityFault.message (f : CapacityFault) : String :=
  "cache capacity must be positive, got " ++ toString f.capacity

def empty (capacity : Nat) : TextCache := { capacity, queue := [], texts := [] }

/-- An empty cache with room for at least one entry. -/
def ofCapacity (capacity : Int) : Except CapacityFault TextCache :=
  if capacity < 1 then .error ⟨capacity⟩ else .ok (empty capacity.toNat)

def contains (c : TextCache) (path : String) : Bool := c.texts.has path

def get? (c : TextCache) (path : String) : Option String := c.texts.get? path

def size (c : TextCache) : Nat := c.texts.length

/-- Drops the oldest entries from `queue` until `capacity` are left. -/
def evict (capacity : Nat) : List String → Table String → List String × Table String
  | [], texts => ([], texts)
  | oldest :: queue, texts =>
    if capacity < queue.length + 1 then evict capacity queue (texts.erase oldest)
    else (oldest :: queue, texts)

/-- Stores a text.  A path that was not cached goes to the end of the queue. -/
def put (c : TextCache) (path text : String) : TextCache :=
  let queue := if c.contains path then c.queue else c.queue ++ [path]
  let (queue, texts) := evict c.capacity queue (c.texts.put path text)
  { c with queue, texts }

/-- The text of a file, from the cache or from disk.  What is read from disk is stored. -/
def read (disk : Disk) (c : TextCache) (path : String) : Except Disk.Fault String × TextCache :=
  match c.get? path with
  | some text => (.ok text, c)
  | none =>
    match disk.readText path with
    | .ok text => (.ok text, c.put path text)
    | .error fault => (.error fault, c)

/-- Puts a file into the cache ahead of its use.  The fault, if it cannot be read, is returned. -/
def prefetch (disk : Disk) (c : TextCache) (path : String) : Option Disk.Fault × TextCache :=
  if c.contains path then (none, c)
  else
    match read disk c path with
    | (.ok _, c) => (none, c)
    | (.error fault, c) => (some fault, c)

def clear (c : TextCache) : TextCache := { c with queue := [], texts := [] }

end TextCache
end ModuleAudit
