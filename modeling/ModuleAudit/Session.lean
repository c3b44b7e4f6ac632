import ModuleAudit.Event
import ModuleAudit.TextCache

/-
The state that an analysis carries along: the text cache, the events so far and the announcements of
its stages.
-/

namespace ModuleAudit

/-- The name of a stage, how many of its parts are done and how many there are. -/
abbrev Announcement := String × Nat × Nat

structure Session where
  cache : TextCache
  /-- What happened, in order. -/
  events : List Event
  /-- What was announced, in order. -/
  announced : List Announcement := []

namespace Session

def ofCache (cache : TextCache) : Session := { cache, events := [] }

/-- Notes some events. -/
def note (events : List Event) : StateM Session Unit :=
  modify fun s => { s with events := s.events ++ events }

def announce (announcement : Announcement) : StateM Session Unit :=
  modify fun s => { s with announced := s.announced ++ [announcement] }

/-- A computation as a stage of one part, announced before it starts and once it has come through. -/
def staged {α ε : Type} (stage : String) (x : ExceptT ε (StateM Session) α) :
    ExceptT ε (StateM Session) α := do
  announce (stage, 0, 1)
  let result ← x
  announce (stage, 1, 1)
  return result

/-- The text of a file, through the cache. -/
def read (disk : Disk) (path : String) : StateM Session (Except Disk.Fault String) :=
  modifyGet fun s =>
    let (result, cache) := TextCache.read disk s.cache path
    (result, { s with cache })

/-- Puts a file into the cache; a failure is only noted. -/
def prefetch (disk : Disk) (path : String) : StateM Session Unit :=
  modify fun s =>
    match TextCache.prefetch disk s.cache path with
    | (none, cache) => { s with cache }
    | (some fault, cache) => { s with cache, events := s.events ++ [.prefetchSkipped path fault] }

end Session
end ModuleAudit
