import PathTemplate.Digest

/-!
Programs kept in memory, up to a capacity. The least recently used goes first. Keys are hashes, so
an entry holds the template it was compiled from and counts only for that. Times are in
milliseconds.
-/

namespace PathTemplate.Cache

structure Entry (π : Type) where
  key : ContentHash
  template : String
  program : π
  lastAccess : Nat

/-- At most one entry for a key. -/
structure Memory (π : Type) where
  capacity : Nat
  ttl : Option Nat
  entries : List (Entry π)

namespace Memory

variable {π : Type}

def empty (capacity : Nat) (ttl : Option Nat) : Memory π := ⟨max capacity 1, ttl, []⟩

def size (m : Memory π) : Nat := m.entries.length

def entry? (m : Memory π) (key : ContentHash) : Option (Entry π) :=
  m.entries.find? (·.key == key)

def get? (m : Memory π) (now : Nat) (key : ContentHash) (template : String) :
    Option (π × Memory π) :=
  match m.entry? key with
  | none => none
  | some e =>
    if e.template = template then
      let touched := m.entries.map fun e => if e.key = key then { e with lastAccess := now } else e
      some (e.program, { m with entries := touched })
    else none

/-- The first of the entries that were not used for the longest time. -/
def oldest? : List (Entry π) → Option (Entry π)
  | [] => none
  | e :: rest =>
    match oldest? rest with
    | none => some e
    | some o => if e.lastAccess ≤ o.lastAccess then some e else some o

def dropOldest (entries : List (Entry π)) : List (Entry π) :=
  match oldest? entries with
  | none => []
  | some o => entries.filter (·.key != o.key)

def evict : (count : Nat) → List (Entry π) → List (Entry π)
  | 0, entries => entries
  | count + 1, entries => evict count (dropOldest entries)

/-- Puts a program in place of what its key held, and makes room for it. -/
def insert (m : Memory π) (now : Nat) (key : ContentHash) (template : String) (program : π) :
    Memory π :=
  let others := m.entries.filter (·.key != key)
  let excess := others.length + 1 - m.capacity
  { m with entries := ⟨key, template, program, now⟩ :: evict excess others }

/-- The program of a template, built in a state `s` if it is not there. A failure is not kept. -/
def getOrBuild {σ ε : Type} (m : Memory π) (now : Nat) (key : ContentHash) (template : String)
    (build : σ → Except ε π × σ) (s : σ) : Except ε π × Memory π × σ :=
  match m.get? now key template with
  | some (program, m) => (.ok program, m, s)
  | none =>
    match build s with
    | (.ok program, s) => (.ok program, m.insert now key template program, s)
    | (.error e, s) => (.error e, m, s)

def sweep (m : Memory π) (now : Nat) : Nat × Memory π :=
  match m.ttl with
  | none => (0, m)
  | some ttl =>
    let kept := m.entries.filter fun e => now - e.lastAccess ≤ ttl
    (m.entries.length - kept.length, { m with entries := kept })

end Memory

end PathTemplate.Cache
