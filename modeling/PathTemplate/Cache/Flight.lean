import PathTemplate.Cache.Memory

/-!
Concurrent requests for programs, as atomic steps in any order. A request that misses fetches the
gate of its key, waits until nobody holds it, looks again and only then builds. Afterwards it takes
the gate away, unless another one has taken its place. Gates are numbered in the order in which they
are made.
-/

namespace PathTemplate.Cache

/-- How far a request has come. -/
inductive Phase (ε π : Type) where
  | ready
  | missed
  | gated (gate : Nat)
  /-- Holds a gate and has not looked again. -/
  | admitted (gate : Nat)
  | building (gate : Nat)
  | built (gate : Nat) (result : Except ε π)
  /-- Has let go of a gate that is still to be taken away. -/
  | released (gate : Nat) (result : Except ε π)
  | finished (result : Except ε π)

namespace Phase

variable {ε π : Type}

def held? : Phase ε π → Option Nat
  | .admitted gate => some gate
  | .building gate => some gate
  | .built gate _ => some gate
  | _ => none

def gate? : Phase ε π → Option Nat
  | .gated gate => some gate
  | .admitted gate => some gate
  | .building gate => some gate
  | .built gate _ => some gate
  | .released gate _ => some gate
  | _ => none

def isBuilding : Phase ε π → Bool
  | .building _ => true
  | _ => false

def result? : Phase ε π → Option (Except ε π)
  | .finished result => some result
  | _ => none

end Phase

structure Request (ε π : Type) where
  key : ContentHash
  template : String
  phase : Phase ε π

/-- Requests under way, and what they share. -/
structure Flight (σ ε π : Type) where
  memory : Memory π
  /-- The gate of each key that has one. -/
  gates : List (ContentHash × Nat)
  made : Nat
  requests : List (Request ε π)
  world : σ

namespace Flight

variable {σ ε π : Type}

def gate? (f : Flight σ ε π) (key : ContentHash) : Option Nat := f.gates.lookup key

def isHeld (f : Flight σ ε π) (gate : Nat) : Bool :=
  f.requests.any fun r => r.phase.held? == some gate

def setPhase (f : Flight σ ε π) (i : Nat) (phase : Phase ε π) : Flight σ ε π :=
  { f with requests := f.requests.modify i fun r => { r with phase } }

/-- One step of request `i`; nothing when it has to wait or is finished. -/
def step (build : Request ε π → σ → Except ε π × σ) (now : Nat) (f : Flight σ ε π) (i : Nat) :
    Option (Flight σ ε π) := do
  let r ← f.requests[i]?
  match r.phase with
  | .ready =>
    match f.memory.get? now r.key r.template with
    | some (program, memory) => some ({ f with memory }.setPhase i (.finished (.ok program)))
    | none => some (f.setPhase i .missed)
  | .missed =>
    match f.gate? r.key with
    | some gate => some (f.setPhase i (.gated gate))
    | none =>
      some ({ f with gates := (r.key, f.made) :: f.gates, made := f.made + 1 }.setPhase i
        (.gated f.made))
  | .gated gate => if f.isHeld gate then none else some (f.setPhase i (.admitted gate))
  | .admitted gate =>
    match f.memory.get? now r.key r.template with
    | some (program, memory) => some ({ f with memory }.setPhase i (.built gate (.ok program)))
    | none => some (f.setPhase i (.building gate))
  | .building gate =>
    match build r f.world with
    | (.ok program, world) =>
      let memory := f.memory.insert now r.key r.template program
      some ({ f with memory, world }.setPhase i (.built gate (.ok program)))
    | (.error e, world) => some ({ f with world }.setPhase i (.built gate (.error e)))
  | .built gate result => some (f.setPhase i (.released gate result))
  | .released gate result =>
    let gates := if f.gate? r.key = some gate then f.gates.filter (·.1 != r.key) else f.gates
    some ({ f with gates }.setPhase i (.finished result))
  | .finished _ => none

def sweep (now : Nat) (f : Flight σ ε π) : Flight σ ε π :=
  { f with memory := (f.memory.sweep now).2 }

def round (build : Request ε π → σ → Except ε π × σ) (now : Nat) (f : Flight σ ε π) :
    Flight σ ε π :=
  (List.range f.requests.length).foldl (fun f i => (f.step build now i).getD f) f

def rounds (build : Request ε π → σ → Except ε π × σ) (now : Nat) :
    (count : Nat) → Flight σ ε π → Flight σ ε π
  | 0, f => f
  | count + 1, f => rounds build now count (f.round build now)

def start (memory : Memory π) (requests : List (ContentHash × String)) (world : σ) :
    Flight σ ε π :=
  ⟨memory, [], 0, requests.map fun (key, template) => ⟨key, template, .ready⟩, world⟩

/-- Runs all requests to their end. A request takes seven steps, and of those that wait for a gate
one is let in as soon as the gate is free. -/
def settle (build : Request ε π → σ → Except ε π × σ) (now : Nat) (f : Flight σ ε π) :
    Flight σ ε π :=
  f.rounds build now (7 * f.requests.length)

def results (f : Flight σ ε π) : List (Except ε π) := f.requests.filterMap (·.phase.result?)

end Flight

end PathTemplate.Cache
