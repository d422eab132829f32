import Mathlib.Algebra.BigOperators.Group.List.Basic
import Mathlib.Algebra.GroupWithZero.Nat
import Mathlib.Logic.Function.Basic
import FunctionWasm.Foundation.Transition

/-!
# Limiter — the memory of runs that share one pool

A run's memories and tables are charged to its limiter before the engine grows them: against the
run's limit at once, and against the pool that the runs share, for which the growth may have to
wait.  The pool gets everything back when the run ends.

* `RunLimiter.charge` is a charge up to the pool, `MemPool.reserve` one look at the pool.
* `Governance` are the runs and the pool, `governanceStep` every move of them.
* `Books` is what the books should say in every state.

Bytes are natural numbers: limits and pools are far below the 2^64 of the code's integers.
-/

namespace FunctionWasm
namespace Memory

/-! ## The pool -/

structure MemPool where
  total : Nat
  used : Nat
  deriving DecidableEq, Repr

namespace MemPool

/-- One pass of the loop of `reserve`: the bytes, if they fit. -/
def reserve (p : MemPool) (n : Nat) : Option MemPool :=
  if p.used + n ≤ p.total then some { p with used := p.used + n } else none

def release (p : MemPool) (n : Nat) : MemPool :=
  { p with used := p.used - n }

end MemPool

/-! ## The limiter of a run -/

/-- `hold` is what the run has reserved, where there is a pool. -/
structure RunLimiter where
  limit : Nat
  hold : Option Nat
  charged : Nat
  deriving DecidableEq, Repr

namespace RunLimiter

def new (limit : Nat) (hold : Option Nat) : RunLimiter where
  limit := limit
  hold := hold
  charged := 0

/-- Charges a growth up to the pool; with it, what is still to be reserved.  `none` is the denial at
the limit. -/
def charge (l : RunLimiter) (delta : Nat) : Option (RunLimiter × Option Nat) :=
  if l.limit < l.charged + delta then none
  else
    let l := { l with charged := l.charged + delta }
    match l.hold with
    | some n => some (l, if n < l.charged then some (l.charged - n) else none)
    | none => some (l, none)

/-- The hold has grown by what the pool reserved. -/
def reserved (l : RunLimiter) (need : Nat) : RunLimiter :=
  { l with hold := l.hold.map (· + need) }

/-- The pool could not serve the growth in time. -/
def uncharge (l : RunLimiter) (delta : Nat) : RunLimiter :=
  { l with charged := l.charged - delta }

end RunLimiter

/-! ## The regions of a run -/

inductive RegionKind where
  | memory
  | table
  deriving DecidableEq, Repr

/-- The bytes of some units: a memory is counted in bytes, a table in elements of a host pointer. -/
def RegionKind.bytes : RegionKind → Nat → Nat
  | memory, n => n
  | table, n => n * 8

structure Region where
  kind : RegionKind
  size : Nat
  deriving DecidableEq, Repr

def Region.bytes (r : Region) : Nat :=
  r.kind.bytes r.size

/-- A growth of one region that the limiter was asked about: the region, its size after it, and the
bytes it is charged with. -/
structure Request where
  region : Nat
  desired : Nat
  delta : Nat
  deriving DecidableEq, Repr

/-- How far the run's growth has come: waiting for the pool, or admitted and with the engine. -/
inductive Growth where
  | idle
  | reserving (g : Request) (need : Nat)
  | admitted (g : Request)
  deriving DecidableEq, Repr

namespace Growth

/-- Bytes charged for a growth that has not happened yet. -/
def pending : Growth → Nat
  | idle => 0
  | reserving g _ => g.delta
  | admitted g => g.delta

/-- Bytes charged that are not reserved yet. -/
def waiting : Growth → Nat
  | reserving _ need => need
  | _ => 0

end Growth

/-- A run; `refused` is history, the bytes of the growths that the engine refused once they were
admitted. -/
structure Run where
  limiter : RunLimiter
  regions : List Region
  growth : Growth
  refused : Nat
  deriving DecidableEq, Repr

namespace Run

/-- What the run's memories and tables really hold. -/
def bytes (r : Run) : Nat :=
  (r.regions.map Region.bytes).sum

def held (r : Run) : Nat :=
  r.limiter.hold.getD 0

end Run

/-! ## The runs of an engine -/

structure Governance where
  pool : Option MemPool
  started : Nat
  runs : Nat → Option Run

inductive Action where
  | start (limit : Nat)
  | declare (i : Nat) (kind : RegionKind)
  | growing (i region desired : Nat)
  | reserve (i : Nat)
  | expire (i : Nat)
  | grown (i : Nat)
  | refused (i : Nat)
  | finish (i : Nat)
  deriving DecidableEq, Repr

/-- The run that takes the step, if there is one already. -/
def Action.run : Action → Option Nat
  | start _ => none
  | declare i _ | growing i _ _ | reserve i | expire i | grown i | refused i | finish i => some i

namespace Governance

def new (total : Option Nat) : Governance where
  pool := total.map fun total => { total := total, used := 0 }
  started := 0
  runs := fun _ => none

def setRun (s : Governance) (i : Nat) (r : Option Run) : Governance :=
  { s with runs := Function.update s.runs i r }

/-- What a run holds of the pool; nothing when it is over. -/
def held (s : Governance) (i : Nat) : Nat :=
  ((s.runs i).map Run.held).getD 0

/-- A run starts: the pool reserves nothing for it yet. -/
def start (s : Governance) (limit : Nat) : Governance :=
  { s.setRun s.started (some
      { limiter := .new limit (s.pool.map fun _ => 0)
        regions := []
        growth := .idle
        refused := 0 }) with
    started := s.started + 1 }

end Governance

/-- `memory_growing` and `table_growing` on a region: the growth as it leaves them.  A denial leaves
the run as it was. -/
def Run.growing (r : Run) (region : Region) (k desired : Nat) : Run :=
  let g : Request :=
    { region := k
      desired := desired
      delta := region.kind.bytes (desired - region.size) }
  match r.limiter.charge g.delta with
  | none => r
  | some (l, some need) => { r with limiter := l, growth := .reserving g need }
  | some (l, none) => { r with limiter := l, growth := .admitted g }

/-- The engine grows the region. -/
def Run.grown (r : Run) (region : Region) (g : Request) : Run :=
  { r with
    regions := r.regions.set g.region { region with size := g.desired }
    growth := .idle }

/-- The engine refuses a growth that the limiter admitted: it exceeds the region's maximum, or the
host has no memory.  The limiter is told, but does nothing about it. -/
def Run.growFailed (r : Run) (g : Request) : Run :=
  { r with
    growth := .idle
    refused := r.refused + g.delta }

/-- Every move of the runs, under any interleaving. -/
def governanceStep (s : Governance) : Action → Option Governance
  | .start limit => some (s.start limit)
  | .declare i kind =>
      match s.runs i with
      | some r =>
          match r.growth with
          | .idle => some (s.setRun i (some { r with regions := r.regions ++ [⟨kind, 0⟩] }))
          | _ => none
      | none => none
  | .growing i k desired =>
      match s.runs i with
      | some r =>
          match r.growth, r.regions[k]? with
          | .idle, some region =>
              if region.size ≤ desired then some (s.setRun i (some (r.growing region k desired)))
              else none
          | _, _ => none
      | none => none
  | .reserve i =>
      match s.runs i, s.pool with
      | some r, some pool =>
          match r.growth with
          | .reserving g need =>
              match pool.reserve need with
              | some pool =>
                  some { s.setRun i (some
                    { r with
                      limiter := r.limiter.reserved need
                      growth := .admitted g }) with pool := some pool }
              | none => none
          | _ => none
      | _, _ => none
  | .expire i =>
      match s.runs i, s.pool with
      | some r, some pool =>
          match r.growth with
          | .reserving g need =>
              -- the deadline is looked at only while the bytes do not fit
              match pool.reserve need with
              | some _ => none
              | none =>
                  some (s.setRun i (some
                    { r with
                      limiter := r.limiter.uncharge g.delta
                      growth := .idle }))
          | _ => none
      | _, _ => none
  | .grown i =>
      match s.runs i with
      | some r =>
          match r.growth with
          | .admitted g =>
              match r.regions[g.region]? with
              | some region => some (s.setRun i (some (r.grown region g)))
              | none => none
          | _ => none
      | none => none
  | .refused i =>
      match s.runs i with
      | some r =>
          match r.growth with
          | .admitted g => some (s.setRun i (some (r.growFailed g)))
          | _ => none
      | none => none
  | .finish i =>
      match s.runs i with
      | some r =>
          match r.growth with
          | .idle =>
              some { s.setRun i none with pool := s.pool.map fun pool => pool.release r.held }
          | _ => none
      | none => none

/-- The runs of an engine whose pool has `total` bytes, or that has no pool. -/
def governance (total : Option Nat) : TransitionSystem Governance Action where
  init s := s = Governance.new total
  step s a s' := governanceStep s a = some s'

end Memory
end FunctionWasm
