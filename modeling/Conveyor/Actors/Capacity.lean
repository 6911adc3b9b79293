import Conveyor.Lib.GoMap
import Conveyor.Lib.SortFunc

/-!
# Splitting a worker's concurrency across its queues

Every queue keeps one slot; the rest is split in proportion to the weights, rounded down, and the
leftover slots go to the largest remainders, ties broken by name. The arithmetic is the source's:
32-bit shares, 64-bit products.
-/

namespace Conveyor

open Lib

/-- A weight as it counts: missing or not positive is one. -/
def effectiveWeight (weights : GoMap String Int32) (queue : String) : Int32 :=
  max ((weights.lookup queue).getD 0) 1

/-- One queue's floored allocation of the spare slots and the remainder that ranks it. -/
structure Share where
  queue : String
  base : Int32
  remainder : Int64
  deriving DecidableEq

/-- Largest remainder first, then by name. -/
def compareShares (a b : Share) : Int :=
  if a.remainder ≠ b.remainder then (if a.remainder > b.remainder then -1 else 1)
  else if a.queue < b.queue then -1 else if b.queue < a.queue then 1 else 0

/-- The order of names. -/
def compareNames (a b : String) : Int := if a < b then -1 else if b < a then 1 else 0

/-- The floored share of one queue. -/
def shareOf (spare : Int32) (weights : GoMap String Int32) (totalWeight : Int64) (queue : String) : Share :=
  let product := spare.toInt64 * (effectiveWeight weights queue).toInt64
  { queue := queue, base := (product / totalWeight).toInt32, remainder := product % totalWeight }

/-- Hand one leftover slot each to the first shares. -/
def handLeftover : Int32 → List Share → List Share
  | _, [] => []
  | leftover, share :: rest =>
    if leftover ≤ 0 then share :: rest
    else { share with base := share.base + 1 } :: handLeftover (leftover - 1) rest

/-- Divide a declared concurrency across queues by weight. -/
def splitCapacity (concurrency : Int32) (queues : List String) (weights : GoMap String Int32) : GoMap String Int32 :=
  let reserved := Int32.ofNat queues.length
  if queues = [] then ∅
  else if concurrency ≤ reserved then
    queues.foldl (fun capacities queue => capacities.insert queue 1) ∅
  else
    let totalWeight := queues.foldl
      (fun total queue => total + (effectiveWeight weights queue).toInt64) 0
    let spare := concurrency - reserved
    let shares := queues.map (shareOf spare weights totalWeight)
    let assigned := shares.foldl (fun total share => total + share.base) 0
    let ranked := handLeftover (spare - assigned) (sortFunc compareShares shares)
    ranked.foldl (fun capacities share => capacities.insert share.queue (share.base + 1)) ∅

end Conveyor
