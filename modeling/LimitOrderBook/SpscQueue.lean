import LimitOrderBook.Lib.Schedule
import LimitOrderBook.Lib.Wrapping

/-!
`spsc_queue.h`: a ring of a power of two slots between one producer and one
consumer. Each step of either side is a single load or store of `head_`, `tail_`,
`high_water_` or a slot; the cached indices belong to one side and move with it.
-/

set_option autoImplicit false

namespace LimitOrderBook
open Checked

structure SPSCQueue (T : Type) where
  slots : Array T
  mask : UInt64
  tail : UInt64 := 0
  headCache : UInt64 := 0
  highWater : UInt64 := 0
  head : UInt64 := 0
  tailCache : UInt64 := 0

namespace SPSCQueue

variable {T : Type}

/-- `vector<T>(n)` value-initializes every slot. -/
def new [Inhabited T] (capacity : UInt64) : Exec (SPSCQueue T) := do
  let q : SPSCQueue T :=
    { slots := Array.replicate capacity.toNat default, mask := capacity - 1 }
  assert (capacity ≠ 0 ∧ capacity &&& (capacity - 1) = 0)
    "capacity must be a nonzero power of two"
  pure q

def capacity (q : SPSCQueue T) : UInt64 := UInt64.ofNat q.slots.size

def size (q : SPSCQueue T) : UInt64 := q.tail - q.head

def empty (q : SPSCQueue T) : Bool := q.size = 0

def slot? (q : SPSCQueue T) (index : UInt64) : Option T := q.slots[(index &&& q.mask).toNat]?

def readSlot (q : SPSCQueue T) (index : UInt64) : Exec T :=
  match q.slot? index with
  | some value => pure value
  | none => .error .outOfBounds

def writeSlot (q : SPSCQueue T) (index : UInt64) (value : T) : Exec (SPSCQueue T) :=
  if (index &&& q.mask).toNat < q.slots.size then
    pure { q with slots := q.slots.setIfInBounds (index &&& q.mask).toNat value }
  else .error .outOfBounds

end SPSCQueue

inductive Progress (pc r : Type) where
  | next : pc → Progress pc r
  | done : r → Progress pc r

/-- `try_push` at its next load or store. `full` tells the two calls of
`update_high_water` apart: the one before `return false` and the one before the
publishing store. -/
inductive TryPush (T : Type) where
  | loadTail (value : T)
  | loadHead (value : T) (tail : UInt64)
  | writeSlot (value : T) (tail : UInt64)
  | loadHighWater (value : T) (tail occupancy : UInt64) (full : Bool)
  | storeHighWater (value : T) (tail occupancy : UInt64) (full : Bool)
  | storeTail (value : T) (tail : UInt64)
  deriving DecidableEq

namespace TryPush

variable {T : Type}

def value : TryPush T → T
  | loadTail v | loadHead v _ | writeSlot v _ | loadHighWater v _ _ _ | storeHighWater v _ _ _
  | storeTail v _ => v

/-- The branch that returns `false`. -/
def Full : TryPush T → Prop
  | loadHighWater _ _ _ true | storeHighWater _ _ _ true => True
  | _ => False

/-- What follows `update_high_water`. -/
def afterHighWater (value : T) (tail : UInt64) (full : Bool) : Progress (TryPush T) Bool :=
  if full then .done false else .next (storeTail value tail)

def step (q : SPSCQueue T) : TryPush T → Exec (SPSCQueue T × Progress (TryPush T) Bool)
  | loadTail value =>
    let tail := q.tail
    if tail - q.headCache = q.capacity then pure (q, .next (loadHead value tail))
    else pure (q, .next (writeSlot value tail))
  | loadHead value tail =>
    let q := { q with headCache := q.head }
    if tail - q.headCache = q.capacity then
      pure (q, .next (loadHighWater value tail q.capacity true))
    else pure (q, .next (writeSlot value tail))
  | writeSlot value tail => do
    let q ← q.writeSlot tail value
    pure (q, .next (loadHighWater value tail (tail + 1 - q.headCache) false))
  | loadHighWater value tail occupancy full =>
    if occupancy > q.highWater then pure (q, .next (storeHighWater value tail occupancy full))
    else pure (q, afterHighWater value tail full)
  | storeHighWater value tail occupancy full =>
    pure ({ q with highWater := occupancy }, afterHighWater value tail full)
  | storeTail _ tail => pure ({ q with tail := tail + 1 }, .done true)

end TryPush

inductive PopRequest where
  | pop
  | popBatch (maxItems : UInt64)
  deriving DecidableEq, Repr

namespace PopRequest

/-- `assert(max_items > 0)`. -/
def Allowed : PopRequest → Prop
  | pop => True
  | popBatch maxItems => 0 < maxItems

instance : DecidablePred Allowed
  | pop => inferInstanceAs (Decidable True)
  | popBatch _ => inferInstanceAs (Decidable (_ < _))

/-- How many slots the call takes by its cached tail, `none` when that says empty. -/
def take (head tailCache : UInt64) : PopRequest → Option UInt64
  | pop => if head = tailCache then none else some 1
  | popBatch maxItems =>
    let available := tailCache - head
    if available = 0 then none
    else some (if available < maxItems then available else maxItems)

end PopRequest

/-- `try_pop` and `try_pop_batch` at their next load or store; `out` holds the slots
read so far. -/
inductive TryPop (T : Type) where
  | loadHead (request : PopRequest)
  | loadTail (request : PopRequest) (head : UInt64)
  | copy (head n : UInt64) (out : List T)
  deriving DecidableEq

namespace TryPop

variable {T : Type}

def step (q : SPSCQueue T) : TryPop T → Exec (SPSCQueue T × Progress (TryPop T) (List T))
  | loadHead request => do
    assert request.Allowed "max_items > 0"
    let head := q.head
    match request.take head q.tailCache with
    | none => pure (q, .next (loadTail request head))
    | some n => pure (q, .next (copy head n []))
  | loadTail request head =>
    let q := { q with tailCache := q.tail }
    match request.take head q.tailCache with
    | none => pure (q, .done [])
    | some n => pure (q, .next (copy head n []))
  | copy head n out =>
    if UInt64.ofNat out.length < n then do
      let value ← q.readSlot (head + UInt64.ofNat out.length)
      pure (q, .next (copy head n (out ++ [value])))
    else pure ({ q with head := head + n }, .done out)

end TryPop

end LimitOrderBook
