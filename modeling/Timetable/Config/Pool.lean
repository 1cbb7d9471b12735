import Timetable.Span

/-!
# Sizes of a worker pool

How many workers a pool keeps, how far it grows, and when it shrinks again.
-/
namespace Timetable

/-- The stack of a worker, in bytes, unless the configuration says otherwise. -/
def defaultStackSize : UInt64 := 2097152

/-- The smallest stack a worker may have. -/
def leastStackSize : UInt64 := 65536

/-- The sizes of a worker pool. -/
structure PoolConfig where
  /-- Workers kept for the pool's lifetime. -/
  coreSize : UInt64 := 5
  /-- The most workers there may be. -/
  maxSize : UInt64 := 10
  /-- How long a worker beyond the core may sit idle. -/
  keepAlive : Span := Span.ofMillis 60000
  stackSize : UInt64 := defaultStackSize
  /-- What the names of the workers begin with. -/
  workerName : String := "task-worker"
deriving DecidableEq

/-- What is wrong with the sizes of a pool. -/
inductive PoolFault where
  | noCore
  | maxBelowCore (maxSize coreSize : UInt64)
  | noKeepAlive
  | smallStack
deriving DecidableEq, Repr

/-- The sentence for a fault. -/
def PoolFault.message : PoolFault → String
  | noCore => "core_size must be greater than 0"
  | maxBelowCore maxSize coreSize =>
    "max_size (" ++ toString maxSize.toNat ++ ") must be at least core_size (" ++
      toString coreSize.toNat ++ ")"
  | noKeepAlive => "keep_alive must be greater than 0"
  | smallStack => "thread_stack_size must be at least 65536 bytes"

namespace PoolConfig

/-- The first rule that the configuration breaks. -/
def fault? (c : PoolConfig) : Option PoolFault :=
  if c.coreSize = 0 then some .noCore
  else if c.maxSize < c.coreSize then some (.maxBelowCore c.maxSize c.coreSize)
  else if c.keepAlive = Span.zero then some .noKeepAlive
  else if c.stackSize < leastStackSize then some .smallStack
  else none

/-- One worker for every processor, and twice as many under load. -/
def sizedFor (c : PoolConfig) (processors : UInt64) : PoolConfig :=
  let n := max processors 1
  { c with coreSize := n, maxSize := n * 2 }

end PoolConfig

end Timetable
