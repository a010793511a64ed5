/-!
# Event channels

A channel passes values to its subscribers in the order in which they subscribed. What a subscriber
does with a value is not modelled: the channel keeps the log of all deliveries, which only grows.
-/

namespace BytecodeDebugger

/-- The subscribers of one kind of event, and all that was delivered to them. -/
structure Channel (α : Type) where
  subscribers : Nat := 0
  /-- Each delivery with the number of its subscriber, the oldest first. -/
  log : Array (Nat × α) := #[]
  deriving DecidableEq, Inhabited

namespace Channel

variable {α : Type}

/-- Adds a subscriber behind the others. -/
def subscribe (c : Channel α) : Channel α :=
  { c with subscribers := c.subscribers + 1 }

/-- Delivers a value to every subscriber in turn. -/
def notify (c : Channel α) (value : α) : Channel α :=
  { c with log := c.log ++ ((List.range c.subscribers).map fun i => (i, value)).toArray }

/-- The deliveries made since the log had a given length. -/
def since (c : Channel α) (mark : Nat) : List (Nat × α) :=
  c.log.toList.drop mark

/-- A channel as `Listeners(subscribers)`. -/
def text (c : Channel α) : String :=
  s!"Listeners({c.subscribers})"

end Channel

end BytecodeDebugger
