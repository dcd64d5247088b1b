import SceneGraph.Decimal.Layout

/-!
# Timestamps

A timestamp counts seconds. The least finite number is no time at all: it marks a value that was
never set, and it loses against every other timestamp (`Timestamp.later`).
-/

namespace SceneGraph

/-- Seconds since the epoch, or unset. -/
structure Timestamp where
  seconds : Float

namespace Timestamp

/-- The timestamp of a value that was never set. -/
def unset : Timestamp := ⟨Float.ofBits 0xffefffffffffffff⟩

instance : Inhabited Timestamp := ⟨unset⟩

def isUnset (t : Timestamp) : Bool := t.seconds == unset.seconds

/-- The later of two timestamps; the first of two equal ones, the second if they do not compare. -/
def later (a b : Timestamp) : Timestamp := if a.seconds ≥ b.seconds then a else b

/-- The timestamp in messages, with microseconds. -/
def text (t : Timestamp) : String :=
  if t.isUnset then "invalid" else Decimal.fixed 6 (Decimal.unpack t.seconds)

/-- The timestamp as diagnostics show it. -/
def debugText (t : Timestamp) : String :=
  if t.isUnset then "Timestamp(invalid)" else s!"Timestamp({Decimal.plain t.seconds})"

end Timestamp

end SceneGraph
