/-!
# Signals

What a store's marker shows: a modification time or a generation. The caches only compare signals
for equality, so a time needs no order: it is either one that was set, or the tick of the file
system's clock at which something was modified, and no tick comes twice.
-/

namespace LeaseCache

/-- A modification time. -/
inductive Timestamp where
  /-- The tick of a modification. -/
  | tick (count : Nat)
  /-- A time that was set. -/
  | instant (seconds nanoseconds : Nat)
  deriving DecidableEq, Repr

/-- What a marker shows. -/
inductive Signal where
  | modified (time : Timestamp)
  | generation (count : UInt64)
  deriving DecidableEq, Repr

/-- A signal as it is shown; times are not told apart. -/
def Signal.shown : Signal → String
  | .modified _ => "Modified(_)"
  | .generation n => "Generation(" ++ toString n.toNat ++ ")"

/-- A reading of a marker as it is shown; a failed reading is no signal. -/
def Signal.shownReading : Option Signal → String
  | none => "None"
  | some s => "Some(" ++ s.shown ++ ")"

end LeaseCache
