import LeaseCache.Path

/-!
# Keys

The closed set of keys of a cached store: texts, integers and paths.

A key has two identities. In memory two keys are one when they are of one kind and, if they are
paths, name the same place: `Key.identity`. On disk the exact spelling counts.
-/

namespace LeaseCache

/-- A key of a store. -/
inductive Key where
  | text (value : String)
  | integer (value : Int64)
  | path (value : Path)
  deriving DecidableEq, Repr, Inhabited

/-- What two keys share when the memory layer takes them for one. -/
inductive Identity where
  | text (value : String)
  | integer (value : Int64)
  | path (components : List Component)
  deriving DecidableEq, Repr

namespace Key

/-- The identity of a key in memory. -/
def identity : Key → Identity
  | .text s => .text s
  | .integer n => .integer n
  | .path p => .path p.components

/-- Whether the memory layer takes two keys for one. -/
def Same (k l : Key) : Prop := k.identity = l.identity

instance (k l : Key) : Decidable (k.Same l) := inferInstanceAs (Decidable (_ = _))

/-- The place of a kind of key in their order. -/
def rank : Key → Nat
  | .text _ => 0
  | .integer _ => 1
  | .path _ => 2

/-- The order of keys: texts, then integers, then paths. -/
def compare : Key → Key → Ordering
  | .text s, .text t => Ord.compare s t
  | .integer m, .integer n => Ord.compare m.toInt n.toInt
  | .path p, .path q => p.compare q
  | k, l => Ord.compare k.rank l.rank

/-- A key as it is shown. -/
def shown : Key → String
  | .text s => s
  | .integer n => toString n.toInt
  | .path p => p.shown

/-- Keys in order; equal ones keep their places among each other. -/
def sort (keys : List Key) : List Key := keys.mergeSort fun k l => k.compare l ≠ .gt

/-- The number of keys that the memory layer tells apart. -/
def countDistinct (keys : List Key) : Nat := (keys.map identity).eraseDups.length

end Key

end LeaseCache
