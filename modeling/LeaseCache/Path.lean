import LeaseCache.Text.Utf8

/-!
# Paths

A path is a byte sequence with a spelling of its own. Two spellings name the same place when their
components agree: repeated and trailing slashes and inner dots do not count, a leading dot and
two dots do. `Path.components` is the normal form behind that, `Path.compare` the order it gives.
-/

namespace LeaseCache

/-- A path as it is spelled. -/
structure Path where
  bytes : List UInt8
  deriving DecidableEq, Repr, Inhabited

/-- One step of a path. -/
inductive Component where
  /-- The slash at the beginning. -/
  | root
  /-- A dot at the beginning. -/
  | current
  /-- Two dots. -/
  | parent
  /-- The name of a child. -/
  | name (bytes : List UInt8)
  deriving DecidableEq, Repr

/-- The order of two sequences: by their first difference, a beginning before what continues it. -/
def compareLists {α : Type} (compare : α → α → Ordering) : List α → List α → Ordering
  | [], [] => .eq
  | [], _ :: _ => .lt
  | _ :: _, [] => .gt
  | a :: as, b :: bs => (compare a b).then (compareLists compare as bs)

/-- The order of byte sequences. -/
def compareBytes (a b : List UInt8) : Ordering :=
  compareLists (fun x y => Ord.compare x.toNat y.toNat) a b

namespace Component

/-- The place of a kind of component in their order. -/
def rank : Component → Nat
  | .root => 0
  | .current => 1
  | .parent => 2
  | .name _ => 3

/-- The order of components: by kind, then by name. -/
def compare : Component → Component → Ordering
  | .name a, .name b => compareBytes a b
  | a, b => Ord.compare a.rank b.rank

/-- The spelling of a component inside a path. -/
def spelling : Component → List UInt8
  | .root => []
  | .current => [0x2E]
  | .parent => [0x2E, 0x2E]
  | .name bytes => bytes

end Component

namespace Path

/-- The slash. -/
def slash : UInt8 := 0x2F

/-- The path with the spelling of a text. -/
def ofString (s : String) : Path := ⟨Utf8.ofString s⟩

/-- The stretches between slashes. -/
def segments : List UInt8 → List (List UInt8)
  | [] => [[]]
  | b :: rest =>
    if b = slash then [] :: segments rest
    else
      match segments rest with
      | [] => [[b]]
      | s :: more => (b :: s) :: more

/-- Whether a path begins at the root. -/
def isAbsolute (p : Path) : Bool := p.bytes.head? = some slash

/-- What a stretch contributes away from the beginning: an empty one and a dot do not count. -/
def innerComponent (segment : List UInt8) : Option Component :=
  if segment = [] then none
  else if segment = [0x2E] then none
  else if segment = [0x2E, 0x2E] then some .parent
  else some (.name segment)

/-- The steps of a path, in which all spellings of one place agree. -/
def components (p : Path) : List Component :=
  if p.isAbsolute then .root :: (segments p.bytes).filterMap innerComponent
  else
    match segments p.bytes with
    | [0x2E] :: rest => .current :: rest.filterMap innerComponent
    | all => all.filterMap innerComponent

/-- Whether two spellings name the same place. -/
def Same (p q : Path) : Prop := p.components = q.components

instance (p q : Path) : Decidable (p.Same q) := inferInstanceAs (Decidable (_ = _))

theorem Same.refl (p : Path) : p.Same p := rfl

theorem Same.symm {p q : Path} (h : p.Same q) : q.Same p := Eq.symm h

theorem Same.trans {p q r : Path} (h : p.Same q) (h' : q.Same r) : p.Same r := Eq.trans h h'

/-- The order of paths, component by component. -/
def compare (p q : Path) : Ordering := compareLists Component.compare p.components q.components

/-- Paths in order; those that name the same place keep their places among each other. -/
def sort (paths : List Path) : List Path := paths.mergeSort fun p q => p.compare q ≠ .gt

/-- The number of places that paths name. -/
def countDistinct (paths : List Path) : Nat := (paths.map components).eraseDups.length

/-- A path seen from a base: an absolute path replaces the base, any other follows it. -/
def join (base p : Path) : Path :=
  if p.isAbsolute then p
  else if base.bytes = [] || base.bytes.getLast? = some slash then ⟨base.bytes ++ p.bytes⟩
  else ⟨base.bytes ++ slash :: p.bytes⟩

/-- The path spelled by components, with single slashes. -/
def ofComponents : List Component → Path
  | .root :: rest => ⟨slash :: [slash].intercalate (rest.map Component.spelling)⟩
  | cs => ⟨[slash].intercalate (cs.map Component.spelling)⟩

/-- The path without its last component; the root and the empty path have none. -/
def parent? (p : Path) : Option Path :=
  match p.components.getLast? with
  | none => none
  | some .root => none
  | some _ => some (ofComponents p.components.dropLast)

/-- The text of a path, if it is one. -/
def toString? (p : Path) : Option String := Utf8.toString? p.bytes

/-- A path as it is shown, with U+FFFD for what is not text. -/
def shown (p : Path) : String := Utf8.lossy p.bytes

end Path

end LeaseCache
