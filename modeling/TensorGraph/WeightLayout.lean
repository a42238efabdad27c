import TensorGraph.Graph.Basic

/-!
# `TensorGraph.WeightLayout` — **placing weights in one buffer**

The constants of a graph are placed back to back in one flat buffer, in the order in which they were
added. Offsets and sizes count elements and are 64-bit words.
-/

namespace TensorGraph

/-- One region of the buffer. -/
structure Region where
  name : String
  offset : UInt64
  size : UInt64
deriving DecidableEq

/-- One past the last element of the region. -/
def Region.stop (a : Region) : Nat := a.offset.toNat + a.size.toNat

/-- Regions by name, and the size of the buffer. -/
structure WeightLayout where
  totalSize : UInt64
  regions : NameMap Region
deriving DecidableEq

/-- The buffer would have more elements than a word counts; the constant is the first that does not
    fit. -/
structure LayoutError where
  graph : String
  constant : String
deriving DecidableEq

/-- Wording. -/
def LayoutError.message (e : LayoutError) : String :=
  s!"constant '{e.constant}' does not fit: graph '{e.graph}' needs more than usize::MAX elements"

namespace WeightLayout

/-- The layout of an empty buffer. -/
def empty : WeightLayout := ⟨0, .empty⟩

/-- The layout with a variable placed at the end of the buffer, if it fits. -/
def place? (l : WeightLayout) (v : Variable) : Option WeightLayout := do
  let total ← Count.add? l.totalSize.toNat v.shape.size
  some
    { totalSize := UInt64.ofNat total
      regions := l.regions.insert v.label
        ⟨v.label, l.totalSize, UInt64.ofNat v.shape.size⟩ }

/-- Places one more constant of a graph. -/
def placeConstant (graph : String) (l : WeightLayout) (v : Variable) :
    Except LayoutError WeightLayout :=
  match l.place? v with
  | some l' => .ok l'
  | none => .error ⟨graph, v.label⟩

/-- The layout of a graph's constants. -/
def ofGraph (g : Graph) : Except LayoutError WeightLayout :=
  g.constants.foldlM (placeConstant g.name) empty

/-- The region of a name. -/
def find? (l : WeightLayout) (name : String) : Option Region := l.regions.find? name

/-- Number of regions. -/
def size (l : WeightLayout) : Nat := l.regions.size

/-- There are no regions. -/
def isEmpty (l : WeightLayout) : Bool := l.regions.isEmpty

/-- The regions by increasing offset; regions of one offset stay in the order of their names. -/
def regionsByOffset (l : WeightLayout) : List Region :=
  l.regions.values.mergeSort fun a b => a.offset.toNat ≤ b.offset.toNat

end WeightLayout

end TensorGraph
