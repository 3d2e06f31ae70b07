import Std.Data.TreeMap
import HashConsing.LeafKey
import HashConsing.Shape

/-!
# The tables of canonical ids

Canonical ids are handed out in order of first encounter, from 2 on: 0 stands
for what is absent and 1 is reserved. The tables remember, for every leaf key
and every shape met so far, the id it has, and for every id what it stands for.

Tables only grow. Adding a key that is already there is not offered: whoever
adds a key has looked it up before.
-/

namespace HashConsing

/-- The id of what is absent. -/
def nullId : Nat := 0

/-- The reserved id that tells lists from nodes. -/
def listId : Nat := 1

/-- The first id that is handed out. -/
def firstId : Nat := 2

/-- **The canonical ids handed out so far.** -/
structure Tables where
  /-- The next id to hand out: every id below it is allocated. -/
  nextId : Nat
  /-- The ids of leaf values. -/
  leafIds : Std.TreeMap LeafKey Nat
  /-- The ids of shapes. -/
  shapeIds : Std.TreeMap Shape Nat
  /-- What the ids stand for. -/
  representations : Array Representation
  /-- The kind names of the ids, as recorded when they were handed out. -/
  kindNames : Array String

namespace Tables

/-- **The tables at the start**: only the two reserved ids stand for
something. -/
def empty : Tables where
  nextId := firstId
  leafIds := ∅
  shapeIds := ∅
  representations := #[.marker .absent, .marker .listShape]
  kindNames := #[Marker.text .absent, Marker.text .listShape]

/-- The kind name recorded for leaves. -/
def leafKindName : String := "Leaf"

/-- The kind name recorded for a shape. -/
def shapeKindName (s : Shape) : String := s.kind?.getD "List"

variable (t : Tables)

/-- The id of a leaf key, if it has one. -/
def leafId? (key : LeafKey) : Option Nat := t.leafIds[key]?

/-- The id of a shape, if it has one. -/
def shapeId? (s : Shape) : Option Nat := t.shapeIds[s]?

/-- **A leaf key gets the next id**, which stands for the given value. -/
def addLeaf (key : LeafKey) (v : Value) : Tables :=
  { t with
    nextId := t.nextId + 1
    leafIds := t.leafIds.insert key t.nextId
    representations := t.representations.push (.leaf v)
    kindNames := t.kindNames.push leafKindName }

/-- **A shape gets the next id.** -/
def addShape (s : Shape) : Tables :=
  { t with
    nextId := t.nextId + 1
    shapeIds := t.shapeIds.insert s t.nextId
    representations := t.representations.push (.shape s)
    kindNames := t.kindNames.push (shapeKindName s) }

@[simp] theorem nextId_addLeaf (key : LeafKey) (v : Value) :
    (t.addLeaf key v).nextId = t.nextId + 1 := rfl

@[simp] theorem nextId_addShape (s : Shape) : (t.addShape s).nextId = t.nextId + 1 := rfl

theorem leafId?_addLeaf (key : LeafKey) (v : Value) (key' : LeafKey) :
    (t.addLeaf key v).leafId? key' = if key = key' then some t.nextId else t.leafId? key' := by
  simp [leafId?, addLeaf, Std.TreeMap.getElem?_insert]

theorem leafId?_addShape (s : Shape) (key : LeafKey) :
    (t.addShape s).leafId? key = t.leafId? key := rfl

theorem shapeId?_addShape (s s' : Shape) :
    (t.addShape s).shapeId? s' = if s = s' then some t.nextId else t.shapeId? s' := by
  simp [shapeId?, addShape, Std.TreeMap.getElem?_insert]

theorem shapeId?_addLeaf (key : LeafKey) (v : Value) (s : Shape) :
    (t.addLeaf key v).shapeId? s = t.shapeId? s := rfl

end Tables

end HashConsing
