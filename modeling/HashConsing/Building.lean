import HashConsing.Frontend.Property

/-!
# Going through a syntax tree

Whatever is made of a syntax tree bottom-up is made in the same order: the kind
of a node is looked up first, its properties follow from left to right, the
items of a list come before the list and the properties of a node before the
node. A `Builder` says what is made of each part, with a state that changes on
the way. A builder never fails, so whether something can be made of a tree, and
why not, is up to the tree alone; a failure stops the whole at once, and what
the state has become by then stays.

Syntax trees can be far deeper than a program may recurse, so the nodes that are
being gone through are kept on a stack. A frame of the stack remembers how far
one node has come: which properties are still to be gone through, and, inside a
list property, which items. The plain recursion that all this stands for is in
`Building.Recursion`.
-/

namespace HashConsing

/-- **What becomes of a computation that changes a state**: its result or the
failure that stopped it, and the state either way. -/
abbrev Ending (σ α : Type) := Except Failure α × σ

/-- **What is made of the parts of a syntax tree**, with a state that changes on
the way. -/
structure Builder (σ τ : Type) where
  /-- What is made of an absent node. -/
  absent : σ → τ × σ
  /-- What is made of a leaf, given by its key and its value. -/
  leaf : LeafKey → Value → σ → τ × σ
  /-- What is made of a list, given by its items and what was made of them. -/
  list : List Value → List τ → σ → τ × σ
  /-- What is made of a node, given by its value, its kind, and what was made of
  its properties. -/
  node : Value → String → List τ → σ → τ × σ

/-! ## Frames -/

section Frames

variable (τ : Type)

/-- **How far a list property has come.** -/
structure Walk where
  property : Property
  /-- All items of the list. -/
  items : List Value
  /-- The items that are still to come. -/
  rest : List Value
  /-- What was made of the others, last first. -/
  results : List τ

/-- **How far a node has come.** -/
structure Frame where
  node : Value
  kind : String
  /-- The properties that are still to come, without the one whose list is being
  walked. -/
  pending : List Property
  /-- What was made of the others, last first. -/
  results : List τ
  /-- The list property whose items are being gone through. -/
  walk : Option (Walk τ)

/-- **What is to be done next.** -/
inductive Turn where
  /-- Go on with the frame. -/
  | proceed (f : Frame τ)
  /-- Go through a node first and hand what is made of it to the frame. -/
  | descend (v : Value)
  /-- The node of the frame is done. -/
  | finish (t : τ)

end Frames

namespace Frame

variable {σ τ : Type} (fe : Frontend) (b : Builder σ τ)

/-- **Starts with a node**: its kind is looked up. -/
def enter (v : Value) : Except Failure (Frame τ) := do
  return ⟨v, fe.kindOf v, ← fe.properties (fe.kindOf v), [], none⟩

/-- **Hands what was made to a frame**, for the next item of the list that is
being walked or else for the next property. -/
def receive (f : Frame τ) (t : τ) : Frame τ :=
  match f.walk with
  | some w =>
    { f with walk := some { w with rest := w.rest.tail, results := t :: w.results } }
  | none => { f with pending := f.pending.tail, results := t :: f.results }

/-- What becomes of a value where a node or nothing is expected. -/
def visit (f : Frame τ) (p : Property) (expected : String) (v : Value) (s : σ) :
    Ending σ (Turn τ) :=
  match fe.slot f.kind p expected v with
  | .error failure => (.error failure, s)
  | .ok none =>
    let (t, s) := b.absent s
    (.ok (.proceed (f.receive t)), s)
  | .ok (some w) => (.ok (.descend w), s)

/-- **Makes what needs no descent.** -/
def advance (f : Frame τ) (s : σ) : Ending σ (Turn τ) :=
  match f.walk with
  | some w =>
    match w.rest with
    | item :: _ => f.visit fe b w.property Expected.nodeList item s
    | [] =>
      let (t, s) := b.list w.items w.results.reverse s
      (.ok (.proceed { f with walk := none, results := t :: f.results }), s)
  | none =>
    match f.pending with
    | [] =>
      let (t, s) := b.node f.node f.kind f.results.reverse s
      (.ok (.finish t), s)
    | p :: ps =>
      let value := fe.read f.node p
      match p.kind with
      | .leaf =>
        match fe.leafKey f.kind p value with
        | .error failure => (.error failure, s)
        | .ok key =>
          let (t, s) := b.leaf key value s
          (.ok (.proceed (f.receive t)), s)
      | .child => f.visit fe b p Expected.optionalNode value s
      | .childList =>
        match listItems f.kind p value with
        | .error failure => (.error failure, s)
        | .ok items =>
          (.ok (.proceed { f with pending := ps, walk := some ⟨p, items, items, []⟩ }), s)

/-! ## The loop -/

/-- **Goes through the nodes on a stack**, the topmost first. What is made of a
node is handed to the frame below. Only a tree without end keeps the loop from
ending. -/
def run (f : Frame τ) (below : List (Frame τ)) (s : σ) : Option (Ending σ τ) :=
  match f.advance fe b s with
  | (.error failure, s) => some (.error failure, s)
  | (.ok (.proceed f), s) => f |>.run below s
  | (.ok (.descend v), s) =>
    match enter fe v with
    | .error failure => some (.error failure, s)
    | .ok top => top |>.run (f :: below) s
  | (.ok (.finish t), s) =>
    match below with
    | [] => some (.ok t, s)
    | f :: below => f.receive t |>.run below s
partial_fixpoint

end Frame

/-- **What is made of a syntax tree.** -/
def Builder.build {σ τ : Type} (fe : Frontend) (b : Builder σ τ) (root : Value) (s : σ) :
    Option (Ending σ τ) :=
  match Frame.enter fe root with
  | .error failure => some (.error failure, s)
  | .ok f => f.run fe b [] s

end HashConsing
