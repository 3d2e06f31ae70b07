import HashConsing.Building

/-!
# Recursion over syntax trees

What a builder makes of a syntax tree can be made by plain recursion: enter a
node, go through its properties from left to right and down into the nodes they
hold, and make something of the node from what its properties gave. This is how
anyone would write it first, and what the loop of `HashConsing.Building` stands
for.
-/

namespace HashConsing

/-- **Goes on with the result of a computation**, unless it failed. -/
def Ending.andThen {σ α β : Type} (ending : Ending σ α) (next : α → σ → Ending σ β) :
    Ending σ β :=
  match ending with
  | (.ok a, s) => next a s
  | (.error failure, s) => (.error failure, s)

/-- The ending of a computation that cannot fail. -/
def Ending.success {σ α : Type} (result : α × σ) : Ending σ α := (.ok result.1, result.2)

section Recursion

variable {σ τ : Type} (fe : Frontend) (b : Builder σ τ)

mutual

/-- **What is made of a node**: first its kind is looked up, then its properties
are gone through, last comes the node itself. -/
def Value.buildNode (v : Value) (s : σ) : Option (Ending σ τ) :=
  match fe.properties (fe.kindOf v) with
  | .error failure => some (.error failure, s)
  | .ok ps => do
    let ending ← v |>.buildProperties (fe.kindOf v) ps s
    return ending.andThen fun ts s => .success (b.node v (fe.kindOf v) ts s)
partial_fixpoint

/-- What is made of properties, from left to right. -/
def Value.buildProperties (v : Value) (kind : String) (ps : List Property) (s : σ) :
    Option (Ending σ (List τ)) :=
  match ps with
  | [] => some (.ok [], s)
  | p :: ps => do
    match ← v |>.buildProperty kind p s with
    | (.error failure, s) => return (.error failure, s)
    | (.ok t, s) =>
      let ending ← v |>.buildProperties kind ps s
      return ending.andThen fun ts s => (.ok (t :: ts), s)
partial_fixpoint

/-- **What is made of a property.** The items of a list come before the list. -/
def Value.buildProperty (v : Value) (kind : String) (p : Property) (s : σ) : Option (Ending σ τ) :=
  match p.kind with
  | .leaf =>
    match fe.leafKey kind p (fe.read v p) with
    | .error failure => some (.error failure, s)
    | .ok key => some (.success (b.leaf key (fe.read v p) s))
  | .child => fe.read v p |>.buildSlot kind p Expected.optionalNode s
  | .childList =>
    match listItems kind p (fe.read v p) with
    | .error failure => some (.error failure, s)
    | .ok items => do
      let ending ← p |>.buildItems kind items s
      return ending.andThen fun ts s => .success (b.list items ts s)
partial_fixpoint

/-- What is made of the items of a list, from left to right. -/
def Property.buildItems (kind : String) (p : Property) (items : List Value) (s : σ) :
    Option (Ending σ (List τ)) :=
  match items with
  | [] => some (.ok [], s)
  | item :: items => do
    match ← item |>.buildSlot kind p Expected.nodeList s with
    | (.error failure, s) => return (.error failure, s)
    | (.ok t, s) =>
      let ending ← p |>.buildItems kind items s
      return ending.andThen fun ts s => (.ok (t :: ts), s)
partial_fixpoint

/-- **What is made of a place for a node**, which may be empty. -/
def Value.buildSlot (kind : String) (p : Property) (expected : String) (v : Value) (s : σ) :
    Option (Ending σ τ) :=
  match fe.slot kind p expected v with
  | .error failure => some (.error failure, s)
  | .ok none => some (.success (b.absent s))
  | .ok (some w) => w |>.buildNode s
partial_fixpoint

end

end Recursion

export Value (buildNode buildProperties buildProperty buildSlot)
export Property (buildItems)

end HashConsing
