import HashConsing.Canonicalizer
import HashConsing.Frontend.Dialect
import HashConsing.Proofs.Rules

/-!
# The loop is the recursion

A syntax tree is gone through by a loop over a stack of frames. This module shows that the
loop does what plain recursion does, whatever is made of the tree: it ends exactly if the
recursion ends, and then with the same result or the same failure, in the same state. So
whatever is proved of the recursion holds of the loop, and in particular of labeling.

One direction follows the loop: every frame stands for a rest of the recursion
(`Frame.complete`), every stack for a rest of the recursion from its topmost
frame on (`completeStack`), and no turn of the loop changes what the stack
stands for. The other direction follows the recursion, by its rules: whatever it makes of a
part of a tree, the loop makes of it too, on top of any stack (`runAccount`).

The recursion ends for every finite tree.
-/

namespace HashConsing

/-! ## Chaining computations -/

namespace Ending

variable {σ α β γ : Type}

/-- **Goes on with the result of a computation** that may not end. -/
def chain (x : Option (Ending σ α)) (next : α → σ → Option (Ending σ β)) :
    Option (Ending σ β) :=
  match x with
  | none => none
  | some (.error failure, s) => some (.error failure, s)
  | some (.ok a, s) => next a s

@[simp] theorem chain_ok (a : α) (s : σ) (next : α → σ → Option (Ending σ β)) :
    chain (some (.ok a, s)) next = next a s := rfl

@[simp] theorem chain_success (a : α × σ) (next : α → σ → Option (Ending σ β)) :
    chain (some (success a)) next = next a.1 a.2 := rfl

/-- Chaining is associative. -/
theorem chain_chain (x : Option (Ending σ α)) (f : α → σ → Option (Ending σ β))
    (g : β → σ → Option (Ending σ γ)) :
    chain (chain x f) g = chain x fun a s => chain (f a s) g := by
  rcases x with _ | ⟨_ | _, _⟩ <;> rfl

/-- A chain that ends has failed in its first part or come to its second. -/
theorem chain_eq_some {x : Option (Ending σ α)} {next : α → σ → Option (Ending σ β)}
    {ending : Ending σ β} (h : chain x next = some ending) :
    (∃ failure s, x = some (.error failure, s) ∧ ending = (.error failure, s))
      ∨ ∃ a s, x = some (.ok a, s) ∧ next a s = some ending := by
  rcases x with _ | ⟨failure | a, s⟩
  · cases h
  · exact .inl ⟨failure, s, rfl, (Option.some.inj h).symm⟩
  · exact .inr ⟨a, s, rfl, h⟩

/-- Going on with a result and then chaining on is chaining on twice. -/
theorem chain_andThen (e : Ending σ α) (f : α → σ → Ending σ β)
    (next : β → σ → Option (Ending σ γ)) :
    chain (some (e.andThen f)) next = chain (some e) fun a s => chain (some (f a s)) next := by
  rcases e with ⟨_ | _, _⟩ <;> rfl

/-- A last step that always ends is chained on as well. -/
theorem bind_andThen (x : Option (Ending σ α)) (f : α → σ → Ending σ β) :
    (do let ending ← x; return ending.andThen f) = chain x fun a s => some (f a s) := by
  rcases x with _ | ⟨_ | _, _⟩ <;> rfl

/-- What comes first in a list is done first. -/
theorem bind_cons (x : Option (Ending σ α)) (rest : σ → Option (Ending σ (List α))) :
    (do
      match ← x with
      | (.error failure, s) => return (.error failure, s)
      | (.ok a, s) =>
        let ending ← rest s
        return ending.andThen fun as s => (.ok (a :: as), s))
      = chain x fun a s => chain (rest s) fun as s => some (.ok (a :: as), s) := by
  rcases x with _ | ⟨_ | a, s⟩
  · rfl
  · rfl
  · exact bind_andThen _ _

end Ending

open Ending

/-! ## The recursion, chained -/

section Recursion

variable {σ τ : Type} (fe : Frontend) (b : Builder σ τ)

theorem buildProperties_cons (v : Value) (kind : String) (p : Property) (ps : List Property)
    (s : σ) :
    buildProperties fe b v kind (p :: ps) s
      = chain (buildProperty fe b v kind p s) fun t s =>
          chain (buildProperties fe b v kind ps s) fun ts s => some (.ok (t :: ts), s) := by
  rw [buildProperties]
  exact bind_cons _ _

theorem buildItems_cons (kind : String) (p : Property) (item : Value) (items : List Value)
    (s : σ) :
    buildItems fe b kind p (item :: items) s
      = chain (buildSlot fe b kind p Expected.nodeList item s) fun t s =>
          chain (buildItems fe b kind p items s) fun ts s => some (.ok (t :: ts), s) := by
  rw [buildItems]
  exact bind_cons _ _

end Recursion

/-! ## What a stack stands for -/

section Loop

variable {σ τ : Type} (fe : Frontend) (b : Builder σ τ)

/-- **What is left of a frame's node**, done by recursion: first the rest of the
list that is being walked, then the rest of the properties. -/
def Frame.complete (f : Frame τ) (s : σ) : Option (Ending σ τ) :=
  let properties (done : List τ) (s : σ) :=
    chain (buildProperties fe b f.node f.kind f.pending s) fun ts s =>
      some (success (b.node f.node f.kind (done.reverse ++ ts) s))
  match f.walk with
  | none => properties f.results s
  | some w =>
    chain (buildItems fe b f.kind w.property w.rest s) fun ts s =>
      let (t, s) := b.list w.items (w.results.reverse ++ ts) s
      properties (t :: f.results) s

/-- **What is left of a whole stack**, done by recursion. -/
def completeStack (f : Frame τ) (below : List (Frame τ)) (s : σ) : Option (Ending σ τ) :=
  match below with
  | [] => f.complete fe b s
  | g :: below =>
    chain (f.complete fe b s) fun t s => completeStack (g.receive t) below s

/-- The recursion enters a node as the loop does. -/
theorem buildNode_eq_complete (v : Value) (s : σ) :
    buildNode fe b v s = chain (some (Frame.enter fe v, s)) fun f s => f.complete fe b s := by
  rw [buildNode]
  unfold Frame.enter
  cases fe.properties (fe.kindOf v) with
  | error failure => rfl
  | ok ps => exact bind_andThen _ _

/-- What a turn of a frame leaves to do. -/
def Turn.complete (f : Frame τ) (turn : Turn τ) (s : σ) : Option (Ending σ τ) :=
  match turn with
  | .proceed g => g.complete fe b s
  | .descend v => chain (buildNode fe b v s) fun t s => (f.receive t).complete fe b s
  | .finish t => some (.ok t, s)

/-- A place for a node is left to do as the recursion does it. -/
theorem visit_complete (f : Frame τ) (p : Property) (expected : String) (v : Value) (s : σ) :
    chain (some (f.visit fe b p expected v s)) (Turn.complete fe b f)
      = chain (buildSlot fe b f.kind p expected v s) fun t s =>
          (f.receive t).complete fe b s := by
  rw [buildSlot]
  unfold Frame.visit
  rcases fe.slot f.kind p expected v with _ | _ | w <;> rfl

/-- **No turn changes what a frame stands for.** -/
theorem complete_eq_advance (f : Frame τ) (s : σ) :
    f.complete fe b s = chain (some (f.advance fe b s)) (Turn.complete fe b f) := by
  obtain ⟨v, kind, pending, results, walk⟩ := f
  cases walk with
  | some w =>
    obtain ⟨p, items, rest, trees⟩ := w
    cases rest with
    | nil =>
      -- The items are done: the list comes next, in the frame and in the recursion.
      simp only [Frame.complete, buildItems, chain_ok, List.append_nil, Frame.advance,
        Turn.complete]
    | cons item rest =>
      simp only [Frame.advance]
      rw [visit_complete]
      simp only [Frame.complete, Frame.receive, buildItems_cons, chain_chain, chain_ok,
        List.tail_cons, List.reverse_cons, List.append_assoc, List.singleton_append]
  | none =>
    cases pending with
    | nil =>
      -- The properties are done: the node comes next.
      simp only [Frame.complete, buildProperties, chain_ok, List.append_nil, Frame.advance,
        Turn.complete, success]
    | cons p ps =>
      simp only [Frame.complete, buildProperties_cons, chain_chain, chain_ok]
      rw [buildProperty]
      simp only [Frame.advance]
      cases p.kind with
      | leaf =>
        cases hk : fe.leafKey kind p (fe.read v p) with
        | error failure => rfl
        | ok key =>
          simp only [chain_success, chain_ok, Turn.complete, Frame.complete, Frame.receive,
            List.tail_cons, List.reverse_cons, List.append_assoc, List.singleton_append]
      | child =>
        simp only
        rw [visit_complete]
        simp only [Frame.complete, Frame.receive, List.tail_cons, List.reverse_cons,
          List.append_assoc, List.singleton_append]
      | childList =>
        cases hi : listItems kind p (fe.read v p) with
        | error failure => rfl
        | ok items =>
          simp only [bind_andThen, chain_chain, chain_success, chain_ok, Turn.complete,
            Frame.complete, List.reverse_nil, List.nil_append, List.reverse_cons,
            List.append_assoc, List.singleton_append]

/-- What is left of a stack of at least two frames. -/
theorem completeStack_cons (f g : Frame τ) (below : List (Frame τ)) (s : σ) :
    completeStack fe b f (g :: below) s
      = chain (f.complete fe b s) fun t s => completeStack fe b (g.receive t) below s := rfl

/-- What is left of a stack is left of its topmost frame first. -/
theorem completeStack_eq_chain (f : Frame τ) (below : List (Frame τ)) (s : σ) :
    completeStack fe b f below s
      = chain (f.complete fe b s) fun t s =>
          match below with
          | [] => some (.ok t, s)
          | g :: below => completeStack fe b (g.receive t) below s := by
  cases below with
  | nil =>
    rw [completeStack]
    rcases f.complete fe b s with _ | ⟨_ | t, s⟩ <;> rfl
  | cons g below => rfl

variable {fe b}

/-- **Where the loop ends, so does the recursion**, in the same way. -/
theorem completeStack_of_run {f : Frame τ} {below : List (Frame τ)} {s : σ}
    {ending : Ending σ τ} (h : Frame.run fe b f below s = some ending) :
    completeStack fe b f below s = some ending := by
  -- The induction is on the loop: `ih` is about the stack that a turn leaves.
  refine Frame.run.partial_correctness fe b
    (fun f below s ending => completeStack fe b f below s = some ending)
    (fun run ih f below s ending h => ?_) f below s ending h
  rw [completeStack_eq_chain, complete_eq_advance]
  generalize f.advance fe b s = turn at h ⊢
  rcases turn with ⟨_ | turn, s⟩
  · exact h
  · cases turn with
    | proceed g =>
      have hg := ih g below s ending h
      rw [completeStack_eq_chain] at hg
      exact hg
    | descend v =>
      dsimp only at h
      simp only [chain_ok, Turn.complete, chain_chain, buildNode_eq_complete]
      cases henter : Frame.enter fe v with
      | error failure =>
        rw [henter] at h
        exact h
      | ok top =>
        rw [henter] at h
        have htop := ih top (f :: below) s ending h
        rw [completeStack_cons] at htop
        rw [chain_ok, ← htop]
        refine congrArg _ ?_
        funext t s
        exact (completeStack_eq_chain fe b (f.receive t) below s).symm
    | finish t =>
      cases below with
      | nil => exact h
      | cons g below => exact ih (g.receive t) below s ending h

end Loop

/-! ## What the loop does with the parts of a tree -/

section Parts

variable {σ τ : Type} (fe : Frontend) (b : Builder σ τ)

/-- The loop from the moment a node is entered. -/
def runNode (v : Value) (below : List (Frame τ)) (s : σ) : Option (Ending σ τ) :=
  chain (some (Frame.enter fe v, s)) fun f s => Frame.run fe b f below s

/-- The loop from the moment a node is done. -/
def runBelow (below : List (Frame τ)) (t : τ) (s : σ) : Option (Ending σ τ) :=
  match below with
  | [] => some (.ok t, s)
  | f :: below => Frame.run fe b (f.receive t) below s

/-- The loop after a turn. -/
def runTurn (f : Frame τ) (below : List (Frame τ)) (turn : Turn τ) (s : σ) :
    Option (Ending σ τ) :=
  match turn with
  | .proceed g => Frame.run fe b g below s
  | .descend v => runNode fe b v (f :: below) s
  | .finish t => runBelow fe b below t s

theorem Builder.build_eq_runNode (root : Value) (s : σ) :
    b.build fe root s = runNode fe b root [] s := by
  unfold Builder.build runNode
  cases Frame.enter fe root <;> rfl

theorem run_eq (f : Frame τ) (below : List (Frame τ)) (s : σ) :
    Frame.run fe b f below s = chain (some (f.advance fe b s)) (runTurn fe b f below) := by
  rw [Frame.run]
  rcases f.advance fe b s with ⟨_ | turn, s⟩
  · rfl
  · cases turn with
    | proceed g => rfl
    | descend v =>
      dsimp only [chain_ok, runTurn]
      unfold runNode
      cases Frame.enter fe v <;> rfl
    | finish t => cases below <;> rfl

/-- **What the loop makes of the parts of a tree**, on top of any stack: it comes to where what
the recursion makes of the part is handed on. -/
def runAccount : Account σ τ where
  node v s e := ∀ below, runNode fe b v below s = chain (some e) (runBelow fe b below)
  properties v ps s e := ∀ done below,
    Frame.run fe b ⟨v, fe.kindOf v, ps, done, none⟩ below s
      = chain (some e) fun ts s =>
          Frame.run fe b ⟨v, fe.kindOf v, [], ts.reverse ++ done, none⟩ below s
  property v p s e := ∀ ps done below,
    Frame.run fe b ⟨v, fe.kindOf v, p :: ps, done, none⟩ below s
      = chain (some e) fun t s => Frame.run fe b ⟨v, fe.kindOf v, ps, t :: done, none⟩ below s
  items kind p items s e := ∀ v ps done all ts below,
    Frame.run fe b ⟨v, kind, ps, done, some ⟨p, all, items, ts⟩⟩ below s
      = chain (some e) fun us s =>
          Frame.run fe b ⟨v, kind, ps, done, some ⟨p, all, [], us.reverse ++ ts⟩⟩ below s
  slot kind p expected v s e := ∀ f below, f.kind = kind →
    chain (some (f.visit fe b p expected v s)) (runTurn fe b f below)
      = chain (some e) fun t s => Frame.run fe b (f.receive t) below s

/-- **The loop follows the rules of the recursion.** -/
theorem rules_runAccount : (runAccount fe b).Rules fe b where
  unknownKind {v s} hps below := by
    rw [runNode, Frame.enter, Frontend.properties, hps]
    rfl
  node {v ps s e} hps h below := by
    rw [runNode, Frame.enter, Frontend.properties, hps]
    refine (h [] below).trans ?_
    rw [chain_andThen]
    refine congrArg _ (funext fun ts => funext fun s => ?_)
    rw [List.append_nil, run_eq]
    simp only [Frame.advance, List.reverse_reverse]
    rfl
  noProperties done below := rfl
  failedProperty h done below := h _ done below
  nextProperty hp h done below := by
    refine (hp _ done below).trans ((h _ below).trans ?_)
    simp only [chain_andThen, chain_ok, List.reverse_cons, List.append_assoc,
      List.singleton_append]
  badLeaf hk hkey ps done below := by
    rw [run_eq]
    simp only [Frame.advance, hk, hkey]
    rfl
  leaf hk hkey ps done below := by
    rw [run_eq]
    simp only [Frame.advance, hk, hkey]
    rfl
  child {v p s e} hk h ps done below := by
    rw [run_eq]
    simp only [Frame.advance, hk]
    exact h ⟨v, fe.kindOf v, p :: ps, done, none⟩ below rfl
  noList hk hitems ps done below := by
    rw [run_eq]
    simp only [Frame.advance, hk, listItems, hitems]
    rfl
  list {v p items s e} hk hitems h ps done below := by
    rw [run_eq]
    simp only [Frame.advance, hk, listItems, hitems]
    refine (h v ps done items [] below).trans ?_
    rw [chain_andThen]
    refine congrArg _ (funext fun ts => funext fun s => ?_)
    rw [List.append_nil, run_eq]
    simp only [Frame.advance, List.reverse_reverse]
    rfl
  noItems v ps done all ts below := rfl
  failedItem {kind p item items s failure s'} h v ps done all ts below := by
    rw [run_eq]
    exact h ⟨v, kind, ps, done, some ⟨p, all, item :: items, ts⟩⟩ below rfl
  nextItem {kind p item items s t s' e} hitem h v ps done all ts below := by
    rw [run_eq]
    refine (hitem ⟨v, kind, ps, done, some ⟨p, all, item :: items, ts⟩⟩ below rfl).trans ?_
    refine (h v ps done all (t :: ts) below).trans ?_
    simp only [chain_andThen, chain_ok, List.reverse_cons, List.append_assoc,
      List.singleton_append]
  badSlot hslot f below hkind := by
    subst hkind
    rw [Frame.visit, hslot]
    rfl
  emptySlot hslot f below hkind := by
    subst hkind
    rw [Frame.visit, hslot]
    rfl
  slot hslot h f below hkind := by
    subst hkind
    rw [Frame.visit, hslot]
    exact h (f :: below)

end Parts

/-- **The loop is the recursion**, whatever is made of a tree. -/
theorem Builder.build_eq_buildNode {σ τ : Type} (fe : Frontend) (b : Builder σ τ) (root : Value)
    (s : σ) : b.build fe root s = buildNode fe b root s := by
  rw [b.build_eq_runNode]
  refine Option.ext fun ending => ⟨fun h => ?_, fun h => ?_⟩
  · unfold runNode at h
    rw [buildNode_eq_complete]
    cases henter : Frame.enter fe root with
    | error failure =>
      rw [henter] at h
      exact h
    | ok f =>
      rw [henter] at h
      exact completeStack_of_run h
  · rw [(rules_runAccount fe b).holds h []]
    rcases ending with ⟨_ | t, s⟩ <;> rfl

/-- **Labeling is labeling by recursion.** -/
theorem label_eq_recursion (fe : Frontend) (reporter : Reporter) (root : Value) (s : Progress) :
    label fe reporter root s = labelByRecursion fe reporter root s :=
  (Builder.trees reporter).build_eq_buildNode fe root s

/-! ## Finite trees -/

section Finite

variable {σ τ : Type} {fe : Frontend} (b : Builder σ τ)

/-- A place for a node ends if the node in it does. -/
theorem exists_buildSlot {v : Value}
    (h : fe.isPart v = true → ∀ s, ∃ e, buildNode fe b v s = some e)
    (kind : String) (p : Property) (expected : String) (s : σ) :
    ∃ ending, buildSlot fe b kind p expected v s = some ending := by
  rw [buildSlot]
  unfold Frontend.slot
  unfold Frontend.isPart at h
  by_cases hnull : v.isNull = true
  · rw [if_pos hnull]
    exact ⟨_, rfl⟩
  · rw [if_neg hnull]
    by_cases hnode : fe.isNode v = true
    · rw [if_pos hnode]
      exact h (by simp [hnull, hnode]) s
    · rw [if_neg hnode]
      exact ⟨_, rfl⟩

/-- A chain ends if both of its parts do. -/
theorem exists_chain {α β : Type} {x : Option (Ending σ α)} {next : α → σ → Option (Ending σ β)}
    (hx : ∃ ending, x = some ending) (hnext : ∀ a s, ∃ ending, next a s = some ending) :
    ∃ ending, chain x next = some ending := by
  obtain ⟨⟨_ | a, s⟩, rfl⟩ := hx
  · exact ⟨_, rfl⟩
  · exact hnext a s

/-- The items of a list end if the nodes among them do. -/
theorem exists_buildItems {items : List Value}
    (h : ∀ v ∈ items, fe.isPart v = true → ∀ s, ∃ e, buildNode fe b v s = some e)
    (kind : String) (p : Property) (s : σ) :
    ∃ ending, buildItems fe b kind p items s = some ending := by
  induction items generalizing s with
  | nil =>
    rw [buildItems]
    exact ⟨_, rfl⟩
  | cons item items ih =>
    rw [buildItems_cons]
    refine exists_chain (exists_buildSlot b (h item List.mem_cons_self) _ _ _ _) fun t s => ?_
    exact exists_chain (ih (fun v hv => h v (List.mem_cons_of_mem _ hv)) s) fun ts s => ⟨_, rfl⟩

/-- A property ends if the nodes it descends into do. -/
theorem exists_buildProperty {v : Value} {p : Property}
    (h : ∀ w ∈ fe.parts v p, ∀ s, ∃ e, buildNode fe b w s = some e) (kind : String) (s : σ) :
    ∃ ending, buildProperty fe b v kind p s = some ending := by
  rw [buildProperty]
  unfold Frontend.parts at h
  cases hk : p.kind with
  | leaf =>
    cases fe.leafKey kind p (fe.read v p) <;> exact ⟨_, rfl⟩
  | child =>
    simp only [hk, List.mem_filter, List.mem_singleton, and_imp, forall_eq] at h
    exact exists_buildSlot b h _ _ _ _
  | childList =>
    unfold listItems
    cases hitems : (fe.read v p).sequence? with
    | none => exact ⟨_, rfl⟩
    | some items =>
      simp only [hk, hitems, Option.getD_some, List.mem_filter, and_imp] at h
      dsimp only
      rw [bind_andThen]
      exact exists_chain (exists_buildItems b h _ _ _) fun ts s => ⟨_, rfl⟩

/-- **The recursion ends for every finite tree**, whatever is made of it. -/
theorem exists_buildNode {v : Value} (h : fe.Finite v) (s : σ) :
    ∃ ending, buildNode fe b v s = some ending := by
  induction h generalizing s with
  | @intro v _ ih =>
    rw [buildNode]
    unfold Frontend.properties
    cases hps : fe.properties? (fe.kindOf v) with
    | none => exact ⟨_, rfl⟩
    | some ps =>
      dsimp only
      rw [bind_andThen]
      refine exists_chain ?_ fun ts s => ⟨_, rfl⟩
      replace ih := ih ps hps
      clear hps
      induction ps generalizing s with
      | nil =>
        rw [buildProperties]
        exact ⟨_, rfl⟩
      | cons p ps ihps =>
        rw [buildProperties_cons]
        refine exists_chain (exists_buildProperty b (ih p List.mem_cons_self) _ _) fun t s => ?_
        exact exists_chain (ihps s fun q hq => ih q (List.mem_cons_of_mem _ hq)) fun ts s => ⟨_, rfl⟩

end Finite

/-! ## Canonicalizers -/

/-- **Labels a tree by recursion** and remembers its ids. -/
def Canonicalizer.labelByRecursion (c : Canonicalizer) (root : Value) : Option Labeled :=
  (HashConsing.labelByRecursion c.frontend c.reporter root ⟨c.tables, .empty⟩).map c.conclude

/-- **Labeling a finite tree ends, and is what the recursion makes of it**: the
labeled tree or the first failure, the tables with everything that was handed
out before a failure, and the report of that, are the same. -/
theorem Canonicalizer.label_refines_recursion (c : Canonicalizer) {root : Value}
    (h : c.frontend.Finite root) :
    ∃ labeled, c.label root = some labeled ∧ c.labelByRecursion root = some labeled := by
  obtain ⟨ending, hending⟩ := exists_buildNode (.trees c.reporter) h ⟨c.tables, .empty⟩
  have hrecursion : c.labelByRecursion root = some (c.conclude ending) :=
    congrArg (Option.map c.conclude) hending
  have hloop : c.label root = c.labelByRecursion root :=
    congrArg (Option.map c.conclude) (label_eq_recursion _ _ _ _)
  exact ⟨c.conclude ending, hloop.trans hrecursion, hrecursion⟩

/-- A small dialect, with blocks of nodes and names. -/
def Dialect.blocks : Dialect where
  grammar := [("Block", [⟨"items", .childList⟩]), ("Name", [⟨"text", .leaf⟩])]
  nodeType := none
  freezesLeaves := false
  unknownReason := none

/-- A name. -/
def Value.name (ref : Nat) (text : String) : Value :=
  .node ⟨ref, "Node", "Name", some text, some text⟩ [("text", .text text)]

/-- A block. -/
def Value.block (ref : Nat) (items : List Value) : Value :=
  .node ⟨ref, "Node", "Block", some "block", some "block"⟩ [("items", .list items)]

/-- A block with an item that is no node. -/
theorem Canonicalizer.label_refines_recursion_block :
    let c := create Dialect.blocks.frontend {}
    let root := Value.block 0 [.name 1 "x", .null, .int 3]
    c.frontend.Finite root ∧
      ∃ labeled, c.label root = some labeled ∧ c.labelByRecursion root = some labeled :=
  ⟨Dialect.blocks.finite _, label_refines_recursion _ (Dialect.blocks.finite _)⟩

end HashConsing
