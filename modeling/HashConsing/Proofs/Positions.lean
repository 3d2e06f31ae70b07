import HashConsing.Proofs.Renaming

/-!
# Positions in trees

The positions of a tree are ways down from its root, given by the numbers of the children. What
is at a position is part of the tree, and so it is not larger. A tree has the positions of its
image under any function of its values, and two trees have equal images if they have at each
position (`Rose.map_eq_map_iff_zip`).
-/

namespace HashConsing

namespace Rose

variable {α β : Type}

/-- A step down, and the rest of a way. -/
theorem at?_cons_eq_some {t u : Rose α} {i : Nat} {path : List Nat} :
    t.at? (i :: path) = some u ↔ ∃ v, t.children[i]? = some v ∧ v.at? path = some u := by
  rw [at?]
  exact Option.bind_eq_some_iff

/-- What is below a position is below what is there. -/
theorem at?_append (path below : List Nat) (t : Rose α) :
    t.at? (path ++ below) = (t.at? path).bind (·.at? below) := by
  induction path generalizing t with
  | nil => rfl
  | cons i path ih =>
    rw [List.cons_append, at?, at?]
    cases t.children[i]? with
    | none => rfl
    | some u => exact ih u

/-- What is below the root is what is in the trees below. -/
theorem forall_below_iff {P : Rose α → Prop} {t : Rose α} :
    (∀ path u, path ≠ [] → t.at? path = some u → P u)
      ↔ ∀ v ∈ t.children, ∀ path u, v.at? path = some u → P u := by
  constructor
  · intro h v hv path u hu
    obtain ⟨i, hi⟩ := List.getElem?_of_mem hv
    exact h (i :: path) u (List.cons_ne_nil i path) (at?_cons_eq_some.2 ⟨v, hi, hu⟩)
  · rintro h (_ | ⟨i, path⟩) u hpath hu
    · exact absurd rfl hpath
    · obtain ⟨v, hv, hu⟩ := at?_cons_eq_some.1 hu
      exact h v (List.mem_of_getElem? hv) path u hu

/-- What is in a tree is the tree itself and what is below its root. -/
theorem forall_at?_iff {P : Rose α → Prop} {t : Rose α} :
    (∀ path u, t.at? path = some u → P u)
      ↔ P t ∧ ∀ v ∈ t.children, ∀ path u, v.at? path = some u → P u := by
  rw [← forall_below_iff]
  constructor
  · exact fun h => ⟨h [] t rfl, fun path u _ hu => h path u hu⟩
  · rintro ⟨hroot, hbelow⟩ (_ | ⟨i, path⟩) u hu
    · cases hu
      exact hroot
    · exact hbelow (i :: path) u (List.cons_ne_nil i path) hu

/-- The positions of a tree are those of its image. -/
theorem at?_map (f : α → β) (t : Rose α) (path : List Nat) :
    (t.map f).at? path = (t.at? path).map (Rose.map f) := by
  induction path generalizing t with
  | nil => rfl
  | cons i path ih =>
    obtain ⟨a, ts⟩ := t
    rw [map_node, at?, at?]
    show ((ts.map (Rose.map f))[i]?).bind _ = (ts[i]?.bind _).map _
    rw [List.getElem?_map]
    cases ts[i]? with
    | none => rfl
    | some t => exact ih t

/-- What is at a position of an image is the image of what is there. -/
theorem exists_at?_of_map {f : α → β} {t : Rose α} {path : List Nat} {u : Rose β}
    (h : (t.map f).at? path = some u) : ∃ v, t.at? path = some v ∧ v.map f = u := by
  rw [at?_map] at h
  exact Option.map_eq_some_iff.1 h

theorem children_map (f : α → β) (t : Rose α) :
    (t.map f).children = t.children.map (Rose.map f) := by
  obtain ⟨a, ts⟩ := t
  rw [map_node]
  rfl

/-- Images of trees are equal if those of their values and of their children are. -/
theorem map_eq_map_iff_zip {f : α → β} {t u : Rose α} (hvalue : f t.value = f u.value)
    (hlength : t.children.length = u.children.length) :
    t.map f = u.map f ↔ ∀ pair ∈ t.children.zip u.children, pair.1.map f = pair.2.map f := by
  obtain ⟨a, ts⟩ := t
  obtain ⟨b, us⟩ := u
  replace hvalue : f a = f b := hvalue
  rw [map_node, map_node, node.injEq, and_iff_right hvalue, ← List.forall₂_eq_eq_eq,
    List.forall₂_map_left_iff, List.forall₂_map_right_iff, List.forall₂_iff_zip]
  exact ⟨fun h pair hpair => h.2 hpair, fun h => ⟨hlength, fun hab => h _ hab⟩⟩

mutual

/-- Two images of a tree are known from the image of pairs. -/
theorem map_pair_eq_iff {γ : Type} (g : α → β) (h : α → γ) : ∀ {t u : Rose α},
    t.map (fun a => (g a, h a)) = u.map (fun a => (g a, h a))
      ↔ t.map g = u.map g ∧ t.map h = u.map h
  | node a ts, node b us => by
    simp only [map_node, node.injEq, Prod.mk.injEq, maps_pair_eq_iff g h]
    exact and_and_and_comm

theorem maps_pair_eq_iff {γ : Type} (g : α → β) (h : α → γ) : ∀ {ts us : List (Rose α)},
    ts.map (Rose.map fun a => (g a, h a)) = us.map (Rose.map fun a => (g a, h a))
      ↔ ts.map (Rose.map g) = us.map (Rose.map g) ∧ ts.map (Rose.map h) = us.map (Rose.map h)
  | [], us => by simp
  | _ :: _, [] => by simp
  | t :: ts, u :: us => by
    simp only [List.map_cons, List.cons.injEq, map_pair_eq_iff g h, maps_pair_eq_iff g h]
    exact and_and_and_comm

end

/-- A tree below another one is smaller. -/
theorem size_lt_of_mem {t u : Rose α} (h : u ∈ t.children) : u.size < t.size := by
  have hmem : u ∈ branching.children t := h
  exact Branching.weight_lt_of_mem hmem

theorem size_le_of_at? {t u : Rose α} {path : List Nat} (h : t.at? path = some u) :
    u.size ≤ t.size := by
  induction path generalizing t with
  | nil =>
    cases h
    exact Nat.le_refl _
  | cons i path ih =>
    obtain ⟨v, hv, hu⟩ := at?_cons_eq_some.1 h
    exact Nat.le_trans (ih hu) (Nat.le_of_lt (size_lt_of_mem (List.mem_of_getElem? hv)))

end Rose

end HashConsing
