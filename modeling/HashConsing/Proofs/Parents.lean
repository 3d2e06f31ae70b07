import HashConsing.Proofs.Uses

/-!
# Parents

A node may hang under several others, but remembers one parent: the one that was made last
(`Forest.LastOver`). A node made later takes it over, and the one it was taken from does not get it
back (`Forest.Later.parentsRight`).

Parents are not held by their children. A node is there as long as it is reached from a reference
that someone holds; a search from these references finds what is there (`Forest.isHeld_iff`), and a
node is the parent of others only while it is there (`Forest.Later.parent_eq_some_iff`).
-/

namespace HashConsing

namespace Forest

variable {f g : Forest} {q r p : Ref}

/-! ## Remembered parents -/

variable (f) in
/-- **The node made last with another one among its children.** Nodes are numbered in the order
in which they are made. -/
def LastOver (r p : Ref) : Prop := r ∈ f.children p ∧ ∀ q, r ∈ f.children q → q ≤ p

variable (f) in
/-- **What is remembered of parents is right.** -/
def ParentsRight : Prop := ∀ r p, f.parentRef? r = some p ↔ f.LastOver r p

/-- No two nodes are the last one. -/
theorem LastOver.unique (hp : f.LastOver r p) (hq : f.LastOver r q) : p = q :=
  Nat.le_antisymm (hq.2 p hp.1) (hp.2 q hq.1)

/-- Giving nodes a parent. -/
theorem parentRef?_foldl_setParent (f : Forest) (cs : List Ref) (parent : Ref)
    (hr : r < f.cells.size) :
    (cs.foldl (fun f c => f.setParent c parent) f).parentRef? r
      = if r ∈ cs then some parent else f.parentRef? r := by
  induction cs generalizing f with
  | nil => exact (if_neg List.not_mem_nil).symm
  | cons c cs ih =>
    have hsize : (f.setParent c parent).cells.size = f.cells.size := Array.size_modify
    have hfirst : (f.setParent c parent).parentRef? r
        = if c = r then some parent else f.parentRef? r := by
      rw [parentRef?, setParent, getElem?_modify, Array.getElem?_eq_getElem hr]
      by_cases hcr : c = r
      · rw [if_pos hcr, if_pos hcr]
        rfl
      · rw [if_neg hcr, if_neg hcr, parentRef?, Array.getElem?_eq_getElem hr]
    rw [List.foldl_cons, ih _ (hsize ▸ hr), hfirst]
    by_cases hmem : r ∈ cs
    · rw [if_pos hmem, if_pos (List.mem_cons_of_mem c hmem)]
    · rw [if_neg hmem]
      exact if_congr (eq_comm.trans (by rw [List.mem_cons, or_iff_left hmem])) rfl rfl

/-- **A new node becomes the parent of its children**, and of no others. -/
theorem parentRef?_make (f : Forest) (label : String) {cs : List Ref}
    (hcs : ∀ c ∈ cs, c < f.cells.size) (postOrderId : Option Int) (r : Ref) :
    (f.make label cs postOrderId).2.parentRef? r
      = if r ∈ cs then some f.cells.size else f.parentRef? r := by
  have hsize : (f.make label cs postOrderId).2.cells.size = f.cells.size + 1 :=
    f.size_cells_make label cs postOrderId
  by_cases hr : r < f.cells.size + 1
  · refine (parentRef?_foldl_setParent _ cs f.cells.size ?_).trans ?_
    · rw [Array.size_push]
      exact hr
    · refine if_congr Iff.rfl rfl ?_
      rw [parentRef?, parentRef?, Array.getElem?_push]
      split
      next hlast => rw [hlast, Array.getElem?_eq_none (Nat.le_refl _)]; rfl
      next => rfl
  · have hle : f.cells.size + 1 ≤ r := Nat.le_of_not_lt hr
    have hnot : r ∉ cs := fun hmem => hr (Nat.lt_succ_of_lt (hcs r hmem))
    rw [if_neg hnot, parentRef?, parentRef?, Array.getElem?_eq_none (hsize ▸ hle),
      Array.getElem?_eq_none (Nat.le_of_succ_le hle)]

namespace ParentsRight

theorem of_sameLinks (h : f.ParentsRight) (hfg : f.SameLinks g) : g.ParentsRight := by
  intro r p
  have hchildren : g.children = f.children := funext hfg.children
  rw [hfg.parentRef?, h r p, LastOver, LastOver, hchildren]

/-- **A new node is the last one over its children.** -/
theorem make (h : f.ParentsRight) (label : String) {cs : List Ref}
    (hcs : ∀ c ∈ cs, c < f.cells.size) (postOrderId : Option Int) :
    (f.make label cs postOrderId).2.ParentsRight := by
  intro r p
  have hover : ∀ q, r ∈ (f.make label cs postOrderId).2.children q
      ↔ (q = f.cells.size ∧ r ∈ cs) ∨ r ∈ f.children q := by
    intro q
    rw [children_make]
    split
    next hq =>
      rw [children_of_size_le (Nat.le_of_eq hq.symm)]
      exact ⟨fun hr => .inl ⟨hq, hr⟩, fun hr => (hr.resolve_right List.not_mem_nil).2⟩
    next hq => exact ⟨.inr, fun hr => hr.resolve_left fun hlast => hq hlast.1⟩
  rw [parentRef?_make f label hcs, LastOver]
  by_cases hr : r ∈ cs
  · rw [if_pos hr, Option.some.injEq]
    constructor
    · rintro rfl
      refine ⟨(hover _).2 (.inl ⟨rfl, hr⟩), fun q hq => ?_⟩
      rcases (hover q).1 hq with ⟨rfl, -⟩ | hold
      · exact Nat.le_refl _
      · exact Nat.le_of_lt (lt_size_of_mem_children hold)
    · rintro ⟨hp, hlast⟩
      rcases (hover p).1 hp with ⟨rfl, -⟩ | hold
      · rfl
      · -- An older node is not the last one.
        have hle : f.cells.size ≤ p := hlast _ ((hover _).2 (.inl ⟨rfl, hr⟩))
        exact absurd (lt_size_of_mem_children hold) (Nat.not_lt.2 hle)
  · have hsame : ∀ q, r ∈ (f.make label cs postOrderId).2.children q ↔ r ∈ f.children q :=
      fun q => (hover q).trans (or_iff_right fun hlast => hr hlast.2)
    rw [if_neg hr, h r p, LastOver]
    simp only [hsame]

end ParentsRight

/-- **What is remembered of parents is right**, whatever has been done with nodes. -/
theorem Later.parentsRight (h : f.Later g) (hf : f.ParentsRight) : g.ParentsRight := by
  induction h with
  | refl => exact hf
  | @use g _ u hu ih =>
    rcases u.sameLinks_apply g with ⟨label, children, postOrderId, rfl⟩ | hlinks
    · exact ih.make label hu postOrderId
    · exact ih.of_sameLinks hlinks

theorem parentsRight_empty : empty.ParentsRight :=
  fun _ _ => iff_of_false (Option.some_ne_none _).symm fun h => List.not_mem_nil h.1

/-! ## What is there -/

section Held

variable {remaining : Std.TreeSet Ref} {pending held : List Ref}

/-- What is left over was there before. -/
theorem mem_of_mem_unreached (h : r ∈ f.unreached remaining pending) : r ∈ remaining := by
  fun_induction unreached f remaining pending with
  | case1 => exact h
  | case2 remaining q rest _ ih => exact Std.TreeSet.mem_of_mem_erase (ih h)
  | case3 remaining q rest _ ih => exact ih h

/-- **What is left out is reached** from the stack. -/
theorem exists_reaches_of_not_mem_unreached (hr : r ∈ remaining)
    (h : r ∉ f.unreached remaining pending) : ∃ q ∈ pending, f.Reaches q r := by
  fun_induction unreached f remaining pending with
  | case1 => exact absurd hr h
  | case2 remaining q rest _ ih =>
    by_cases hqr : q = r
    · exact ⟨q, List.mem_cons_self, hqr ▸ .refl⟩
    · obtain ⟨c, hc, hreaches⟩ := ih (by simpa [Std.TreeSet.mem_erase, hqr] using hr) h
      rcases List.mem_append.1 hc with hchild | hrest
      · exact ⟨q, List.mem_cons_self, hreaches.head hchild⟩
      · exact ⟨c, List.mem_cons_of_mem _ hrest, hreaches⟩
  | case3 remaining q rest _ ih =>
    obtain ⟨c, hc, hreaches⟩ := ih hr h
    exact ⟨c, List.mem_cons_of_mem _ hc, hreaches⟩

variable (f) in
/-- **The children of what has been left out** have been left out as well, or are on the stack. -/
def LeftOut (remaining : Std.TreeSet Ref) (pending : List Ref) : Prop :=
  ∀ q, q ∉ remaining → ∀ c ∈ f.children q, c ∉ remaining ∨ c ∈ pending

/-- **The stack is left out, and in the end so is what is below anything that is.** -/
theorem leftOut_unreached (h : f.LeftOut remaining pending) :
    f.LeftOut (f.unreached remaining pending) []
      ∧ ∀ q ∈ pending, q ∉ f.unreached remaining pending := by
  fun_induction unreached f remaining pending with
  | case1 => exact ⟨h, List.forall_mem_nil _⟩
  | case2 remaining r rest hr ih =>
    have hleft : f.LeftOut (remaining.erase r) (f.children r ++ rest) := by
      intro q hq c hc
      by_cases hrq : r = q
      · exact .inr (List.mem_append_left _ (hrq ▸ hc))
      · have hout : q ∉ remaining := fun hmem => hq (by simpa [Std.TreeSet.mem_erase, hrq] using hmem)
        rcases h q hout c hc with hc | hc
        · exact .inl fun hmem => hc (Std.TreeSet.mem_of_mem_erase hmem)
        · rcases List.mem_cons.1 hc with rfl | hc
          · exact .inl (by simp [Std.TreeSet.mem_erase])
          · exact .inr (List.mem_append_right _ hc)
    obtain ⟨hdone, hpending⟩ := ih hleft
    refine ⟨hdone, List.forall_mem_cons.2 ⟨fun hmem => ?_, fun q hq => ?_⟩⟩
    · simpa [Std.TreeSet.mem_erase] using mem_of_mem_unreached hmem
    · exact hpending q (List.mem_append_right _ hq)
  | case3 remaining r rest hr ih =>
    have hleft : f.LeftOut remaining rest := by
      intro q hq c hc
      rcases h q hq c hc with hout | hmem
      · exact .inl hout
      · rcases List.mem_cons.1 hmem with rfl | hmem
        · exact .inl hr
        · exact .inr hmem
    obtain ⟨hdone, hpending⟩ := ih hleft
    exact ⟨hdone, List.forall_mem_cons.2 ⟨fun hmem => hr (mem_of_mem_unreached hmem), hpending⟩⟩

/-- **A node is there if and only if it is reached from a reference that is held.** -/
theorem isHeld_iff :
    f.isHeld held r = true ↔ r < f.cells.size ∧ ∃ q ∈ held, f.Reaches q r := by
  have hall : ∀ q, q ∈ Std.TreeSet.ofList (List.range f.cells.size) ↔ q < f.cells.size :=
    fun q => by simp [Std.TreeSet.mem_ofList]
  have hstart : f.LeftOut (.ofList (List.range f.cells.size)) held := by
    intro q hq c hc
    exact absurd ((hall q).2 (lt_size_of_mem_children hc)) hq
  obtain ⟨hdone, hheld⟩ := leftOut_unreached hstart
  rw [isHeld, Bool.and_eq_true, decide_eq_true_iff, Bool.not_eq_true', ← Bool.not_eq_true,
    Std.TreeSet.contains_iff_mem]
  refine and_congr_right fun hr => ⟨exists_reaches_of_not_mem_unreached ((hall r).2 hr), ?_⟩
  rintro ⟨q, hq, hreaches⟩
  induction hreaches with
  | refl => exact hheld q hq
  | tail _ hc ih =>
    exact ((hdone _ (ih (lt_size_of_mem_children hc)) _ hc).resolve_right List.not_mem_nil)

end Held

/-- **The parent of a node** is the node made last over it, as long as that one is there. -/
theorem ParentsRight.parent_eq_some_iff (h : f.ParentsRight) {held : List Ref} :
    f.parent held r = some p ↔ f.LastOver r p ∧ ∃ q ∈ held, f.Reaches q p := by
  rw [parent, Option.filter_eq_some_iff, h r p, isHeld_iff]
  exact and_congr_right fun hlast => and_iff_right (lt_size_of_mem_children hlast.1)

/-! ## Trees with each node once -/

/-- **In a tree with each node once, no node hangs under two others.** -/
theorem Descending.parent_unique (h : f.Descending) (hnodup : (f.preorder r).Nodup)
    (hp : f.Reaches r p) (hq : f.Reaches r q) {c : Ref} (hcp : c ∈ f.children p)
    (hcq : c ∈ f.children q) : p = q := by
  induction r using Nat.strongRecOn with
  | ind r ih =>
    rw [(h.acyclic r).preorder_eq, List.nodup_cons] at hnodup
    obtain ⟨heach, hdisjoint⟩ := List.nodup_flatMap.1 hnodup.2
    -- What is reached from two children is below one of them twice.
    have hone : ∀ a ∈ f.children r, ∀ b ∈ f.children r, ∀ d, f.Reaches a d → f.Reaches b d →
        a = b := by
      intro a ha b hb d hda hdb
      by_contra hab
      have hsymm : Std.Symm (Function.onFun List.Disjoint f.preorder) := ⟨fun _ _ h => h.symm⟩
      exact hdisjoint.forall ha hb hab ((h.acyclic a).mem_preorder_iff.2 hda)
        ((h.acyclic b).mem_preorder_iff.2 hdb)
    rcases hp.cases_head with rfl | ⟨a, ha, hap⟩
    · rcases hq.cases_head with rfl | ⟨b, hb, hbq⟩
      · rfl
      · obtain rfl := hone c hcp b hb c .refl (hbq.tail hcq)
        exact absurd (h.le_of_reaches hbq) (Nat.not_le.2 (h q c hcq))
    · rcases hq.cases_head with rfl | ⟨b, hb, hbq⟩
      · obtain rfl := hone c hcq a ha c .refl (hap.tail hcp)
        exact absurd (h.le_of_reaches hap) (Nat.not_le.2 (h p c hcp))
      · obtain rfl := hone a ha b hb c (hap.tail hcp) (hbq.tail hcq)
        exact ih a (h r a ha) (heach a ha) hap hbq

end Forest

end HashConsing
