import HashConsing.Proofs.NodeLabeling
import HashConsing.Proofs.Parents

/-!
# Working with trees

Working with trees means holding references to nodes (`Session`). Nodes are made over others that
are there, trees are labeled, references are followed down and up, and in the end let go. A node is
there as long as it is reached from a reference that is held; afterwards it is gone for good
(`Session.Step.alive_of_alive`), since nothing can be done with it any more.

So what is the parent of a node depends on what was done before (`Session.Run.parent_exact`): it is
the node that was made last over it, unless that one has been collected. It does not help that
another one may still be there which had the node before. A tree that is handed out consists of new
nodes, and these keep their parents until somebody makes another node over them.
-/

namespace HashConsing

open Forest

/-- **Someone at work with trees**: all nodes made so far, and the references that are held. -/
structure Session where
  forest : Forest
  held : List Ref

namespace Session

variable {s t u : Session} {past : List Session} {p q r : Ref}

/-- Nobody has made a node yet. -/
def start : Session := ⟨.empty, []⟩

/-- **A node is there** as long as it is reached from a reference that is held. -/
def Alive (s : Session) (r : Ref) : Prop := ∃ q ∈ s.held, s.forest.Reaches q r

/-- The nodes that are made by a use. -/
def made (f : Forest) : Use → List Ref
  | .make _ _ _ => [f.cells.size]
  | _ => []

/-- **What someone at work can do.** -/
inductive Step (s : Session) : Session → Prop where
  /-- Do something with nodes that are there, and hold on to what is made. -/
  | use (u : Use) (hu : ∀ r ∈ u.nodes, s.Alive r) :
      Step s ⟨u.apply s.forest, made s.forest u ++ s.held⟩
  /-- Follow references to a node that is there. -/
  | follow (r : Ref) (hr : s.Alive r) : Step s ⟨s.forest, r :: s.held⟩
  /-- Let go of references. -/
  | drop (held : List Ref) (hheld : held ⊆ s.held) : Step s ⟨s.forest, held⟩
  /-- Have a tree labeled, and get it. -/
  | label (fe : Frontend) (reporter : Reporter) (root : Value) (progress : Progress) {m : Made}
      {making : Making}
      (h : labelNodes fe reporter root ⟨progress, s.forest⟩ = some (.ok m, making)) :
      Step s ⟨making.forest, m.node :: s.held⟩
  /-- Have a tree labeled in vain. -/
  | fail (fe : Frontend) (reporter : Reporter) (root : Value) (progress : Progress)
      {failure : Failure} {making : Making}
      (h : labelNodes fe reporter root ⟨progress, s.forest⟩ = some (.error failure, making)) :
      Step s ⟨making.forest, s.held⟩

/-- **A session that has come to a state**, with the earlier states, the last one first. -/
inductive Run : List Session → Session → Prop where
  | start : Run [] start
  | step {past : List Session} {s t : Session} (before : Run past s) (last : s.Step t) :
      Run (s :: past) t

/-- **A node was there once and then was not**, at one of some times. -/
def Collected (states : List Session) (r : Ref) : Prop :=
  ∃ s ∈ states, r < s.forest.cells.size ∧ ¬ s.Alive r

/-! ## One step -/

/-- **What is held is there**, in a forest that has come about by uses. -/
structure Sound (s : Session) : Prop where
  later : empty.Later s.forest
  held : ∀ r ∈ s.held, r < s.forest.cells.size

namespace Sound

theorem descending (h : s.Sound) : s.forest.Descending := (h.later.built .empty).sound.descending

theorem lt_size (h : s.Sound) (hr : s.Alive r) : r < s.forest.cells.size := by
  obtain ⟨q, hq, hreaches⟩ := hr
  exact Nat.lt_of_le_of_lt (h.descending.le_of_reaches hreaches) (h.held q hq)

end Sound

theorem Alive.reaches (h : s.Alive q) (hr : s.forest.Reaches q r) : s.Alive r :=
  h.imp fun _ hq => hq.imp_right fun hreaches => hreaches.trans hr

/-- **A step keeps what there is**, -/
theorem Step.later (h : s.Step t) (hs : s.Sound) : s.forest.Later t.forest := by
  cases h with
  | use u hu => exact Later.refl.use u fun r hr => hs.lt_size (hu r hr)
  | follow r hr => exact .refl
  | drop held hheld => exact .refl
  | label fe reporter root progress h => exact later_of_labelNodes h
  | fail fe reporter root progress h => exact later_of_labelNodes h

/-- **What is held after a step** was there before, or it is new and comes to nothing older but
what was there before. -/
theorem Step.held_cases (h : s.Step t) (hs : s.Sound) (hq : q ∈ t.held) :
    s.Alive q ∨ (s.forest.cells.size ≤ q ∧ q < t.forest.cells.size
      ∧ ∀ r < s.forest.cells.size, t.forest.Reaches q r → s.Alive r) := by
  have hlater := h.later hs
  have hheld : ∀ q ∈ s.held, s.Alive q := fun q hq => ⟨q, hq, .refl⟩
  cases h with
  | use u hu =>
    cases u with
    | make label children postOrderId =>
      rcases List.mem_cons.1 hq with rfl | hq
      · refine .inr ⟨Nat.le_refl _, ?_, fun r hr hreaches => ?_⟩
        · exact (s.forest.size_cells_make label children postOrderId).symm ▸ Nat.lt_succ_self _
        · rcases hreaches.cases_head with rfl | ⟨c, hc, hreaches⟩
          · exact absurd hr (Nat.lt_irrefl _)
          · have hchildren : c ∈ children := by
              have hmade := s.forest.children_make label children postOrderId s.forest.cells.size
              rw [if_pos rfl] at hmade
              exact hmade ▸ hc
            have halive : s.Alive c := hu c hchildren
            exact halive.reaches
              ((hlater.reaches_iff (hs.later.built .empty) (hs.lt_size halive)).1 hreaches)
      · exact .inl (hheld q hq)
    | _ => exact .inl (hheld q hq)
  | follow r hr =>
    rcases List.mem_cons.1 hq with rfl | hq
    · exact .inl hr
    · exact .inl (hheld q hq)
  | drop held hsub => exact .inl (hheld q (hsub hq))
  | label fe reporter root progress hlabel =>
    rcases List.mem_cons.1 hq with rfl | hq
    · have hmade := fun r => reaches_iff_of_labelNodes (r := r) hlabel (hs.later.built .empty)
      obtain ⟨hle, hlt⟩ := (hmade _).1 .refl
      exact .inr ⟨hle, hlt, fun r hr hreaches => absurd hr (Nat.not_lt.2 ((hmade r).1 hreaches).1)⟩
    · exact .inl (hheld q hq)
  | fail fe reporter root progress hlabel => exact .inl (hheld q hq)

/-- and what is held afterwards is there. -/
theorem Step.sound (h : s.Step t) (hs : s.Sound) : t.Sound where
  later := hs.later.trans (h.later hs)
  held q hq := by
    rcases h.held_cases hs hq with halive | ⟨-, hlt, -⟩
    · exact Nat.lt_of_lt_of_le (hs.lt_size halive) (h.later hs).size_cells_le
    · exact hlt

/-- **What is gone is gone for good.** -/
theorem Step.alive_of_alive (h : s.Step t) (hs : s.Sound) (hr : r < s.forest.cells.size)
    (ht : t.Alive r) : s.Alive r := by
  obtain ⟨q, hq, hreaches⟩ := ht
  rcases h.held_cases hs hq with halive | ⟨-, -, hold⟩
  · exact halive.reaches
      (((h.later hs).reaches_iff (hs.later.built .empty) (hs.lt_size halive)).1 hreaches)
  · exact hold r hr hreaches

/-! ## Many steps -/

theorem sound_start : start.Sound := ⟨.refl, List.forall_mem_nil _⟩

theorem Run.sound (h : Run past s) : s.Sound := by
  induction h with
  | start => exact sound_start
  | step _ last ih => exact last.sound ih

/-- No nodes are taken away in the course of a session. -/
theorem Run.size_cells_le (h : Run past s) :
    ∀ e ∈ past, e.forest.cells.size ≤ s.forest.cells.size := by
  induction h with
  | start => exact List.forall_mem_nil _
  | step before last ih =>
    have hlast := (last.later before.sound).size_cells_le
    exact List.forall_mem_cons.2 ⟨hlast, fun e he => Nat.le_trans (ih e he) hlast⟩

/-- **What is there has been there ever since it was made.** -/
theorem Run.alive_before (h : Run past s) (hr : s.Alive r) :
    ∀ e ∈ past, r < e.forest.cells.size → e.Alive r := by
  induction h with
  | start => exact List.forall_mem_nil _
  | step before last ih =>
    refine List.forall_mem_cons.2 ⟨fun hlt => last.alive_of_alive before.sound hlt hr, ?_⟩
    intro e he hlt
    have hlast := Nat.lt_of_lt_of_le hlt (before.size_cells_le e he)
    exact ih (last.alive_of_alive before.sound hlast hr) e he hlt

/-- **A node is there if and only if it has been made and not been collected.** -/
theorem Run.alive_iff (h : Run past s) (hr : r < s.forest.cells.size) :
    s.Alive r ↔ ¬ Collected (s :: past) r := by
  constructor
  · rintro halive ⟨e, he, hlt, hgone⟩
    rcases List.mem_cons.1 he with rfl | he
    · exact hgone halive
    · exact hgone (h.alive_before halive e he hlt)
  · intro hnot
    by_contra hgone
    exact hnot ⟨s, List.mem_cons_self, hr, hgone⟩

/-- **The parent of a node** is the one made last over it, if it has not been collected. -/
theorem Run.parent_eq_some_iff (h : Run past s) :
    s.forest.parent s.held r = some p
      ↔ s.forest.LastOver r p ∧ ¬ Collected (s :: past) p := by
  rw [(h.sound.later.parentsRight parentsRight_empty).parent_eq_some_iff]
  exact and_congr_right fun hlast => h.alive_iff (lt_size_of_mem_children hlast.1)

/-! ## Trees that are handed out -/

/-- **A tree that is handed out**: what is true of it when it is, and what stays true. -/
structure HandedOut (s t : Session) (root : Ref) : Prop where
  /-- No node occurs twice. -/
  nodup : (t.forest.preorder root).Nodup
  /-- No node was there before. -/
  new : ∀ r ∈ t.forest.preorder root, s.forest.cells.size ≤ r
  /-- The root has no parent. -/
  parent_root : t.forest.parent t.held root = none
  /-- Later on, as long as the root is there, each of the other nodes hangs under one node of the
  tree. This is its parent, unless it has become a child of a node made later. -/
  parent : ∀ u, Relation.ReflTransGen Step t u → u.Alive root →
    ∀ r ∈ u.forest.preorder root, r ≠ root →
      ∃ p ∈ u.forest.preorder root, r ∈ u.forest.children p
        ∧ (∀ q ∈ u.forest.preorder root, r ∈ u.forest.children q → q = p)
        ∧ ((∀ q, t.forest.cells.size ≤ q → r ∉ u.forest.children q) →
          u.forest.parent u.held r = some p)

theorem Sound.steps (hs : s.Sound) (h : Relation.ReflTransGen Step s t) :
    t.Sound ∧ s.forest.Later t.forest := by
  induction h with
  | refl => exact ⟨hs, .refl⟩
  | tail _ hstep ih => exact ⟨hstep.sound ih.1, ih.2.trans (hstep.later ih.1)⟩

theorem Sound.parentsRight (hs : s.Sound) : s.forest.ParentsRight :=
  hs.later.parentsRight parentsRight_empty

section Labeling

variable {fe : Frontend} {reporter : Reporter} {root : Value} {progress : Progress} {m : Made}
  {making : Making}

/-- What is over a new node is new. -/
theorem Sound.reaches_of_mem_children (hs : s.Sound)
    (h : labelNodes fe reporter root ⟨progress, s.forest⟩ = some (.ok m, making))
    (hr : making.forest.Reaches m.node r) (hp : r ∈ making.forest.children p) :
    making.forest.Reaches m.node p := by
  have htree := fun q => reaches_iff_of_labelNodes (r := q) h (hs.later.built .empty)
  have hstep : s.Step ⟨making.forest, m.node :: s.held⟩ := .label fe reporter root progress h
  have hlt : r < p := (hstep.sound hs).descending p r hp
  exact (htree p).2
    ⟨Nat.le_trans ((htree r).1 hr).1 (Nat.le_of_lt hlt), lt_size_of_mem_children hp⟩

/-- **A new node hangs under one node**, and the root under none. -/
theorem Sound.hangs (hs : s.Sound)
    (h : labelNodes fe reporter root ⟨progress, s.forest⟩ = some (.ok m, making)) :
    (∀ p, m.node ∉ making.forest.children p) ∧
      ∀ r, making.forest.Reaches m.node r → r ≠ m.node →
        ∃ p, making.forest.Reaches m.node p ∧ r ∈ making.forest.children p
          ∧ ∀ q, r ∈ making.forest.children q → q = p := by
  have hstep : s.Step ⟨making.forest, m.node :: s.held⟩ := .label fe reporter root progress h
  have hdescending : making.forest.Descending := (hstep.sound hs).descending
  have hnodup : (making.forest.preorder m.node).Nodup :=
    (perm_preorder_of_labelNodes h (hs.later.built .empty)).nodup_iff.2 List.nodup_range'
  refine ⟨fun p hp => ?_, fun r hr hne => ?_⟩
  · -- What is over the root would be below it as well.
    have hbelow := hs.reaches_of_mem_children h .refl hp
    exact absurd (hdescending.le_of_reaches hbelow) (Nat.not_le.2 (hdescending p _ hp))
  · obtain heq | ⟨p, hp, hchild⟩ := hr.cases_tail
    · exact absurd heq hne
    · refine ⟨p, hp, hchild, fun q hq => ?_⟩
      exact hdescending.parent_unique hnodup (hs.reaches_of_mem_children h hr hq) hp hq hchild

/-- **A tree that has just been labeled is handed out.** -/
theorem Sound.handedOut (hs : s.Sound)
    (h : labelNodes fe reporter root ⟨progress, s.forest⟩ = some (.ok m, making)) :
    HandedOut s ⟨making.forest, m.node :: s.held⟩ m.node := by
  have hstep : s.Step ⟨making.forest, m.node :: s.held⟩ := .label fe reporter root progress h
  have ht := hstep.sound hs
  have hperm := perm_preorder_of_labelNodes h (hs.later.built .empty)
  have hlt : ∀ {r}, making.forest.Reaches m.node r → r < making.forest.cells.size :=
    fun hr => ((reaches_iff_of_labelNodes h (hs.later.built .empty)).1 hr).2
  obtain ⟨hroot, hbelow⟩ := hs.hangs h
  constructor
  case nodup => exact hperm.nodup_iff.2 List.nodup_range'
  case new => exact fun r hr => (List.mem_range'_1.1 (hperm.mem_iff.1 hr)).1
  case parent_root =>
    refine Option.eq_none_iff_forall_ne_some.2 fun p hp => ?_
    exact hroot p (ht.parentsRight.parent_eq_some_iff.1 hp).1.1
  case parent =>
    intro u hu halive r hr hne
    obtain ⟨hsound, hlater⟩ := ht.steps hu
    have hreaches : ∀ {q}, u.forest.Reaches m.node q ↔ making.forest.Reaches m.node q :=
      hlater.reaches_iff (ht.later.built .empty) (hlt .refl)
    have hmem : ∀ {q}, q ∈ u.forest.preorder m.node ↔ making.forest.Reaches m.node q :=
      (hsound.descending.acyclic m.node).mem_preorder_iff.trans hreaches
    have hchildren : ∀ {q}, q < making.forest.cells.size →
        u.forest.children q = making.forest.children q := fun hq => hlater.children_eq hq
    obtain ⟨p, hp, hchild, hunique⟩ := hbelow r (hmem.1 hr) hne
    have hover : r ∈ u.forest.children p := (hchildren (hlt hp)).symm ▸ hchild
    have honly : ∀ q < making.forest.cells.size, r ∈ u.forest.children q → q = p :=
      fun q hq hrq => hunique q (hchildren hq ▸ hrq)
    refine ⟨p, hmem.2 hp, hover, fun q hq => honly q (hlt (hmem.1 hq)), fun hlast => ?_⟩
    refine hsound.parentsRight.parent_eq_some_iff.2 ⟨⟨hover, fun q hrq => ?_⟩, ?_⟩
    · by_cases hq : q < making.forest.cells.size
      · exact Nat.le_of_eq (honly q hq hrq)
      · exact absurd hrq (hlast q (Nat.le_of_not_lt hq))
    · exact halive.reaches (hreaches.2 hp)

end Labeling

/-- **Parents are exact.** Whatever has been done in a session, short of giving nodes other
children: the parent of a node is the node that was made last with it among its children, if that
one has not been collected in the meantime, and there is none otherwise. A tree that is handed out
is the one that labeling gives, has nobody's nodes but its own, and these keep hanging under their
parents in it. -/
theorem Run.parent_exact (h : Run past s) :
    (∀ r p, s.forest.parent s.held r = some p
      ↔ s.forest.LastOver r p ∧ ¬ Collected (s :: past) p) ∧
      ∀ fe reporter root progress m making,
        labelNodes fe reporter root ⟨progress, s.forest⟩ = some (.ok m, making) →
          label fe reporter root progress = some (.ok m.tree, making.progress) ∧
          s.forest.plantIds m.tree = (m.node, making.forest) ∧
          HandedOut s ⟨making.forest, m.node :: s.held⟩ m.node := by
  refine ⟨fun _ _ => h.parent_eq_some_iff, fun fe reporter root progress m making hlabel => ?_⟩
  obtain ⟨htree, hplant⟩ := plantIds_of_labelNodes hlabel
  exact ⟨htree, hplant, h.sound.handedOut hlabel⟩

/-- A node that a later one takes over, which is then let go of. After that a block with nothing in
it is labeled. -/
theorem parent_exact_taken :
    let f := (((empty.make "3" [] none).2.make "5" [0] none).2.make "7" [0] none).2
    f.parent [2, 1, 0] 0 = some 2 ∧ f.parent [1, 0] 0 = none ∧
      ∃ m making, labelNodes Dialect.blocks.frontend {} (.block 0 [.null])
          ⟨⟨.empty, .empty⟩, f⟩ = some (.ok m, making)
        ∧ HandedOut ⟨f, [1, 0]⟩ ⟨making.forest, m.node :: [1, 0]⟩ m.node := by
  intro f
  have hleaf := Run.start.step (.use (.make "3" [] none) (List.forall_mem_nil _))
  have hover := hleaf.step (.use (.make "5" [0] none) fun r hr => ⟨r, hr, .refl⟩)
  have hboth : Run _ ⟨f, [2, 1, 0]⟩ := hover.step
    (.use (.make "7" [0] none) fun r hr => ⟨r, List.mem_cons_of_mem _ hr, .refl⟩)
  have hdropped : Run _ ⟨f, [1, 0]⟩ := hboth.step (.drop [1, 0] (List.subset_cons_self 2 _))
  have hlast : f.LastOver 0 2 := (hboth.sound.parentsRight 0 2).1 rfl
  refine ⟨?_, ?_, ?_⟩
  · refine (hboth.parent_exact.1 0 2).2 ⟨hlast, ?_⟩
    exact (hboth.alive_iff (by decide)).1 ⟨2, List.mem_cons_self, .refl⟩
  · refine Option.eq_none_iff_forall_ne_some.2 fun p hp => ?_
    obtain ⟨hover, hthere⟩ := (hdropped.parent_exact.1 0 p).1 hp
    obtain rfl := hover.unique hlast
    -- What is held was made before the node that is gone.
    obtain ⟨q, hq, hreaches⟩ := (hdropped.alive_iff (by decide)).2 hthere
    have hle : 2 ≤ q := hdropped.sound.descending.le_of_reaches hreaches
    have hlt : ∀ q ∈ [1, 0], q < 2 := by decide
    exact absurd hle (Nat.not_le.2 (hlt q hq))
  · obtain ⟨m, making, hlabel⟩ : ∃ m making, labelNodes Dialect.blocks.frontend {}
        (.block 0 [.null]) ⟨⟨.empty, .empty⟩, f⟩ = some (.ok m, making) := by
      have hform : Dialect.blocks.frontend.form (.block 0 [.null])
          = some (.ok (.node "Block" [.list [.absent]])) :=
        Frontend.form_eq_ok_iff.2 ⟨_, _, rfl,
          .cons ⟨[.null], rfl, _, .cons (.absent rfl) .nil, rfl⟩ .nil, rfl⟩
      exact exists_labelNodes {} Tables.coherent_empty hform
    exact ⟨m, making, hlabel, (hdropped.parent_exact.2 _ _ _ _ m making hlabel).2.2⟩

end Session

end HashConsing
