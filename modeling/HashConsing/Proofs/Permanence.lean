import HashConsing.Proofs.Encounters
import HashConsing.Proofs.Pieces
import HashConsing.Tables.Query

/-!
# What stays

Tables are append-only: whatever is labeled later, and whether it can be labeled or not,
an id that has been handed out goes on standing for the same thing, and what has an id
keeps it. So whoever asks about such an id gets the same answers as before
(`Tables.GrowsTo.answersAlike`).

Labeling something again changes nothing at all. A node that is found in a tree that has
been labeled has a form there, the tables have a labeled tree for the form, and it is made
of old ids only. Were an id handed out, it would be met in that tree; and a labeling that
hands out no id leaves everything as it was (`Trail.atRest`). So the labeling gives the
tree that is in the tables, no table grows and nothing is reported:
`Canonicalizer.History.label_again`.
-/

namespace HashConsing

/-! ## Answers -/

namespace Tables

/-- **Tables give the same answers about an id.** -/
structure AnswersAlike (t u : Tables) (id : Value) : Prop where
  allocated : u.allocated id = t.allocated id
  representation : u.representation id = t.representation id
  kindName : u.kindName id = t.kindName id
  isLeaf : u.isLeaf id = t.isLeaf id
  leafText : u.leafText id = t.leafText id
  annotated : u.annotated id = t.annotated id

variable {t u : Tables}

section Answers

variable {id : Value} {n : Nat}

/-- A number below the next id is allocated. -/
theorem allocated_eq_ok (hid : id.idNumber? = some (n : Int)) (hlt : n < t.nextId) :
    t.allocated id = .ok n := by
  have hrange : (0 : Int) ≤ n ∧ (n : Int) < t.nextId :=
    ⟨Int.natCast_nonneg n, Int.ofNat_lt.2 hlt⟩
  unfold allocated
  rw [hid]
  exact if_pos hrange

theorem representation_eq_ok (hid : t.allocated id = .ok n) {r : Representation}
    (hr : t.representations[n]? = some r) : t.representation id = .ok r := by
  unfold representation
  simp only [hid, bind, Except.bind, hr]
  rfl

theorem kindName_eq_ok (hid : t.allocated id = .ok n) {name : String}
    (hname : t.kindNames[n]? = some name) : t.kindName id = .ok name := by
  unfold kindName
  simp only [hid, bind, Except.bind, hname]
  rfl

/-- **Answers about an id that was handed out stay the same** when tables grow. -/
theorem GrowsTo.answersAlike (h : t.GrowsTo u) (ht : t.Coherent)
    (hid : id.idNumber? = some (n : Int)) (hlt : n < t.nextId) : t.AnswersAlike u id := by
  have ha : t.allocated id = .ok n := allocated_eq_ok hid hlt
  have ha' : u.allocated id = .ok n := allocated_eq_ok hid (Nat.lt_of_lt_of_le hlt h.nextId_le)
  obtain ⟨r, hr⟩ := ht.exists_representation.2 hlt
  have hname : t.kindNames[n]? = some r.kindName := by rw [ht.kindName_eq, hr, Option.map_some]
  have hrepresentation : u.representation id = t.representation id := by
    rw [representation_eq_ok ha hr, representation_eq_ok ha' (h.representations hr)]
  have hkindName : u.kindName id = t.kindName id := by
    rw [kindName_eq_ok ha hname, kindName_eq_ok ha' (h.kindNames hname)]
  -- Every other question is answered from the representation and the kind name.
  refine ⟨ha'.trans ha.symm, hrepresentation, hkindName, ?_, ?_, ?_⟩
  · unfold isLeaf
    rw [hrepresentation]
  · unfold leafText
    rw [hrepresentation]
  · unfold annotated
    rw [hrepresentation, hkindName]

end Answers

/-- The id at the root of a labeled tree is below the next id. -/
theorem Coherent.value_lt (h : t.Coherent) {F : Form} {T : Rose Nat}
    (hF : t.treeOf? F = some T) : T.value < t.nextId := by
  rcases h.handedOutBefore_value hF with hnull | ⟨-, hlt⟩
  · rw [hnull]
    exact Nat.lt_of_lt_of_le (by decide) h.first_le
  · exact hlt

/-- The ids in a labeled tree have been handed out, at every position. -/
theorem Coherent.value_lt_of_at? (h : t.Coherent) {F : Form} {T U : Rose Nat} {path : List Nat}
    (hF : t.treeOf? F = some T) (hU : T.at? path = some U) : U.value < t.nextId := by
  obtain ⟨G, -, hG⟩ := at?_of_treeOf? hF hU
  exact h.value_lt hG

/-- **The ids in the labeled tree of a form are below the next id.** -/
theorem Coherent.lt_of_mem_ids (h : t.Coherent) {F : Form} {T : Rose Nat}
    (hF : t.treeOf? F = some T) {id : Nat} (hid : id ∈ T.ids) : id < t.nextId := by
  obtain ⟨path, U, hU, rfl⟩ := Rose.exists_at?_of_mem_ids hid
  exact h.value_lt_of_at? hF hU

end Tables

/-! ## Labelings that hand out no id -/

namespace Progress

/-- **Nothing happens unless an id is handed out.** -/
structure AtRest (s s' : Progress) : Prop where
  nextId_le : s.tables.nextId ≤ s'.tables.nextId
  eq_of_le : s'.tables.nextId ≤ s.tables.nextId → s' = s

namespace AtRest

variable {s s' s'' : Progress}

theorem refl (s : Progress) : s.AtRest s := ⟨Nat.le_refl _, fun _ => rfl⟩

theorem trans (h : s.AtRest s') (h' : s'.AtRest s'') : s.AtRest s'' where
  nextId_le := Nat.le_trans h.nextId_le h'.nextId_le
  eq_of_le hle := by
    have hlater : s'' = s' := h'.eq_of_le (Nat.le_trans hle h.nextId_le)
    exact hlater.trans (h.eq_of_le (hlater ▸ hle))

/-- An id is handed out. -/
theorem of_lt (h : s.tables.nextId < s'.tables.nextId) : s.AtRest s' where
  nextId_le := Nat.le_of_lt h
  eq_of_le hle := absurd h (Nat.not_lt.2 hle)

end AtRest

variable (s : Progress) (report : Nat → Report)

theorem atRest_internLeaf (key : LeafKey) (v : Value) :
    s.AtRest (s.internLeaf key v report).2 := by
  unfold internLeaf
  cases s.tables.leafId? key with
  | some id => exact .refl s
  | none => exact .of_lt (Nat.lt_succ_self _)

theorem atRest_internShape (shape : Shape) : s.AtRest (s.internShape shape report).2 := by
  unfold internShape
  cases s.tables.shapeId? shape with
  | some id => exact .refl s
  | none => exact .of_lt (Nat.lt_succ_self _)

end Progress

/-- **Along every trail nothing happens unless an id is handed out.** -/
theorem Trail.atRest {fe : Frontend} {reporter : Reporter} {s s' : Progress}
    {places : List PropertyKind} {Ts : List (Rose Nat)}
    (trail : Trail fe (.trees reporter) s places Ts s') : s.AtRest s' := by
  induction trail with
  | nil s => exact .refl s
  | cons _ _ ihfirst ihrest => exact ihfirst.trans ihrest
  | absent s => exact .refl s
  | leaf s _ => exact Progress.atRest_internLeaf _ _ _ _
  | list _ ih => exact ih.trans (Progress.atRest_internShape _ _ _)
  | node _ _ ih => exact ih.trans (Progress.atRest_internShape _ _ _)

/-! ## Positions in forests -/

namespace Forest

/-- **The node at a position below a node**, given by the way down to it. -/
def at? (f : Forest) (r : Ref) : List Nat → Option Ref
  | [] => some r
  | i :: path => do f.at? (← (f.children r)[i]?) path

/-- **Below a node that holds a tree there are nodes that hold its subtrees.** -/
theorem Holds.exists_at? {α : Type} {name : α → String × Option Int} {f : Forest}
    {path : List Nat} : ∀ {r : Ref} {T U : Rose α}, f.Holds name r T → T.at? path = some U →
    ∃ q, f.at? r path = some q ∧ f.Holds name q U := by
  induction path with
  | nil =>
    rintro r T _ h ⟨⟩
    exact ⟨r, rfl, h⟩
  | cons i path ih =>
    intro r T U h hU
    rw [Rose.at?] at hU
    obtain ⟨T', hT', hU⟩ := Option.bind_eq_some_iff.1 hU
    obtain ⟨q, hq, -, hheld⟩ := exists_getElem?_of_forall₂ h.children.flip hT'
    rw [Forest.at?, hq]
    exact ih hheld hU

end Forest

/-! ## Histories -/

namespace Canonicalizer

open Tables

namespace History

variable {start c c' : Canonicalizer} {calls calls' : List Call}

/-- **Histories go on**: what follows a history makes a longer one with it. -/
theorem append (h : start.History calls c) (h' : c.History calls' c') :
    start.History (calls ++ calls') c' := by
  induction h' with
  | nil =>
    rw [List.append_nil]
    exact h
  | snoc _ last ih =>
    rw [← List.append_assoc]
    exact ih.snoc last

/-- **Nothing is forgotten** in any labelings. -/
theorem growsTo (hs : start.tables.Coherent) (h : start.History calls c) :
    start.tables.GrowsTo c.tables := by
  induction h with
  | nil => exact .refl _
  | snoc before last ih => exact ih.trans (label_spec (before.coherent hs) last).2.2.2.1

variable {fe : Frontend} {reporter : Reporter}

/-- **Labeling what has a labeled tree changes nothing**: the labeling gives that tree, the
canonicalizer stays what it is, and nothing is reported. -/
theorem label_again (h : (create fe reporter).History calls c) {m : Value} {G : Form}
    (hG : fe.form m = some (.ok G)) {U : Rose Nat} (hU : c.tables.treeOf? G = some U) :
    c.label m = some ⟨c, .ok U, .empty⟩ := by
  have hc : c.tables.Coherent := h.coherent coherent_empty
  obtain ⟨labeled, hlabel, hencodes⟩ := h.exists_label coherent_empty hG
  obtain ⟨U', hresult, hU'⟩ := hencodes.exists_ok
  have hsame : U' = U := by
    obtain ⟨-, -, -, hgrows, -⟩ := label_spec hc hlabel
    exact Option.some.inj (hU'.symm.trans (hgrows.treeOf? hU))
  -- A new id would be met in the labeled tree, where all ids are old.
  have hnext : labeled.canonicalizer.tables.nextId ≤ c.tables.nextId := by
    refine Nat.le_of_not_lt fun hlt => ?_
    have hmet := (h.encountered hlabel hresult).mem_of_le (Nat.le_refl _) hlt
    exact absurd (hc.lt_of_mem_ids hU (hsame ▸ hmet)) (Nat.lt_irrefl _)
  obtain ⟨⟨result, s⟩, hending, rfl⟩ := Option.map_eq_some_iff.1 hlabel
  obtain rfl : result = .ok U' := hresult
  have trail : Trail _ _ _ [.child] [U'] s := Trailed.label hending
  obtain rfl : s = ⟨c.tables, .empty⟩ := trail.atRest.eq_of_le hnext
  rw [hlabel, ← hsame]
  rfl

/-- **Tables are append-only, and labeling again changes nothing.** Whatever is labeled
after a history, with success or not, no key, shape or id that is known is forgotten, and
questions about the ids handed out before are answered as before. If a tree was labeled
with success before, then every node that is found in it through its properties can be
labeled now: the labeling gives the subtree that was given the first time, leaves the
canonicalizer as it is and reports nothing. The nodes that the subtree is handed out as
are the same as those that it was handed out as before, where these still hold it. -/
theorem append_only (h : (create fe reporter).History calls c) (h' : c.History calls' c') :
    c.tables.GrowsTo c'.tables
    ∧ (∀ (id : Value) (n : Nat), id.idNumber? = some (n : Int) → n < c.tables.nextId →
        c.tables.AnswersAlike c'.tables id)
    ∧ ∀ call ∈ calls, ∀ T, call.labeled.result = .ok T →
      ∀ path m, fe.Reaches call.root path (.node m) →
      ∃ U, T.at? path = some U ∧ c'.label m = some ⟨c', .ok U, .empty⟩
        ∧ ∀ (f : Forest) (r : Ref), f.Holds Forest.idName r T →
          ∃ q, f.at? r path = some q
            ∧ let (again, g) := f.plantIds U
              g.same again q = true := by
  have hc : c.tables.Coherent := h.coherent coherent_empty
  have hgrows : c.tables.GrowsTo c'.tables := h'.growsTo hc
  refine ⟨hgrows, fun id n hid hlt => hgrows.answersAlike hc hid hlt, ?_⟩
  intro call hcall T hT path m hreached
  obtain ⟨F, hF, hFT⟩ := h.treeOf? coherent_empty hcall hT
  obtain ⟨G, hG, hform⟩ := Frontend.exists_form_at hF hreached
  obtain ⟨U, hU, hGU⟩ := exists_tree_at? hFT hG
  refine ⟨U, hU, (h.append h').label_again hform (hgrows.treeOf? hGU), fun f r hr => ?_⟩
  obtain ⟨q, hq, hheld⟩ := hr.exists_at? hU
  obtain ⟨hkeeps, hplanted⟩ := Forest.holds_plant Forest.idName f U
  exact ⟨q, hq, (Forest.same_iff Forest.idName_injective hplanted (hheld.keep hkeeps)).2 rfl⟩

/-- A name in a block that has been labeled, after a labeling that failed. -/
theorem append_only_block :
    ∃ a b c c' T U, (create Dialect.blocks.frontend {}).History
        [⟨.block 0 [.name 1 "x", .null, .name 2 "x"], a⟩] c
      ∧ c.History [⟨.block 3 [.name 4 "y", .int 5], b⟩] c'
      ∧ a.result = .ok T ∧ T.at? [0, 2] = some U
      ∧ c'.label (.name 2 "x") = some ⟨c', .ok U, .empty⟩ := by
  have h : (create Dialect.blocks.frontend {}).History [] _ := .nil
  obtain ⟨a, h, ha⟩ := h.exists_snoc coherent_empty form_names
  obtain ⟨T, hT, -⟩ := ha.exists_ok
  have hstart : a.canonicalizer.History [] a.canonicalizer := .nil
  have hform := form_number
  rw [show Dialect.blocks.frontend = a.canonicalizer.frontend from h.frontend_eq.symm] at hform
  obtain ⟨b, h', -⟩ := hstart.exists_snoc (h.coherent coherent_empty) hform
  have hreached : Dialect.blocks.frontend.Reaches (.block 0 [.name 1 "x", .null, .name 2 "x"])
      [0, 2] (.node (.name 2 "x")) := by
    have hlist : Dialect.blocks.frontend.Reaches (.block 0 [.name 1 "x", .null, .name 2 "x"]) [0]
        (.list [.name 1 "x", .null, .name 2 "x"]) :=
      .property (p := ⟨"items", .childList⟩) .root rfl rfl (.childList rfl rfl)
    exact hlist.item (i := 2) rfl rfl
  obtain ⟨-, -, hagain⟩ := h.append_only h'
  obtain ⟨U, hU, hlabel, -⟩ := hagain _ List.mem_cons_self T hT _ _ hreached
  exact ⟨a, b, _, _, T, U, h, h', hT, hU, hlabel⟩

end History

end Canonicalizer

end HashConsing
