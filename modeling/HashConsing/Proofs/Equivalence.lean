import HashConsing.Proofs.OwnRenderings
import HashConsing.Proofs.SourceEquality

/-!
# Requiring equivalence

Whoever requires two sources to be structurally equal is told nothing if they are. If they
are not, the failure shows the labels of both roots and renderings of both trees. Renderings
write leaves, and not all leaves can be written: a number of a program may have more decimal
digits than the limit, though it was read from a text, in another notation. Then the failure
to write it takes the place of the answer. All of this is `Source.requireEquivalent_outcome`.
-/

namespace HashConsing

open Canonicalizer Tables

/-! ## Sources that can be written -/

namespace Source

/-- **All leaves of a source can be written.** -/
def Writable (source : Source) : Prop :=
  ∀ root, source = .tree root → ∀ path v, (Frontend.python []).Reaches root path (.leaf v) →
    ∃ text, v.leafText = .ok text

/-- A source can be written if its form can. -/
theorem HasForm.writable_iff {source : Source} {F : Form} (h : source.HasForm F) :
    source.Writable ↔ F.Writable := by
  obtain ⟨root, rfl, hF⟩ := h
  have hroot : F.at? [] = some F := rfl
  have hleaves := forall_leafText_iff (P := fun _ => True) hF hroot
  constructor
  · intro hsource path key hkey
    exact hleaves.1 (fun path v _ hv => hsource root rfl path v hv) path key trivial hkey
  · rintro hform _ ⟨⟩ path v hv
    exact hleaves.2 (fun path key _ hkey => hform path key hkey) path v trivial hv

/-- The form of a source is that of a node. -/
theorem HasForm.isLeaf {source : Source} {F : Form} (h : source.HasForm F) : F.isLeaf = false := by
  obtain ⟨root, -, hF⟩ := h
  obtain ⟨_, _, -, -, rfl⟩ := Frontend.form_eq_ok_iff.1 hF
  rfl

/-- **The tree of a source is rendered exactly if the source can be written.** -/
theorem HasForm.render_writesIff {source : Source} {F : Form} (h : source.HasForm F)
    {c : Canonicalizer} {T : Rose Nat} (hc : c.tables.Coherent)
    (hbound : c.tables.nextId ≤ Text.integerBound) (hT : c.tables.treeOf? F = some T) :
    WritesIff source.Writable (c.render T) :=
  (Canonicalizer.render_writesIff hc hT (hc.hasLabels hT hbound)).congr
    ((Form.writable_iff h.isLeaf).symm.trans h.writable_iff.symm)

/-! ## Renderings in the way of an answer -/

section Outcome

variable {l r : Source} {c : Canonicalizer} {T U : Rose Nat}
  (hboth : standard.labelBoth l r = some (.ok (c, T, U)))

include hboth

/-- Nothing is said of sources whose trees have the same id. -/
theorem requireEquivalent_of_eq (h : T.value = U.value) :
    requireEquivalent l r = some (.ok ()) := by
  unfold requireEquivalent
  rw [hboth]
  exact if_pos h

/-- **Trees with different ids are both rendered** before anything is said of them. -/
theorem requireEquivalent_of_ne (h : T.value ≠ U.value) :
    requireEquivalent l r = some (do
      let actual ← c.render T
      let expected ← c.render U
      throw (.notEquivalent T.label U.label actual expected)) := by
  have hstep : requireEquivalent l r = (do
      let actual ← (c.render T : Outcome String)
      let expected ← (c.render U : Outcome String)
      throw (.notEquivalent T.label U.label actual expected)) := by
    unfold requireEquivalent
    rw [hboth]
    exact if_neg h
  rw [hstep]
  cases c.render T with
  | error failure => rfl
  | ok actual =>
    cases c.render U with
    | error failure => rfl
    | ok expected => rfl

/-- **Sources are required to be equivalent with success** only if their trees have the same
id. -/
theorem requireEquivalent_eq_ok_iff :
    requireEquivalent l r = some (.ok ()) ↔ T.value = U.value := by
  refine ⟨fun hok => ?_, requireEquivalent_of_eq hboth⟩
  by_contra h
  rw [requireEquivalent_of_ne hboth h] at hok
  obtain ⟨actual, -, hok⟩ := Failure.exists_of_bind_eq_ok (Option.some.inj hok)
  obtain ⟨expected, -, hok⟩ := Failure.exists_of_bind_eq_ok hok
  cases hok

variable {F G : Form} (hl : l.HasForm F) (hr : r.HasForm G) (hc : c.tables.Coherent)
  (hT : c.tables.treeOf? F = some T) (hU : c.tables.treeOf? G = some U)
  (hbound : c.tables.nextId ≤ Text.integerBound) (hne : T.value ≠ U.value)

include hl hr hc hT hU hbound hne

/-- **Sources that differ are reported with both renderings** if both can be written. -/
theorem requireEquivalent_of_writable (h : l.Writable ∧ r.Writable) :
    ∃ actual expected, c.render T = .ok actual ∧ c.render U = .ok expected
      ∧ requireEquivalent l r
        = some (.error (.notEquivalent T.label U.label actual expected)) := by
  obtain ⟨actual, hactual⟩ := (hl.render_writesIff hc hbound hT).exists_ok h.1
  obtain ⟨expected, hexpected⟩ := (hr.render_writesIff hc hbound hU).exists_ok h.2
  refine ⟨actual, expected, hactual, hexpected, ?_⟩
  rw [requireEquivalent_of_ne hboth hne, hactual, hexpected]
  rfl

/-- **Sources that differ are not reported** if one of them cannot be written: all that is
reported is an integer that is too long. -/
theorem requireEquivalent_of_not_writable (h : ¬(l.Writable ∧ r.Writable)) :
    requireEquivalent l r = some (.error .integerTooLong) := by
  have hwrites := (hl.render_writesIff hc hbound hT).bind fun actual =>
    (hr.render_writesIff hc hbound hU).map fun expected => (actual, expected)
  have herror := hwrites.eq_error h
  rw [requireEquivalent_of_ne hboth hne]
  rcases Failure.eq_error_of_bind_eq_error herror with hactual | ⟨actual, hactual, hrest⟩
  · rw [hactual]
    rfl
  · rcases Failure.eq_error_of_bind_eq_error hrest with hexpected | ⟨expected, -, hpure⟩
    · rw [hactual, hexpected]
      rfl
    · cases hpure

end Outcome

/-! ## Small programs -/

/-- Two small programs are labeled with few ids. -/
theorem exists_trees_program (ref ref' : Nat) (m n : Int) :
    ∃ c T U, standard.labelBoth (tree (.program ref m)) (tree (.program ref' n))
        = some (.ok (c, T, U))
      ∧ c.tables.Coherent ∧ c.tables.treeOf? (.program m) = some T
      ∧ c.tables.treeOf? (.program n) = some U ∧ c.tables.nextId ≤ Text.integerBound := by
  have hstart : standard.History [] standard := .nil
  obtain ⟨c, T, U, hboth, hc, hT, hU, hnext⟩ :=
    (hasForm_program ref m).exists_trees (hasForm_program ref' n) hstart
  have hsize : ∀ k : Int, (Form.program k).size = 7 := fun k => by simp [Form.program, Form.size]
  rw [size_of_treeOf? hT, size_of_treeOf? hU, hsize, hsize] at hnext
  exact ⟨c, T, U, hboth, hc, hT, hU,
    Nat.le_trans hnext (Text.le_integerBound (by decide))⟩

/-- A small program can be written if its number can. -/
theorem writable_program {ref : Nat} {n : Int} :
    (tree (.program ref n)).Writable ↔ n.natAbs < Text.integerBound := by
  rw [(hasForm_program ref n).writable_iff, ← LeafKey.writable_int]
  constructor
  · intro h
    exact h [0, 0, 0, 0] _ rfl
  · intro h path key hkey
    have hmem : key = .atom (.int n) ∨ key = .atom .null := by
      simpa [Form.program, Form.leafKeys, Form.leafKeysEach] using Form.mem_leafKeys hkey
    rcases hmem with rfl | rfl
    · exact h
    · exact LeafKey.writable_atom.2 (by simp)

/-- **Two small programs with different numbers are told apart, but this is not reported** if
one of the numbers is too long. -/
theorem differ_of_tooLong {ref ref' : Nat} {m n : Int} (hm : ¬m.natAbs < Text.integerBound)
    (hne : m ≠ n) :
    structurallyEqual (tree (.program ref m)) (tree (.program ref' n)) = some (.ok false)
      ∧ requireEquivalent (tree (.program ref m)) (tree (.program ref' n))
        = some (.error .integerTooLong) := by
  have hl := hasForm_program ref m
  have hr := hasForm_program ref' n
  have hforms : Form.program m ≠ .program n := by simpa [Form.program] using hne
  obtain ⟨c, T, U, hboth, hc, hT, hU, hbound⟩ := exists_trees_program ref ref' m n
  have hvalues : T.value ≠ U.value := fun heq => hforms (hc.form_unique hT hU heq)
  obtain ⟨equal, hequal, hiff⟩ := hl.structurallyEqual hr
  obtain rfl : equal = false := Bool.eq_false_iff.2 (hiff.not.2 hforms)
  exact ⟨hequal, requireEquivalent_of_not_writable hboth hl hr hc hT hU hbound hvalues
    fun h => hm (writable_program.1 h.1)⟩

/-! ## Requiring equivalence -/

/-- **What becomes of requiring two sources to be structurally equal**, if both are labeled
with success. Nothing fails exactly if they are structurally equal. If they are not, the
labels of their roots differ, and as long as all ids can be written themselves there are two
cases. If all leaves of both sources can be written, the failure shows the labels of both
roots and the renderings of both trees. Otherwise the failure is that of writing an integer
that is too long, and neither label nor rendering is shown. -/
theorem requireEquivalent_outcome {l r : Source} (hl : l.Labels) (hr : r.Labels) :
    ∃ c T U equal, standard.labelBoth l r = some (.ok (c, T, U))
      ∧ structurallyEqual l r = some (.ok equal)
      ∧ (requireEquivalent l r = some (.ok ()) ↔ equal = true)
      ∧ (equal = false → T.label ≠ U.label)
      ∧ (equal = false → c.tables.nextId ≤ Text.integerBound →
        (l.Writable ∧ r.Writable → ∃ actual expected, c.render T = .ok actual
          ∧ c.render U = .ok expected
          ∧ requireEquivalent l r
            = some (.error (.notEquivalent T.label U.label actual expected)))
        ∧ (¬(l.Writable ∧ r.Writable) →
          requireEquivalent l r = some (.error .integerTooLong))) := by
  obtain ⟨F, hF⟩ := hl.exists_form
  obtain ⟨G, hG⟩ := hr.exists_form
  have hstart : standard.History [] standard := .nil
  obtain ⟨c, T, U, hboth, hc, hT, hU, -⟩ := hF.exists_trees hG hstart
  obtain ⟨equal, hequal, hiff⟩ := hF.structurallyEqual hG
  have hvalue : T.value = U.value ↔ equal = true :=
    Rose.label_inj.symm.trans ((hc.labels_eq_iff hT hU).trans hiff.symm)
  have hne : equal = false → T.value ≠ U.value := by
    rintro rfl heq
    exact Bool.false_ne_true (hvalue.1 heq)
  refine ⟨c, T, U, equal, hboth, hequal, (requireEquivalent_eq_ok_iff hboth).trans hvalue,
    fun hdiffer => Rose.label_inj.not.2 (hne hdiffer), fun hdiffer hbound => ⟨?_, ?_⟩⟩
  · exact requireEquivalent_of_writable hboth hF hG hc hT hU hbound (hne hdiffer)
  · exact requireEquivalent_of_not_writable hboth hF hG hc hT hU hbound (hne hdiffer)

/-- Two small programs that differ in their numbers are reported. -/
theorem requireEquivalent_outcome_program :
    let l := tree (.program 0 1)
    let r := tree (.program 3 2)
    l.Labels ∧ r.Labels ∧ ∃ c T U actual expected,
      standard.labelBoth l r = some (.ok (c, T, U)) ∧ T.label ≠ U.label
        ∧ c.render T = .ok actual ∧ c.render U = .ok expected
        ∧ requireEquivalent l r
          = some (.error (.notEquivalent T.label U.label actual expected)) := by
  intro l r
  have hl : l.HasForm (.program 1) := hasForm_program 0 1
  have hr : r.HasForm (.program 2) := hasForm_program 3 2
  obtain ⟨c, T, U, equal, hboth, hequal, -, hlabels, houtcome⟩ :=
    requireEquivalent_outcome hl.labels hr.labels
  obtain ⟨_, _, _, hboth', -, -, -, hbound⟩ := exists_trees_program 0 3 1 2
  cases Except.ok.inj (Option.some.inj (hboth'.symm.trans hboth))
  have hdiffer : equal = false := by
    cases equal with
    | false => rfl
    | true => exact absurd ((hl.structurallyEqual_iff hr).1 hequal) (by simp [Form.program])
  have hshort : ∀ n : Nat, n < 2 ^ 63 → (n : Int).natAbs < Text.integerBound := fun n hn =>
    Nat.lt_of_lt_of_le hn (Text.le_integerBound (by decide))
  obtain ⟨actual, expected, hactual, hexpected, herror⟩ := (houtcome hdiffer hbound).1
    ⟨writable_program.2 (hshort 1 (by decide)), writable_program.2 (hshort 2 (by decide))⟩
  exact ⟨hl.labels, hr.labels, _, _, _, actual, expected, hboth, hlabels hdiffer, hactual,
    hexpected, herror⟩

/-- **A number that is too long takes the place of the answer.** The least such number and
the number one are different programs, which is found out and not reported. -/
theorem requireEquivalent_integerTooLong :
    let l := tree (.program 0 Text.integerBound)
    let r := tree (.program 3 1)
    l.Labels ∧ r.Labels ∧ structurallyEqual l r = some (.ok false)
      ∧ requireEquivalent l r = some (.error .integerTooLong) := by
  have hlong : ¬(Text.integerBound : Int).natAbs < Text.integerBound := by
    rw [Int.natAbs_natCast]
    exact Nat.lt_irrefl _
  have hne : (Text.integerBound : Int) ≠ 1 := fun heq =>
    absurd ((Text.le_integerBound (n := 2) (by decide)).trans (Int.ofNat_inj.1 heq).le) (by decide)
  exact ⟨(hasForm_program 0 _).labels, (hasForm_program 3 1).labels,
    differ_of_tooLong hlong hne⟩

end Source

end HashConsing
