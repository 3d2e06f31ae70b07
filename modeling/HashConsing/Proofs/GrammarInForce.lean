import HashConsing.Grammar.Standard
import HashConsing.Proofs.Pieces
import Mathlib.Data.List.Basic

/-!
# Grammars in force

Which properties are ignored has no influence on which kinds are in force: a kind is
admitted by what its class has for fields and what is declared of them. So if more is
ignored, the grammar in force is the same with some properties left out
(`Grammar.inForce_of_subset`), for any declared grammar.

The declared grammar itself is a text. What it says of a kind is what the last constructor of
the kind declares (`exists_foldlM_declareConstructor`), once it is known that all of it can be
read. `declaredGrammar_properties?` reads off a few kinds.
-/

namespace HashConsing

/-- **A grammar without some of its properties.** -/
def Grammar.restrict (g : Grammar) (keeps : String → Property → Bool) : Grammar :=
  g.map fun (kind, properties) => (kind, properties.filter (keeps kind))

/-- What becomes of a kind if some of its properties are left out. -/
def Admission.restrict (keeps : Property → Bool) : Admission → Admission
  | unknown => unknown
  | excluded undeclared => excluded undeclared
  | admitted properties => admitted (properties.filter keeps)

/-- **A property that is not ignored**, for all kinds or for its own. -/
def isKept (ignored : List String) (kind : String) (p : Property) : Bool :=
  !isIgnored ignored kind p.name

namespace Grammar

variable (g : Grammar) (keeps : String → Property → Bool)

theorem kinds_restrict : (g.restrict keeps).kinds = g.kinds := by
  unfold kinds restrict
  rw [List.map_map]
  rfl

theorem properties?_restrict (kind : String) :
    (g.restrict keeps).properties? kind
      = (g.properties? kind).map (List.filter (keeps kind)) := by
  unfold properties? restrict
  induction g with
  | nil => rfl
  | cons entry g ih =>
    obtain ⟨kind', properties⟩ := entry
    rw [List.map_cons, List.lookup_cons, List.lookup_cons]
    by_cases hkind : kind = kind'
    · subst hkind
      simp
    · rw [beq_false_of_ne hkind]
      exact ih

end Grammar

/-! ## Ignoring more -/

/-- A declared property is found under its name. -/
theorem findProperty?_name {declared : List Property} {name : String} {p : Property}
    (h : findProperty? declared name = some p) : p.name = name := by
  simpa using List.find?_some h

section Ignoring

variable {ignored ignored' : List String} (h : ignored ⊆ ignored')

include h

/-- What is ignored goes on being ignored if more is. -/
theorem isIgnored_of_subset {kind name : String} (hname : isIgnored ignored kind name = true) :
    isIgnored ignored' kind name = true := by
  unfold isIgnored at hname ⊢
  simp only [Bool.or_eq_true, List.contains_iff_mem] at hname ⊢
  exact hname.imp (fun hmem => h hmem) fun hmem => h hmem

/-- **Of the fields that are left, those are left that are not ignored now.** -/
theorem filterMap_findProperty?_of_subset (kind : String) (declared : List Property)
    (fields : List String) :
    (fields.filter fun name => !isIgnored ignored' kind name).filterMap (findProperty? declared)
      = ((fields.filter fun name => !isIgnored ignored kind name).filterMap
          (findProperty? declared)).filter (isKept ignored' kind) := by
  rw [List.filterMap_filter, List.filterMap_filter, List.filter_filterMap]
  refine List.filterMap_congr fun name _ => ?_
  cases hp : findProperty? declared name with
  | none => simp
  | some p =>
    rw [← findProperty?_name hp]
    cases hignored' : isIgnored ignored' kind p.name with
    | true => cases isIgnored ignored kind p.name <;> simp [Option.filter, isKept, hignored']
    | false =>
      -- What is not ignored now was not ignored before.
      have hignored : isIgnored ignored kind p.name = false := by
        rw [← Bool.not_eq_true]
        intro hbefore
        rw [isIgnored_of_subset h hbefore] at hignored'
        cases hignored'
      simp [Option.filter, isKept, hignored, hignored']

/-- Whether a kind is admitted does not depend on what is ignored. -/
theorem admission_of_subset (kind : String) (declared : List Property) :
    admission ignored' kind declared
      = (admission ignored kind declared).restrict (isKept ignored' kind) := by
  unfold admission
  cases nodeFields? kind with
  | none => rfl
  | some fields =>
    by_cases hall : (fields.filter fun name => (findProperty? declared name).isNone).isEmpty
    · simp only [hall, if_true, filterMap_findProperty?_of_subset h]
      rfl
    · simp only [hall]
      rfl

/-- **Ignoring more leaves properties out of a grammar and does nothing else.** -/
theorem Grammar.inForce_of_subset (declared : Grammar) :
    declared.inForce ignored' = (declared.inForce ignored).restrict (isKept ignored') := by
  unfold inForce restrict
  rw [List.map_filterMap]
  refine List.filterMap_congr fun entry _ => ?_
  obtain ⟨kind, properties⟩ := entry
  simp only [admission_of_subset h]
  cases admission ignored kind properties <;> rfl

end Ignoring

/-! ## Single kinds -/

/-- A kind that is admitted where it is declared first is in force. -/
theorem Grammar.properties?_inForce {declared : Grammar} {ignored : List String} {kind : String}
    {properties admitted : List Property} (hdeclared : declared.properties? kind = some properties)
    (hadmitted : admission ignored kind properties = .admitted admitted) :
    (declared.inForce ignored).properties? kind = some admitted := by
  unfold properties? inForce at *
  induction declared with
  | nil => cases hdeclared
  | cons entry declared ih =>
    obtain ⟨kind', properties'⟩ := entry
    rw [List.lookup_cons] at hdeclared
    by_cases hkind : kind = kind'
    · subst hkind
      obtain rfl : properties' = properties := by simpa using hdeclared
      simp [hadmitted]
    · -- An entry of another kind has no influence, whatever becomes of it.
      rw [beq_false_of_ne hkind] at hdeclared
      have hrest := ih hdeclared
      cases hadmission : admission ignored kind' properties' with
      | admitted others =>
        simp only [List.filterMap_cons, hadmission, List.lookup_cons, beq_false_of_ne hkind]
        exact hrest
      | unknown =>
        simp only [List.filterMap_cons, hadmission]
        exact hrest
      | excluded undeclared =>
        simp only [List.filterMap_cons, hadmission]
        exact hrest

/-! ## The declared grammar -/

namespace Grammar

variable (g : Grammar) {kind kind' : String} (properties : List Property)

/-- **A declaration tells the properties of its kind.** -/
theorem properties?_declare_self : (g.declare kind properties).properties? kind
    = some properties := by
  unfold declare properties?
  split
  next hknown =>
    rw [List.contains_iff_mem] at hknown
    induction g with
    | nil => cases hknown
    | cons entry g ih =>
      rw [List.map_cons, List.lookup_cons]
      by_cases hkind : entry.1 = kind
      · simp [hkind]
      · have htail : kind ∈ kinds g := (List.mem_cons.1 hknown).resolve_left (Ne.symm hkind)
        simpa [hkind, beq_false_of_ne (Ne.symm hkind)] using ih htail
  next hnew =>
    rw [List.contains_iff_mem] at hnew
    induction g with
    | nil => simp
    | cons entry g ih =>
      have hkind : kind ≠ entry.1 := List.ne_of_not_mem_cons hnew
      rw [List.cons_append, List.lookup_cons, beq_false_of_ne hkind]
      exact ih (List.not_mem_of_not_mem_cons hnew)

/-- A declaration tells nothing of other kinds. -/
theorem properties?_declare_of_ne (h : kind' ≠ kind) :
    (g.declare kind properties).properties? kind' = g.properties? kind' := by
  unfold declare properties?
  split
  next hknown =>
    clear hknown
    induction g with
    | nil => rfl
    | cons entry g ih =>
      rw [List.map_cons, List.lookup_cons, List.lookup_cons, ih]
      by_cases hkind : entry.1 = kind
      · simp [hkind, beq_false_of_ne h]
      · simp [hkind]
  next hnew =>
    clear hnew
    induction g with
    | nil => simp [h]
    | cons entry g ih => rw [List.cons_append, List.lookup_cons, List.lookup_cons, ih]

end Grammar

/-- The fields of the last of some constructors of a kind. -/
def lastFields? (cs : List Constructor) (kind : List Char) : Option (List Field) :=
  (cs.reverse.find? (·.kind == kind)).bind fun c => (readFields c).toOption

theorem lastFields?_concat (cs : List Constructor) (c : Constructor) (kind : List Char) :
    lastFields? (cs ++ [c]) kind
      = if c.kind = kind then (readFields c).toOption else lastFields? cs kind := by
  unfold lastFields?
  rw [List.reverse_append, List.reverse_singleton, List.singleton_append, List.find?_cons]
  by_cases h : c.kind = kind
  · simp [h]
  · simp [h, beq_false_of_ne h]

/-- Reads one constructor into a grammar. -/
def declareConstructor (g : Grammar) (c : Constructor) : Except Failure Grammar := do
  let fields ← readFields c
  return g.declare (String.ofList c.kind) (fields.map Field.property)

/-- **Constructors that can all be read make a grammar**, which tells of each kind what the last
constructor of the kind declares. -/
theorem exists_foldlM_declareConstructor {cs : List Constructor}
    (hread : ∀ c ∈ cs, (readFields c).isOk = true) :
    ∃ g : Grammar, cs.foldlM declareConstructor [] = .ok g
      ∧ ∀ kind fields, lastFields? cs kind = some fields →
        g.properties? (String.ofList kind) = some (fields.map Field.property) := by
  induction cs using List.reverseRecOn with
  | nil => exact ⟨[], rfl, fun _ _ h => nomatch h⟩
  | append_singleton cs c ih =>
    obtain ⟨g, hg, hkinds⟩ := ih fun d hd => hread d (List.mem_append_left _ hd)
    cases hc : readFields c with
    | error failure =>
      have hok := hread c (List.mem_append_right _ List.mem_cons_self)
      rw [hc] at hok
      cases hok
    | ok fields =>
      have hstep : declareConstructor g c
          = .ok (g.declare (String.ofList c.kind) (fields.map Field.property)) := by
        rw [declareConstructor, hc]
        rfl
      refine ⟨g.declare (String.ofList c.kind) (fields.map Field.property), ?_, ?_⟩
      · rw [List.foldlM_append, hg]
        show List.foldlM declareConstructor g [c] = _
        rw [List.foldlM_cons, hstep]
        rfl
      · intro kind fields' hfields
        rw [lastFields?_concat] at hfields
        by_cases hkind : c.kind = kind
        · subst hkind
          rw [if_pos rfl, hc] at hfields
          cases hfields
          exact g.properties?_declare_self _
        · rw [if_neg hkind] at hfields
          rw [g.properties?_declare_of_ne _ fun heq => hkind (String.ofList_injective heq).symm]
          exact hkinds kind fields' hfields

/-- **What the declared grammar tells of a kind** can be read off the letters of its text. -/
theorem declaredGrammar_properties?_of {letters : List Char}
    (h : declaredKinds = String.ofList letters)
    (hread : ∀ c ∈ constructors letters, (readFields c).isOk = true) {kind : List Char}
    {fields : List Field} (hfields : lastFields? (constructors letters) kind = some fields) :
    declaredGrammar.properties? (String.ofList kind) = some (fields.map Field.property) := by
  obtain ⟨g, hg, hkinds⟩ := exists_foldlM_declareConstructor hread
  have hgrammar : readGrammar declaredKinds = .ok g := by
    rw [readGrammar, h, String.toList_ofList]
    exact hg
  rw [declaredGrammar, hgrammar]
  exact hkinds kind fields hfields

set_option maxRecDepth 100000 in
/-- The declared grammar is made of constructors that can all be read, among them those of a
module, of an expression that is a statement, and of a constant. -/
theorem exists_letters_declaredKinds : ∃ letters, declaredKinds = String.ofList letters
    ∧ (∀ c ∈ constructors letters, (readFields c).isOk = true)
    ∧ lastFields? (constructors letters) "Module".toList
      = some [⟨"stmt".toList, .many, "body".toList⟩,
        ⟨"type_ignore".toList, .many, "type_ignores".toList⟩]
    ∧ lastFields? (constructors letters) "Expr".toList
      = some [⟨"expr".toList, .one, "value".toList⟩]
    ∧ lastFields? (constructors letters) "Constant".toList
      = some [⟨"constant".toList, .one, "value".toList⟩,
        ⟨"string".toList, .optional, "kind".toList⟩] := by
  refine ⟨_, rfl, ?_⟩
  -- All of the text is cut up and read here, but kinds are compared by their letters only.
  decide +kernel

/-- What is declared of a module, of an expression that is a statement, and of a
constant. -/
theorem declaredGrammar_properties? :
    declaredGrammar.properties? "Module" = some [⟨"body", .childList⟩, ⟨"type_ignores", .childList⟩]
    ∧ declaredGrammar.properties? "Expr" = some [⟨"value", .child⟩]
    ∧ declaredGrammar.properties? "Constant" = some [⟨"value", .leaf⟩, ⟨"kind", .leaf⟩] := by
  obtain ⟨letters, hletters, hread, hmodule, hexpr, hconstant⟩ := exists_letters_declaredKinds
  exact ⟨declaredGrammar_properties?_of hletters hread hmodule,
    declaredGrammar_properties?_of hletters hread hexpr,
    declaredGrammar_properties?_of hletters hread hconstant⟩

/-! ## Numbers in programs -/

/-- A number in a program. -/
def Value.number (ref : Nat) (n : Int) : Value :=
  .node ⟨ref, "Constant", "Constant", some (toString n), some "<ast.Constant object at 0x2a>"⟩
    [("value", .int n), ("kind", .null)]

/-- The form of a number in a program. -/
theorem Frontend.form_number (ref : Nat) (n : Int) :
    (Frontend.python []).form (.number ref n)
      = some (.ok (.node "Constant" [.leaf (.atom (.int n)), .leaf (.atom .null)])) := by
  have hknown : (Frontend.python []).properties? "Constant"
      = some [⟨"value", .leaf⟩, ⟨"kind", .leaf⟩] :=
    Grammar.properties?_inForce declaredGrammar_properties?.2.2 rfl
  have hvalue : (Frontend.python []).PropertyForm (.number ref n) ⟨"value", .leaf⟩
      (.leaf (.atom (.int n))) := ⟨rfl, _, rfl, rfl⟩
  have hkind : (Frontend.python []).PropertyForm (.number ref n) ⟨"kind", .leaf⟩
      (.leaf (.atom .null)) := ⟨rfl, _, rfl, rfl⟩
  exact form_eq_ok_iff.2 ⟨_, _, hknown, .cons hvalue (.cons hkind .nil), rfl⟩

end HashConsing
