import HashConsing.Proofs.PrintedGrammar

/-!
# Declarations in any text

Every text can be taken for declarations: words with lists of properties behind them, and
whatever else stands between. `Cuts` says how a text is cut, word by word, and `Separates` how a
list of properties is cut into pieces at its commas. Neither leaves a choice, and reading cuts
in the same way (`cuts_iff`, `separates_iff`).

So what becomes of a text is up to its pieces (`readGrammar_outcome`). If some piece is neither
blank nor prints a property, reading fails and reports the first such piece. Otherwise every
word that was cut out is a kind, and no piece is lost: each that is not blank gives one property.
-/

namespace HashConsing

open Text

/-! ## Runs and what follows them -/

namespace Text

variable (p : Char → Bool) (text : List Char)

/-- Behind a run of characters of a class no such character follows. -/
theorem beginsOutside_dropWhile : BeginsOutside p (text.dropWhile p) := by
  intro c hc
  have hfind : text.find? (fun d => !p d) = some c :=
    (List.find?_not_eq_head?_dropWhile p text).trans hc
  simpa using List.find?_some hfind

/-- Blanks at the start of a text are a blank text. -/
theorem isBlankText_takeWhile : isBlankText (text.takeWhile isBlank) = true :=
  List.all_eq_true.2 fun _ hc => List.mem_takeWhile_imp hc

/-- **Only blanks are removed at the ends of a text**, and no blank is left there. -/
theorem exists_strip : ∃ before after, isBlankText before = true ∧ isBlankText after = true
    ∧ text = before ++ (strip text ++ after) := by
  let core := text.dropWhile isBlank
  have hcore : core = strip text ++ (core.reverse.takeWhile isBlank).reverse := by
    rw [strip, ← List.reverse_append, List.takeWhile_append_dropWhile, List.reverse_reverse]
  refine ⟨text.takeWhile isBlank, (core.reverse.takeWhile isBlank).reverse,
    isBlankText_takeWhile text, ?_, ?_⟩
  · rw [isBlankText, List.all_reverse]
    exact isBlankText_takeWhile core.reverse
  · rw [← hcore]
    exact List.takeWhile_append_dropWhile.symm

variable {text}

/-- Nothing is left of a text exactly if it is blank. -/
theorem strip_eq_nil_iff : strip text = [] ↔ isBlankText text = true := by
  refine ⟨fun h => ?_, strip_blank⟩
  obtain ⟨before, after, hbefore, hafter, htext⟩ := exists_strip text
  rw [h, List.nil_append] at htext
  rw [htext, isBlankText, List.all_append]
  exact Bool.and_eq_true_iff.2 ⟨hbefore, hafter⟩

end Text

/-! ## Cutting a text -/

/-- **A list of properties stands at the start of a text**, blanks aside: what is between a
parenthesis and the first one that closes. -/
def BeginsWithList (text inside rest : List Char) : Prop :=
  ∃ gap, isBlankText gap = true ∧ ')' ∉ inside ∧ text = gap ++ '(' :: (inside ++ ')' :: rest)

/-- **How a text is cut.** The next word is a kind, whatever stands before it. A list of
properties behind it belongs to it; what follows is cut in the same way. -/
inductive Cuts : List Char → List Constructor → Prop where
  | nil {text : List Char} (h : ∀ c ∈ text, isWordChar c = false) : Cuts text []
  | bare {skipped kind rest : List Char} {cs : List Constructor}
      (hskipped : ∀ c ∈ skipped, isWordChar c = false) (hkind : IsWord kind)
      (hrest : BeginsOutside isWordChar rest)
      (hlist : ∀ inside after, ¬ BeginsWithList rest inside after) (h : Cuts rest cs) :
      Cuts (skipped ++ (kind ++ rest)) (⟨kind, []⟩ :: cs)
  | fields {skipped kind rest inside after : List Char} {cs : List Constructor}
      (hskipped : ∀ c ∈ skipped, isWordChar c = false) (hkind : IsWord kind)
      (hrest : BeginsOutside isWordChar rest) (hlist : BeginsWithList rest inside after)
      (h : Cuts after cs) : Cuts (skipped ++ (kind ++ rest)) (⟨kind, inside⟩ :: cs)

section Cutting

variable {text word rest inside after : List Char} {cs : List Constructor}

/-- A list of properties that stands there is taken. -/
theorem BeginsWithList.parenthesized (h : BeginsWithList text inside after) :
    parenthesized text = (inside, after) := by
  obtain ⟨gap, hgap, hinside, rfl⟩ := h
  exact parenthesized_append after hgap hinside

/-- What follows a list of properties is shorter than the text: the parentheses count as well. -/
theorem BeginsWithList.length_lt (h : BeginsWithList text inside after) :
    after.length < text.length := by
  obtain ⟨gap, -, -, rfl⟩ := h
  simp only [List.length_append, List.length_cons]
  omega

/-- **Parentheses are taken exactly if they enclose a list of properties.** -/
theorem parenthesized_cases (text : List Char) :
    BeginsWithList text (parenthesized text).1 (parenthesized text).2
      ∨ parenthesized text = ([], text) := by
  unfold parenthesized
  split
  next inside hopen =>
    split
    next => exact .inr rfl
    next c rest hclose =>
      obtain rfl : c = ')' := by
        have hc : (c != ')') = false :=
          beginsOutside_dropWhile (· != ')') inside c (by rw [hclose]; rfl)
        simpa using hc
      refine .inl ⟨text.takeWhile isBlank, isBlankText_takeWhile text, fun hmem => ?_, ?_⟩
      · exact absurd (List.mem_takeWhile_imp hmem) (by decide)
      · rw [← hclose, List.takeWhile_append_dropWhile, ← hopen, List.takeWhile_append_dropWhile]
  next => exact .inr rfl

/-- **The next word of a text** ends where no word character follows, and none stands before
it. -/
theorem nextWord?_eq_some (h : nextWord? text = some (word, rest)) :
    ∃ skipped, (∀ c ∈ skipped, isWordChar c = false) ∧ text = skipped ++ (word ++ rest)
      ∧ IsWord word ∧ BeginsOutside isWordChar rest := by
  unfold nextWord? at h
  split at h
  next => cases h
  next c tail hfirst =>
    cases h
    have hc : isWordChar c = true := by
      have hc := beginsOutside_dropWhile (fun d => !isWordChar d) text c (by rw [hfirst]; rfl)
      simpa using hc
    refine ⟨text.takeWhile fun d => !isWordChar d, fun d hd => ?_, ?_, ⟨?_, fun d hd => ?_⟩,
      beginsOutside_dropWhile _ _⟩
    · simpa using List.mem_takeWhile_imp hd
    · rw [List.takeWhile_append_dropWhile, ← hfirst, List.takeWhile_append_dropWhile]
    · rw [List.takeWhile_cons_of_pos hc]
      exact List.cons_ne_nil _ _
    · exact List.mem_takeWhile_imp hd

/-- There is no next word where there is no word character. -/
theorem nextWord?_eq_none (h : nextWord? text = none) : ∀ c ∈ text, isWordChar c = false := by
  unfold nextWord? at h
  split at h
  next hnone => simpa using List.dropWhile_eq_nil_iff.1 hnone
  next => cases h

/-- Reading cuts a text as `Cuts` says. -/
theorem cuts_constructors (text : List Char) : Cuts text (constructors text) := by
  fun_induction constructors text with
  | case1 text hword => exact .nil (nextWord?_eq_none hword)
  | case2 text word rest hword ih =>
    obtain ⟨skipped, hskipped, rfl, hkind, hrest⟩ := nextWord?_eq_some hword
    rcases parenthesized_cases rest with hlist | hnone
    · exact .fields hskipped hkind hrest hlist ih
    · rw [hnone] at ih ⊢
      refine .bare hskipped hkind hrest (fun inside after hlist => ?_) ih
      have hafter : rest = after := congrArg Prod.snd (hnone.symm.trans hlist.parenthesized)
      exact absurd hlist.length_lt (hafter ▸ Nat.lt_irrefl _)

/-- What is no word character is passed over. -/
theorem constructors_append {skipped : List Char} (h : ∀ c ∈ skipped, isWordChar c = false)
    (text : List Char) : constructors (skipped ++ text) = constructors text := by
  induction skipped with
  | nil => rfl
  | cons c skipped ih =>
    rw [List.cons_append, constructors_skip (h c List.mem_cons_self)]
    exact ih fun d hd => h d (List.mem_cons_of_mem c hd)

theorem Cuts.constructors_eq (h : Cuts text cs) : constructors text = cs := by
  induction h with
  | @nil text h =>
    rw [← List.append_nil text, constructors_append h, constructors_nil]
  | @bare skipped kind rest cs hskipped hkind hrest hlist _ ih =>
    have hnone : parenthesized rest = ([], rest) :=
      (parenthesized_cases rest).resolve_left (hlist _ _)
    rw [constructors_append hskipped, constructors_word hkind hrest, hnone, ih]
  | fields hskipped hkind hrest hlist _ ih =>
    rw [constructors_append hskipped, constructors_word hkind hrest, hlist.parenthesized, ih]

/-- **A text is cut in one way.** -/
theorem cuts_iff : Cuts text cs ↔ constructors text = cs :=
  ⟨Cuts.constructors_eq, fun h => h ▸ cuts_constructors text⟩

end Cutting

/-! ## Separating properties -/

/-- **Pieces are separated by commas**, and have none inside. -/
inductive Separates : List (List Char) → List Char → Prop where
  | one {piece : List Char} (h : ',' ∉ piece) : Separates [piece] piece
  | cons {piece rest : List Char} {ps : List (List Char)} (h : ',' ∉ piece)
      (hrest : Separates ps rest) : Separates (piece :: ps) (piece ++ ',' :: rest)

theorem separates_pieces (text : List Char) : Separates (pieces text) text := by
  fun_induction pieces text with
  | case1 => exact .one List.not_mem_nil
  | case2 text ih => exact .cons List.not_mem_nil ih
  | case3 c text hc hnone ih =>
    rw [hnone] at ih
    cases ih
  | case4 c text hc piece rest hpieces ih =>
    have hpiece : ∀ {q : List Char}, ',' ∉ q → ',' ∉ c :: q := fun hq => by
      simp [hq, Ne.symm hc]
    rw [hpieces] at ih
    cases ih with
    | one h => exact .one (hpiece h)
    | cons h hrest => exact .cons (hpiece h) hrest

/-- **A text is cut at its commas in one way.** -/
theorem separates_iff {ps : List (List Char)} {text : List Char} :
    Separates ps text ↔ pieces text = ps := by
  refine ⟨fun h => ?_, fun h => h ▸ separates_pieces text⟩
  induction h with
  | one h => exact pieces_of_not_mem h
  | cons h _ ih => rw [pieces_append h, ih]

/-! ## Reading pieces -/

/-- A mark that is read stood there. -/
theorem mark_append_readQuantifier (text : List Char) :
    (readQuantifier text).1.mark ++ (readQuantifier text).2 = text := by
  unfold readQuantifier
  split <;> rfl

/-- **A property that is read was printed**, without blanks at the ends. -/
theorem exists_gap_of_readField? {text : List Char} {field : Field}
    (h : readField? text = some field) :
    ∃ gap, IsWord field.type ∧ IsWord field.name ∧ isBlankText gap = true ∧ gap ≠ []
      ∧ text = field.type ++ (field.quantifier.mark ++ (gap ++ field.name)) := by
  let behind := text.dropWhile isWordChar
  let rest := (readQuantifier behind).2
  let name := rest.dropWhile isBlank
  have hrest : rest.takeWhile isBlank ++ name = rest := List.takeWhile_append_dropWhile
  simp only [readField?, Option.ite_none_left_eq_some, Bool.or_eq_true, not_or,
    Bool.not_eq_true, Bool.not_eq_false', List.isEmpty_eq_false_iff, beq_eq_false_iff_ne] at h
  obtain ⟨⟨⟨⟨htype, hname⟩, hlength⟩, hall⟩, hfield⟩ := h
  cases hfield
  refine ⟨rest.takeWhile isBlank, ⟨htype, fun c hc => List.mem_takeWhile_imp hc⟩,
    ⟨hname, List.all_eq_true.1 hall⟩, isBlankText_takeWhile rest, fun hgap => hlength ?_, ?_⟩
  · -- A name that begins where the mark ends is set apart by no blank.
    rw [hgap, List.nil_append] at hrest
    exact congrArg List.length hrest
  · show text = text.takeWhile isWordChar ++ ((readQuantifier behind).1.mark
      ++ (rest.takeWhile isBlank ++ name))
    rw [hrest, mark_append_readQuantifier, List.takeWhile_append_dropWhile]

/-- **A piece prints a property exactly if the property is read** from the piece without the
blanks at its ends. -/
theorem Field.prints_iff {field : Field} {piece : List Char} :
    field.Prints piece ↔ readField? (strip piece) = some field := by
  refine ⟨fun h => h.declaresField.2, fun h => ?_⟩
  obtain ⟨gap, htype, hname, hgap, hne, hcore⟩ := exists_gap_of_readField? h
  obtain ⟨before, after, hbefore, hafter, hpiece⟩ := exists_strip piece
  rw [hpiece, hcore]
  exact .intro before gap after htype hname hbefore hgap hne hafter

/-- **A piece that is no property**: it holds more than blanks, but nothing that is printed in
this way. -/
def IsMalformed (piece : List Char) : Prop :=
  isBlankText piece = false ∧ ∀ field : Field, ¬ field.Prints piece

/-! ## Lists of properties -/

namespace Constructor

variable (c : Constructor)

/-- **The properties in the body of a constructor**, one for each piece that is not blank. -/
def Lists (fields : List Field) : Prop :=
  ∃ ps, Separates ps c.body ∧ List.Forall₂ Field.Prints fields (ps.filter (!isBlankText ·))

/-- Some piece of the body of a constructor is no property. -/
def HasMalformed : Prop := ∃ ps, Separates ps c.body ∧ ∃ piece ∈ ps, IsMalformed piece

/-- **The first piece of the body that is no property.** -/
def FirstMalformed (piece : List Char) : Prop :=
  ∃ earlier later, Separates (earlier ++ piece :: later) c.body
    ∧ (∀ p ∈ earlier, ¬ IsMalformed p) ∧ IsMalformed piece

variable {c}

theorem FirstMalformed.hasMalformed {piece : List Char} (h : c.FirstMalformed piece) :
    c.HasMalformed := by
  obtain ⟨earlier, later, hpieces, -, hpiece⟩ := h
  exact ⟨_, hpieces, piece, List.mem_append_right _ List.mem_cons_self, hpiece⟩

/-- Where every piece that is not blank prints a property, no piece is malformed. -/
theorem Lists.not_hasMalformed {fields : List Field} (h : c.Lists fields) : ¬ c.HasMalformed := by
  rintro ⟨ps', hps', piece, hpiece, hblank, hnone⟩
  obtain ⟨ps, hps, hprints⟩ := h
  obtain rfl : ps = ps' := (separates_iff.1 hps).symm.trans (separates_iff.1 hps')
  have hmem : piece ∈ ps.filter (!isBlankText ·) := List.mem_filter.2 ⟨hpiece, by simp [hblank]⟩
  obtain ⟨i, hi, rfl⟩ := List.getElem_of_mem hmem
  exact hnone _ (hprints.get (hprints.length_eq ▸ hi) hi)

end Constructor

/-- What is read of one piece. -/
def readPiece (kind piece : List Char) : Except Failure Field :=
  match readField? piece with
  | some field => .ok field
  | none => .error (.malformedField (String.ofList kind) (String.ofList piece))

/-- **What becomes of some pieces**: all that are not blank are read, or the first one that is no
property is reported. -/
theorem mapM_readPiece_cases (kind : List Char) (ps : List (List Char)) :
    (∃ fields, ((ps.map strip).filter fun p => !p.isEmpty).mapM (readPiece kind) = .ok fields
        ∧ List.Forall₂ Field.Prints fields (ps.filter (!isBlankText ·)))
      ∨ ∃ earlier piece later, ps = earlier ++ piece :: later ∧ (∀ p ∈ earlier, ¬ IsMalformed p)
        ∧ IsMalformed piece
        ∧ ((ps.map strip).filter fun p => !p.isEmpty).mapM (readPiece kind)
            = .error (.malformedField (String.ofList kind) (String.ofList (strip piece))) := by
  induction ps with
  | nil => exact .inl ⟨[], rfl, .nil⟩
  | cons piece ps ih =>
    by_cases hblank : isBlankText piece = true
    · -- A blank piece is passed over.
      have hmalformed : ¬ IsMalformed piece := fun h => by simp [h.1] at hblank
      rw [List.map_cons, List.filter_cons_of_neg (by simp [strip_eq_nil_iff.2 hblank]),
        List.filter_cons_of_neg (by simp [hblank])]
      refine ih.imp id ?_
      rintro ⟨earlier, q, later, rfl, hearlier, hq, hread⟩
      exact ⟨piece :: earlier, q, later, rfl, List.forall_mem_cons.2 ⟨hmalformed, hearlier⟩, hq,
        hread⟩
    · have hcore : strip piece ≠ [] := fun h => hblank (strip_eq_nil_iff.1 h)
      rw [List.map_cons, List.filter_cons_of_pos (by simpa using hcore),
        List.filter_cons_of_pos (by simp [hblank]), List.mapM_cons, readPiece]
      cases hread : readField? (strip piece) with
      | none =>
        refine .inr ⟨[], piece, ps, rfl, List.forall_mem_nil _,
          ⟨by simpa using hblank, fun field h => ?_⟩, rfl⟩
        exact absurd (hread.symm.trans (Field.prints_iff.1 h)) (Option.some_ne_none field).symm
      | some field =>
        have hfield : field.Prints piece := Field.prints_iff.2 hread
        rcases ih with ⟨fields, hrest, hfields⟩ | ⟨earlier, q, later, rfl, hearlier, hq, hrest⟩
        · refine .inl ⟨field :: fields, ?_, .cons hfield hfields⟩
          rw [hrest]
          rfl
        · refine .inr ⟨piece :: earlier, q, later, rfl, List.forall_mem_cons.2 ⟨?_, hearlier⟩, hq, ?_⟩
          · exact fun h => h.2 field hfield
          · rw [hrest]
            rfl

/-- **What becomes of a constructor.** -/
theorem readFields_cases (c : Constructor) :
    (∃ fields, readFields c = .ok fields ∧ c.Lists fields)
      ∨ ∃ piece,
        readFields c = .error (.malformedField (String.ofList c.kind) (String.ofList (strip piece)))
        ∧ c.FirstMalformed piece := by
  have hpieces : Separates (pieces c.body) c.body := separates_pieces c.body
  rcases mapM_readPiece_cases c.kind (pieces c.body) with
    ⟨fields, hread, hfields⟩ | ⟨earlier, piece, later, hps, hearlier, hpiece, hread⟩
  · exact .inl ⟨fields, hread, pieces c.body, hpieces, hfields⟩
  · exact .inr ⟨piece, hread, earlier, later, hps ▸ hpieces, hearlier, hpiece⟩

/-! ## Reading a text -/

/-- Where an entry splits a list, one that corresponds splits the corresponding list. -/
theorem exists_split_of_forall₂ {A B : Type} {R : A → B → Prop} {before after : List A} {a : A}
    {bs : List B} (h : List.Forall₂ R (before ++ a :: after) bs) :
    ∃ front b back, bs = front ++ b :: back ∧ R a b ∧ List.Forall₂ R after back := by
  have hback := List.forall₂_drop_append bs before (a :: after) h.flip
  obtain ⟨b, back, hab, hafter, hbs⟩ := List.forall₂_cons_right_iff.1 hback
  refine ⟨bs.take before.length, b, back, ?_, hab, hafter.flip⟩
  rw [← hbs, List.take_append_drop]

/-- **A constructor declares what it lists.** -/
def Constructor.IsRead (c : Constructor) (d : Declaration) : Prop :=
  c.kind = d.kind ∧ c.Lists d.fields

/-- **What becomes of the constructors of a text**: they are all read, or the first piece of the
first of them that is no property is reported. -/
theorem foldlM_declareConstructor_cases (cs : List Constructor) (g : Grammar) :
    (∃ ds : List Declaration,
        List.Forall₂ Constructor.IsRead cs ds
        ∧ cs.foldlM declareConstructor g = .ok (ds.foldl Grammar.declareNext g))
      ∨ ∃ before c after piece, cs = before ++ c :: after ∧ (∀ d ∈ before, ¬ d.HasMalformed)
        ∧ c.FirstMalformed piece
        ∧ cs.foldlM declareConstructor g
          = .error (.malformedField (String.ofList c.kind) (String.ofList (strip piece))) := by
  induction cs generalizing g with
  | nil => exact .inl ⟨[], .nil, rfl⟩
  | cons c cs ih =>
    rw [List.foldlM_cons, declareConstructor]
    rcases readFields_cases c with ⟨fields, hread, hfields⟩ | ⟨piece, hread, hpiece⟩
    · rw [hread]
      rcases ih (g.declareNext ⟨c.kind, fields⟩) with
        ⟨ds, hds, hrest⟩ | ⟨before, d, after, piece, rfl, hbefore, hpiece, hrest⟩
      · exact .inl ⟨⟨c.kind, fields⟩ :: ds, .cons ⟨rfl, hfields⟩ hds, hrest⟩
      · refine .inr ⟨c :: before, d, after, piece, rfl, ?_, hpiece, hrest⟩
        exact List.forall_mem_cons.2 ⟨hfields.not_hasMalformed, hbefore⟩
    · rw [hread]
      exact .inr ⟨[], c, cs, piece, rfl, List.forall_mem_nil _, hpiece, rfl⟩

/-- **The property that a piece declares**: raw data where the type is one of raw data, and
otherwise a list of children or one child, as the mark says. -/
theorem Field.property_eq (field : Field) :
    field.property = ⟨String.ofList field.name,
      if String.ofList field.type ∈ ["identifier", "string", "int", "constant"] then .leaf
      else if field.quantifier = .many then .childList
      else .child⟩ := by
  rw [property, kind, dataTypes]
  simp only [List.contains_iff_mem]
  cases field.quantifier <;> rfl

/-- **The kinds of a grammar** are those of the constructors it was read from, each where it is
met first. -/
theorem kinds_of_isRead {cs : List Constructor} {ds : List Declaration}
    (h : List.Forall₂ Constructor.IsRead cs ds) :
    (Grammar.ofDeclarations ds).kinds = (cs.map fun c => String.ofList c.kind).eraseDups := by
  have hkinds : List.Forall₂ (· = ·) (cs.map fun c => String.ofList c.kind)
      (ds.map fun d => String.ofList d.kind) := by
    rw [List.forall₂_map_left_iff, List.forall₂_map_right_iff]
    exact h.imp fun c d hcd => congrArg String.ofList hcd.1
  exact (Grammar.kinds_ofDeclarations ds).trans
    (congrArg List.eraseDups (List.forall₂_eq_eq_eq ▸ hkinds).symm)

/-- **The properties of a kind** are those of the last constructor of the kind. -/
theorem properties?_of_isRead {before after : List Constructor} {c : Constructor}
    {ds : List Declaration} (h : List.Forall₂ Constructor.IsRead (before ++ c :: after) ds)
    (hlast : ∀ d ∈ after, d.kind ≠ c.kind) :
    ∃ fields, c.Lists fields ∧ (Grammar.ofDeclarations ds).properties? (String.ofList c.kind)
      = some (fields.map Field.property) := by
  obtain ⟨front, d, back, rfl, ⟨hkind, hlists⟩, hback⟩ := exists_split_of_forall₂ h
  refine ⟨d.fields, hlists, ?_⟩
  rw [hkind]
  refine Grammar.properties?_ofDeclarations front d fun e he => ?_
  -- A later declaration of the kind would come from a later constructor of the kind.
  obtain ⟨front', back', rfl⟩ := List.append_of_mem he
  obtain ⟨after', c', after'', rfl, ⟨hkind', -⟩, -⟩ :=
    exists_split_of_forall₂ (R := flip Constructor.IsRead) hback.flip
  rw [← hkind', ← hkind]
  exact hlast c' (List.mem_append_right _ List.mem_cons_self)

/-- **What becomes of any text.** It is cut into constructors in exactly one way. Reading it
fails if and only if some constructor has a piece that is neither blank nor prints a property,
and the failure and its message name the first such piece, without the blanks at its ends, and
its kind; two messages are the same only if both are (`Failure.eq_of_message_malformedField`).
Otherwise all kinds that were cut out are read, in the order of their first occurrences, and the
properties of a kind are those of its last constructor: one for each piece that is not blank, in
order, under the name that the piece ends in. -/
theorem readGrammar_outcome (text : List Char) :
    ∃ cs, (∀ cs', Cuts text cs' ↔ cs' = cs)
      ∧ ((∃ failure, readGrammar (String.ofList text) = .error failure)
          ↔ ∃ c ∈ cs, c.HasMalformed)
      ∧ (∀ failure, readGrammar (String.ofList text) = .error failure →
          ∃ before c after piece, cs = before ++ c :: after ∧ (∀ d ∈ before, ¬ d.HasMalformed)
            ∧ c.FirstMalformed piece
            ∧ failure = .malformedField (String.ofList c.kind) (String.ofList (strip piece))
            ∧ failure.message = .ok ("No property metadata for node kind "
              ++ quote (String.ofList c.kind) ++ ": "
              ++ ("malformed field declaration " ++ quote (String.ofList (strip piece)))))
      ∧ ∀ g, readGrammar (String.ofList text) = .ok g →
          g.kinds = (cs.map fun c => String.ofList c.kind).eraseDups
          ∧ ∀ before c after, cs = before ++ c :: after → (∀ d ∈ after, d.kind ≠ c.kind) →
            ∃ fields, c.Lists fields
              ∧ g.properties? (String.ofList c.kind) = some (fields.map fun field =>
                ⟨String.ofList field.name,
                  if String.ofList field.type ∈ ["identifier", "string", "int", "constant"]
                  then .leaf
                  else if field.quantifier = .many then .childList
                  else .child⟩) := by
  have hread : readGrammar (String.ofList text)
      = (constructors text).foldlM declareConstructor [] := by
    rw [readGrammar, String.toList_ofList]
    rfl
  refine ⟨constructors text, fun cs' => cuts_iff.trans eq_comm, ?_⟩
  rw [hread]
  rcases foldlM_declareConstructor_cases (constructors text) [] with
    ⟨ds, hds, hok⟩ | ⟨before, c, after, piece, hcs, hbefore, hpiece, herror⟩
  · rw [hok]
    have hsucceeds : ∀ failure : Failure, Except.ok (ds.foldl Grammar.declareNext []) ≠ .error failure := by
      intro failure h
      cases h
    refine ⟨iff_of_false (not_exists.2 hsucceeds) ?_, fun failure h => absurd h (hsucceeds failure), ?_⟩
    · rintro ⟨c, hc, hmalformed⟩
      obtain ⟨before, after, hcs⟩ := List.append_of_mem hc
      obtain ⟨-, d, -, -, ⟨-, hlists⟩, -⟩ := exists_split_of_forall₂ (hcs ▸ hds)
      exact hlists.not_hasMalformed hmalformed
    · rintro _ ⟨⟩
      refine ⟨kinds_of_isRead hds, fun before c after hcs hlast => ?_⟩
      obtain ⟨fields, hlists, hproperties⟩ := properties?_of_isRead (hcs ▸ hds) hlast
      refine ⟨fields, hlists, ?_⟩
      rw [← List.map_congr_left fun field _ => field.property_eq]
      exact hproperties
  · rw [herror]
    refine ⟨iff_of_true ⟨_, rfl⟩ ⟨c, ?_, hpiece.hasMalformed⟩, ?_, ?_⟩
    · rw [hcs]
      exact List.mem_append_right _ List.mem_cons_self
    · intro failure hfailure
      obtain rfl := Except.error.inj hfailure
      exact ⟨before, c, after, piece, hcs, hbefore, hpiece, rfl,
        Failure.message_malformedField _ _⟩
    · rintro g ⟨⟩

end HashConsing
