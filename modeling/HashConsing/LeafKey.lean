import HashConsing.Failure
import HashConsing.Value

/-!
# Keys of leaf values

Two leaves get the same canonical id exactly when their values have the same
key. A key records the type of a value next to the value, so the integer one,
the number one and the truth value differ; floating point numbers count by
their encodings, so negative zero is not zero while *not a number* equals
itself; tuples and frozen sets count by the keys of their members.

A set has no order, and the keys of its members may coincide although the
members did not agree. Its key therefore holds the keys of the members in
increasing order, each once: **equality of sets is equality of keys**. The
order behind this is a linear order on all keys, which the tables of canonical
ids use as well.
-/

namespace HashConsing

/-! ## Atoms -/

/-- **The key of a value without parts.** -/
inductive Atom where
  | null
  | ellipsis
  | bool (b : Bool)
  | int (n : Int)
  | word (type : WordType) (value : Int)
  | float (x : Double)
  | complex (re im : Double)
  | text (s : String)
  | bytes (data : List UInt8)
  /-- A node counts by its identity, which its text goes with. -/
  | node (ref : Nat) (shown : Option String)
  deriving DecidableEq, Repr

namespace Atom

/-- The position of an atom's type among the types. -/
def rank : Atom → Nat
  | null => 0
  | ellipsis => 1
  | bool _ => 2
  | int _ => 3
  | word _ _ => 4
  | float _ => 5
  | complex _ _ => 6
  | text _ => 7
  | bytes _ => 8
  | node _ _ => 9

/-- The numbers in an atom. -/
def numbers : Atom → List Int
  | bool b => [if b then 1 else 0]
  | int n => [n]
  | word _ value => [value]
  | float x => [x.bits.toNat]
  | complex re im => [re.bits.toNat, im.bits.toNat]
  | bytes data => data.map fun b => (b.toNat : Int)
  | node ref shown => [ref, if shown.isSome then 1 else 0]
  | _ => []

/-- The text in an atom. -/
def letters : Atom → String
  | word type _ => type.name
  | text s => s
  | node _ shown => shown.getD ""
  | _ => ""

/-- **Atoms are ordered** by type, then by their numbers, then by their text. -/
def order : Atom → Atom → Ordering :=
  compareLex (compareOn rank) (compareLex (compareOn numbers) (compareOn letters))

instance : Ord Atom := ⟨order⟩

instance : Std.TransOrd Atom :=
  inferInstanceAs (Std.TransCmp
    (compareLex (compareOn rank) (compareLex (compareOn numbers) (compareOn letters))))

/-- Type, numbers and text determine an atom. -/
theorem eq_of_parts {a b : Atom} (hr : a.rank = b.rank) (hn : a.numbers = b.numbers)
    (hl : a.letters = b.letters) : a = b := by
  have bytes_inj : ∀ {xs ys : List UInt8},
      xs.map (fun b => (b.toNat : Int)) = ys.map (fun b => (b.toNat : Int)) → xs = ys := by
    intro xs ys h
    exact (List.map_inj_right fun x y hxy => UInt8.toNat_inj.1 (Int.ofNat_inj.1 hxy)).1 h
  have double_inj : ∀ {x y : Double}, (x.bits.toNat : Int) = y.bits.toNat → x = y :=
    fun h => Double.ext (UInt64.toNat_inj.1 (Int.ofNat_inj.1 h))
  cases a <;> cases b <;> simp [rank] at hr
  case null.null => rfl
  case ellipsis.ellipsis => rfl
  case bool.bool x y => cases x <;> cases y <;> simp_all [numbers]
  case int.int x y => simpa [numbers] using hn
  case word.word type x type' y =>
    rw [WordType.name_inj.1 hl, List.head_eq_of_cons_eq hn]
  case float.float x y => exact congrArg float (double_inj (List.head_eq_of_cons_eq hn))
  case complex.complex x y z w =>
    have h : (x.bits.toNat : Int) = z.bits.toNat ∧ (y.bits.toNat : Int) = w.bits.toNat := by
      simpa only [numbers, List.cons.injEq, and_true] using hn
    rw [double_inj h.1, double_inj h.2]
  case text.text x y => simpa [letters] using hl
  case bytes.bytes x y => rw [bytes_inj hn]
  case node.node x s y t =>
    obtain rfl : x = y := Int.ofNat_inj.1 (List.head_eq_of_cons_eq hn)
    cases s <;> cases t <;> simp_all [numbers, letters]

instance : Std.LawfulEqOrd Atom where
  eq_of_compare {a b} h := by
    obtain ⟨hr, h⟩ := Ordering.then_eq_eq.1 h
    obtain ⟨hn, hl⟩ := Ordering.then_eq_eq.1 h
    exact eq_of_parts (Std.LawfulEqOrd.eq_of_compare hr)
      (Std.LawfulEqOrd.eq_of_compare hn) (Std.LawfulEqOrd.eq_of_compare hl)

theorem order_self {a : Atom} : compare a a = .eq := Std.ReflCmp.compare_self

theorem order_swap {a b : Atom} : compare a b = (compare b a).swap :=
  Std.OrientedCmp.eq_swap

theorem order_lt_trans {a b c : Atom} (h : compare a b = .lt) (h' : compare b c = .lt) :
    compare a c = .lt := Std.TransCmp.lt_trans h h'

end Atom

/-! ## Keys -/

/-- **The key of a leaf value.** The members of a set key are increasing. -/
inductive LeafKey where
  | atom (a : Atom)
  | tuple (items : List LeafKey)
  | set (members : List LeafKey)

namespace LeafKey

mutual

/-- **The order of keys**: atoms before tuples before sets, tuples and sets
lexicographically. -/
def order : LeafKey → LeafKey → Ordering
  | atom a, atom b => compare a b
  | atom _, _ => .lt
  | tuple _, atom _ => .gt
  | tuple xs, tuple ys => orderEach xs ys
  | tuple _, set _ => .lt
  | set xs, set ys => orderEach xs ys
  | set _, _ => .gt

/-- The lexicographic order of lists of keys. -/
def orderEach : List LeafKey → List LeafKey → Ordering
  | [], [] => .eq
  | [], _ :: _ => .lt
  | _ :: _, [] => .gt
  | x :: xs, y :: ys => (order x y).then (orderEach xs ys)

end

instance : Ord LeafKey := ⟨order⟩

mutual

theorem order_self : ∀ k : LeafKey, order k k = .eq
  | atom _ => Atom.order_self
  | tuple xs => orderEach_self xs
  | set xs => orderEach_self xs

theorem orderEach_self : ∀ ks : List LeafKey, orderEach ks ks = .eq
  | [] => rfl
  | x :: xs => by rw [orderEach, order_self x, orderEach_self xs]; rfl

end

mutual

theorem eq_of_order : ∀ {k l : LeafKey}, order k l = .eq → k = l
  | atom _, atom _, h => congrArg atom (Std.LawfulEqOrd.eq_of_compare h)
  | tuple _, tuple _, h => congrArg tuple (eq_of_orderEach h)
  | set _, set _, h => congrArg set (eq_of_orderEach h)
  | atom _, tuple _, h => nomatch h
  | atom _, set _, h => nomatch h
  | tuple _, atom _, h => nomatch h
  | tuple _, set _, h => nomatch h
  | set _, atom _, h => nomatch h
  | set _, tuple _, h => nomatch h

theorem eq_of_orderEach : ∀ {ks ls : List LeafKey}, orderEach ks ls = .eq → ks = ls
  | [], [], _ => rfl
  | _ :: _, _ :: _, h => by
    obtain ⟨hx, hxs⟩ := Ordering.then_eq_eq.1 h
    rw [eq_of_order hx, eq_of_orderEach hxs]
  | [], _ :: _, h => nomatch h
  | _ :: _, [], h => nomatch h

end

mutual

theorem order_swap : ∀ k l : LeafKey, order k l = (order l k).swap
  | atom _, atom _ => Atom.order_swap
  | tuple xs, tuple ys => orderEach_swap xs ys
  | set xs, set ys => orderEach_swap xs ys
  | atom _, tuple _ => rfl
  | atom _, set _ => rfl
  | tuple _, atom _ => rfl
  | tuple _, set _ => rfl
  | set _, atom _ => rfl
  | set _, tuple _ => rfl

theorem orderEach_swap : ∀ ks ls : List LeafKey, orderEach ks ls = (orderEach ls ks).swap
  | [], [] => rfl
  | x :: xs, y :: ys => by
    rw [orderEach, orderEach, Ordering.swap_then, order_swap x y, orderEach_swap xs ys]
  | [], _ :: _ => rfl
  | _ :: _, [] => rfl

end

mutual

theorem order_lt_trans : ∀ {k l m : LeafKey},
    order k l = .lt → order l m = .lt → order k m = .lt
  | atom _, atom _, atom _, h, h' => Atom.order_lt_trans h h'
  | tuple _, tuple _, tuple _, h, h' => orderEach_lt_trans h h'
  | set _, set _, set _, h, h' => orderEach_lt_trans h h'
  | atom _, _, tuple _, _, _ => rfl
  | atom _, _, set _, _, _ => rfl
  | tuple _, _, set _, _, _ => rfl
  | atom _, tuple _, atom _, _, h' => nomatch h'
  | atom _, set _, atom _, _, h' => nomatch h'
  | tuple _, atom _, _, h, _ => nomatch h
  | tuple _, tuple _, atom _, _, h' => nomatch h'
  | tuple _, set _, atom _, _, h' => nomatch h'
  | tuple _, set _, tuple _, _, h' => nomatch h'
  | set _, atom _, _, h, _ => nomatch h
  | set _, tuple _, _, h, _ => nomatch h
  | set _, set _, atom _, _, h' => nomatch h'
  | set _, set _, tuple _, _, h' => nomatch h'

theorem orderEach_lt_trans : ∀ {ks ls ms : List LeafKey},
    orderEach ks ls = .lt → orderEach ls ms = .lt → orderEach ks ms = .lt
  | [], _, _ :: _, _, _ => rfl
  | _ :: _, _ :: _, _ :: _, h, h' => by
    rw [orderEach, Ordering.then_eq_lt] at h h' ⊢
    rcases h with hxy | ⟨hxy, hxs⟩
    · rcases h' with hyz | ⟨hyz, -⟩
      · exact .inl (order_lt_trans hxy hyz)
      · exact .inl (eq_of_order hyz ▸ hxy)
    · rcases h' with hyz | ⟨hyz, hys⟩
      · exact .inl (eq_of_order hxy ▸ hyz)
      · exact .inr ⟨eq_of_order hxy ▸ hyz, orderEach_lt_trans hxs hys⟩
  | [], [], [], h, _ => nomatch h
  | [], _ :: _, [], _, h' => nomatch h'
  | _ :: _, [], _, h, _ => nomatch h
  | _ :: _, _ :: _, [], _, h' => nomatch h'

end

instance : Std.ReflOrd LeafKey where
  compare_self {k} := order_self k

instance : Std.LawfulEqOrd LeafKey where
  eq_of_compare h := eq_of_order h

instance : Std.TransOrd LeafKey where
  eq_swap {k l} := order_swap k l
  isLE_trans {k l m} h h' := by
    rw [Ordering.isLE_iff_eq_lt_or_eq_eq] at h h' ⊢
    rcases h with h | h
    · rcases h' with h' | h'
      · exact .inl (order_lt_trans h h')
      · exact .inl (eq_of_order h' ▸ h)
    · rw [eq_of_order h]
      exact h'

instance : DecidableEq LeafKey := fun k l =>
  decidable_of_iff (order k l = .eq) ⟨eq_of_order, fun h => h ▸ order_self k⟩

/-! ## Sets of keys -/

/-- **A key put among increasing ones**, unless it is there already. -/
def insertMember (k : LeafKey) : List LeafKey → List LeafKey
  | [] => [k]
  | m :: ms =>
    match compare k m with
    | .lt => k :: m :: ms
    | .eq => m :: ms
    | .gt => m :: insertMember k ms

/-- **The key of a set** with members of the given keys. -/
def setOf (members : List LeafKey) : LeafKey := set (members.foldr insertMember [])

theorem mem_insertMember {k l : LeafKey} {ms : List LeafKey} :
    l ∈ insertMember k ms ↔ l = k ∨ l ∈ ms := by
  induction ms with
  | nil => simp [insertMember]
  | cons m ms ih =>
    rw [insertMember]
    split
    · simp
    next h => rw [eq_of_order h]; simp
    · simp [ih, or_left_comm]

/-- The members of a set key are the given ones. -/
theorem mem_foldr_insertMember {l : LeafKey} {ms : List LeafKey} :
    l ∈ ms.foldr insertMember [] ↔ l ∈ ms := by
  induction ms with
  | nil => simp
  | cons m ms ih => simp [mem_insertMember, ih]

end LeafKey

/-! ## The key of a value -/

namespace Value

mutual

/-- **The key of a leaf value.** A value that may change, or that holds one,
has none: the failure names the type of the first such value. -/
def leafKey : Value → Except Failure LeafKey
  | null => .ok (.atom .null)
  | ellipsis => .ok (.atom .ellipsis)
  | bool b => .ok (.atom (.bool b))
  | int n => .ok (.atom (.int n))
  | word w => .ok (.atom (.word w.type w.value))
  | float x => .ok (.atom (.float x.canonical))
  | complex re im => .ok (.atom (.complex re.canonical im.canonical))
  | text s => .ok (.atom (.text s))
  | bytes data => .ok (.atom (.bytes data))
  | node head _ => .ok (.atom (.node head.ref head.text))
  | tuple items => do return .tuple (← leafKeys items)
  | frozenset members => do return .setOf (← leafKeys members)
  | list _ => .error (.unhashable "list")
  | set _ => .error (.unhashable "set")
  | dict _ => .error (.unhashable "dict")

/-- The keys of some leaf values. -/
def leafKeys : List Value → Except Failure (List LeafKey)
  | [] => .ok []
  | v :: rest => do return (← leafKey v) :: (← leafKeys rest)

end

end Value

end HashConsing
