import ArrayEngine.Proofs.Store.Kind
import ArrayEngine.Store.Length

/-!
# Sparse arrays

What a store is to its users: a length, a kind, and a finite partial map from the indices below
the length to values. Nothing is said of slots, fillers or dictionaries, and nothing of tuning.

The operations here are the meaning of those on stores. Each says which index it binds or unbinds
and what becomes of the length and the kind.

## Main definitions

* `SparseArray.put`, `SparseArray.remove`, `SparseArray.truncate`, …: single changes
* `SparseArray.replace`, `SparseArray.write`, `SparseArray.move`, `SparseArray.append`, …: blocks
* `SparseArray.MakesRoom`: what an algorithm has to leave for a window to be replaced

## Main results

* `SparseArray.ext_of_lt`: only the indices below the length count
* `SparseArray.put_move_eq_move_succ`, `SparseArray.put_move_succ_eq_move`: a block is moved
  element by element, from either end
* `SparseArray.MakesRoom.cut_write`, `SparseArray.write_splice_eq_replace`: two ways to replace
-/

namespace ArrayEngine

/-- A length, a kind, and values at some of the indices below the length. -/
@[ext] structure SparseArray where
  length : Nat
  kind : ElementKind
  /-- Value at an index, `none` where the index is not bound. -/
  get? : Nat → Option Value
  get?_eq_none : ∀ i, length ≤ i → get? i = none

namespace SparseArray

/-- `length` indices, none of them bound. -/
def holes (length : Nat) : SparseArray where
  length
  kind := .empty
  get? _ := none
  get?_eq_none _ _ := rfl

/-- The indices below `length` bound as `f` says. -/
def ofFn (length : Nat) (kind : ElementKind) (f : Nat → Option Value) : SparseArray where
  length
  kind
  get? i := if i < length then f i else none
  get?_eq_none i hi := if_neg (by omega)

/-! ### Observations -/

/-- Value at an index, or else the inherited one. -/
def visible (a : SparseArray) (host : Host) (i : Nat) : Option Value :=
  (a.get? i).or (host.inherited i)

/-- Whether every index below the length is bound. -/
def IsFull (a : SparseArray) : Prop := ∀ i < a.length, (a.get? i).isSome

/-- Whether every index below the length is bound, and nothing would be inherited there. -/
def Continuous (a : SparseArray) (host : Host) : Prop :=
  a.IsFull ∧ ∀ i < a.length, host.inherited i = none

/-- Whether the kind holds every value. -/
def Held (a : SparseArray) : Prop := ∀ i v, a.get? i = some v → a.kind.holds v

/-- Greatest bound index from `start` on that the host does not let go. -/
def lastPinned? (a : SparseArray) (start : Nat) (host : Host) : Option Nat :=
  ((List.range a.length).filter fun i =>
    start ≤ i && (a.get? i).isSome && !host.deletable i).getLast?

/-! ### Changes -/

/-- Binds index `i` to `v`, below a length that is great enough. -/
def put (a : SparseArray) (i : Nat) (v : Value) : SparseArray where
  length := max a.length (i + 1)
  kind := a.kind.join (.of v)
  get? j := if j = i then some v else a.get? j
  get?_eq_none j hj := by rw [if_neg (by omega), a.get?_eq_none j (by omega)]

/-- Unbinds index `i`. -/
def remove (a : SparseArray) (i : Nat) : SparseArray where
  length := a.length
  kind := a.kind
  get? j := if j = i then none else a.get? j
  get?_eq_none j hj := by rw [a.get?_eq_none j hj, ite_self]

/-- Makes `n` the length, and unbinds what is not below it. -/
def cut (a : SparseArray) (n : Nat) : SparseArray where
  length := n
  kind := a.kind
  get? j := if j < n then a.get? j else none
  get?_eq_none j hj := if_neg (by omega)

/-- Widens the kind. -/
def widenTo (a : SparseArray) (kind : ElementKind) : SparseArray where
  length := a.length
  kind := a.kind.join kind
  get? := a.get?
  get?_eq_none := a.get?_eq_none

/-- Unbinds all indices from `n` on and makes `n` the length; above an index that the host does
not let go, it stops. -/
def truncate (a : SparseArray) (n : Nat) (host : Host) : Option Truncation × SparseArray :=
  if a.length ≤ n then (none, a)
  else
    match a.lastPinned? n host with
    | some i => (some ⟨n, i + 1⟩, a.cut (i + 1))
    | none => (none, a.cut n)

/-- Makes `n` the length, as far as the host lets indices go. -/
def setLength (a : SparseArray) (n : Nat) (host : Host) : Option Truncation × SparseArray :=
  if a.length ≤ n then (none, a.cut n) else a.truncate n host

/-! ### Blocks -/

/-- `inserted` indices in place of the `count` indices from `start` on, bound as `f` says. -/
def splice (a : SparseArray) (start count inserted : Nat) (f : Nat → Option Value) : SparseArray :=
  ofFn (a.length - count + inserted) a.kind fun i =>
    if i < start then a.get? i
    else if i < start + inserted then f (i - start)
    else a.get? (i - inserted + count)

/-- `values` in place of the `count` indices from `start` on. -/
def replace (a : SparseArray) (start count : Nat) (values : List Value) : SparseArray :=
  (a.splice start count values.length fun i => values[i]?).widenTo (.ofAll values)

/-- `values` at the indices from `start` on, which may lead beyond the length. -/
def write (a : SparseArray) (start : Nat) (values : List Value) : SparseArray :=
  ofFn (max a.length (start + values.length)) (a.kind.joinAll values) fun i =>
    if start ≤ i ∧ i < start + values.length then values[i - start]? else a.get? i

/-- The `n` indices from `target` on bound as those from `source` on are. -/
def move (a : SparseArray) (source target n : Nat) : SparseArray :=
  ofFn (if n = 0 then a.length else max a.length (target + n)) a.kind fun i =>
    if target ≤ i ∧ i < target + n then a.get? (source + (i - target)) else a.get? i

/-- The `n` indices from `start` on unbound. -/
def clear (a : SparseArray) (start n : Nat) : SparseArray :=
  ofFn a.length a.kind fun i => if start ≤ i ∧ i < start + n then none else a.get? i

/-- The `count` indices from `start` on. -/
def window (a : SparseArray) (start count : Nat) : SparseArray :=
  ofFn count a.kind fun i => a.get? (start + i)

/-- The same indices in reverse order. -/
def reverse (a : SparseArray) : SparseArray :=
  ofFn a.length a.kind fun i => a.get? (a.length - 1 - i)

/-- The indices of both arrays, those of `b` behind those of `a`. -/
def append (a b : SparseArray) : SparseArray :=
  ofFn (a.length + b.length) (a.kind.join b.kind) fun i =>
    if i < a.length then a.get? i else b.get? (i - a.length)

/-! ### Reading after a change -/

variable {a : SparseArray}

@[simp] theorem length_ofFn (n : Nat) (kind : ElementKind) (f : Nat → Option Value) :
    (ofFn n kind f).length = n := rfl

@[simp] theorem kind_ofFn (n : Nat) (kind : ElementKind) (f : Nat → Option Value) :
    (ofFn n kind f).kind = kind := rfl

@[simp] theorem get?_ofFn (n : Nat) (kind : ElementKind) (f : Nat → Option Value) (i : Nat) :
    (ofFn n kind f).get? i = if i < n then f i else none := rfl

@[simp] theorem length_put (a : SparseArray) (i : Nat) (v : Value) :
    (a.put i v).length = max a.length (i + 1) := rfl

@[simp] theorem kind_put (a : SparseArray) (i : Nat) (v : Value) :
    (a.put i v).kind = a.kind.join (.of v) := rfl

@[simp] theorem get?_put (a : SparseArray) (i j : Nat) (v : Value) :
    (a.put i v).get? j = if j = i then some v else a.get? j := rfl

@[simp] theorem length_remove (a : SparseArray) (i : Nat) : (a.remove i).length = a.length := rfl

@[simp] theorem kind_remove (a : SparseArray) (i : Nat) : (a.remove i).kind = a.kind := rfl

@[simp] theorem get?_remove (a : SparseArray) (i j : Nat) :
    (a.remove i).get? j = if j = i then none else a.get? j := rfl

@[simp] theorem length_cut (a : SparseArray) (n : Nat) : (a.cut n).length = n := rfl

@[simp] theorem kind_cut (a : SparseArray) (n : Nat) : (a.cut n).kind = a.kind := rfl

@[simp] theorem get?_cut (a : SparseArray) (n j : Nat) :
    (a.cut n).get? j = if j < n then a.get? j else none := rfl

@[simp] theorem length_widenTo (a : SparseArray) (kind : ElementKind) :
    (a.widenTo kind).length = a.length := rfl

@[simp] theorem kind_widenTo (a : SparseArray) (kind : ElementKind) :
    (a.widenTo kind).kind = a.kind.join kind := rfl

@[simp] theorem get?_widenTo (a : SparseArray) (kind : ElementKind) :
    (a.widenTo kind).get? = a.get? := rfl

@[simp] theorem length_splice (a : SparseArray) (start count n : Nat) (f : Nat → Option Value) :
    (a.splice start count n f).length = a.length - count + n := rfl

@[simp] theorem kind_splice (a : SparseArray) (start count n : Nat) (f : Nat → Option Value) :
    (a.splice start count n f).kind = a.kind := rfl

theorem get?_splice {start count n i : Nat} (f : Nat → Option Value)
    (hi : i < a.length - count + n) :
    (a.splice start count n f).get? i =
      if i < start then a.get? i
      else if i < start + n then f (i - start) else a.get? (i - n + count) := if_pos hi

@[simp] theorem length_replace (a : SparseArray) (start count : Nat) (values : List Value) :
    (a.replace start count values).length = a.length - count + values.length := rfl

@[simp] theorem kind_replace (a : SparseArray) (start count : Nat) (values : List Value) :
    (a.replace start count values).kind = a.kind.join (.ofAll values) := rfl

theorem get?_replace {start count i : Nat} {values : List Value}
    (hi : i < a.length - count + values.length) :
    (a.replace start count values).get? i =
      if i < start then a.get? i
      else if i < start + values.length then values[i - start]?
      else a.get? (i - values.length + count) := if_pos hi

@[simp] theorem length_write (a : SparseArray) (start : Nat) (values : List Value) :
    (a.write start values).length = max a.length (start + values.length) := rfl

@[simp] theorem kind_write (a : SparseArray) (start : Nat) (values : List Value) :
    (a.write start values).kind = a.kind.joinAll values := rfl

theorem get?_write (a : SparseArray) (start i : Nat) (values : List Value) :
    (a.write start values).get? i =
      if start ≤ i ∧ i < start + values.length then values[i - start]? else a.get? i := by
  rw [write, get?_ofFn]
  split
  · rfl
  · rw [if_neg (by omega), a.get?_eq_none i (by omega)]

@[simp] theorem kind_move (a : SparseArray) (source target n : Nat) :
    (a.move source target n).kind = a.kind := rfl

theorem length_move_of_pos (a : SparseArray) (source target : Nat) {n : Nat} (hn : 0 < n) :
    (a.move source target n).length = max a.length (target + n) := if_neg (by omega)

theorem get?_move (a : SparseArray) (source target n i : Nat) :
    (a.move source target n).get? i =
      if target ≤ i ∧ i < target + n then a.get? (source + (i - target)) else a.get? i := by
  rw [move, get?_ofFn]
  by_cases hi : i < if n = 0 then a.length else max a.length (target + n)
  · rw [if_pos hi]
  · have hend : a.length ≤ i ∧ target + n ≤ max i target := by
      split at hi <;> omega
    rw [if_neg hi, if_neg (by omega), a.get?_eq_none i hend.1]

@[simp] theorem length_clear (a : SparseArray) (start n : Nat) :
    (a.clear start n).length = a.length := rfl

@[simp] theorem kind_clear (a : SparseArray) (start n : Nat) : (a.clear start n).kind = a.kind :=
  rfl

theorem get?_clear (a : SparseArray) (start n i : Nat) :
    (a.clear start n).get? i = if start ≤ i ∧ i < start + n then none else a.get? i := by
  rw [clear, get?_ofFn]
  split
  · rfl
  · rw [a.get?_eq_none i (by omega), ite_self]

theorem get?_window {start count i : Nat} (hi : i < count) :
    (a.window start count).get? i = a.get? (start + i) := if_pos hi

theorem get?_reverse {i : Nat} (hi : i < a.length) :
    a.reverse.get? i = a.get? (a.length - 1 - i) := if_pos hi

theorem get?_append (a b : SparseArray) {i : Nat} (hi : i < a.length + b.length) :
    (a.append b).get? i = if i < a.length then a.get? i else b.get? (i - a.length) := if_pos hi

theorem visible_of_get? {host : Host} {i : Nat} {v : Value} (h : a.get? i = some v) :
    a.visible host i = some v := by
  rw [visible, h, Option.some_or]

theorem visible_of_not_inherited {host : Host} {i : Nat} (h : host.inherited i = none) :
    a.visible host i = a.get? i := by
  rw [visible, h, Option.or_none]

theorem widenTo_empty (a : SparseArray) : a.widenTo .empty = a :=
  SparseArray.ext rfl (ElementKind.join_empty _) rfl

theorem widenTo_widenTo (a : SparseArray) (kind kind' : ElementKind) :
    (a.widenTo kind).widenTo kind' = a.widenTo (kind.join kind') :=
  SparseArray.ext rfl (ElementKind.join_assoc ..) rfl

/-- Only the indices below the length have to be compared. -/
theorem ext_of_lt {b : SparseArray} (hlength : a.length = b.length) (hkind : a.kind = b.kind)
    (hget : ∀ i < a.length, a.get? i = b.get? i) : a = b := by
  refine SparseArray.ext hlength hkind ?_
  funext i
  rcases Nat.lt_or_ge i a.length with hi | hi
  · exact hget i hi
  · rw [a.get?_eq_none i hi, b.get?_eq_none i (hlength ▸ hi)]

/-! ### Writing a list -/

theorem write_nil {start : Nat} (h : start ≤ a.length) : a.write start [] = a := by
  refine ext_of_lt (Nat.max_eq_left h) rfl ?_
  intro i _
  rw [get?_write, if_neg (by rw [List.length_nil]; omega)]

theorem write_cons {start : Nat} (h : start ≤ a.length) (v : Value) (values : List Value) :
    a.write start (v :: values) = (a.put start v).write (start + 1) values := by
  have hlength : (a.write start (v :: values)).length
      = ((a.put start v).write (start + 1) values).length := by
    simp only [length_write, length_put, List.length_cons]
    omega
  refine ext_of_lt hlength rfl ?_
  intro i _
  rw [get?_write, get?_write, get?_put, List.length_cons]
  rcases Nat.lt_trichotomy i start with hlt | rfl | hgt
  · rw [if_neg (by omega), if_neg (by omega), if_neg (by omega)]
  · rw [if_pos (by omega), if_neg (by omega), if_pos rfl, Nat.sub_self, List.getElem?_cons_zero]
  · rw [if_neg (show ¬i = start by omega)]
    by_cases hend : i < start + (values.length + 1)
    · rw [if_pos (by omega), if_pos (by omega), show i - start = i - (start + 1) + 1 by omega,
        List.getElem?_cons_succ]
    · rw [if_neg (by omega), if_neg (by omega)]

theorem write_concat (a : SparseArray) (start : Nat) (values : List Value) (v : Value) :
    (a.write start values).put (start + values.length) v = a.write start (values ++ [v]) := by
  refine SparseArray.ext ?_ ?_ ?_
  · simp only [length_put, length_write, List.length_append, List.length_singleton]
    omega
  · rw [kind_put, kind_write, kind_write, ElementKind.joinAll_append]
    rfl
  · funext i
    rw [get?_put, get?_write, get?_write, List.length_append, List.length_singleton]
    by_cases hlast : i = start + values.length
    · rw [if_pos hlast, if_pos (by omega), hlast, Nat.add_sub_cancel_left,
        List.getElem?_concat_length]
    · rw [if_neg hlast]
      by_cases hi : start ≤ i ∧ i < start + values.length
      · rw [if_pos hi, if_pos (by omega), List.getElem?_append_left (by omega)]
      · rw [if_neg hi, if_neg (by omega)]

/-- A window is replaced by opening a gap and writing into it. -/
theorem write_splice_eq_replace {start count : Nat} (values : List Value)
    (hstart : start ≤ a.length - count) :
    (a.splice start count values.length fun _ => none).write start values
      = a.replace start count values := by
  refine ext_of_lt ?_ ?_ ?_
  · rw [length_write, length_splice, length_replace]
    omega
  · rw [kind_write, kind_splice, kind_replace, ElementKind.joinAll_eq_join_ofAll]
  · intro i hi
    have hi : i < a.length - count + values.length := by
      rw [length_write, length_splice] at hi
      omega
    rw [get?_write, get?_replace hi, get?_splice _ hi]
    by_cases h₁ : i < start
    · rw [if_neg (by omega), if_pos h₁, if_pos h₁]
    · rw [if_neg h₁, if_neg h₁]
      by_cases h₂ : i < start + values.length
      · rw [if_pos (by omega), if_pos h₂]
      · rw [if_neg (by omega), if_neg h₂, if_neg h₂]

/-- Appending is widening and writing behind. -/
theorem write_widenTo_eq_append {b : SparseArray} (hb : b.Held) {values : List Value}
    (hlength : values.length = b.length) (hget : ∀ i < b.length, b.get? i = values[i]?) :
    (a.widenTo b.kind).write a.length values = a.append b := by
  have holds : ∀ v ∈ values, (a.kind.join b.kind).holds v := fun v hv => by
    obtain ⟨i, hi, rfl⟩ := List.getElem_of_mem hv
    refine ElementKind.holds_of_le ElementKind.le_join_right (hb i _ ?_)
    rw [hget i (hlength ▸ hi), List.getElem?_eq_getElem hi]
  refine ext_of_lt ?_ (ElementKind.joinAll_of_holds holds) ?_
  · rw [length_write, length_widenTo, hlength]
    exact Nat.max_eq_right (Nat.le_add_right ..)
  · intro i hi
    have hi : i < a.length + b.length := by
      rw [length_write, length_widenTo, hlength] at hi
      omega
    rw [get?_write, get?_widenTo, get?_append _ _ hi, hlength]
    by_cases hlt : i < a.length
    · rw [if_neg (by omega), if_pos hlt]
    · rw [if_pos (by omega), if_neg hlt, hget _ (by omega)]

theorem put_length_eq_append (v : Value) :
    a.put a.length v = a.append ((holes 0).put 0 v) := by
  refine ext_of_lt (Nat.max_eq_right (Nat.le_succ _)) ?_ ?_
  · exact congrArg a.kind.join (ElementKind.empty_join _).symm
  · intro i hi
    have hi : i < a.length + 1 := by
      rw [length_put] at hi
      omega
    rw [get?_put, get?_append a ((holes 0).put 0 v) hi, get?_put]
    by_cases hlast : i = a.length
    · rw [if_pos hlast, if_neg (by omega), if_pos (by omega)]
    · rw [if_neg hlast, if_pos (by omega)]

/-! ### Full arrays -/

theorem IsFull.replace (h : a.IsFull) {start count : Nat} {values : List Value}
    (hend : start + count ≤ a.length) : (a.replace start count values).IsFull := by
  intro i hi
  have hi' : i < a.length - count + values.length := hi
  rw [get?_replace hi]
  split
  · exact h i (by omega)
  · split
    · rw [isSome_getElem?]
      show i - start < values.length
      omega
    · exact h _ (by omega)

theorem IsFull.cut (h : a.IsFull) {n : Nat} (hn : n ≤ a.length) : (a.cut n).IsFull := by
  intro i hi
  have hi : i < n := hi
  rw [get?_cut, if_pos hi]
  exact h i (by omega)

theorem IsFull.reverse (h : a.IsFull) : a.reverse.IsFull := by
  intro i hi
  have hi : i < a.length := hi
  rw [get?_reverse hi]
  exact h _ (by omega)

/-! ### Moving and removing one element after another -/

@[simp] theorem move_zero (a : SparseArray) (source target : Nat) : a.move source target 0 = a := by
  refine SparseArray.ext ?_ rfl ?_
  · rw [move, length_ofFn, if_pos rfl]
  · funext i
    rw [get?_move, if_neg (by omega)]

/-- One more element is moved behind those that have been. -/
theorem put_move_eq_move_succ (ha : a.Held) {source target n : Nat} {v : Value}
    (hv : a.get? (source + n) = some v) :
    (a.move source target n).put (target + n) v = a.move source target (n + 1) := by
  refine SparseArray.ext ?_ ?_ ?_
  · rw [length_put, length_move_of_pos a source target (Nat.succ_pos n), move, length_ofFn]
    split <;> omega
  · exact ElementKind.join_of_holds (ha _ _ hv)
  · funext i
    rw [get?_put, get?_move, get?_move]
    by_cases hlast : i = target + n
    · rw [if_pos hlast, if_pos (by omega), hlast, Nat.add_sub_cancel_left, hv]
    · rw [if_neg hlast]
      exact if_congr (by omega) rfl rfl

/-- One more element is moved in front of those that have been. -/
theorem put_move_succ_eq_move (ha : a.Held) {source target n : Nat} {v : Value}
    (hv : a.get? source = some v) :
    (a.move (source + 1) (target + 1) n).put target v = a.move source target (n + 1) := by
  refine SparseArray.ext ?_ ?_ ?_
  · rw [length_put, length_move_of_pos a source target (Nat.succ_pos n), move, length_ofFn]
    split <;> omega
  · exact ElementKind.join_of_holds (ha _ _ hv)
  · funext i
    rw [get?_put, get?_move, get?_move]
    by_cases hfirst : i = target
    · rw [if_pos hfirst, if_pos (by omega), hfirst, Nat.sub_self, Nat.add_zero, hv]
    · rw [if_neg hfirst]
      by_cases hi : target + 1 ≤ i ∧ i < target + 1 + n
      · rw [if_pos hi, if_pos (by omega)]
        exact congrArg a.get? (by omega)
      · rw [if_neg hi, if_neg (by omega)]

@[simp] theorem clear_zero (a : SparseArray) (start : Nat) : a.clear start 0 = a := by
  refine SparseArray.ext rfl rfl ?_
  funext i
  rw [get?_clear, if_neg (by omega)]

theorem remove_clear_succ (a : SparseArray) (start n : Nat) :
    (a.clear (start + 1) n).remove start = a.clear start (n + 1) := by
  refine SparseArray.ext rfl rfl ?_
  funext i
  rw [get?_remove, get?_clear, get?_clear]
  by_cases hfirst : i = start
  · rw [if_pos hfirst, if_pos (by omega)]
  · rw [if_neg hfirst]
    exact if_congr (by omega) rfl rfl

/-! ### Making room -/

/-- `b` is `a` with room for `inserted` indices in place of the `count` indices from `start` on.
What followed them is where it belongs; nothing is said of the room, and of what lies behind it
all. -/
structure MakesRoom (a b : SparseArray) (start count inserted : Nat) : Prop where
  kind_eq : b.kind = a.kind
  start_le : start ≤ b.length
  length_le : b.length ≤ max a.length (a.length - count + inserted)
  before : ∀ i < start, b.get? i = a.get? i
  behind : ∀ i < a.length - count + inserted, start + inserted ≤ i →
    b.get? i = a.get? (i - inserted + count)

theorem makesRoom_move {start count : Nat} (inserted : Nat) (hend : start + count ≤ a.length) :
    a.MakesRoom (a.move (start + count) (start + inserted) (a.length - count - start))
      start count inserted where
  kind_eq := rfl
  start_le := by
    rw [move, length_ofFn]
    split <;> omega
  length_le := by
    rw [move, length_ofFn]
    split <;> omega
  before i hi := by
    rw [get?_move, if_neg (by omega)]
  behind i hi h := by
    rw [get?_move, if_pos (by omega)]
    exact congrArg a.get? (by omega)

/-- Room that is as large as what was there is there already. -/
theorem makesRoom_self {start n : Nat} (hend : start + n ≤ a.length) :
    a.MakesRoom a start n n where
  kind_eq := rfl
  start_le := by omega
  length_le := Nat.le_max_left ..
  before _ _ := rfl
  behind i _ h := by rw [Nat.sub_add_cancel (by omega)]

/-- Behind the length there is room for anything. -/
theorem makesRoom_behind (a : SparseArray) (n : Nat) : a.MakesRoom a a.length 0 n where
  kind_eq := rfl
  start_le := Nat.le_refl _
  length_le := Nat.le_max_left ..
  before _ _ := rfl
  behind _ hi h := absurd hi (Nat.not_lt.mpr h)

namespace MakesRoom

variable {b : SparseArray} {start count inserted : Nat}

/-- What is left over may be removed. -/
theorem clear (h : a.MakesRoom b start count inserted) (hend : start + count ≤ a.length) (n : Nat) :
    a.MakesRoom (b.clear (a.length - count + inserted) n) start count inserted where
  kind_eq := h.kind_eq
  start_le := h.start_le
  length_le := h.length_le
  before i hi := by
    rw [get?_clear, if_neg (by omega), h.before i hi]
  behind i hi hroom := by
    rw [get?_clear, if_neg (by omega), h.behind i hi hroom]

/-- Values that are written into the room are all that is missing. -/
theorem cut_write {values : List Value} (h : a.MakesRoom b start count values.length) :
    (b.write start values).cut (a.length - count + values.length)
      = a.replace start count values := by
  refine ext_of_lt rfl ?_ ?_
  · rw [kind_cut, kind_write, kind_replace, h.kind_eq, ElementKind.joinAll_eq_join_ofAll]
  · intro i hi
    have hi : i < a.length - count + values.length := hi
    rw [get?_cut, if_pos hi, get?_write, get?_replace hi]
    by_cases h₁ : i < start
    · rw [if_neg (by omega), if_pos h₁, h.before i h₁]
    · rw [if_neg h₁]
      by_cases h₂ : i < start + values.length
      · rw [if_pos (by omega), if_pos h₂]
      · rw [if_neg (by omega), if_neg h₂, h.behind i hi (by omega)]

theorem cut_eq_replace_nil (h : a.MakesRoom b start count 0) :
    b.cut (a.length - count) = a.replace start count [] := by
  have hwrite : (b.write start []).cut (a.length - count) = a.replace start count [] := cut_write h
  rwa [write_nil h.start_le] at hwrite

end MakesRoom

/-! ### Truncation -/

theorem cut_of_le {n : Nat} (h : a.length ≤ n) (j : Nat) : (a.cut n).get? j = a.get? j := by
  rw [get?_cut]
  split
  · rfl
  · rw [a.get?_eq_none j (by omega)]

/-- What is cut off may as well have been removed. -/
theorem cut_remove {n i : Nat} (h : n ≤ i) : (a.remove i).cut n = a.cut n := by
  refine ext_of_lt rfl rfl ?_
  intro j hj
  have hj : j < n := hj
  rw [get?_cut, get?_cut, get?_remove, if_neg (show ¬j = i by omega)]

@[simp] theorem cut_length (a : SparseArray) : a.cut a.length = a :=
  SparseArray.ext rfl rfl (funext (cut_of_le (Nat.le_refl _)))

/-- Nothing in place of nothing changes nothing. -/
theorem replace_nil {start : Nat} (h : start ≤ a.length) : a.replace start 0 [] = a := by
  have hroom : a.MakesRoom a start 0 0 := makesRoom_self h
  rw [← hroom.cut_eq_replace_nil, Nat.sub_zero, cut_length]

theorem lt_length {i : Nat} {v : Value} (h : a.get? i = some v) : i < a.length := by
  refine Nat.lt_of_not_le ?_
  intro hle
  rw [a.get?_eq_none i hle] at h
  cases h

theorem mem_pinned {start i : Nat} {host : Host} :
    i ∈ (List.range a.length).filter
        (fun i => start ≤ i && (a.get? i).isSome && !host.deletable i) ↔
      start ≤ i ∧ (a.get? i).isSome ∧ host.deletable i = false := by
  simp only [List.mem_filter, List.mem_range, Bool.and_eq_true, decide_eq_true_eq,
    Bool.not_eq_true', and_assoc, and_iff_right_iff_imp]
  rintro ⟨_, hi, _⟩
  obtain ⟨v, hv⟩ := Option.isSome_iff_exists.mp hi
  exact lt_length hv

/-- Nothing is pinned where the host lets everything go that is bound. -/
theorem lastPinned?_eq_none {start : Nat} {host : Host}
    (h : ∀ i, start ≤ i → (a.get? i).isSome → host.deletable i) :
    a.lastPinned? start host = none := by
  rw [lastPinned?, List.getLast?_eq_none_iff, List.eq_nil_iff_forall_not_mem]
  intro i hi
  obtain ⟨h₁, h₂, h₃⟩ := mem_pinned.mp hi
  rw [h i h₁ h₂] at h₃
  cases h₃

/-- Nothing is pinned above the greatest index that is. -/
theorem le_of_lastPinned? {start last i : Nat} {host : Host}
    (hlast : a.lastPinned? start host = some last) (hstart : start ≤ i) (hi : (a.get? i).isSome)
    (hpinned : host.deletable i = false) : i ≤ last := by
  obtain ⟨indices, hindices⟩ := List.getLast?_eq_some_iff.mp hlast
  have hmem := mem_pinned.mpr ⟨hstart, hi, hpinned⟩
  have hsorted : (indices ++ [last]).Pairwise (· < ·) := by
    rw [← hindices]
    exact List.pairwise_lt_range.filter _
  rw [hindices, List.mem_append, List.mem_singleton] at hmem
  rcases hmem with hmem | rfl
  · exact ((List.pairwise_append.mp hsorted).2.2 i hmem last List.mem_cons_self).le
  · exact Nat.le_refl _

/-- Whatever the length is to be, it stays above what is pinned. -/
theorem isSome_get?_setLength {n i : Nat} {host : Host} (hi : (a.get? i).isSome)
    (hpinned : host.deletable i = false) : ((a.setLength n host).2.get? i).isSome := by
  have hlt : i < a.length := by
    obtain ⟨v, hv⟩ := Option.isSome_iff_exists.mp hi
    exact lt_length hv
  rw [setLength, truncate]
  split
  · rw [get?_cut, if_pos (by omega)]
    exact hi
  · rcases Nat.lt_or_ge i n with hn | hn
    · split
      · rename_i last hlast
        have hle : n ≤ last := (mem_pinned.mp (List.mem_of_getLast? hlast)).1
        rw [get?_cut, if_pos (by omega)]
        exact hi
      · rw [get?_cut, if_pos hn]
        exact hi
    · split
      · rename_i last hlast
        have hle := le_of_lastPinned? hlast hn hi hpinned
        rw [get?_cut, if_pos (by omega)]
        exact hi
      · rename_i hnone
        have hmem := mem_pinned.mpr ⟨hn, hi, hpinned⟩
        rw [lastPinned?, List.getLast?_eq_none_iff] at hnone
        rw [hnone] at hmem
        cases hmem

/-- A length is assigned where the host lets everything go above it. -/
theorem setLength_eq_cut {n : Nat} {host : Host}
    (h : ∀ i, n ≤ i → (a.get? i).isSome → host.deletable i) :
    a.setLength n host = (none, a.cut n) := by
  rw [setLength, truncate]
  split
  · rfl
  · rw [lastPinned?_eq_none h]

theorem kind_truncate (a : SparseArray) (n : Nat) (host : Host) :
    (a.truncate n host).2.kind = a.kind := by
  rw [truncate]
  split
  · rfl
  · cases a.lastPinned? n host <;> rfl

theorem kind_setLength (a : SparseArray) (n : Nat) (host : Host) :
    (a.setLength n host).2.kind = a.kind := by
  rw [setLength]
  split
  · rfl
  · exact kind_truncate a n host

end SparseArray

end ArrayEngine
