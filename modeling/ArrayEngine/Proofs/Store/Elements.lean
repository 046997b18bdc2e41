import ArrayEngine.Store.Elements
import ArrayEngine.Proofs.Store.Kind

/-!
# Packed elements by their values

Everything that is done to packed elements is described by what it does to their `values`. The
three forms of slots appear in this file only: a value that the kind holds goes into a slot and
comes back unchanged, a slot copied into a wider one keeps its value, and an operation that moves
slots without reading them moves the values alike.

## Main results

* `Elements.holds_of_mem`: the kind of packed elements holds each of them
* `Elements.exists_put?`, `Elements.exists_ofValues?`: values that the kind holds can be written
* `Elements.values_widenTo`, `Elements.values_append`
* `Elements.values_rearrange`: slots that are moved unread
* `Elements.ext_values`: the kind and the values are all there is to slots
-/

namespace ArrayEngine

open Binary (Double)

theorem map_writeSlot {α β : Type} (g : α → β) (slots : Array α) (index : Nat) (slot : α) :
    (writeSlot slots index slot).map g = writeSlot (slots.map g) index (g slot) := by
  by_cases h : index < slots.size <;> simp [writeSlot, h]

theorem writeSlot_of_eq_size {α : Type} {slots : Array α} {index : Nat} (h : index = slots.size)
    (slot : α) : writeSlot slots index slot = slots.push slot := by
  simp [writeSlot, h]

theorem size_writeSlot {α : Type} {slots : Array α} {index : Nat} (h : index ≤ slots.size)
    (slot : α) : (writeSlot slots index slot).size = max slots.size (index + 1) := by
  rw [writeSlot]
  split <;> simp <;> omega

theorem getElem?_writeSlot {α : Type} {slots : Array α} {index : Nat} (h : index ≤ slots.size)
    (slot : α) (j : Nat) :
    (writeSlot slots index slot)[j]? = if j = index then some slot else slots[j]? := by
  rw [writeSlot]
  split <;> rename_i hlt
  · rw [Array.getElem?_setIfInBounds]
    by_cases hj : index = j
    · simp [← hj, hlt]
    · simp [hj, Ne.symm hj]
  · have : index = slots.size := by omega
    rw [Array.getElem?_push, this]

theorem getElem?_take {α : Type} (slots : Array α) (n i : Nat) :
    (slots.take n)[i]? = if i < n then slots[i]? else none := by
  rw [Array.take_eq_extract, Array.getElem?_extract, Nat.zero_add]
  by_cases hi : i < n
  · by_cases hsize : i < slots.size
    · rw [if_pos (by omega), if_pos hi]
    · rw [if_neg (by omega), if_pos hi, Array.getElem?_eq_none (by omega)]
  · rw [if_neg (by omega), if_neg hi]

theorem getElem?_drop {α : Type} (slots : Array α) (n i : Nat) :
    (slots.drop n)[i]? = slots[n + i]? := by
  rw [Array.drop_eq_extract, Array.getElem?_extract]
  by_cases hi : n + i < slots.size
  · rw [if_pos (by omega)]
  · rw [if_neg (by omega), Array.getElem?_eq_none (by omega)]

namespace Elements

variable {elements : Elements}

/-! ### Slots as values -/

/-- An integer slot keeps every value that its kind holds. -/
theorem valueOfInt32_int32OfValue {v : Value} (h : ElementKind.int32.holds v) :
    valueOfInt32 (int32OfValue v) = v := by
  cases v with
  | number x =>
    cases hx : x.exactInt32? with
    | none => simp [ElementKind.holds_iff, ElementKind.of, hx, ElementKind.le_iff_rank,
        ElementKind.rank] at h
    | some n =>
      obtain ⟨htoInt, hofInt, h₁, h₂⟩ := Double.exactInt32?_eq_some hx
      have hmin : Int32.minValue.toInt = -0x80000000 := rfl
      have hmax : Int32.maxValue.toInt = 0x7fffffff := rfl
      have hslot : (Int32.ofIntClamp x.toInt).toInt = n := by
        rw [htoInt]
        exact Int32.toInt_ofIntClamp (by omega) (by omega)
      simp [valueOfInt32, numberOfInt32, int32OfValue, hslot, hofInt]
  | _ => simp [ElementKind.holds_iff, ElementKind.of, ElementKind.le_iff_rank,
      ElementKind.rank] at h

/-- A number slot keeps every value that its kind holds. -/
theorem number_float64OfValue {v : Value} (h : ElementKind.float64.holds v) :
    .number (float64OfValue v) = v := by
  cases v with
  | number x => rfl
  | _ => simp [ElementKind.holds_iff, ElementKind.of, ElementKind.le_iff_rank,
      ElementKind.rank] at h

theorem int32_holds_valueOfInt32 (n : Int32) : ElementKind.int32.holds (valueOfInt32 n) := by
  have h₁ := n.le_toInt
  have h₂ := n.toInt_lt
  have h := Double.exactInt32?_ofInt (n := n.toInt) (by omega) (by omega)
  simp [ElementKind.holds_iff, ElementKind.of, valueOfInt32, numberOfInt32, h, ElementKind.le_rfl]

theorem float64_holds_number (x : Double) : ElementKind.float64.holds (.number x) := by
  simp only [ElementKind.holds_iff, ElementKind.of, ElementKind.le_iff_rank]
  split <;> decide

/-- An integer slot copied into a number slot keeps its value. -/
theorem map_numberOfInt32 (slots : Array Int32) :
    (slots.map numberOfInt32).map .number = slots.map valueOfInt32 := by
  simp [valueOfInt32, Function.comp_def]

@[simp] theorem size_values : elements.values.size = elements.size := by
  cases elements <;> simp [values, size]

theorem get?_eq (i : Nat) : elements.get? i = elements.values[i]? := by
  cases elements <;> simp [values, get?]

theorem get?_isSome {i : Nat} : (elements.get? i).isSome ↔ i < elements.size := by
  rw [get?_eq]
  simp

/-- The kind holds every element. -/
theorem holds_of_mem {v : Value} (h : v ∈ elements.values) : elements.kind.holds v := by
  cases elements with
  | empty => simp [values] at h
  | int32 slots =>
    obtain ⟨n, _, rfl⟩ := Array.mem_map.mp h
    exact int32_holds_valueOfInt32 n
  | float64 slots =>
    obtain ⟨x, _, rfl⟩ := Array.mem_map.mp h
    exact float64_holds_number x
  | object slots => exact ElementKind.object_holds v

theorem eq_empty_of_kind (h : elements.kind = .empty) : elements = empty := by
  cases elements with
  | empty => rfl
  | _ => cases h

theorem valueOfInt32_injective {m n : Int32} (h : valueOfInt32 m = valueOfInt32 n) : m = n := by
  have hm := m.le_toInt
  have hm' := m.toInt_lt
  have hn := n.le_toInt
  have hn' := n.toInt_lt
  have hnumber : Double.ofInt m.toInt = Double.ofInt n.toInt := Value.number.inj h
  refine Int32.toInt_inj.mp ?_
  rw [← Double.toInt_ofInt (n := m.toInt) (by omega), hnumber, Double.toInt_ofInt (by omega)]

/-- Slots are determined by their kind and their values. -/
theorem ext_values {elements' : Elements} (hkind : elements.kind = elements'.kind)
    (hvalues : elements.values = elements'.values) : elements = elements' := by
  cases elements <;> cases elements' <;> cases hkind
  · rfl
  · exact congrArg int32 ((Array.map_inj_right fun _ _ => valueOfInt32_injective).mp hvalues)
  · exact congrArg float64 ((Array.map_inj_right fun _ _ => Value.number.inj).mp hvalues)
  · exact congrArg object hvalues

theorem kind_ne_empty_of_lt {i : Nat} (h : i < elements.size) : elements.kind ≠ .empty := by
  intro hkind
  rw [eq_empty_of_kind hkind] at h
  exact absurd h (Nat.not_lt_zero i)

@[simp] theorem kind_ofKind (kind : ElementKind) : (ofKind kind).kind = kind := by
  cases kind <;> rfl

@[simp] theorem values_ofKind (kind : ElementKind) : (ofKind kind).values = #[] := by
  cases kind <;> simp [ofKind, values]

/-! ### Wider slots -/

theorem kind_widenTo (elements : Elements) (kind : ElementKind) :
    (elements.widenTo kind).kind = elements.kind.join kind := by
  cases elements <;> cases kind <;> rfl

/-- Slots copied into wider ones keep their values. -/
@[simp] theorem values_widenTo (elements : Elements) (kind : ElementKind) :
    (elements.widenTo kind).values = elements.values := by
  simp only [widenTo]
  split
  · rfl
  · rename_i hwider
    cases elements with
    | empty => exact values_ofKind kind
    | int32 slots =>
      cases kind with
      | float64 => exact map_numberOfInt32 slots
      | _ => rfl
    | float64 slots => rfl
    | object slots => rfl

@[simp] theorem size_widenTo (elements : Elements) (kind : ElementKind) :
    (elements.widenTo kind).size = elements.size := by
  rw [← size_values, values_widenTo, size_values]

theorem kind_fit (elements : Elements) (v : Value) :
    (elements.fit v).kind = elements.kind.join (.of v) := kind_widenTo _ _

theorem holds_kind_fit (elements : Elements) (v : Value) : (elements.fit v).kind.holds v := by
  rw [kind_fit]
  exact ElementKind.holds_join_of v

@[simp] theorem values_fit (elements : Elements) (v : Value) :
    (elements.fit v).values = elements.values := values_widenTo _ _

@[simp] theorem size_fit (elements : Elements) (v : Value) :
    (elements.fit v).size = elements.size := size_widenTo _ _

/-- Slots fitted to a value are not of the kind that cannot be written to. -/
theorem kind_fit_ne_empty (elements : Elements) (v : Value) : (elements.fit v).kind ≠ .empty :=
  ElementKind.ne_empty_of_holds (holds_kind_fit elements v)

/-! ### Writing -/

/-- A value that the kind holds can be written, and becomes the value of its slot. -/
theorem exists_put? {v : Value} (h : elements.kind.holds v) (i : Nat) :
    ∃ slots, elements.put? i v = some slots ∧ slots.kind = elements.kind ∧
      slots.values = writeSlot elements.values i v := by
  cases elements with
  | empty => exact absurd rfl (ElementKind.ne_empty_of_holds h)
  | int32 slots =>
    refine ⟨_, rfl, rfl, ?_⟩
    rw [values, map_writeSlot, valueOfInt32_int32OfValue h]
    rfl
  | float64 slots =>
    refine ⟨_, rfl, rfl, ?_⟩
    rw [values, map_writeSlot, number_float64OfValue h]
    rfl
  | object slots => exact ⟨_, rfl, rfl, rfl⟩

theorem exists_push? {v : Value} (h : elements.kind.holds v) :
    ∃ slots, elements.push? v = some slots ∧ slots.kind = elements.kind ∧
      slots.values = elements.values.push v := by
  obtain ⟨slots, hput, hkind, hvalues⟩ := exists_put? h elements.size
  exact ⟨slots, hput, hkind, hvalues.trans (writeSlot_of_eq_size size_values.symm v)⟩

theorem exists_foldlM_push? {vs : List Value} (h : ∀ v ∈ vs, elements.kind.holds v) :
    ∃ slots, vs.foldlM push? elements = some slots ∧ slots.kind = elements.kind ∧
      slots.values = elements.values ++ vs.toArray := by
  induction vs generalizing elements with
  | nil => exact ⟨elements, rfl, rfl, by simp⟩
  | cons v vs ih =>
    obtain ⟨pushed, hpush, hkind, hvalues⟩ := exists_push? (h v List.mem_cons_self)
    have hvs : ∀ w ∈ vs, pushed.kind.holds w := fun w hw => by
      rw [hkind]
      exact h w (List.mem_cons_of_mem _ hw)
    obtain ⟨slots, hfold, hkind', hvalues'⟩ := ih hvs
    refine ⟨slots, ?_, hkind'.trans hkind, ?_⟩
    · rw [List.foldlM_cons, hpush]
      exact hfold
    · rw [hvalues', hvalues]
      simp

theorem exists_ofValues? {kind : ElementKind} {vs : List Value} (h : ∀ v ∈ vs, kind.holds v) :
    ∃ slots, ofValues? kind vs = some slots ∧ slots.kind = kind ∧ slots.values = vs.toArray := by
  have holds : ∀ v ∈ vs, (ofKind kind).kind.holds v := by rwa [kind_ofKind]
  obtain ⟨slots, hfold, hkind, hvalues⟩ := exists_foldlM_push? holds
  refine ⟨slots, hfold, hkind.trans (kind_ofKind kind), ?_⟩
  rw [hvalues, values_ofKind]
  simp

/-- A value can be written to slots that were fitted to it. -/
theorem exists_put?_fit (elements : Elements) (i : Nat) (v : Value) :
    ∃ slots, (elements.fit v).put? i v = some slots ∧ slots.kind = elements.kind.join (.of v) ∧
      slots.values = writeSlot elements.values i v := by
  have h := exists_put? (holds_kind_fit elements v) i
  rwa [kind_fit, values_fit] at h

/-- Appending values one by one, with wider slots where a value needs them. -/
theorem exists_foldlM_fit_push? (elements : Elements) (vs : List Value) :
    ∃ slots, vs.foldlM (fun elements v => (elements.fit v).push? v) elements = some slots ∧
      slots.kind = elements.kind.joinAll vs ∧ slots.values = elements.values ++ vs.toArray := by
  induction vs generalizing elements with
  | nil => exact ⟨elements, rfl, rfl, by simp⟩
  | cons v vs ih =>
    obtain ⟨pushed, hpush, hkind, hvalues⟩ := exists_push? (holds_kind_fit elements v)
    obtain ⟨slots, hfold, hkind', hvalues'⟩ := ih pushed
    refine ⟨slots, ?_, ?_, ?_⟩
    · rw [List.foldlM_cons, hpush]
      exact hfold
    · rw [hkind', hkind, kind_fit, ElementKind.joinAll_cons]
    · rw [hvalues', hvalues, values_fit]
      simp

@[simp] theorem kind_append (elements other : Elements) :
    (elements.append other).kind = elements.kind := by
  cases elements <;> cases other <;> rfl

theorem values_append {other : Elements} (h : other.kind ≤ elements.kind ∨ other.size = 0) :
    (elements.append other).values = elements.values ++ other.values := by
  cases elements <;> cases other <;>
    simp_all [append, values, kind, size, ElementKind.le_iff_rank, ElementKind.rank,
      ← map_numberOfInt32]

/-! ### Slots moved unread -/

/-- Value of the filler of opened slots. -/
def filler : Elements → Value
  | empty => .undefined
  | int32 _ => valueOfInt32 0
  | float64 _ => .number Double.nan
  | object _ => .undefined

@[simp] theorem kind_rearrange (f : {α : Type} → α → Array α → Array α) (elements : Elements) :
    (elements.rearrange f).kind = elements.kind := by
  cases elements <;> rfl

/-- An operation that moves slots unread, and so commutes with any reading of them, moves the
values. Elements of kind `empty` have nothing to move, and do not take fillers either. -/
theorem values_rearrange {f : {α : Type} → α → Array α → Array α}
    (hf : ∀ {α β : Type} (g : α → β) (x : α) (slots : Array α),
      (f x slots).map g = f (g x) (slots.map g))
    (h : elements.kind = .empty → f elements.filler #[] = #[]) :
    (elements.rearrange f).values = f elements.filler elements.values := by
  cases elements with
  | empty => exact (h rfl).symm
  | int32 slots => exact hf ..
  | float64 slots => exact hf ..
  | object slots => rfl

theorem values_padTo {length : Nat} (h : elements.kind ≠ .empty) :
    (elements.padTo length).values
      = elements.values ++ Array.replicate (length - elements.size) elements.filler := by
  rw [padTo, values_rearrange (by simp) (absurd · h), size_values]

@[simp] theorem kind_padTo (elements : Elements) (length : Nat) :
    (elements.padTo length).kind = elements.kind := kind_rearrange _ _

@[simp] theorem values_truncate (elements : Elements) (length : Nat) :
    (elements.truncate length).values = elements.values.take length := by
  rw [truncate, values_rearrange (by simp) (by simp)]
  simp

@[simp] theorem kind_truncate (elements : Elements) (length : Nat) :
    (elements.truncate length).kind = elements.kind := kind_rearrange _ _

@[simp] theorem values_pop (elements : Elements) : elements.pop.values = elements.values.pop := by
  rw [pop, values_rearrange (by simp) (by simp)]

@[simp] theorem kind_pop (elements : Elements) : elements.pop.kind = elements.kind :=
  kind_rearrange _ _

@[simp] theorem values_extract (elements : Elements) (start stop : Nat) :
    (elements.extract start stop).values = elements.values.extract start stop := by
  rw [extract, values_rearrange (by simp) (by simp)]

@[simp] theorem kind_extract (elements : Elements) (start stop : Nat) :
    (elements.extract start stop).kind = elements.kind := kind_rearrange _ _

@[simp] theorem values_drain (elements : Elements) (start stop : Nat) :
    (elements.drain start stop).values
      = elements.values.take start ++ elements.values.drop stop := by
  rw [drain, values_rearrange (by simp) (by simp)]

theorem size_drain {start stop : Nat} (h : start ≤ stop) (hstop : stop ≤ elements.size) :
    (elements.drain start stop).size = elements.size - (stop - start) := by
  rw [← size_values, values_drain]
  simp
  omega

theorem getElem?_values_drain {start stop : Nat} (h : start ≤ elements.size) (i : Nat) :
    (elements.drain start stop).values[i]?
      = if i < start then elements.values[i]? else elements.values[i - start + stop]? := by
  have hsize : (elements.values.take start).size = start := by simpa using h
  rw [values_drain, Array.getElem?_append, hsize, getElem?_take, getElem?_drop, Nat.add_comm stop]
  split_ifs <;> rfl

@[simp] theorem kind_drain (elements : Elements) (start stop : Nat) :
    (elements.drain start stop).kind = elements.kind := kind_rearrange _ _

theorem values_insertGap {index count : Nat} (h : elements.kind ≠ .empty) :
    (elements.insertGap index count).values
      = elements.values.take index ++ Array.replicate count elements.filler
        ++ elements.values.drop index := by
  rw [insertGap, values_rearrange (by simp) (absurd · h)]

theorem size_insertGap {index count : Nat} (h : elements.kind ≠ .empty)
    (hindex : index ≤ elements.size) :
    (elements.insertGap index count).size = elements.size + count := by
  rw [← size_values, values_insertGap h]
  simp
  omega

theorem getElem?_values_insertGap {index count : Nat} (h : elements.kind ≠ .empty)
    (hindex : index ≤ elements.size) (i : Nat) :
    (elements.insertGap index count).values[i]?
      = if i < index then elements.values[i]?
        else if i < index + count then some elements.filler else elements.values[i - count]? := by
  have hsize : (elements.values.take index).size = index := by simpa using hindex
  rw [values_insertGap h, Array.getElem?_append, Array.getElem?_append, Array.size_append, hsize,
    Array.size_replicate, getElem?_take, getElem?_drop, Array.getElem?_replicate]
  rcases Nat.lt_or_ge i index with hi | hi
  · rw [if_pos (by omega), if_pos hi, if_pos hi, if_pos hi]
  · rw [if_neg (Nat.not_lt.mpr hi), if_neg (Nat.not_lt.mpr hi)]
    split
    · rw [if_pos (by omega)]
    · rw [show index + (i - (index + count)) = i - count by omega]

@[simp] theorem kind_insertGap (elements : Elements) (index count : Nat) :
    (elements.insertGap index count).kind = elements.kind := kind_rearrange _ _

@[simp] theorem values_reverse (elements : Elements) :
    elements.reverse.values = elements.values.reverse := by
  rw [reverse, values_rearrange (by simp) (by simp)]

@[simp] theorem kind_reverse (elements : Elements) : elements.reverse.kind = elements.kind :=
  kind_rearrange _ _

end Elements

end ArrayEngine
