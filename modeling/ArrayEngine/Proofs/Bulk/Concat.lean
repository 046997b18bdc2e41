import ArrayEngine.Proofs.Bulk.Window

/-!
# Concatenation by sparse arrays

An operand contributes a sparse array, and a concatenation appends them one after another. Both
ways to concatenate do this where all operands are continuous: as one block, into slots that were
made of the right kind beforehand, and index by index, where the kind grows with each operand.

## Main definitions

* `Operand.toSparse`: what an operand contributes
* `Operand.appendAll`, `Operand.concatAll`: the contributions of all operands

## Main results

* `Store.takes_appendOperand`, `Store.takes_appendAll`: index by index
* `Store.fastConcat_spec`: as one block
* `Store.exists_genericConcat`: both build the same array
-/

namespace ArrayEngine

/-- Slots that have the elements of a sparse array. -/
def Elements.Matches (elements : Elements) (a : SparseArray) : Prop :=
  elements.size = a.length ∧ ∀ i, elements.values[i]? = a.get? i

theorem Elements.Matches.append {elements other slots : Elements} {a b : SparseArray}
    (h : elements.Matches a) (hother : other.Matches b)
    (hvalues : slots.values = elements.values ++ other.values) : slots.Matches (a.append b) := by
  have hsize : slots.size = a.length + b.length := by
    rw [← size_values, hvalues, Array.size_append, size_values, size_values, h.1, hother.1]
  refine ⟨hsize, ?_⟩
  intro i
  rcases Nat.lt_or_ge i (a.length + b.length) with hi | hi
  · rw [SparseArray.get?_append _ _ hi, hvalues, Array.getElem?_append,
      size_values, h.1, h.2, hother.2]
  · rw [(a.append b).get?_eq_none i hi, Array.getElem?_eq_none (by simpa [hsize] using hi)]

theorem Elements.matches_ofKind (kind : ElementKind) :
    (Elements.ofKind kind).Matches (.holes 0) := by
  constructor
  · rw [← size_values, values_ofKind]
    rfl
  · intro i
    rw [values_ofKind]
    rfl

namespace Operand

/-- An operand whose store, if it has one, is valid. -/
def Valid : Operand → Prop
  | .array store => store.Valid
  | .value _ => True

/-- What an operand contributes. An array without elements does not contribute its kind. -/
def toSparse : Operand → SparseArray
  | .array store => { store.toSparse with kind := store.operandKind }
  | .value element => (SparseArray.holes 0).put 0 element

/-- An array with what all operands contribute behind it. -/
def appendAll (a : SparseArray) (operands : List Operand) : SparseArray :=
  operands.foldl (fun a operand => a.append operand.toSparse) a

/-- What all operands contribute, one after another. -/
def concatAll (operands : List Operand) : SparseArray := appendAll (.holes 0) operands

theorem appendAll_cons (a : SparseArray) (operand : Operand) (operands : List Operand) :
    appendAll a (operand :: operands) = appendAll (a.append operand.toSparse) operands := rfl

theorem length_toSparse (operand : Operand) : operand.toSparse.length = operand.length := by
  cases operand <;> rfl

theorem kind_toSparse (operand : Operand) : operand.toSparse.kind = operand.kind := by
  cases operand with
  | array store => rfl
  | value element => exact ElementKind.empty_join _

variable {host : Host} {elements : Elements}

/-- The slots of a continuous operand are copied behind those of a kind that is wide enough. -/
theorem exists_appendTo? {operand : Operand} (hvalid : operand.Valid)
    (hcontinuous : operand.isContinuous host) (hkind : operand.kind ≤ elements.kind)
    {a : SparseArray} (h : elements.Matches a) :
    ∃ slots, appendTo? elements operand = some slots ∧ slots.kind = elements.kind ∧
      slots.Matches (a.append operand.toSparse) := by
  cases operand with
  | array store =>
    have hfull := ((Store.isContinuous_iff hvalid).mp hcontinuous).1
    obtain ⟨other, hlayout, hsize⟩ := Store.exists_full hvalid hfull
    have hle : other.kind ≤ elements.kind ∨ other.size = 0 := by
      by_cases hzero : store.length = 0
      · exact Or.inr (hsize.trans hzero)
      · rw [kind, Store.operandKind, if_neg hzero, Store.kind_eq_of_full hlayout] at hkind
        exact Or.inl hkind
    refine ⟨elements.append other, ?_, Elements.kind_append .., ?_⟩
    · simp only [appendTo?, hlayout, Layout.full]
    · have hother : other.Matches store.toSparse :=
        ⟨hsize, fun i => (Store.get?_eq_values hlayout hsize i).symm⟩
      exact h.append hother (Elements.values_append hle)
  | value element =>
    have hholds : elements.kind.holds element := ElementKind.holds_iff.mpr hkind
    obtain ⟨slots, hpush, hkind', hvalues⟩ := Elements.exists_push? hholds
    have hother : (Elements.object #[element]).Matches (Operand.value element).toSparse :=
      ⟨rfl, fun i => by cases i <;> rfl⟩
    exact ⟨slots, hpush, hkind', h.append hother hvalues⟩

theorem exists_foldlM_appendTo? {operands : List Operand} (hvalid : ∀ o ∈ operands, o.Valid)
    (hcontinuous : ∀ o ∈ operands, o.isContinuous host)
    (hkind : ∀ o ∈ operands, o.kind ≤ elements.kind) {a : SparseArray} (h : elements.Matches a) :
    ∃ slots, operands.foldlM appendTo? elements = some slots ∧ slots.kind = elements.kind ∧
      slots.Matches (appendAll a operands) := by
  induction operands generalizing elements a with
  | nil => exact ⟨elements, rfl, rfl, h⟩
  | cons o operands ih =>
    rw [List.forall_mem_cons] at hvalid hcontinuous hkind
    obtain ⟨appended, happend, hkind', hslots⟩ :=
      exists_appendTo? hvalid.1 hcontinuous.1 hkind.1 h
    obtain ⟨slots, hfold, hkind'', hslots'⟩ :=
      ih hvalid.2 hcontinuous.2 (by rw [hkind']; exact hkind.2) hslots
    refine ⟨slots, ?_, hkind''.trans hkind', hslots'⟩
    rw [List.foldlM_cons, happend]
    exact hfold

/-! ### Length and kind of a concatenation -/

theorem length_appendAll (operands : List Operand) (a : SparseArray) :
    (appendAll a operands).length
      = operands.foldl (fun length operand => length + operand.length) a.length := by
  induction operands generalizing a with
  | nil => rfl
  | cons o operands ih =>
    rw [appendAll_cons, List.foldl_cons, ih]
    rw [show (a.append o.toSparse).length = a.length + o.length from
      congrArg (a.length + ·) o.length_toSparse]

theorem kind_appendAll (operands : List Operand) (a : SparseArray) :
    (appendAll a operands).kind
      = operands.foldl (fun kind operand => kind.join operand.kind) a.kind := by
  induction operands generalizing a with
  | nil => rfl
  | cons o operands ih =>
    rw [appendAll_cons, List.foldl_cons, ih]
    rw [show (a.append o.toSparse).kind = a.kind.join o.kind from
      congrArg a.kind.join o.kind_toSparse]

theorem length_concatAll (operands : List Operand) :
    (concatAll operands).length
      = operands.foldl (fun length operand => length + operand.length) 0 :=
  length_appendAll operands (.holes 0)

theorem kind_concatAll (operands : List Operand) :
    (concatAll operands).kind
      = operands.foldl (fun kind operand => kind.join operand.kind) .empty :=
  kind_appendAll operands (.holes 0)

theorem le_foldl_join {operands : List Operand} (k : ElementKind) :
    k ≤ operands.foldl (fun kind operand => kind.join operand.kind) k ∧
      ∀ o ∈ operands, o.kind ≤ operands.foldl (fun kind operand => kind.join operand.kind) k := by
  induction operands generalizing k with
  | nil => exact ⟨ElementKind.le_rfl, by simp⟩
  | cons o operands ih =>
    obtain ⟨hle, hmem⟩ := ih (k.join o.kind)
    rw [List.foldl_cons, List.forall_mem_cons]
    exact ⟨ElementKind.le_trans ElementKind.le_join_left hle,
      ElementKind.le_trans ElementKind.le_join_right hle, hmem⟩

theorem le_length_appendAll (operands : List Operand) (a : SparseArray) :
    a.length ≤ (appendAll a operands).length := by
  induction operands generalizing a with
  | nil => exact Nat.le_refl _
  | cons o operands ih => exact (Nat.le_add_right ..).trans (ih (a.append o.toSparse))

theorem held_toSparse {operand : Operand} (hvalid : operand.Valid) : operand.toSparse.Held := by
  intro i v hv
  cases operand with
  | array store =>
    have hlt : i < store.length := SparseArray.lt_length hv
    show ElementKind.holds store.operandKind v = true
    rw [Store.operandKind, if_neg (by omega)]
    exact hvalid.held i v hv
  | value element =>
    rw [toSparse, SparseArray.get?_put] at hv
    split at hv
    · obtain rfl := Option.some.inj hv
      show ElementKind.holds (ElementKind.empty.join (.of element)) element = true
      exact ElementKind.holds_join_of element
    · cases hv

end Operand

namespace Store

variable {s t : Store} {host : Host} {a : SparseArray}

/-! ### Index by index -/

/-- A continuous operand is appended as a whole, and the kind is widened by its. -/
theorem takes_appendOperand {operand : Operand} (hvalid : operand.Valid)
    (hcontinuous : operand.isContinuous host) (hn : a.length + operand.length ≤ maxLength) :
    Takes a (appendOperand host a.length operand) (.ok (a.length + operand.length))
      (a.append operand.toSparse) := by
  refine (takes_checkLength hn).bind ?_
  have hheld := Operand.held_toSparse hvalid
  cases operand with
  | array source =>
    have hfull := ((isContinuous_iff hvalid).mp hcontinuous).1
    have hsome : ∀ k < source.length, (source.toSparse.get? (0 + k)).isSome := fun k hk =>
      hfull _ (by rwa [Nat.zero_add])
    obtain ⟨values, hlength, hvalues⟩ := SparseArray.exists_values hsome
    have hcopy : Takes (a.widenTo source.operandKind)
        (copyVisible source host 0 values.length a.length) (.ok ())
        ((a.widenTo source.operandKind).write a.length values) :=
      takes_copyVisible (fun k hk => hvalues k (hlength ▸ hk)) (Nat.le_refl _)
        (by rw [hlength]; exact hn)
    have happend : (a.widenTo source.operandKind).write a.length values
        = a.append (Operand.array source).toSparse :=
      SparseArray.write_widenTo_eq_append hheld hlength fun i hi => by
        rw [← hvalues i hi, Nat.zero_add]
        rfl
    rw [hlength, happend] at hcopy
    refine Takes.bind (takes_modify fun s hs ha => ?_) (hcopy.bind (takes_pure _))
    exact ⟨valid_widenTo hs _, ha ▸ toSparse_widenTo hs _⟩
  | value element =>
    rw [show a.append (Operand.value element).toSparse = a.put a.length element from
      (SparseArray.put_length_eq_append element).symm]
    exact Takes.bind (takes_assign hn element) (takes_pure _)

theorem takes_appendAll {operands : List Operand} (hvalid : ∀ o ∈ operands, o.Valid)
    (hcontinuous : ∀ o ∈ operands, o.isContinuous host)
    (hn : (Operand.appendAll a operands).length ≤ maxLength) :
    Takes a (operands.foldlM (appendOperand host) a.length)
      (.ok (Operand.appendAll a operands).length)
      (Operand.appendAll a operands) := by
  induction operands generalizing a with
  | nil => exact takes_pure _
  | cons o operands ih =>
    rw [List.forall_mem_cons] at hvalid hcontinuous
    have hlength : (a.append o.toSparse).length = a.length + o.length :=
      congrArg (a.length + ·) o.length_toSparse
    have hle := Operand.le_length_appendAll operands (a.append o.toSparse)
    rw [Operand.appendAll_cons] at hn ⊢
    rw [List.foldlM_cons]
    refine Takes.bind (takes_appendOperand hvalid.1 hcontinuous.1 (by omega)) ?_
    rw [← hlength]
    exact ih hvalid.2 hcontinuous.2 hn

/-! ### As one block -/

theorem fastConcat_spec (h : s.Valid) {operands : List Operand}
    (hoperands : ∀ o ∈ operands, o.Valid) (hconcat : s.fastConcat operands host = some t) :
    t.Valid ∧ t.toSparse = Operand.concatAll (.array s :: operands) ∧
      (∀ o ∈ Operand.array s :: operands, o.isContinuous host) ∧
      (Operand.concatAll (.array s :: operands)).length ≤ maxLength := by
  simp only [fastConcat, ← Operand.length_concatAll, ← Operand.kind_concatAll,
    Option.ite_none_right_eq_some, Bool.and_eq_true, List.all_eq_true, decide_eq_true_eq,
    Option.some.injEq] at hconcat
  obtain ⟨⟨hcontinuous, hlength⟩, rfl⟩ := hconcat
  have hvalid : ∀ o ∈ Operand.array s :: operands, o.Valid :=
    List.forall_mem_cons.mpr ⟨h, hoperands⟩
  have hle : ∀ o ∈ Operand.array s :: operands,
      o.kind ≤ (Elements.ofKind (Operand.concatAll (.array s :: operands)).kind).kind := by
    rw [Elements.kind_ofKind, Operand.kind_concatAll]
    exact (Operand.le_foldl_join .empty).2
  obtain ⟨slots, hfold, hslots, hmatches⟩ :=
    Operand.exists_foldlM_appendTo? hvalid hcontinuous hle (Elements.matches_ofKind _)
  rw [Elements.kind_ofKind] at hslots
  rw [hfold]
  obtain ⟨ht, heq⟩ := full_spec s.config (a := Operand.concatAll (.array s :: operands))
    hmatches.1.le hlength hslots fun i _ => hmatches.2 i
  exact ⟨ht, heq, hcontinuous, hlength⟩

theorem valid_concat (h : s.Valid) {operands : List Operand} (hoperands : ∀ o ∈ operands, o.Valid)
    {host : Host} (ht : s.concat operands host = .ok t) : t.Valid := by
  rw [concat] at ht
  split at ht
  · rename_i result hresult
    cases ht
    exact (fastConcat_spec h hoperands hresult).1
  · exact valid_genericConcat ht

/-! ### Block or index by index -/

/-- Where operands are copied as one block, copying them index by index builds the same array. -/
theorem exists_genericConcat (h : s.Valid) {operands : List Operand}
    (hoperands : ∀ o ∈ operands, o.Valid) (hconcat : s.fastConcat operands host = some t) :
    ∃ u, s.genericConcat operands host = .ok u ∧ u.Valid ∧ u.toSparse = t.toSparse := by
  obtain ⟨-, heq, hcontinuous, hlength⟩ := fastConcat_spec h hoperands hconcat
  rw [heq]
  have hvalid : ∀ o ∈ Operand.array s :: operands, o.Valid :=
    List.forall_mem_cons.mpr ⟨h, hoperands⟩
  have hall := takes_appendAll (a := .holes 0) hvalid hcontinuous hlength
  exact exists_build (hall.bind (takes_assignLength_self hlength)) s.config

end Store

end ArrayEngine
