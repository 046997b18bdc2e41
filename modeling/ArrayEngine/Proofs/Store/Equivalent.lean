import ArrayEngine.Proofs.Store.Alike
import ArrayEngine.Proofs.Store.Stepwise

/-!
# Stores that stand for the same sparse array

Two runs that differ in their tuning keep the same elements in different layouts, and change from
one layout to the other at different moments. What relates the two at every moment is that their
stores stand for the same sparse array. Such stores are observed alike, except in how they are
laid out, and no step tells them apart: neither its result nor what it makes of the stores.

Only full stores are moved as a block, and these have no choice of layout. So a block operation
finds the very same slots in both runs.

## Main definitions

* `Store.Equivalent`: valid stores that stand for the same sparse array
* `Store.InStep`: edits that do the same to equivalent stores

## Main results

* `Store.Equivalent.isSparse_eq`, `Store.Equivalent.isContinuous_eq`: the observations
* `Store.Equivalent.exists_retune`: full stores differ in their tuning only
* `Store.InStep.bind`, `Store.InStep.get`, `Store.InStep.orElse`
* `Store.Stepwise.inStep`: an edit that is made of steps
-/

namespace ArrayEngine.Store

/-- Valid stores that stand for the same sparse array. -/
structure Equivalent (s t : Store) : Prop where
  left : s.Valid
  right : t.Valid
  toSparse_eq : s.toSparse = t.toSparse

/-- The store under another tuning. -/
def retune (s : Store) (config : Config) : Store := { s with config }

namespace Equivalent

variable {s t u : Store} {host : Host}

theorem symm (h : s.Equivalent t) : t.Equivalent s := ⟨h.right, h.left, h.toSparse_eq.symm⟩

theorem trans (h : s.Equivalent t) (h' : t.Equivalent u) : s.Equivalent u :=
  ⟨h.left, h'.right, h.toSparse_eq.trans h'.toSparse_eq⟩

theorem retune (h : s.Valid) (config : Config) : s.Equivalent (s.retune config) :=
  ⟨h, ⟨h.length_le, h.layout⟩, rfl⟩

/-! ### Observations -/

section Observations

variable (h : s.Equivalent t)

include h

theorem length_eq : s.length = t.length := congrArg SparseArray.length h.toSparse_eq

theorem kind_eq : s.kind = t.kind := congrArg SparseArray.kind h.toSparse_eq

theorem get?_eq : s.get? = t.get? := congrArg SparseArray.get? h.toSparse_eq

theorem visible_eq : s.visible = t.visible := congrArg SparseArray.visible h.toSparse_eq

theorem has_eq (i : Nat) : s.has i = t.has i := by
  rw [Store.has_eq h.left, Store.has_eq h.right, h.get?_eq]

theorem isSparse_eq : s.isSparse = t.isSparse := by
  rw [Bool.eq_iff_iff, isSparse_iff h.left, isSparse_iff h.right, h.length_eq, h.get?_eq]

theorem isContinuous_eq (host : Host) : s.isContinuous host = t.isContinuous host := by
  rw [Bool.eq_iff_iff, isContinuous_iff h.left, isContinuous_iff h.right, h.toSparse_eq]

theorem operandKind_eq : s.operandKind = t.operandKind := by
  rw [operandKind, operandKind, h.length_eq, h.kind_eq]

theorem toList_eq : s.toList = t.toList := by
  rw [toList, toList, h.length_eq, h.get?_eq]

/-- Entries are listed in the order of their indices, whichever way they are kept. -/
theorem entries_eq : s.entries = t.entries := by
  have hmem : ∀ p, p ∈ s.entries ↔ p ∈ t.entries := by
    rintro ⟨i, v⟩
    rw [mem_entries h.left, mem_entries h.right, h.get?_eq]
  have hs := pairwise_entries s
  have ht := pairwise_entries t
  have hne {p q : Nat × Value} (hlt : p.1 < q.1) : p ≠ q := fun heq => Nat.ne_of_lt hlt (heq ▸ rfl)
  have hperm : s.entries.Perm t.entries :=
    (List.perm_ext_iff_of_nodup (hs.imp hne) (ht.imp hne)).mpr hmem
  exact hperm.eq_of_pairwise (fun p q _ _ hpq hqp => absurd hpq (Nat.lt_asymm hqp)) hs ht

/-- Full stores have the same slots, and differ in their tuning only. -/
theorem exists_retune (hcontinuous : s.isContinuous host) : ∃ config, t = s.retune config := by
  have hfull := (isContinuous_iff h.left).mp hcontinuous
  obtain ⟨elements, hs, hsize⟩ := exists_full h.left hfull.1
  obtain ⟨elements', ht, hsize'⟩ := exists_full h.right (h.toSparse_eq ▸ hfull.1)
  have hslots : elements = elements' := by
    refine Elements.ext_values ?_ (Array.ext_getElem? fun i => ?_)
    · rw [← kind_eq_of_full hs, ← kind_eq_of_full ht, h.kind_eq]
    · rw [← get?_eq_values hs hsize, ← get?_eq_values ht hsize', h.get?_eq]
  refine ⟨t.config, ?_⟩
  rw [Store.retune, h.length_eq, hs, hslots, ← ht]

end Observations

/-! ### Steps -/

section Steps

variable (h : s.Equivalent t)

include h

theorem put {i : Nat} (hi : i < maxLength) (v : Value) : (s.put i v).Equivalent (t.put i v) where
  left := valid_put h.left hi v
  right := valid_put h.right hi v
  toSparse_eq := by rw [toSparse_put h.left, toSparse_put h.right, h.toSparse_eq]

theorem remove (i : Nat) : (s.remove i).Equivalent (t.remove i) where
  left := valid_remove h.left i
  right := valid_remove h.right i
  toSparse_eq := by rw [toSparse_remove h.left, toSparse_remove h.right, h.toSparse_eq]

theorem widenTo (kind : ElementKind) : (s.widenTo kind).Equivalent (t.widenTo kind) where
  left := valid_widenTo h.left kind
  right := valid_widenTo h.right kind
  toSparse_eq := by rw [toSparse_widenTo h.left, toSparse_widenTo h.right, h.toSparse_eq]

theorem setLength {n : Nat} (hn : n ≤ maxLength) (host : Host) :
    (s.setLength n host).1 = (t.setLength n host).1 ∧
      (s.setLength n host).2.Equivalent (t.setLength n host).2 := by
  obtain ⟨hs, hs'⟩ := setLength_eq h.left n host
  obtain ⟨ht, ht'⟩ := setLength_eq h.right n host
  rw [← h.toSparse_eq] at ht ht'
  exact ⟨hs.trans ht.symm, valid_setLength h.left hn host, valid_setLength h.right hn host,
    hs'.trans ht'.symm⟩

end Steps

/-! ### New stores -/

theorem holes (config config' : Config) {n : Nat} (hn : n ≤ maxLength) :
    (Store.holes config n).Equivalent (.holes config' n) :=
  ⟨valid_holes config hn, valid_holes config' hn, rfl⟩

theorem ofValues (config config' : Config) {values : List Value}
    (hn : values.length ≤ maxLength) :
    (Store.ofValues config values).Equivalent (.ofValues config' values) :=
  retune (valid_ofValues config hn) config'

end Equivalent

/-! ### Edits in step -/

/-- Two outcomes of an edit: the same failure or answers that `R` relates, and equivalent
stores. -/
structure SameOutcome {α : Type} (R : α → α → Prop) (p q : Except EngineError α × Store) :
    Prop where
  result : SameResult R p.1 q.1
  store : p.2.Equivalent q.2

theorem SameOutcome.symm {α : Type} {p q : Except EngineError α × Store}
    (h : SameOutcome Eq p q) : SameOutcome Eq q p := by
  refine ⟨?_, h.store.symm⟩
  rw [← h.result.eq]
  exact .refl (fun _ => rfl) _

theorem SameOutcome.trans {α : Type} {p q r : Except EngineError α × Store}
    (h : SameOutcome Eq p q) (h' : SameOutcome Eq q r) : SameOutcome Eq p r := by
  refine ⟨?_, h.store.trans h'.store⟩
  rw [h.result.eq]
  exact h'.result

/-- Endings with alike stores are the same outcome, if both stores are valid. -/
theorem SameEnding.sameOutcome {α : Type} {R : α → α → Prop} {p q : Except EngineError α × Store}
    (h : SameEnding R p q) (hp : p.2.Valid) (hq : q.2.Valid) : SameOutcome R p q where
  result := h.result
  store := ⟨hp, hq, toSparse_eq_iff.mpr ⟨h.alike.length_eq, h.alike.kind_eq, h.alike.get?_eq⟩⟩

theorem SameArray.equivalent {s t : Store} (h : s.SameArray t) (hs : s.Valid) (ht : t.Valid) :
    s.Equivalent t := ⟨hs, ht, toSparse_eq_iff.mpr h⟩

/-- Two edits that do the same to equivalent stores, whether they finish or stop. -/
def InStep {α : Type} (R : α → α → Prop) (edit edit' : Edit Store α) : Prop :=
  ∀ s t : Store, s.Equivalent t → SameOutcome R (edit.perform s) (edit'.perform t)

namespace InStep

variable {α β : Type} {R : α → α → Prop} {Q : β → β → Prop}

theorem pure {a b : α} (h : R a b) : InStep R (Pure.pure a) (Pure.pure b) :=
  fun _ _ hst => ⟨.ok h, hst⟩

theorem throw (e : EngineError) : InStep R (MonadExcept.throw e) (MonadExcept.throw e) :=
  fun _ _ hst => ⟨.error e, hst⟩

theorem ofExcept {r r' : Except EngineError α} (h : SameResult R r r') :
    InStep R (MonadExcept.ofExcept r) (MonadExcept.ofExcept r') := by
  intro s t hst
  rw [Edit.perform_ofExcept, Edit.perform_ofExcept]
  exact ⟨h, hst⟩

theorem bind {edit edit' : Edit Store α} {next next' : α → Edit Store β}
    (h : InStep R edit edit') (hnext : ∀ a b, R a b → InStep Q (next a) (next' b)) :
    InStep Q (edit >>= next) (edit' >>= next') := by
  intro s t hst
  obtain ⟨hresult, hstore⟩ := h s t hst
  rw [Edit.perform_bind, Edit.perform_bind]
  generalize edit.perform s = p at hresult hstore
  generalize edit'.perform t = q at hresult hstore
  obtain ⟨r, u⟩ := p
  obtain ⟨r', u'⟩ := q
  cases hresult with
  | ok hab => exact hnext _ _ hab u u' hstore
  | error e => exact ⟨.error e, hstore⟩

/-- What follows on a read store gets the two stores as they are at that moment. -/
theorem get {next next' : Store → Edit Store α}
    (hnext : ∀ s t, s.Equivalent t → InStep R (next s) (next' t)) :
    InStep R (MonadState.get >>= next) (MonadState.get >>= next') := by
  intro s t hst
  rw [Edit.perform_get_bind, Edit.perform_get_bind]
  exact hnext s t hst s t hst

/-- A block operation has to apply in both runs or in neither. -/
theorem orElse {block block' : Store → Option (α × Store)} {edit edit' : Edit Store α}
    (hblock : ∀ s t, s.Equivalent t →
      Option.Rel (fun p q => R p.1 q.1 ∧ p.2.Equivalent q.2) (block s) (block' t))
    (h : InStep R edit edit') : InStep R (Edit.orElse block edit) (Edit.orElse block' edit') := by
  intro s t hst
  have hrel := hblock s t hst
  rw [Edit.perform_orElse, Edit.perform_orElse]
  generalize block s = p at hrel
  generalize block' t = q at hrel
  cases hrel with
  | some hpq => exact ⟨.ok hpq.1, hpq.2⟩
  | none => exact h s t hst

end InStep

/-- An edit that is made of steps does the same to equivalent stores. -/
theorem Stepwise.inStep {host : Host} {α : Type} {edit : Edit Store α} (h : Stepwise host edit) :
    InStep Eq edit edit := by
  induction h with
  | pure a => exact .pure rfl
  | throw e => exact .throw e
  | @assign i hi v =>
    intro s t hst
    simp only [Edit.perform, ExceptT.run, StateT.run, Store.assign]
    split
    · exact ⟨.error _, hst⟩
    · exact ⟨.ok rfl, hst.put (by omega) v⟩
  | discard i =>
    intro s t hst
    simp only [Edit.perform, ExceptT.run, StateT.run, Store.discard, hst.has_eq]
    split
    · exact ⟨.error _, hst⟩
    · exact ⟨.ok rfl, hst.remove i⟩
  | @assignLength n hn =>
    intro s t hst
    obtain ⟨hstopped, hafter⟩ := hst.setLength hn host
    simp only [Edit.perform, ExceptT.run, StateT.run, Store.assignLength]
    generalize s.setLength n host = p at hstopped hafter
    generalize t.setLength n host = q at hstopped hafter
    obtain ⟨stopped, u⟩ := p
    obtain ⟨stopped', u'⟩ := q
    obtain rfl : stopped = stopped' := hstopped
    cases stopped with
    | none => exact ⟨.ok rfl, hafter⟩
    | some truncation => exact ⟨.error _, hafter⟩
  | widenTo kind => exact fun s t hst => ⟨.ok rfl, hst.widenTo kind⟩
  | bind _ _ ih ihnext =>
    refine ih.bind ?_
    rintro a _ rfl
    exact ihnext a
  | read _ hcongr ih =>
    refine .get ?_
    intro s t hst
    rw [← hcongr s t hst.toSparse_eq]
    exact ih s hst.left.length_le

end ArrayEngine.Store
