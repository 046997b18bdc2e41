import ArrayEngine.Bulk.Access
import ArrayEngine.Proofs.Bulk.InStep
import ArrayEngine.Proofs.Operation

/-!
# Single elements in place

An element may be read and written in its packed slot without a look at the length and at the gap
that makes a dictionary. That this is no other element and no other write rests on the
representation: a slot lies below the length, and a slot that is appended at the length leaves no
hole behind it. In front of a trailing hole nothing is appended in place, since the slots end below
the length there.

A write in place changes the store in several steps. It finds out whether it applies before the
first of them, so that a store to which it does not apply is handed on as it was.

## Main definitions

* `Store.appendsInPlace`, `Store.overwritesInPlace`: where a write in place applies
* `Store.setInPlace`: the write step by step
* `Store.setIndexInPlace`: this write where it applies, and the general one where it does not

## Main results

* `Store.fastGet_eq`: what is read in place
* `Store.run_setInPlace`: the steps come to the write as a whole, or to no change
* `Store.Reachable.access_exact`: reads and writes in place agree with the general ones
-/

namespace ArrayEngine.Store

variable {s : Store} {index : Nat} {value : Value}

/-! ### Reading -/

/-- In place, every element of a packed store is read, and none of a dictionary. -/
theorem fastGet_eq (h : s.Valid) (index : Nat) :
    s.fastGet index = if s.isDictionary then none else s.get? index := by
  rw [h.get?_eq]
  have hstuck := h.layout_ne_stuck
  obtain ⟨config, length, layout⟩ := s
  cases layout with
  | packed elements holes => rfl
  | dictionary elements kind => rfl
  | stuck => exact absurd rfl hstuck

/-! ### Writing step by step -/

/-- Whether a write in place appends a slot, right at the length. -/
def appendsInPlace (s : Store) (index : Nat) : Bool :=
  match s.layout with
  | .packed elements _ => index = elements.size && index = s.length && index < maxLength
  | _ => false

/-- Whether a write in place overwrites a slot. -/
def overwritesInPlace (s : Store) (index : Nat) : Bool :=
  match s.layout with
  | .packed elements holes => index < elements.size && index ∉ holes
  | _ => false

/-- The store with slots that hold `value`, too. -/
def fitSlots (value : Value) (s : Store) : Store :=
  match s.layout with
  | .packed elements holes => { s with layout := .packed (elements.fit value) holes }
  | _ => s

/-- The store with `value` in the slot at `index`, or in a new one at the end of the slots. -/
def putSlot (index : Nat) (value : Value) (s : Store) : Store :=
  match s.layout with
  | .packed elements holes => { s with layout := .written (elements.put? index value) holes }
  | _ => s

/-- Overwrites a slot or appends one: the slots are widened, the length is set, and the slot is
written. It fails where it does neither. -/
def setInPlace (index : Nat) (value : Value) : ExceptT Unit (StateM Store) Unit := do
  let s ← get
  unless s.appendsInPlace index || s.overwritesInPlace index do throw ()
  modify (fitSlots value)
  if s.appendsInPlace index then modify fun s => { s with length := index + 1 }
  modify (putSlot index value)

/-- Writes an element in place, and by the general write if that does not apply to the store that
is left. -/
def setIndexInPlace (index : Nat) (value : Value) : Edit Store Unit := fun s =>
  match (setInPlace index value).run.run s with
  | (.ok (), t) => (.ok (), t)
  | (.error (), t) => (assign index value).perform t

theorem run_setInPlace (s : Store) (index : Nat) (value : Value) :
    (setInPlace index value).run.run s =
      match s.fastSet index value with
      | some t => (.ok (), t)
      | none => (.error (), s) := by
  have hwhole : s.fastSet index value =
      if s.appendsInPlace index || s.overwritesInPlace index then
        let fitted := s.fitSlots value
        some (putSlot index value
          { fitted with length := if s.appendsInPlace index then index + 1 else fitted.length })
      else none := by
    obtain ⟨config, length, layout⟩ := s
    cases layout <;> rfl
  -- The steps after the look at the store, with what it has shown.
  change ((do
    unless s.appendsInPlace index || s.overwritesInPlace index do throw ()
    modify (fitSlots value)
    if s.appendsInPlace index then modify fun s => { s with length := index + 1 }
    modify (putSlot index value)) : ExceptT Unit (StateM Store) Unit).run.run s = _
  rw [hwhole]
  cases s.appendsInPlace index <;> cases s.overwritesInPlace index <;> rfl

theorem perform_setIndexInPlace (s : Store) (index : Nat) (value : Value) :
    (setIndexInPlace index value).perform s = (setIndex index value).perform s := by
  have hsteps := run_setInPlace s index value
  rw [setIndex, Edit.perform_orElse]
  simp only [Edit.perform, ExceptT.run, StateT.run, setIndexInPlace] at hsteps ⊢
  rw [hsteps]
  cases s.fastSet index value <;> rfl

/-! ### Both ways -/

/-- **Access in place agrees with general access.** What is read in place is the element, and every
element of a packed store is. A write in place, if it applies, leaves the very store that the
general write leaves, whole or step by step; if it does not, nothing has changed. So an element read
in place where possible is the element or else the inherited one, and an element written in place
where possible is written as in general: at the one index that no element can have this is an error
of range. -/
theorem Reachable.access_exact (h : s.Reachable) (index : Nat) (value : Value) :
    (∀ v, s.fastGet index = some v → s.get? index = some v) ∧
    (s.isDictionary = false → s.has index → (s.fastGet index).isSome) ∧
    (∀ t, s.fastSet index value = some t →
      (setInPlace index value).run.run s = (.ok (), t) ∧
        (assign index value).perform s = (.ok (), t)) ∧
    (s.fastSet index value = none → (setInPlace index value).run.run s = (.error (), s)) ∧
    (∀ host, s.getIndex host index = (s.get? index).or (host.inherited index)) ∧
    (setIndexInPlace index value).perform s = (setIndex index value).perform s ∧
    (setIndex index value).perform s = (assign index value).perform s ∧
    (index = maxLength → ∃ e : EngineError,
      (setIndex index value).perform s = (.error e, s) ∧ e.category = .range) := by
  have hvalid := h.valid
  have hsteps := run_setInPlace s index value
  have hwrite := perform_setIndex hvalid index value
  refine ⟨fun v => fastGet_spec hvalid, fun hpacked hhas => ?_, fun t hset => ⟨?_, ?_⟩,
    fun hset => ?_, fun host => getIndex_eq_visible hvalid host index,
    perform_setIndexInPlace s index value, hwrite, fun hindex => ?_⟩
  · rwa [fastGet_eq hvalid, hpacked, if_neg Bool.false_ne_true, ← has_eq hvalid]
  · rw [hsteps, hset]
  · rw [← hwrite, setIndex, Edit.perform_orElse, hset]
    rfl
  · rw [hsteps, hset]
  · exact ⟨.invalidIndex, hwrite.trans (if_pos hindex), rfl⟩

/-- In front of a trailing hole nothing is appended in place, and right at the length it is. -/
theorem access_exact_of_trailing_hole :
    let s := holes {} 2
    let t := ofValues {} [.null]
    (s.Reachable ∧ s.fastSet 0 .null = none ∧
      (setInPlace 0 .null).run.run s = (.error (), s) ∧
      (setIndex 0 .null).perform s = (assign 0 .null).perform s) ∧
    t.isDictionary = false ∧ t.has 0 ∧ (t.fastGet 0).isSome ∧
      ∃ u, t.fastSet 1 .null = some u ∧ (assign 1 .null).perform t = (.ok (), u) := by
  intro s t
  have hs : s.Reachable := .holes {} 2
  have ht : t.Reachable := .ofValues {} [.null] (by decide)
  have hset : s.fastSet 0 .null = none := rfl
  have hhas : t.has 0 := by
    rw [has_eq ht.valid, get?_ofValues]
    rfl
  obtain ⟨-, -, -, hunchanged, -, -, hwrite, -⟩ := hs.access_exact 0 .null
  obtain ⟨-, hread, -⟩ := ht.access_exact 0 .null
  obtain ⟨-, -, hwritten, -⟩ := ht.access_exact 1 .null
  exact ⟨⟨hs, hset, hunchanged hset, hwrite⟩, rfl, hhas, hread rfl hhas, _, rfl, (hwritten _ rfl).2⟩

end ArrayEngine.Store
