import ArrayEngine.Proofs.Bulk.Concat
import ArrayEngine.Proofs.Call

/-!
# All operations, and the stores they lead to

Every operation that changes a store or makes one, as data. A store is reachable if it is new, if an
operation on a reachable store has left it, whether that finished or stopped, or if an operation has
answered it. Every reachable store satisfies the representation invariant.

## Main definitions

* `Operation`, `Operation.perform`: an operation, the store it answers and the store it leaves
* `Store.Reachable`

## Main results

* `Operation.keeps`: no operation breaks a stable invariant
* `Operation.valid_answer`: answered stores are valid
* `Store.Reachable.valid`, `Store.Reachable.representation`: the invariant of reachable stores
* `Operation.building_keeps`: nor are stores in the making
* `Operation.stuck_of_stuck`: that a store is not stuck now says that it never was

## Implementation notes

Operations get the arguments that a program can give them: indices, lengths and counts of 32 bits,
any list of values, any host at each call, and operands which are reachable themselves.
-/

namespace ArrayEngine

open Binary (Double)

/-- An operation on a store. -/
inductive Operation where
  | basic (call : Call)
  | setLengthValue (value : Value) (host : Host)
  | setIndex (index : UInt32) (value : Value)
  | fill (value : Value) (start : Double) (stop : Option Double)
  | sort (host : Host) (order : Value → Value → Ordering)
  -- block operations
  | fastSet (index : UInt32) (value : Value)
  | fastPush (values : List Value) (host : Host)
  | fastPop (host : Host)
  | fastSlice (start stop : UInt32) (host : Host)
  | fastSplice (start count inserted : UInt32) (host : Host)
  | shiftLeft (n : UInt32) (host : Host)
  | shiftRight (n : UInt32) (host : Host)
  | fastReverse (host : Host)
  | fastConcat (operands : List Operand) (host : Host)
  -- as one block where that applies, and index by index otherwise
  | push (values : List Value) (host : Host)
  | pop (host : Host)
  | shift (host : Host)
  | unshift (values : List Value) (host : Host)
  | slice (start : Double) (stop : Option Double) (host : Host)
  | splice (start count : Option Double) (values : List Value) (host : Host)
  | concat (operands : List Operand) (host : Host)
  | reverse (host : Host)
  -- index by index
  | genericPush (values : List Value) (host : Host)
  | genericPop (host : Host)
  | genericShift (host : Host)
  | genericUnshift (values : List Value) (host : Host)
  | genericSlice (start stop : UInt32) (host : Host)
  | genericSplice (start count : UInt32) (values : List Value) (host : Host)
  | genericConcat (operands : List Operand) (host : Host)
  | genericReverse (host : Host)

namespace Operation

/-- An edit that answers no store. -/
def edited {α : Type} (edit : Edit Store α) (s : Store) : Option Store × Store :=
  (none, (edit.perform s).2)

/-- An edit that answers a store if it finishes. -/
def answered (edit : Edit Store Store) (s : Store) : Option Store × Store :=
  match edit.perform s with
  | (result, t) => (result.toOption, t)

/-- A block operation that answers no store, and changes nothing where it does not apply. -/
def replaced (block : Option Store) (s : Store) : Option Store × Store := (none, block.getD s)

/-- A block operation that answers a store where it applies. -/
def split (block : Option (Store × Store)) (s : Store) : Option Store × Store :=
  (block.map Prod.fst, (block.map Prod.snd).getD s)

/-- The store that an operation answers, if any, and the store that it leaves. -/
def perform (s : Store) : Operation → Option Store × Store
  | basic call => (none, (call.perform s).2)
  | setLengthValue value host => edited (Store.assignLengthValue host value) s
  | setIndex index value => edited (Store.setIndex index.toNat value) s
  | fill value start stop => edited (Store.fill value start stop) s
  | sort host order => edited (Store.sort host order) s
  | fastSet index value => replaced (s.fastSet index.toNat value) s
  | fastPush values host => replaced ((s.fastPush values host).map Prod.snd) s
  | fastPop host => replaced ((s.fastPop host).map Prod.snd) s
  | fastSlice start stop host => (s.fastSlice start.toNat stop.toNat host, s)
  | fastSplice start count inserted host =>
    split (s.fastSplice start.toNat count.toNat inserted.toNat host) s
  | shiftLeft n host => split (s.shiftLeft n.toNat host) s
  | shiftRight n host => replaced (s.shiftRight n.toNat host) s
  | fastReverse host => replaced (s.fastReverse host) s
  | fastConcat operands host => (s.fastConcat operands host, s)
  | push values host => edited (Store.push values host) s
  | pop host => edited (Store.pop host) s
  | shift host => edited (Store.shift host) s
  | unshift values host => edited (Store.unshift values host) s
  | slice start stop host => ((s.slice start stop host).toOption, s)
  | splice start count values host => answered (Store.splice start count values host) s
  | concat operands host => ((s.concat operands host).toOption, s)
  | reverse host => edited (Store.reverse host) s
  | genericPush values host => edited (Store.genericPush values host) s
  | genericPop host => edited (Store.genericPop host) s
  | genericShift host => edited (Store.genericShift host) s
  | genericUnshift values host => edited (Store.genericUnshift values host) s
  | genericSlice start stop host => ((s.genericSlice start.toNat stop.toNat host).toOption, s)
  | genericSplice start count values host =>
    answered (Store.genericSplice start.toNat count.toNat values host) s
  | genericConcat operands host => ((s.genericConcat operands host).toOption, s)
  | genericReverse host => edited (Store.genericReverse host) s

/-- The edit by which an operation makes a new store of an empty one, where it goes index by
index. -/
def building (s : Store) : Operation → Option (Edit Store Unit)
  | slice start stop host =>
    let first := adjustIndex start s.length
    some (Store.copyPart s host first (adjustEnd stop s.length - first))
  | genericSlice start stop host =>
    some (Store.copyPart s host start.toNat (stop.toNat - start.toNat))
  | splice start count _ host =>
    match spliceBounds s.length start count with
    | (first, n) => some (Store.copyPart s host (min first s.length) (min n (s.length - first)))
  | genericSplice start count _ host =>
    let first := min start.toNat s.length
    some (Store.copyPart s host first (min count.toNat (s.length - first)))
  | concat operands host | genericConcat operands host =>
    some (Store.copyOperands (.array s :: operands) host)
  | _ => none

/-- The operands of a concatenation. -/
def operands : Operation → List Operand
  | fastConcat operands _ | concat operands _ | genericConcat operands _ => operands
  | _ => []

/-! ### What operations preserve -/

section Keeps

variable {I : Store → Prop} (h : Store.Stable I) {s : Store} (hs : I s)

include hs

theorem edited_keeps {α : Type} {edit : Edit Store α} (hkeeps : Edit.Keeps I edit) :
    I (edited edit s).2 := hkeeps s hs

theorem answered_keeps {edit : Edit Store Store} (hkeeps : Edit.Keeps I edit) :
    I (answered edit s).2 := hkeeps s hs

theorem replaced_keeps {block : Option Store} (hblock : ∀ t, block = some t → I t) :
    I (replaced block s).2 := by
  cases block with
  | none => exact hs
  | some t => exact hblock t rfl

theorem split_keeps {block : Option (Store × Store)}
    (hblock : ∀ removed t, block = some (removed, t) → I t) : I (split block s).2 := by
  cases block with
  | none => exact hs
  | some p => exact hblock p.1 p.2 rfl

include h

theorem basic_keeps (call : Call) : I (call.perform s).2 := by
  cases call with
  | set index value => exact h.keeps_assign (toNat_le_maxLength index) value s hs
  | delete index => exact h.remove index.toNat hs
  | truncate length host => exact h.truncate hs length.toNat host
  | setLength length host => exact h.setLength host hs (toNat_le_maxLength length)
  | widenTo kind => exact h.widenTo kind hs
  | ensure index => exact hs

/-- No operation breaks a stable invariant, whether it applies or not, finishes or stops. -/
theorem keeps (op : Operation) : I (op.perform s).2 := by
  cases op with
  | basic call => exact basic_keeps h hs call
  | setLengthValue value host => exact edited_keeps hs (h.keeps_assignLengthValue host value)
  | setIndex index value =>
    exact edited_keeps hs (h.keeps_setIndex (toNat_le_maxLength index) value)
  | fill value start stop =>
    exact edited_keeps hs (h.keeps (Store.stepwise_fill .plain value start stop))
  | sort host order => exact edited_keeps hs (h.keeps (Store.stepwise_sort host order))
  | fastSet index value => exact replaced_keeps hs fun t ht => h.fastSet hs ht
  | fastPush values host =>
    refine replaced_keeps hs ?_
    intro t ht
    obtain ⟨⟨n, u⟩, hpush, rfl⟩ := Option.map_eq_some_iff.mp ht
    exact h.fastPush hs hpush
  | fastPop host =>
    refine replaced_keeps hs ?_
    intro t ht
    obtain ⟨⟨v, u⟩, hpop, rfl⟩ := Option.map_eq_some_iff.mp ht
    exact h.fastPop hs hpop
  | fastSplice start count inserted host => exact split_keeps hs fun _ _ ht => h.fastSplice hs ht
  | shiftLeft n host => exact split_keeps hs fun _ _ ht => h.shiftLeft hs ht
  | shiftRight n host => exact replaced_keeps hs fun t ht => h.shiftRight hs ht
  | fastReverse host => exact replaced_keeps hs fun t ht => h.fastReverse hs ht
  | fastSlice start stop host => exact hs
  | fastConcat operands host => exact hs
  | push values host => exact edited_keeps hs (h.keeps_push values host)
  | pop host => exact edited_keeps hs (h.keeps_pop host)
  | shift host => exact edited_keeps hs (h.keeps_shift host)
  | unshift values host => exact edited_keeps hs (h.keeps_unshift values host)
  | slice start stop host => exact hs
  | splice start count values host =>
    exact answered_keeps hs (h.keeps_splice start count values host)
  | concat operands host => exact hs
  | reverse host => exact edited_keeps hs (h.keeps_reverse host)
  | genericPush values host =>
    exact edited_keeps hs (h.keeps (Store.stepwise_genericPush values host))
  | genericPop host => exact edited_keeps hs (h.keeps (Store.stepwise_genericPop host))
  | genericShift host => exact edited_keeps hs (h.keeps (Store.stepwise_genericShift host))
  | genericUnshift values host =>
    exact edited_keeps hs (h.keeps (Store.stepwise_genericUnshift values host))
  | genericSlice start stop host => exact hs
  | genericSplice start count values host =>
    exact answered_keeps hs ((h.steady host).keeps_genericSplice start.toNat count.toNat values)
  | genericConcat operands host => exact hs
  | genericReverse host => exact edited_keeps hs (h.keeps (Store.stepwise_genericReverse host))

/-- No store that an operation is about to answer breaks a stable invariant, whether it is finished
or given up. -/
theorem building_keeps {op : Operation} {edit : Edit Store Unit}
    (hbuilding : op.building s = some edit) : Edit.Keeps I edit := by
  have hlength := h.length_le hs
  have hmax : maxLength < 2 ^ 53 := by decide
  cases op with
  | slice start stop host =>
    obtain rfl := Option.some.inj hbuilding
    have hstop := adjustEnd_le (show s.length ≤ 2 ^ 53 by omega) stop
    exact h.keeps (Store.stepwise_copyPart s host _ (by omega))
  | genericSlice start stop host =>
    obtain rfl := Option.some.inj hbuilding
    have hstop := toNat_le_maxLength stop
    exact h.keeps (Store.stepwise_copyPart s host _ (by omega))
  | splice start count values host =>
    obtain rfl := Option.some.inj hbuilding
    exact h.keeps (Store.stepwise_copyPart s host _ (by omega))
  | genericSplice start count values host =>
    obtain rfl := Option.some.inj hbuilding
    exact h.keeps (Store.stepwise_copyPart s host _ (by omega))
  | concat operands host | genericConcat operands host =>
    obtain rfl := Option.some.inj hbuilding
    exact h.keeps (Store.stepwise_copyOperands _ host)
  | _ => cases hbuilding

end Keeps

/-- A store that is stuck stays so under every operation. -/
theorem stuck_of_stuck {s : Store} (hlength : s.length ≤ maxLength) (hstuck : s.layout = .stuck)
    (op : Operation) : (op.perform s).2.layout = .stuck :=
  (keeps Store.stable_stuck ⟨hlength, hstuck⟩ op).2

theorem ok_of_toOption {r : Except EngineError Store} {t : Store} (h : r.toOption = some t) :
    r = .ok t := by
  cases r with
  | error e => cases h
  | ok u => exact congrArg Except.ok (Option.some.inj h)

theorem valid_of_answered {edit : Edit Store Store} {s t : Store}
    (hanswers : Edit.Answers Store.Valid Store.Valid edit) (hs : s.Valid)
    (ht : (answered edit s).1 = some t) : t.Valid :=
  hanswers s hs t _ (Prod.ext (ok_of_toOption ht) rfl)

/-- An operation answers valid stores only. -/
theorem valid_answer {s t : Store} (hs : s.Valid) {op : Operation}
    (hoperands : ∀ o ∈ op.operands, o.Valid) (ht : (op.perform s).1 = some t) : t.Valid := by
  cases op with
  | fastSlice start stop host => exact (Store.fastSlice_spec hs ht).1
  | fastSplice start count inserted host =>
    obtain ⟨⟨removed, u⟩, hsplice, rfl⟩ := Option.map_eq_some_iff.mp ht
    exact (Store.fastSplice_spec hs hsplice).1.1
  | shiftLeft n host =>
    obtain ⟨⟨removed, u⟩, hshift, rfl⟩ := Option.map_eq_some_iff.mp ht
    simp only [Store.shiftLeft, Option.ite_none_left_eq_some] at hshift
    exact (Store.fastSplice_spec hs hshift.2).1.1
  | fastConcat operands host => exact (Store.fastConcat_spec hs hoperands ht).1
  | slice start stop host => exact Store.valid_slice hs (ok_of_toOption ht)
  | splice start count values host =>
    exact valid_of_answered (Store.answers_splice start count values host) hs ht
  | concat operands host => exact Store.valid_concat hs hoperands (ok_of_toOption ht)
  | genericSlice start stop host =>
    have hstop := toNat_le_maxLength stop
    exact Store.valid_genericSlice (by omega) (ok_of_toOption ht)
  | genericSplice start count values host =>
    exact valid_of_answered (Store.answers_genericSplice _ _ values host) hs ht
  | genericConcat operands host => exact Store.valid_genericConcat (ok_of_toOption ht)
  | _ => cases ht

end Operation

namespace Store

/-! ### Reachable stores -/

/-- Stores that operations lead to. -/
inductive Reachable : Store → Prop
  | holes (config : Config) (length : UInt32) : Reachable (holes config length.toNat)
  | ofValues (config : Config) (values : List Value) (h : values.length ≤ maxLength) :
    Reachable (ofValues config values)
  | left {s : Store} (op : Operation) (hs : Reachable s) : Reachable (op.perform s).2
  | answered {s t : Store} (op : Operation) (hs : Reachable s)
    (hoperands : ∀ u, .array u ∈ op.operands → Reachable u)
    (ht : (op.perform s).1 = some t) : Reachable t

/-- Every reachable store is valid. -/
theorem Reachable.valid {s : Store} (h : Reachable s) : s.Valid := by
  induction h with
  | holes config length => exact valid_holes config (toNat_le_maxLength length)
  | ofValues config values hlength => exact valid_ofValues config hlength
  | left op _ ih => exact op.keeps stable_valid ih
  | answered op _ _ ht ih hoperands =>
    refine op.valid_answer ih ?_ ht
    intro o ho
    cases o with
    | array u => exact hoperands u ho
    | value v => trivial

/-- **The representation of every reachable store**: how many slots or entries there are and where
the holes are, that the kind holds every element and is never lowered, and that no value was written
to slots that do not exist, neither in the store nor in a new one that an operation on it was to
answer. -/
theorem Reachable.representation {s : Store} (h : Reachable s) :
    (∀ elements holes, s.layout = .packed elements holes →
      elements.size ≤ s.length ∧ (∀ i ∈ holes, i < elements.size) ∧
        ∀ last, elements.size = last + 1 → last ∉ holes) ∧
    (∀ elements kind, s.layout = .dictionary elements kind →
      (∀ i ∈ elements, i < s.length) ∧ elements.size < s.length) ∧
    (s.isSparse = false → s.isDictionary = false) ∧
    (∀ i v, (i, v) ∈ s.entries → s.kind.holds v) ∧
    (∀ op : Operation, s.kind ≤ (op.perform s).2.kind) ∧
    s.layout ≠ .stuck ∧
    ∀ (op : Operation) edit, op.building s = some edit →
      (edit.perform (empty s.config)).2.layout ≠ .stuck := by
  have hvalid := h.valid
  have hfits := hvalid.layout.fits
  refine ⟨fun elements holes heq => ?_, fun elements kind heq => ⟨?_, ?_⟩, fun hsparse => ?_,
    fun i v hmem => ?_, fun op => ?_, hvalid.layout_ne_stuck, fun op edit hbuilding => ?_⟩
  · rw [heq] at hfits
    cases hfits with
    | packed size_le holes_lt last_not_hole => exact ⟨size_le, holes_lt, last_not_hole⟩
  · rw [heq] at hfits
    cases hfits with
    | dictionary indices_lt _ _ => exact indices_lt
  · exact hvalid.layout.size_lt elements kind heq
  · refine isDictionary_eq_false hvalid ?_
    intro i hi
    by_contra hnone
    have hhole := (isSparse_iff hvalid).mpr ⟨i, hi, Option.not_isSome_iff_eq_none.mp hnone⟩
    rw [hhole] at hsparse
    cases hsparse
  · exact hvalid.holds ((mem_entries hvalid).mp hmem)
  · exact (op.keeps (stable_valid_and_le s.kind) ⟨hvalid, ElementKind.le_rfl⟩).2
  · exact (Operation.building_keeps stable_valid hvalid hbuilding _
      (valid_empty s.config)).layout_ne_stuck

/-- A write far behind the slots makes a dictionary. -/
theorem representation_of_far_write :
    let s := ((Operation.basic (.set 100000 .null)).perform (holes {} 0)).2
    s.isDictionary = true ∧
      ∀ elements kind, s.layout = .dictionary elements kind →
        (∀ i ∈ elements, i < s.length) ∧ elements.size < s.length :=
  ⟨rfl, (Reachable.representation (.left _ (.holes {} 0))).2.1⟩

end Store

end ArrayEngine
