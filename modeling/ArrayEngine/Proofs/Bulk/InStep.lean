import ArrayEngine.Proofs.Bulk.Concat
import ArrayEngine.Proofs.Store.Equivalent
import Mathlib.Data.List.Forall2

/-!
# Operations on equivalent stores

No operation tells equivalent stores apart. Index by index this is so because of the steps. As a
block, an operation applies to both stores or to neither, and where it applies the two differ in
their tuning only, which is passed on and never looked at.

Operations that answer a store answer equivalent ones, and the operands of a concatenation need to
be equivalent only.

## Main results

* `Store.inStep_push`, `Store.inStep_pop`, `Store.inStep_shift`, `Store.inStep_unshift`,
  `Store.inStep_splice`, `Store.inStep_reverse`: one store
* `Store.Equivalent.slice`, `Store.Equivalent.concat`: new stores
-/

namespace ArrayEngine.Store

variable {s t : Store} {host : Host}

/-! ### Block operations under another tuning -/

section Retune

variable (s : Store) (config : Config) (host : Host)

theorem fastPush_retune (values : List Value) :
    (s.retune config).fastPush values host
      = (s.fastPush values host).map (Prod.map id (·.retune config)) := by
  rw [fastPush, fastPush, apply_ite (Option.map _), Option.map_map]
  rfl

theorem fastPop_retune :
    (s.retune config).fastPop host = (s.fastPop host).map (Prod.map id (·.retune config)) := by
  rw [fastPop, fastPop, apply_ite (Option.map _)]
  simp only [Option.bind_eq_bind, Option.map_bind, Function.comp_def]
  rfl

theorem fastSlice_retune (start stop : Nat) :
    (s.retune config).fastSlice start stop host
      = (s.fastSlice start stop host).map (·.retune config) := by
  rw [fastSlice, fastSlice, apply_ite (Option.map _), Option.map_map]
  rfl

theorem fastSplice_retune (start count inserted : Nat) :
    (s.retune config).fastSplice start count inserted host
      = (s.fastSplice start count inserted host).map
          (Prod.map (·.retune config) (·.retune config)) := by
  rw [fastSplice, fastSplice, apply_ite (Option.map _), Option.map_map]
  rfl

theorem fastReverse_retune :
    (s.retune config).fastReverse host = (s.fastReverse host).map (·.retune config) := by
  rw [fastReverse, fastReverse, Option.map_map]
  rfl

theorem fastSet_retune (index : Nat) (value : Value) :
    (s.retune config).fastSet index value
      = (s.fastSet index value).map (·.retune config) := by
  obtain ⟨tuning, length, layout⟩ := s
  cases layout with
  | packed elements holes =>
    rw [fastSet, fastSet]
    dsimp only [retune]
    rw [apply_ite (Option.map _)]
    rfl
  | dictionary elements kind => rfl
  | stuck => rfl

end Retune

/-! ### Block operations on equivalent stores -/

theorem continuousParts?_eq_none (hcontinuous : ¬s.isContinuous host) :
    s.continuousParts? host = none := if_neg hcontinuous

theorem rel_map_right {α β : Type} {R : α → β → Prop} {f : α → β} {o : Option α}
    (h : ∀ a, o = some a → R a (f a)) : Option.Rel R o (o.map f) := by
  cases o with
  | none => exact .none
  | some a => exact .some (h a rfl)

theorem rel_map {α β : Type} {R : α → α → Prop} {Q : β → β → Prop} {f : α → β} {o o' : Option α}
    (h : Option.Rel R o o') (hf : ∀ a b, R a b → Q (f a) (f b)) :
    Option.Rel Q (o.map f) (o'.map f) := by
  cases h with
  | none => exact .none
  | some hab => exact .some (hf _ _ hab)

theorem rel_imp {α : Type} {R Q : α → α → Prop} {o o' : Option α} (h : Option.Rel R o o')
    (himp : ∀ a b, R a b → Q a b) : Option.Rel Q o o' := by
  cases h with
  | none => exact .none
  | some hab => exact .some (himp _ _ hab)

namespace Equivalent

/-- A block operation that asks for a continuous store, and passes the tuning on. -/
theorem block {α : Type} {R : α → α → Prop} {f : Config → α → α} (h : s.Equivalent t)
    (host : Host) (op : Store → Option α)
    (hnone : ∀ u : Store, u.continuousParts? host = none → op u = none)
    (hretune : ∀ config, op (s.retune config) = (op s).map (f config))
    (hR : ∀ config a, op s = some a → R a (f config a)) : Option.Rel R (op s) (op t) := by
  by_cases hcontinuous : s.isContinuous host
  · obtain ⟨config, rfl⟩ := h.exists_retune hcontinuous
    rw [hretune]
    exact rel_map_right (hR config)
  · have hcontinuous' : ¬t.isContinuous host := h.isContinuous_eq host ▸ hcontinuous
    rw [hnone s (continuousParts?_eq_none hcontinuous),
      hnone t (continuousParts?_eq_none hcontinuous')]
    exact .none

theorem fastPush (h : s.Equivalent t) (values : List Value) (host : Host) :
    Option.Rel (fun p q => p.1 = q.1 ∧ p.2.Equivalent q.2) (s.fastPush values host)
      (t.fastPush values host) := by
  refine h.block host (Store.fastPush · values host) (fun u hu => ?_)
    (fastPush_retune s · host values) fun config p hp => ?_
  · simp [Store.fastPush, hu]
  · exact ⟨rfl, retune (fastPush_spec h.left hp).1 config⟩

theorem fastPop (h : s.Equivalent t) (host : Host) :
    Option.Rel (fun p q => p.1 = q.1 ∧ p.2.Equivalent q.2) (s.fastPop host) (t.fastPop host) := by
  refine h.block host (Store.fastPop · host) (fun u hu => ?_) (fastPop_retune s · host)
    fun config p hp => ?_
  · simp [Store.fastPop, hu]
  · exact ⟨rfl, retune (fastPop_spec h.left hp).1 config⟩

theorem fastSlice (h : s.Equivalent t) (start stop : Nat) (host : Host) :
    Option.Rel Equivalent (s.fastSlice start stop host) (t.fastSlice start stop host) := by
  refine h.block host (Store.fastSlice · start stop host) (fun u hu => ?_)
    (fastSlice_retune s · host start stop) fun config u hu => ?_
  · simp [Store.fastSlice, hu]
  · exact retune (fastSlice_spec h.left hu).1 config

theorem fastSplice (h : s.Equivalent t) (start count inserted : Nat) (host : Host) :
    Option.Rel (fun p q => p.1.Equivalent q.1 ∧ p.2.Equivalent q.2)
      (s.fastSplice start count inserted host) (t.fastSplice start count inserted host) := by
  refine h.block host (Store.fastSplice · start count inserted host) (fun u hu => ?_)
    (fastSplice_retune s · host start count inserted) fun config p hp => ?_
  · simp [Store.fastSplice, hu]
  · obtain ⟨hremoved, hrest, -⟩ := fastSplice_spec h.left hp
    exact ⟨retune hremoved.1 config, retune hrest.1 config⟩

theorem fastReverse (h : s.Equivalent t) (host : Host) :
    Option.Rel Equivalent (s.fastReverse host) (t.fastReverse host) := by
  refine h.block host (Store.fastReverse · host) (fun u hu => ?_)
    (fastReverse_retune s · host) fun config u hu => ?_
  · simp [Store.fastReverse, hu]
  · exact retune (fastReverse_spec h.left hu).1 config

theorem shiftRight (h : s.Equivalent t) (n : Nat) (host : Host) :
    Option.Rel Equivalent (s.shiftRight n host) (t.shiftRight n host) := by
  rw [Store.shiftRight, Store.shiftRight]
  exact rel_map (h.fastSplice 0 0 n host) fun _ _ hpq => hpq.2

theorem fastShift (h : s.Equivalent t) (host : Host) :
    Option.Rel (fun p q => p.1 = q.1 ∧ p.2.Equivalent q.2) (s.fastShift host)
      (t.fastShift host) := by
  rw [Store.fastShift, Store.fastShift, shiftLeft, shiftLeft, ← h.length_eq]
  split
  · exact .none
  · split
    · exact .none
    · refine rel_map (h.fastSplice 0 1 0 host) fun p q hpq => ⟨?_, hpq.2⟩
      dsimp only
      rw [hpq.1.get?_eq]

end Equivalent

/-! ### New stores -/

theorem sameResult_build {edit : Edit Store Unit} (h : Stepwise .plain edit)
    (config config' : Config) :
    SameResult Equivalent (build config edit) (build config' edit) := by
  obtain ⟨hresult, hstore⟩ := h.inStep _ _ (Equivalent.holes config config' (Nat.zero_le _))
  rw [build, build, empty, empty]
  generalize edit.perform (holes config 0) = p at hresult hstore
  generalize edit.perform (holes config' 0) = q at hresult hstore
  obtain ⟨r, u⟩ := p
  obtain ⟨r', u'⟩ := q
  cases hresult with
  | ok _ => exact .ok hstore
  | error e => exact .error e

/-- Where a new store is a block or built index by index, it is the same in both runs. -/
theorem sameResult_of_rel {block block' : Option Store}
    {generic generic' : Except EngineError Store} :
    Option.Rel Equivalent block block' → SameResult Equivalent generic generic' →
      SameResult Equivalent (match block with | some u => .ok u | none => generic)
        (match block' with | some u => .ok u | none => generic') := by
  intro hblock hgeneric
  cases hblock with
  | some huv => exact .ok huv
  | none => exact hgeneric

theorem copyPart_congr (h : s.Equivalent t) (host : Host) (start count : Nat) :
    copyPart s host start count = copyPart t host start count := by
  simp only [copyPart, copyVisible, copyElement, h.visible_eq]

namespace Equivalent

theorem visiblePart (h : s.Equivalent t) (host : Host) (start : Nat) {count : Nat}
    (hn : count ≤ maxLength) :
    SameResult Equivalent (s.visiblePart host start count) (t.visiblePart host start count) := by
  rw [Store.visiblePart, Store.visiblePart, copyPart_congr h]
  exact sameResult_build (stepwise_copyPart t host start hn) _ _

theorem genericSlice (h : s.Equivalent t) {start stop : Nat} (hn : stop - start ≤ maxLength)
    (host : Host) :
    SameResult Equivalent (s.genericSlice start stop host) (t.genericSlice start stop host) :=
  h.visiblePart host start hn

theorem slice (h : s.Equivalent t) (start : Binary.Double) (stop : Option Binary.Double)
    (host : Host) : SameResult Equivalent (s.slice start stop host) (t.slice start stop host) := by
  have hlength := h.left.length_le
  have hmax : maxLength < 2 ^ 53 := by decide
  have hstop := adjustEnd_le (show s.length ≤ 2 ^ 53 by omega) stop
  rw [Store.slice, Store.slice, ← h.length_eq]
  exact sameResult_of_rel (h.fastSlice _ _ host) (h.genericSlice (by omega) host)

end Equivalent

end Store

/-! ### Operands -/

/-- Operands that an operation on stores does not tell apart. -/
inductive Operand.Equivalent : Operand → Operand → Prop
  | array {s t : Store} (h : s.Equivalent t) : Equivalent (.array s) (.array t)
  | value (element : Value) : Equivalent (.value element) (.value element)

theorem foldlM_congr_of_forall₂ {α β : Type} {m : Type → Type} [Monad m] {R : α → α → Prop}
    {f : β → α → m β} (hf : ∀ b x y, R x y → f b x = f b y) {xs ys : List α}
    (h : List.Forall₂ R xs ys) (b : β) : xs.foldlM f b = ys.foldlM f b := by
  induction h generalizing b with
  | nil => rfl
  | cons hxy _ ih =>
    rw [List.foldlM_cons, List.foldlM_cons, hf b _ _ hxy]
    exact congrArg _ (funext ih)

theorem all_congr_of_forall₂ {α : Type} {R : α → α → Prop} {p : α → Bool}
    (hp : ∀ x y, R x y → p x = p y) {xs ys : List α} (h : List.Forall₂ R xs ys) :
    xs.all p = ys.all p := by
  induction h with
  | nil => rfl
  | cons hxy _ ih => rw [List.all_cons, List.all_cons, hp _ _ hxy, ih]

namespace Operand.Equivalent

variable {o o' : Operand} {host : Host}

theorem left (h : o.Equivalent o') : o.Valid := by
  cases h with
  | array h => exact h.left
  | value element => trivial

theorem right (h : o.Equivalent o') : o'.Valid := by
  cases h with
  | array h => exact h.right
  | value element => trivial

theorem valid_of_forall₂ {operands operands' : List Operand}
    (h : List.Forall₂ Operand.Equivalent operands operands') :
    (∀ o ∈ operands, o.Valid) ∧ ∀ o ∈ operands', o.Valid :=
  ⟨((List.forall₂_and_left _ _).mp (h.imp fun _ _ ho => ⟨ho.left, ho⟩)).1,
    ((List.forall₂_and_left _ _).mp (h.flip.imp fun _ _ ho => ⟨ho.right, ho⟩)).1⟩

theorem length_eq (h : o.Equivalent o') : o.length = o'.length := by
  cases h with
  | array h => exact h.length_eq
  | value element => rfl

theorem kind_eq (h : o.Equivalent o') : o.kind = o'.kind := by
  cases h with
  | array h => exact h.operandKind_eq
  | value element => rfl

theorem isContinuous_eq (h : o.Equivalent o') (host : Host) :
    o.isContinuous host = o'.isContinuous host := by
  cases h with
  | array h => exact h.isContinuous_eq host
  | value element => rfl

theorem appendTo?_eq (h : o.Equivalent o') (hcontinuous : o.isContinuous host)
    (elements : Elements) : appendTo? elements o = appendTo? elements o' := by
  cases h with
  | array h =>
    obtain ⟨config, rfl⟩ := h.exists_retune hcontinuous
    rfl
  | value element => rfl

theorem appendOperand_eq (h : o.Equivalent o') (host : Host) (length : Nat) :
    Store.appendOperand host length o = Store.appendOperand host length o' := by
  cases h with
  | array h =>
    simp only [Store.appendOperand, Operand.length, Store.copyVisible, Store.copyElement,
      h.length_eq, h.operandKind_eq, h.visible_eq]
  | value element => rfl

end Operand.Equivalent

namespace Store

variable {s t : Store} {host : Host}

section Concat

variable {operands operands' : List Operand} (h : s.Equivalent t)
  (hoperands : List.Forall₂ Operand.Equivalent operands operands')

include h hoperands

theorem forall₂_array_cons :
    List.Forall₂ Operand.Equivalent (.array s :: operands) (.array t :: operands') :=
  .cons (.array h) hoperands

theorem fastConcat_eq_map (host : Host) :
    t.fastConcat operands' host = (s.fastConcat operands host).map (·.retune t.config) := by
  have hall := forall₂_array_cons h hoperands
  have hlength : (Operand.array s :: operands).foldl (fun n o => n + o.length) 0
      = (Operand.array t :: operands').foldl (fun n o => n + o.length) 0 :=
    List.rel_foldl (P := Eq) (fun _ _ hn _ _ ho => congrArg₂ (· + ·) hn ho.length_eq) rfl hall
  have hkind : (Operand.array s :: operands).foldl (fun k o => k.join o.kind) ElementKind.empty
      = (Operand.array t :: operands').foldl (fun k o => k.join o.kind) ElementKind.empty :=
    List.rel_foldl (P := Eq) (fun _ _ hk _ _ ho => congrArg₂ ElementKind.join hk ho.kind_eq)
      rfl hall
  have hcontinuous := all_congr_of_forall₂ (fun o o' ho => ho.isContinuous_eq host) hall
  rw [Store.fastConcat, Store.fastConcat, ← hlength, ← hkind, ← hcontinuous,
    apply_ite (Option.map _)]
  by_cases hc : (Operand.array s :: operands).all (Operand.isContinuous host)
  · have hslots := foldlM_congr_of_forall₂
      (fun elements o o' ho => ho.2.appendTo?_eq ho.1 elements)
      ((List.forall₂_and_left _ _).mpr ⟨List.all_eq_true.mp hc, hall⟩)
    simp only [hslots]
    rfl
  · rw [Bool.not_eq_true] at hc
    rw [hc]
    rfl

theorem Equivalent.fastConcat (host : Host) :
    Option.Rel Equivalent (s.fastConcat operands host) (t.fastConcat operands' host) := by
  have hvalid := (Operand.Equivalent.valid_of_forall₂ hoperands).1
  rw [fastConcat_eq_map h hoperands]
  exact rel_map_right fun u hu => .retune (fastConcat_spec h.left hvalid hu).1 t.config

theorem Equivalent.genericConcat (host : Host) :
    SameResult Equivalent (s.genericConcat operands host) (t.genericConcat operands' host) := by
  have hcopy :
      copyOperands (.array s :: operands) host = copyOperands (.array t :: operands') host :=
    congrArg (· >>= assignLength .plain)
      (foldlM_congr_of_forall₂ (fun n o o' ho => ho.appendOperand_eq host n)
        (forall₂_array_cons h hoperands) 0)
  rw [Store.genericConcat, Store.genericConcat, hcopy]
  exact sameResult_build (stepwise_copyOperands _ host) _ _

theorem Equivalent.concat (host : Host) :
    SameResult Equivalent (s.concat operands host) (t.concat operands' host) := by
  rw [Store.concat, Store.concat]
  exact sameResult_of_rel (h.fastConcat hoperands host) (h.genericConcat hoperands host)

end Concat

/-! ### Edits -/

theorem inStep_push (values : List Value) (host : Host) :
    InStep Eq (push values host) (push values host) :=
  .orElse (fun _ _ h => h.fastPush values host) (stepwise_genericPush values host).inStep

theorem inStep_pop (host : Host) : InStep Eq (pop host) (pop host) :=
  .orElse (fun _ _ h => h.fastPop host) (stepwise_genericPop host).inStep

theorem inStep_shift (host : Host) : InStep Eq (shift host) (shift host) :=
  .orElse (fun _ _ h => h.fastShift host) (stepwise_genericShift host).inStep

theorem inStep_reverse (host : Host) : InStep Eq (reverse host) (reverse host) :=
  .orElse (fun _ _ h => rel_map (h.fastReverse host) fun _ _ huv => ⟨rfl, huv⟩)
    (stepwise_genericReverse host).inStep

/-- A write in place is the write that any store would make. -/
theorem perform_setIndex (h : s.Valid) (index : Nat) (value : Value) :
    (setIndex index value).perform s = (assign index value).perform s := by
  rw [setIndex, Edit.perform_orElse]
  cases hset : s.fastSet index value with
  | none => rfl
  | some u =>
    obtain ⟨rfl, -, hlt⟩ := fastSet_spec h hset
    exact (if_neg (Nat.ne_of_lt hlt)).symm

theorem inStep_setIndex {index : Nat} (hi : index ≤ maxLength) (value : Value) :
    InStep Eq (setIndex index value) (setIndex index value) := by
  intro s t h
  rw [perform_setIndex h.left, perform_setIndex h.right]
  exact (show Stepwise .plain _ from .assign hi value).inStep s t h

theorem getIndex_eq_visible (h : s.Valid) (host : Host) (index : Nat) :
    s.getIndex host index = s.visible host index := by
  rw [getIndex]
  split
  · rename_i v hget
    exact (SparseArray.visible_of_get? (a := s.toSparse) (fastGet_spec h hget)).symm
  · rfl

theorem Equivalent.getIndex_eq (h : s.Equivalent t) (host : Host) (index : Nat) :
    s.getIndex host index = t.getIndex host index := by
  rw [getIndex_eq_visible h.left, getIndex_eq_visible h.right, h.visible_eq]

theorem inStep_assignLengthValue (host : Host) (v : Value) :
    InStep Eq (assignLengthValue host v) (assignLengthValue host v) := by
  rw [assignLengthValue]
  cases hn : lengthOf? v with
  | none => exact .throw _
  | some n => exact (Stepwise.assignLength (lengthOf?_le hn)).inStep

theorem inStep_unshift (values : List Value) (host : Host) :
    InStep Eq (unshift values host) (unshift values host) := by
  intro s t h
  have hshift := h.shiftRight values.length host
  rw [perform_unshift, perform_unshift]
  generalize hp : s.shiftRight values.length host = p at hshift
  generalize t.shiftRight values.length host = q at hshift
  cases hshift with
  | none => exact (stepwise_genericUnshift values host).inStep s t h
  | some huv =>
    obtain ⟨⟨removed, u⟩, hsplice, -⟩ := Option.map_eq_some_iff.mp hp
    have hn := (fastSplice_bounds hsplice).2.2
    have hwrite : Stepwise host (do assignAll 0 values; return (← get).length) := by
      refine .bind (.assignAll (by omega)) fun _ => .read (fun _ _ => .pure _) fun u v huv => ?_
      rw [← length_toSparse, huv, length_toSparse]
    exact hwrite.inStep _ _ huv

theorem inStep_checkLength {α : Type} {R : α → α → Prop} {n : Nat}
    {next next' : Unit → Edit Store α} (hnext : n ≤ maxLength → InStep R (next ()) (next' ())) :
    InStep R (checkLength n >>= next) (checkLength n >>= next') := by
  rw [checkLength]
  split
  · rename_i hn
    exact hnext hn
  · exact .throw _

theorem inStep_genericSplice (start count : Nat) (values : List Value) (host : Host) :
    InStep Equivalent (genericSplice start count values host)
      (genericSplice start count values host) := by
  rw [genericSplice_eq]
  refine .get fun s t h => ?_
  dsimp only
  rw [← h.length_eq]
  refine inStep_checkLength fun hn => .get fun u v huv => ?_
  have hlength := h.left.length_le
  refine .bind (.ofExcept (huv.visiblePart host _ (by omega))) fun removed removed' hremoved => ?_
  refine .bind (stepwise_replaceWindow host (by omega) hn).inStep fun _ _ _ => .pure hremoved

theorem inStep_splice (start count : Option Binary.Double) (values : List Value) (host : Host) :
    InStep Equivalent (splice start count values host) (splice start count values host) := by
  intro s t h
  obtain ⟨first, n, hbounds⟩ : ∃ first n, spliceBounds s.length start count = (first, n) :=
    ⟨_, _, rfl⟩
  have hsplice := h.fastSplice first n values.length host
  rw [perform_splice hbounds, perform_splice (h.length_eq ▸ hbounds)]
  generalize hp : s.fastSplice first n values.length host = p at hsplice
  generalize t.fastSplice first n values.length host = q at hsplice
  cases hsplice with
  | none => exact inStep_genericSplice first n values host s t h
  | some hpq =>
    obtain ⟨hstart, hcount, hn⟩ := fastSplice_bounds hp
    have hwrite : Stepwise host (assignAll first values) := .assignAll (by omega)
    exact (hwrite.inStep.bind fun _ _ _ => .pure hpq.1) _ _ hpq.2

end Store

end ArrayEngine
