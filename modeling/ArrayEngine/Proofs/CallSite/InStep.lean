import ArrayEngine.Proofs.Bulk.InStep
import ArrayEngine.Proofs.CallSite

/-!
# Call sites in two runs

A call site knows of its receivers what a guard says: the kind, and whether elements may be moved
as a block. Neither depends on the layout. So a site that gets equivalent receivers in two runs
derives the same guards and speculates on the same ones with the same success, and it counts the
same calls; that the answers agree besides is what the paths themselves do.

## Main results

* `CallSite.speculate_inStep`: paths that agree make calls that agree
* `CallSite.push_inStep`, `CallSite.pop_inStep`, `CallSite.concat_inStep`,
  `CallSite.getIndex_inStep`, `CallSite.setIndex_inStep`
* `CallSite.push_agree`, `CallSite.pop_agree`, `CallSite.concat_agree`,
  `CallSite.getIndex_agree`, `CallSite.setIndex_agree`: sites with different histories
-/

namespace ArrayEngine

open Store (SameOutcome)

variable {s t : Store} {host : Host} {operands operands' : List Operand}

/-! ### Guards -/

namespace Guard

theorem ofStore?_congr (h : s.Equivalent t) (op : ArrayOp) (host : Host) :
    ofStore? op s host = ofStore? op t host := by
  rw [ofStore?, ofStore?, h.isContinuous_eq, h.kind_eq]

theorem admits_congr (h : s.Equivalent t) (guard : Guard) (host : Host) :
    guard.admits s host = guard.admits t host := by
  rw [admits, admits, h.isContinuous_eq, h.kind_eq, h.length_eq]

theorem isContinuous_of_admits {guard : Guard} (h : guard.admits s host) : s.isContinuous host := by
  rw [admits, Bool.and_eq_true, Bool.and_eq_true] at h
  exact h.1.2

section Operands

variable (hoperands : List.Forall₂ Operand.Equivalent operands operands')

include hoperands

theorem widestArray_congr : widestArray operands = widestArray operands' := by
  refine List.rel_foldl (P := Eq) ?_ rfl hoperands
  rintro kind _ rfl o o' (h | element)
  · exact congrArg kind.join h.kind_eq
  · rfl

theorem ofConcat?_congr (h : s.Equivalent t) (host : Host) :
    ofConcat? s operands host = ofConcat? t operands' host := by
  rw [ofConcat?, ofConcat?, ofStore?_congr h, widestArray_congr hoperands,
    all_congr_of_forall₂ (fun o o' ho => ho.isContinuous_eq host) hoperands]

theorem admitsOperands_congr (guard : Guard) (host : Host) :
    guard.admitsOperands operands host = guard.admitsOperands operands' host := by
  rw [admitsOperands, admitsOperands]
  split
  · rfl
  · refine all_congr_of_forall₂ ?_ hoperands
    rintro o o' (h | element)
    · dsimp only
      rw [h.kind_eq, h.isContinuous_eq]
    · rfl

end Operands

end Guard

namespace CallSite

/-! ### One call -/

/-- If the specialised paths apply alike and agree, and the generic ones agree, then so do the
answers of a call, and the site afterwards is the same. -/
theorem speculate_inStep {α : Type} {R : α → α → Prop} {derived : Option Guard}
    {specialised specialised' : Guard → Option α} {generic generic' : Unit → α} (site : CallSite)
    (hspecialised : ∀ guard, Option.Rel R (specialised guard) (specialised' guard))
    (hgeneric : R (generic ()) (generic' ())) :
    R (site.speculate derived specialised generic).1
        (site.speculate derived specialised' generic').1 ∧
      (site.speculate derived specialised generic).2
        = (site.speculate derived specialised' generic').2 := by
  rw [speculate, speculate]
  split
  · exact ⟨hgeneric, rfl⟩
  · rename_i guard _
    have hpath := hspecialised guard
    generalize specialised guard = p at hpath
    generalize specialised' guard = q at hpath
    cases hpath with
    | none => exact ⟨hgeneric, rfl⟩
    | some hR => exact ⟨hR, rfl⟩

theorem rel_ite {α : Type} {R : α → α → Prop} {c : Bool} {o o' : Option α}
    (h : c = true → Option.Rel R o o') :
    Option.Rel R (if c then o else none) (if c then o' else none) := by
  cases c with
  | true => exact h rfl
  | false => exact .none

/-! ### Calls on stores -/

theorem push_inStep (site : CallSite) (h : s.Equivalent t) (values : List Value) (host : Host) :
    SameOutcome Eq (site.push s values host).1 (site.push t values host).1 ∧
      (site.push s values host).2 = (site.push t values host).2 := by
  rw [push, push, Guard.ofStore?_congr h]
  refine speculate_inStep (R := SameOutcome Eq) site (fun guard => ?_)
    ((Store.stepwise_genericPush values host).inStep s t h)
  rw [Guard.admits_congr h]
  exact rel_ite fun _ => Store.rel_map (h.fastPush values host) fun _ _ hpq =>
    ⟨.ok hpq.1, hpq.2⟩

theorem pop_inStep (site : CallSite) (h : s.Equivalent t) (host : Host) :
    SameOutcome Eq (site.pop s host).1 (site.pop t host).1 ∧
      (site.pop s host).2 = (site.pop t host).2 := by
  rw [pop, pop, Guard.ofStore?_congr h]
  refine speculate_inStep (R := SameOutcome Eq) site (fun guard => ?_)
    ((Store.stepwise_genericPop host).inStep s t h)
  rw [Guard.admits_congr h]
  exact rel_ite fun _ => Store.rel_map (h.fastPop host) fun _ _ hpq => ⟨.ok hpq.1, hpq.2⟩

theorem concat_inStep (site : CallSite) (h : s.Equivalent t)
    (hoperands : List.Forall₂ Operand.Equivalent operands operands') (host : Host) :
    SameResult Store.Equivalent (site.concat s operands host).1 (site.concat t operands' host).1 ∧
      (site.concat s operands host).2 = (site.concat t operands' host).2 := by
  rw [concat, concat, Guard.ofConcat?_congr hoperands h]
  refine speculate_inStep (R := SameResult Store.Equivalent) site (fun guard => ?_)
    (h.genericConcat hoperands host)
  rw [Guard.admits_congr h, Guard.admitsOperands_congr hoperands]
  exact rel_ite fun _ => Store.rel_map (h.fastConcat hoperands host) fun _ _ huv => .ok huv

/-- Where a guard holds, the two receivers differ in their tuning only. -/
theorem exists_retune_of_admits (h : s.Equivalent t) {guard : Guard} {c : Bool}
    (hadmits : (guard.admits s host && c) = true) : ∃ config, t = s.retune config :=
  h.exists_retune (Guard.isContinuous_of_admits (Bool.and_eq_true_iff.mp hadmits).1)

theorem getIndex_inStep (site : CallSite) (h : s.Equivalent t) (index : Nat) (host : Host) :
    (site.getIndex s index host).1 = (site.getIndex t index host).1 ∧
      (site.getIndex s index host).2 = (site.getIndex t index host).2 := by
  rw [getIndex, getIndex, Guard.ofStore?_congr h]
  refine speculate_inStep (R := Eq) site (fun guard => ?_) (by rw [h.visible_eq])
  rw [← Guard.admits_congr h, ← h.length_eq]
  refine rel_ite fun hadmits => ?_
  obtain ⟨config, rfl⟩ := exists_retune_of_admits h hadmits
  change Option.Rel Eq ((s.fastGet index).map some) ((s.fastGet index).map some)
  cases s.fastGet index with
  | none => exact .none
  | some v => exact .some rfl

theorem setIndex_inStep (site : CallSite) (h : s.Equivalent t) {index : Nat}
    (hindex : index ≤ maxLength) (value : Value) (host : Host) :
    SameOutcome Eq (site.setIndex s index value host).1 (site.setIndex t index value host).1 ∧
      (site.setIndex s index value host).2 = (site.setIndex t index value host).2 := by
  rw [setIndex, setIndex, Guard.ofStore?_congr h]
  refine speculate_inStep (R := SameOutcome Eq) site (fun guard => ?_)
    ((show Store.Stepwise .plain _ from .assign hindex value).inStep s t h)
  rw [← Guard.admits_congr h, ← h.length_eq]
  refine rel_ite fun hadmits => ?_
  obtain ⟨config, rfl⟩ := exists_retune_of_admits h hadmits
  rw [Store.fastSet_retune]
  cases hset : s.fastSet index value with
  | none => exact .none
  | some u =>
    obtain ⟨rfl, -, hlt⟩ := Store.fastSet_spec h.left hset
    exact .some ⟨.ok rfl, .retune (Store.valid_put h.left hlt value) config⟩

/-! ### Sites with different histories

Two sites that went different ways do not count alike, and may take different paths. They answer
alike all the same, since each of them answers what the generic path does. -/

section Histories

variable (site site' : CallSite) (h : s.Equivalent t)

include h

theorem push_agree (values : List Value) (host : Host) :
    SameOutcome Eq (site.push s values host).1 (site'.push t values host).1 := by
  have hgeneric := Store.stepwise_genericPush values host
  have hs := (site.push_sameEnding h.left values).sameOutcome
    (site.valid_push h.left values host) (Store.stable_valid.keeps hgeneric s h.left)
  have ht := (site'.push_sameEnding h.right values).sameOutcome
    (site'.valid_push h.right values host) (Store.stable_valid.keeps hgeneric t h.right)
  exact (hs.trans (hgeneric.inStep s t h)).trans ht.symm

/-- The host has to let the last element go: only one of the two paths asks. -/
theorem pop_agree (hhost : ∀ i, host.deletable i) :
    SameOutcome Eq (site.pop s host).1 (site'.pop t host).1 := by
  have hgeneric := Store.stepwise_genericPop host
  have hs := (site.pop_sameEnding h.left fun _ => hhost _).sameOutcome
    (site.valid_pop h.left host) (Store.stable_valid.keeps hgeneric s h.left)
  have ht := (site'.pop_sameEnding h.right fun _ => hhost _).sameOutcome
    (site'.valid_pop h.right host) (Store.stable_valid.keeps hgeneric t h.right)
  exact (hs.trans (hgeneric.inStep s t h)).trans ht.symm

theorem getIndex_agree (index : Nat) (host : Host) :
    (site.getIndex s index host).1 = (site'.getIndex t index host).1 := by
  rw [getIndex_eq site h.left, getIndex_eq site' h.right, h.visible_eq]

theorem setIndex_agree {index : Nat} (hindex : index ≤ maxLength) (value : Value) (host : Host) :
    SameOutcome Eq (site.setIndex s index value host).1
      (site'.setIndex t index value host).1 := by
  rw [setIndex_eq site h.left, setIndex_eq site' h.right]
  exact (show Store.Stepwise .plain _ from .assign hindex value).inStep s t h

theorem concat_agree (hoperands : List.Forall₂ Operand.Equivalent operands operands')
    (host : Host) :
    SameResult Store.Equivalent (site.concat s operands host).1
      (site'.concat t operands' host).1 := by
  obtain ⟨hs, ht⟩ := Operand.Equivalent.valid_of_forall₂ hoperands
  have hleft : SameResult Store.Equivalent (site.concat s operands host).1 _ :=
    (site.concat_sameResult h.left hs).imp fun u v hu hv huv =>
      huv.equivalent (site.valid_concat h.left hs host u hu) (Store.valid_genericConcat hv)
  have hright : SameResult Store.Equivalent (site'.concat t operands' host).1 _ :=
    (site'.concat_sameResult h.right ht).imp fun u v hu hv huv =>
      huv.equivalent (site'.valid_concat h.right ht host u hu) (Store.valid_genericConcat hv)
  refine (hleft.trans (h.genericConcat hoperands host) fun _ _ _ => .trans).trans
    (hright.symm fun _ _ => .symm) fun _ _ _ => .trans

end Histories

end CallSite

end ArrayEngine
