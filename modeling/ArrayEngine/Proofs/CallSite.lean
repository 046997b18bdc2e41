import ArrayEngine.CallSite.Basic
import ArrayEngine.Proofs.Bulk.Ends
import ArrayEngine.Proofs.Operation

/-!
# Call sites are transparent

Whatever a call site knows and however it came to know it, a call answers what the generic operation
answers and leaves what that leaves. Only the site itself tells a specialised call from a generic
one: by its next guard, and by what it counts.

A specialised path has to be looked at only where it answers; a guard that does not hold, is too
narrow or belongs to another kind of receiver makes it answer nothing, with nothing changed.

## Main results

* `CallSite.speculate_spec`: what holds of both paths holds of a call
* `CallSite.transparent`: all calls, at any site
-/

namespace ArrayEngine.CallSite

open Store (SameArray SameEnding)

variable {s : Store} {host : Host}

/-- A call answers what one of the two paths answers. -/
theorem speculate_spec {α : Type} {P : α → Prop} {derived : Option Guard}
    {specialised : Guard → Option α} {generic : Unit → α} (site : CallSite)
    (hspecialised : ∀ guard answer, specialised guard = some answer → P answer)
    (hgeneric : P (generic ())) : P (site.speculate derived specialised generic).1 := by
  rw [speculate]
  split
  · exact hgeneric
  · rename_i guard _
    split
    · rename_i answer hanswer
      exact hspecialised guard answer hanswer
    · exact hgeneric

/-! ### Calls on stores -/

theorem push_sameEnding (site : CallSite) (h : s.Valid) (values : List Value) :
    SameEnding Eq (site.push s values host).1 ((Store.genericPush values host).perform s) := by
  refine site.speculate_spec
    (P := (SameEnding Eq · ((Store.genericPush values host).perform s)))
    (fun guard answer hanswer => ?_) .rfl
  rw [Option.ite_none_right_eq_some, Option.map_eq_some_iff] at hanswer
  obtain ⟨-, ⟨n, t⟩, hpush, rfl⟩ := hanswer
  have hblock := Store.push_sameEnding h values host
  rwa [Store.push, Edit.perform_orElse, hpush] at hblock

theorem pop_sameEnding (site : CallSite) (h : s.Valid)
    (hhost : 0 < s.length → host.deletable (s.length - 1)) :
    SameEnding Eq (site.pop s host).1 ((Store.genericPop host).perform s) := by
  refine site.speculate_spec (P := (SameEnding Eq · ((Store.genericPop host).perform s)))
    (fun guard answer hanswer => ?_) .rfl
  rw [Option.ite_none_right_eq_some, Option.map_eq_some_iff] at hanswer
  obtain ⟨-, ⟨v, t⟩, hpop, rfl⟩ := hanswer
  have hblock := Store.pop_sameEnding h hhost
  rwa [Store.pop, Edit.perform_orElse, hpop] at hblock

theorem concat_sameResult (site : CallSite) (h : s.Valid) {operands : List Operand}
    (hoperands : ∀ o ∈ operands, o.Valid) :
    SameResult SameArray (site.concat s operands host).1 (s.genericConcat operands host) := by
  refine site.speculate_spec (P := (SameResult SameArray · (s.genericConcat operands host)))
    (fun guard answer hanswer => ?_) (.refl SameArray.refl _)
  rw [Option.ite_none_right_eq_some, Option.map_eq_some_iff] at hanswer
  obtain ⟨-, t, hconcat, rfl⟩ := hanswer
  obtain ⟨u, hgeneric, -, heq⟩ := Store.exists_genericConcat h hoperands hconcat
  rw [hgeneric]
  exact .ok (Store.toSparse_eq_iff.mp heq.symm)

theorem getIndex_eq (site : CallSite) (h : s.Valid) (index : Nat) :
    (site.getIndex s index host).1 = s.visible host index := by
  refine site.speculate_spec (P := (· = s.visible host index)) (fun guard answer hanswer => ?_) rfl
  rw [Option.ite_none_right_eq_some, Option.map_eq_some_iff] at hanswer
  obtain ⟨-, v, hget, rfl⟩ := hanswer
  exact (SparseArray.visible_of_get? (a := s.toSparse) (Store.fastGet_spec h hget)).symm

/-- A write in place leaves the very store that the generic write leaves. -/
theorem setIndex_eq (site : CallSite) (h : s.Valid) (index : Nat) (value : Value) :
    (site.setIndex s index value host).1 = (Store.assign index value).perform s := by
  refine site.speculate_spec (P := (· = (Store.assign index value).perform s))
    (fun guard answer hanswer => ?_) rfl
  rw [Option.ite_none_right_eq_some, Option.map_eq_some_iff] at hanswer
  obtain ⟨-, t, hset, rfl⟩ := hanswer
  obtain ⟨rfl, -, hlt⟩ := Store.fastSet_spec h hset
  exact (if_neg (Nat.ne_of_lt hlt)).symm

/-! ### Stores that calls leave and answer -/

theorem valid_push (site : CallSite) (h : s.Valid) (values : List Value) (host : Host) :
    (site.push s values host).1.2.Valid := by
  refine site.speculate_spec (P := fun p : Outcome Store Nat => p.2.Valid)
    (fun guard answer hanswer => ?_)
    (Store.stable_valid.keeps (Store.stepwise_genericPush values host) s h)
  rw [Option.ite_none_right_eq_some, Option.map_eq_some_iff] at hanswer
  obtain ⟨-, ⟨n, t⟩, hpush, rfl⟩ := hanswer
  exact Store.stable_valid.fastPush h hpush

theorem valid_pop (site : CallSite) (h : s.Valid) (host : Host) :
    (site.pop s host).1.2.Valid := by
  refine site.speculate_spec (P := fun p : Outcome Store Value => p.2.Valid)
    (fun guard answer hanswer => ?_)
    (Store.stable_valid.keeps (Store.stepwise_genericPop host) s h)
  rw [Option.ite_none_right_eq_some, Option.map_eq_some_iff] at hanswer
  obtain ⟨-, ⟨v, t⟩, hpop, rfl⟩ := hanswer
  exact Store.stable_valid.fastPop h hpop

theorem valid_concat (site : CallSite) (h : s.Valid) {operands : List Operand}
    (hoperands : ∀ o ∈ operands, o.Valid) (host : Host) :
    ∀ u, (site.concat s operands host).1 = .ok u → u.Valid := by
  refine site.speculate_spec
    (P := fun r : Except EngineError Store => ∀ u, r = .ok u → u.Valid)
    (fun guard answer hanswer => ?_) (fun u hu => Store.valid_genericConcat hu)
  rw [Option.ite_none_right_eq_some, Option.map_eq_some_iff] at hanswer
  obtain ⟨-, t, hconcat, rfl⟩ := hanswer
  rintro _ ⟨⟩
  exact (Store.fastConcat_spec h hoperands hconcat).1

/-! ### Calls on views -/

theorem getViewIndex_eq (site : CallSite) (view : View) (memory : Memory) (index : Nat) :
    (site.getViewIndex view memory index).1 = view.get? memory index := by
  refine site.speculate_spec (P := (· = view.get? memory index))
    (fun guard answer hanswer => ?_) rfl
  rw [Option.ite_none_right_eq_some, Option.map_eq_some_iff] at hanswer
  obtain ⟨-, v, hget, rfl⟩ := hanswer
  exact hget.symm

theorem setViewIndex_eq (site : CallSite) (view : View) (memory : Memory) (index : Nat)
    (value : Value) :
    (site.setViewIndex view memory index value).1 = (view.set index value).perform memory := by
  refine site.speculate_spec (P := (· = (view.set index value).perform memory))
    (fun guard answer hanswer => ?_) rfl
  rw [Option.ite_none_right_eq_some] at hanswer
  exact (Option.some.inj hanswer.2).symm

/-! ### All calls -/

/-- **Call sites are transparent.** At any site, whatever its history, a call on a reachable store
or on a view gives the same answer or failure as the generic operation, and leaves the same behind.
Popping asks the host to let the last element go. -/
theorem transparent (site : CallSite) (h : s.Reachable) (host : Host) :
    (∀ values, SameEnding Eq (site.push s values host).1
      ((Store.genericPush values host).perform s)) ∧
    ((0 < s.length → host.deletable (s.length - 1)) →
      SameEnding Eq (site.pop s host).1 ((Store.genericPop host).perform s)) ∧
    (∀ operands, (∀ t, .array t ∈ operands → t.Reachable) →
      SameResult SameArray (site.concat s operands host).1 (s.genericConcat operands host)) ∧
    (∀ index, (site.getIndex s index host).1 = (s.get? index).or (host.inherited index)) ∧
    (∀ index value, SameEnding Eq (site.setIndex s index value host).1
      ((Store.assign index value).perform s)) ∧
    (∀ view memory index, (site.getViewIndex view memory index).1 = view.get? memory index) ∧
    (∀ view memory index value, (site.setViewIndex view memory index value).1
      = (view.set index value).perform memory) := by
  have hvalid := h.valid
  refine ⟨fun values => push_sameEnding site hvalid values, fun hhost => pop_sameEnding site hvalid
    hhost, fun operands hoperands => concat_sameResult site hvalid fun o ho => ?_,
    getIndex_eq site hvalid, fun index value => ?_, getViewIndex_eq site, setViewIndex_eq site⟩
  · cases o with
    | array t => exact (hoperands t ho).valid
    | value v => trivial
  · rw [setIndex_eq site hvalid]
    exact .rfl

/-- The first call of a new site takes the specialised path. -/
theorem transparent_of_one :
    let s := Store.ofValues {} [.null]
    let site := CallSite.fresh .pop {}
    (site.pop s .plain).2.hits = 1 ∧
      SameEnding Eq (site.pop s .plain).1 ((Store.genericPop .plain).perform s) ∧
      SameResult SameArray (site.concat s [.array s] .plain).1
        (s.genericConcat [.array s] .plain) := by
  have hreachable : Store.Reachable (.ofValues {} [.null]) := .ofValues {} [.null] (by decide)
  obtain ⟨-, hpop, hconcat, -⟩ := transparent (.fresh .pop {}) hreachable .plain
  refine ⟨rfl, hpop fun _ => rfl, hconcat _ fun t ht => ?_⟩
  rw [List.mem_singleton, Operand.array.injEq] at ht
  rwa [ht]

end ArrayEngine.CallSite
