import ArrayEngine.Proofs.Bulk.Invariant
import ArrayEngine.Proofs.Store.Alike

/-!
# Elements at the ends, by sparse arrays

What appending and removing at either end make of an array without holes, index by index and as one
block. Where the block form applies the two agree. Index by index, the only element that is removed
rather than overwritten is the last one, so that all a host has to allow is that.

## Main results

* `Store.takes_genericPop`, `Store.takes_genericShift_of_move`,
  `Store.takes_genericUnshift_of_move`: index by index on any array, given how it is moved
* `Store.takes_genericPush`, `Store.takes_genericShift`, `Store.takes_genericUnshift`: index by
  index without holes
* `Store.push_sameEnding`, `Store.pop_sameEnding`, `Store.shift_sameEnding`,
  `Store.unshift_sameEnding`: block or index by index
-/

namespace ArrayEngine.Store

variable {a : SparseArray} {s t : Store} {host : Host} {values : List Value} {v : Value}

/-! ### At the end -/

/-- Whatever is on the array, values are written behind it. -/
theorem takes_genericPush (hn : a.length + values.length ≤ maxLength) :
    Takes a (genericPush values host) (.ok (a.length + values.length))
      (a.replace a.length 0 values) := by
  refine takes_get ?_
  intro s hs
  dsimp only
  rw [length_eq_of_toSparse hs]
  refine (takes_checkLength hn).bind ((takes_assignAll (Nat.le_refl _) hn).bind ?_)
  rw [← (SparseArray.makesRoom_behind a values.length).cut_write]
  refine Takes.bind (takes_assignLength_of_le hn ?_) (takes_pure _)
  exact Nat.max_le.mpr ⟨Nat.le_add_right .., Nat.le_refl _⟩

/-- The last element is removed, and then the length is one less. -/
theorem takes_dropLast {α : Type} {n : Nat} {next : Edit Store α} {r : Except EngineError α}
    {b : SparseArray} (hlength : a.length ≤ n + 1) (hn : n ≤ maxLength) (hhost : host.deletable n)
    (hnext : Takes (a.cut n) next r b) :
    Takes a (do discard host n; assignLength host n; next) r b := by
  refine Takes.bind (takes_discard fun _ => hhost) (Takes.bind (takes_assignLength hn ?_) ?_)
  · intro i hi hsome
    rw [SparseArray.get?_remove] at hsome
    split at hsome
    · cases hsome
    · rw [a.get?_eq_none i (by omega)] at hsome
      cases hsome
  · rwa [SparseArray.cut_remove (Nat.le_refl n)]

theorem takes_genericPop (hpos : 0 < a.length) (hhost : host.deletable (a.length - 1)) :
    Takes a (genericPop host) (.ok ((a.visible host (a.length - 1)).getD .undefined))
      (a.cut (a.length - 1)) := by
  refine takes_of_valid fun hle _ => takes_get fun s hs => ?_
  have hlength : s.length = a.length := length_eq_of_toSparse hs
  dsimp only
  rw [hlength, if_neg (by omega)]
  refine takes_get ?_
  intro t ht
  rw [← visible_toSparse, ht]
  exact takes_dropLast (by omega) (by omega) hhost (takes_pure _)

/-! ### At the front -/

/-- A shift is a move down and the last element dropped, whatever the move makes of the array. -/
theorem takes_genericShift_of_move {b : SparseArray} (hpos : 0 < a.length)
    (hhost : host.deletable (a.length - 1)) (hb : b.length ≤ a.length)
    (hmove : Takes a ((List.range' 0 (a.length - 1)).forM fun k => transfer host (k + 1) (k + 0))
      (.ok ()) b) :
    Takes a (genericShift host) (.ok ((a.visible host 0).getD .undefined))
      (b.cut (a.length - 1)) := by
  refine takes_of_valid fun hle _ => takes_get fun s hs => ?_
  have hlength : s.length = a.length := length_eq_of_toSparse hs
  dsimp only
  rw [hlength, if_neg (by omega)]
  refine takes_get ?_
  intro t ht
  rw [← visible_toSparse, ht, List.range_eq_range']
  exact Takes.bind hmove (takes_dropLast (by omega) (by omega) hhost (takes_pure _))

theorem takes_genericShift (hfull : a.IsFull) (hfirst : a.get? 0 = some v)
    (hhost : host.deletable (a.length - 1)) :
    Takes a (genericShift host) (.ok v) (a.replace 0 1 []) := by
  have hpos : 0 < a.length := SparseArray.lt_length hfirst
  refine takes_of_valid fun hle _ => ?_
  have hmove : Takes a ((List.range' 0 (a.length - 1)).forM fun k => transfer host (k + 1) (k + 0))
      (.ok ()) (a.move (0 + 1) (0 + 0) (a.length - 1)) :=
    takes_moveDown (Nat.zero_le 1) (fun k hk => hfull _ (by omega)) (by omega)
  have hroom : a.MakesRoom (a.move (0 + 1) (0 + 0) (a.length - 1)) 0 1 0 :=
    SparseArray.makesRoom_move 0 hpos
  have hshift := takes_genericShift_of_move hpos hhost (hroom.length_le.trans (by omega)) hmove
  rwa [SparseArray.visible_of_get? hfirst,
    show (a.move (0 + 1) (0 + 0) (a.length - 1)).cut (a.length - 1) = a.replace 0 1 [] from
      hroom.cut_eq_replace_nil] at hshift

/-- Values are put in front by a move up, whatever the move makes of the array. -/
theorem takes_genericUnshift_of_move {b : SparseArray} (hvalues : values ≠ [])
    (hn : a.length + values.length ≤ maxLength) (hb : b.length ≤ a.length + values.length)
    (hmove : Takes a ((List.range' 0 a.length).reverse.forM fun k =>
      transfer host (k + 0) (k + values.length)) (.ok ()) b) :
    Takes a (genericUnshift values host) (.ok (a.length + values.length))
      ((b.write 0 values).cut (a.length + values.length)) := by
  refine takes_get ?_
  intro s hs
  dsimp only
  rw [length_eq_of_toSparse hs, if_pos (List.length_pos_iff.mpr hvalues), List.range_eq_range']
  refine (takes_checkLength hn).bind (Takes.bind hmove ?_)
  refine Takes.bind (takes_assignAll (Nat.zero_le _) (by omega)) ?_
  refine Takes.bind (takes_assignLength_of_le hn ?_) (takes_pure _)
  rw [SparseArray.length_write]
  omega

/-- Without values nothing is changed. -/
theorem perform_genericUnshift_nil (h : s.length ≤ maxLength) (host : Host) :
    (genericUnshift [] host).perform s = (.ok s.length, s) := by
  rw [genericUnshift, Edit.perform_get_bind]
  dsimp only [List.length_nil, Nat.add_zero]
  rw [checkLength, if_pos h, if_neg (Nat.lt_irrefl 0)]
  exact Edit.perform_bind_ok (perform_assignLength_self host s) _

theorem takes_genericUnshift_nil :
    Takes a (genericUnshift [] host) (.ok a.length) (a.replace 0 0 []) := by
  rintro s hs rfl
  exact ⟨s, perform_genericUnshift_nil hs.length_le host, hs,
    (SparseArray.replace_nil (Nat.zero_le _)).symm⟩

theorem takes_genericUnshift (hfull : a.IsFull) (hn : a.length + values.length ≤ maxLength) :
    Takes a (genericUnshift values host) (.ok (a.length + values.length))
      (a.replace 0 0 values) := by
  rcases eq_or_ne values [] with rfl | hvalues
  · exact takes_genericUnshift_nil
  · have hmove : Takes a ((List.range' 0 a.length).reverse.forM fun k =>
          transfer host (k + 0) (k + values.length))
        (.ok ()) (a.move (0 + 0) (0 + values.length) a.length) :=
      takes_moveUp (Nat.zero_le _) (fun k hk => hfull _ (by omega)) (by omega)
    have hroom : a.MakesRoom (a.move (0 + 0) (0 + values.length) a.length) 0 0 values.length :=
      SparseArray.makesRoom_move values.length (Nat.zero_le _)
    have hunshift := takes_genericUnshift_of_move hvalues hn
      (hroom.length_le.trans (by omega)) hmove
    rwa [show ((a.move (0 + 0) (0 + values.length) a.length).write 0 values).cut
      (a.length + values.length) = a.replace 0 0 values from hroom.cut_write] at hunshift

/-! ### Block or index by index -/

theorem push_sameEnding (h : s.Valid) (values : List Value) (host : Host) :
    SameEnding Eq ((push values host).perform s) ((genericPush values host).perform s) := by
  rw [push, Edit.perform_orElse]
  split
  · rename_i n t hpush
    obtain ⟨ht, hreplace, rfl, hn, hcontinuous⟩ := fastPush_spec h hpush
    have hfast : Takes t.toSparse (pure (s.length + values.length)) (.ok (s.length + values.length))
        (s.toSparse.replace s.length 0 values) := hreplace ▸ takes_pure _
    exact hfast.sameEnding (takes_genericPush hn) ht h (hcontinuous.1.replace (Nat.le_refl _))
  · exact SameEnding.rfl

/-- The last element is the only one that has to be removable. -/
theorem pop_sameEnding (h : s.Valid) (hhost : 0 < s.length → host.deletable (s.length - 1)) :
    SameEnding Eq ((pop host).perform s) ((genericPop host).perform s) := by
  rw [pop, Edit.perform_orElse]
  split
  · rename_i v t hpop
    obtain ⟨ht, hcut, hlast, hpos, hcontinuous⟩ := fastPop_spec h hpop
    have hfast : Takes t.toSparse (pure v) (.ok v) (s.toSparse.cut (s.length - 1)) :=
      hcut ▸ takes_pure v
    have hpop := takes_genericPop (a := s.toSparse) hpos (hhost hpos)
    rw [show s.toSparse.visible host (s.toSparse.length - 1) = some v from
      SparseArray.visible_of_get? hlast] at hpop
    exact hfast.sameEnding hpop ht h
      (hcontinuous.1.cut (Nat.sub_le ..))
  · exact SameEnding.rfl

/-- The first element is taken off a continuous store. -/
theorem fastShift_spec (h : s.Valid) (hshift : s.fastShift host = some (v, t)) :
    t.Valid ∧ t.toSparse = s.toSparse.replace 0 1 [] ∧ s.get? 0 = some v ∧ 0 < s.length ∧
      s.toSparse.Continuous host := by
  simp only [fastShift, shiftLeft, Option.ite_none_left_eq_some, Option.map_eq_some_iff] at hshift
  obtain ⟨hne, ⟨removed, u⟩, ⟨-, hsplice⟩, heq⟩ := hshift
  have hpos : 0 < s.length := Nat.pos_of_ne_zero hne
  obtain ⟨rfl, rfl⟩ := Prod.mk.inj heq
  obtain ⟨⟨-, hwindow⟩, ⟨ht, hgap⟩, hcontinuous⟩ := fastSplice_spec h hsplice
  obtain ⟨v, hv⟩ := Option.isSome_iff_exists.mp (hcontinuous.1 0 hpos)
  have hfirst : removed.get? 0 = some v := (get?_eq_of_toSparse hwindow 0).trans hv
  have hreplace : (s.toSparse.splice 0 1 0 fun _ => none).write 0 []
      = s.toSparse.replace 0 1 [] := SparseArray.write_splice_eq_replace [] (Nat.zero_le _)
  rw [SparseArray.write_nil (Nat.zero_le _)] at hreplace
  refine ⟨ht, hgap.trans hreplace, ?_, hpos, hcontinuous⟩
  rw [hfirst]
  exact hv

theorem shift_sameEnding (h : s.Valid) (hhost : 0 < s.length → host.deletable (s.length - 1)) :
    SameEnding Eq ((shift host).perform s) ((genericShift host).perform s) := by
  rw [shift, Edit.perform_orElse]
  split
  · rename_i v t hshift
    obtain ⟨ht, hreplace, hfirst, hpos, hcontinuous⟩ := fastShift_spec h hshift
    have hfast : Takes t.toSparse (pure v) (.ok v) (s.toSparse.replace 0 1 []) :=
      hreplace ▸ takes_pure v
    exact hfast.sameEnding (takes_genericShift hcontinuous.1 hfirst (hhost hpos)) ht h
      (hcontinuous.1.replace hpos)
  · exact SameEnding.rfl

/-- Values are written where room was made for them at the front of a continuous store. -/
theorem shiftRight_spec (h : s.Valid) (hshift : s.shiftRight values.length host = some t) :
    t.Valid ∧ s.length + values.length ≤ maxLength ∧ s.toSparse.Continuous host ∧
      Takes t.toSparse (do assignAll 0 values; return (← get).length)
        (.ok (s.length + values.length)) (s.toSparse.replace 0 0 values) := by
  obtain ⟨⟨removed, u⟩, hsplice, rfl⟩ := Option.map_eq_some_iff.mp hshift
  obtain ⟨-, ⟨ht, hgap⟩, hcontinuous⟩ := fastSplice_spec h hsplice
  have hn : s.length + values.length ≤ maxLength := (fastSplice_bounds hsplice).2.2
  have hreplace : (s.toSparse.splice 0 0 values.length fun _ => none).write 0 values
      = s.toSparse.replace 0 0 values :=
    SparseArray.write_splice_eq_replace values (Nat.zero_le _)
  refine ⟨ht, hn, hcontinuous, ?_⟩
  rw [hgap]
  refine Takes.bind (takes_assignAll (Nat.zero_le _) (by omega)) (takes_get fun w hw => ?_)
  rw [hreplace] at hw ⊢
  rw [length_eq_of_toSparse hw]
  exact takes_pure _

theorem unshift_sameEnding (h : s.Valid) (values : List Value) (host : Host) :
    SameEnding Eq ((unshift values host).perform s) ((genericUnshift values host).perform s) := by
  rw [perform_unshift]
  split
  · rename_i t hshift
    obtain ⟨ht, hn, hcontinuous, hfast⟩ := shiftRight_spec h hshift
    exact hfast.sameEnding (takes_genericUnshift hcontinuous.1 hn) ht h
      (hcontinuous.1.replace (Nat.zero_le _))
  · exact SameEnding.rfl

end ArrayEngine.Store
