import ArrayEngine.Proofs.Visible.Ends

/-!
# Ends that are undone

What has been put at an end of an array is taken from it again, one value at a time, and leaves the
array as it was, holes included; only its kind stays as wide as the values made it. A push is undone
by pops under every host that lets all elements go. Where nothing is inherited a shift moves holes
as holes, so that an unshift is undone by shifts.

Each step may go its own way: a push onto a continuous store is a block operation, and the pops that
follow are, too, while a store with holes is worked on index by index. By sparse arrays there is one
step in either case, `Store.takes_push` and its like, and a round trip is an induction on the
values.

## Main definitions

* `Edit.times`: an edit performed several times
* `Store.UndoneBy`: a round trip

## Main results

* `Store.takes_shift`, `Store.takes_unshift`: moves of arrays with holes where nothing is inherited
* `Store.takes_times`: values that are taken back, from what one step takes
* `Store.Reachable.ends_inverse`
-/

namespace ArrayEngine

/-- Performs an edit `n` times, and answers all answers in order. -/
def Edit.times {σ α : Type} (edit : Edit σ α) : Nat → Edit σ (List α)
  | 0 => pure []
  | n + 1 => do
    let first ← edit
    let rest ← edit.times n
    return first :: rest

/-! ### Sparse arrays -/

namespace SparseArray

variable {a b : SparseArray} {host : Host}

/-- Elements that have moved make room, and leave the kind as it was. -/
theorem Overlaid.makesRoom {start count inserted : Nat} (hheld : a.Held)
    (hend : start + count ≤ a.length)
    (h : a.Overlaid b (fun k => a.get? (start + count + k)) (start + inserted)
      (a.length - count - start)) : a.MakesRoom b start count inserted where
  kind_eq := ElementKind.le_antisymm
    (h.kind_le a.kind ElementKind.le_rfl fun _ _ v hv => hheld _ v hv) h.le_kind
  start_le := Nat.le_trans (by omega) h.le_length
  length_le := h.length_le.trans (by omega)
  before i hi := h.get?_outside (by omega)
  behind i hi hroom := by
    rw [h.get?_eq, if_pos (by omega)]
    exact congrArg a.get? (by omega)

/-- The last of some values is taken from the end. -/
theorem cut_replace_concat (a : SparseArray) (values : List Value) (v : Value) :
    (a.replace a.length 0 (values ++ [v])).cut (a.length + values.length)
      = (a.widenTo (.of v)).replace a.length 0 values := by
  refine ext_of_lt rfl ?_ fun i hi => ?_
  · rw [kind_cut, kind_replace, kind_replace, kind_widenTo, ElementKind.ofAll_concat,
      ElementKind.join_comm (.ofAll values), ElementKind.join_assoc]
  · have hi : i < a.length + values.length := hi
    have hconcat : (values ++ [v]).length = values.length + 1 := List.length_append
    rw [get?_cut, if_pos hi, get?_replace (by omega), get?_replace hi, hconcat]
    by_cases hbefore : i < a.length
    · rw [if_pos hbefore, if_pos hbefore]
      rfl
    · rw [if_neg hbefore, if_neg hbefore, if_pos (by omega), if_pos hi,
        List.getElem?_append_left (by omega)]

/-- The first of some values is taken from the front. -/
theorem replace_replace_cons (a : SparseArray) (v : Value) (values : List Value) :
    (a.replace 0 0 (v :: values)).replace 0 1 [] = (a.widenTo (.of v)).replace 0 0 values := by
  refine ext_of_lt rfl ?_ fun i hi => ?_
  · have hnil : ElementKind.ofAll [] = .empty := rfl
    rw [kind_replace, kind_replace, kind_replace, kind_widenTo, ElementKind.ofAll_cons, hnil,
      ElementKind.join_empty, ElementKind.join_assoc]
  · have hi : i < a.length + values.length := hi
    have hcons : (v :: values).length = values.length + 1 := rfl
    have hshift : ((a.replace 0 0 (v :: values)).replace 0 1 []).get? i
        = (a.replace 0 0 (v :: values)).get? (i + 1) := get?_replace (by simpa using hi)
    rw [hshift, get?_replace (by omega), get?_replace hi, hcons, if_neg (Nat.not_lt_zero _),
      if_neg (Nat.not_lt_zero _)]
    by_cases hinside : i < values.length
    · rw [if_pos (by omega), if_pos (by omega), Nat.sub_zero, Nat.sub_zero,
        List.getElem?_cons_succ]
    · rw [if_neg (by omega), if_neg (by omega), Nat.add_zero, Nat.add_zero,
        Nat.add_sub_add_right]
      rfl

end SparseArray

namespace Store

variable {a : SparseArray} {s : Store} {host : Host} {values : List Value}

/-! ### One step -/

theorem takes_push (hn : a.length + values.length ≤ maxLength) :
    Takes a (push values host) (.ok (a.length + values.length)) (a.replace a.length 0 values) := by
  rintro s hs rfl
  rw [push, Edit.perform_orElse]
  split
  · rename_i n t hpush
    obtain ⟨ht, hreplace, rfl, -⟩ := fastPush_spec hs hpush
    exact ⟨t, rfl, ht, hreplace⟩
  · exact takes_genericPush hn s hs rfl

theorem takes_pop (hpos : 0 < a.length) (hhost : host.deletable (a.length - 1)) :
    Takes a (pop host) (.ok ((a.visible host (a.length - 1)).getD .undefined))
      (a.cut (a.length - 1)) := by
  rintro s hs rfl
  rw [pop, Edit.perform_orElse]
  split
  · rename_i v t hpop
    obtain ⟨ht, hcut, hlast, -⟩ := fastPop_spec hs hpop
    have hseen : s.toSparse.visible host (s.length - 1) = some v :=
      SparseArray.visible_of_get? hlast
    refine ⟨t, ?_, ht, hcut⟩
    rw [length_toSparse, hseen, Option.getD_some]
  · exact takes_genericPop hpos hhost s hs rfl

/-- Where nothing is inherited all elements move down, and holes with them. -/
theorem takes_genericShift_of_not_inherited (hhost : ∀ i, host.deletable i)
    (hnone : ∀ i, host.inherited i = none) (hpos : 0 < a.length) :
    Takes a (genericShift host) (.ok ((a.get? 0).getD .undefined)) (a.replace 0 1 []) := by
  refine takes_of_valid fun hle hheld => ?_
  obtain ⟨b, hmove, hb⟩ := exists_moveSeenDown (a := a) hhost 0 (a.length - 1) (Nat.zero_le 1)
    (by omega)
  simp only [SparseArray.visible_of_not_inherited (hnone _)] at hb
  have hroom : a.MakesRoom b 0 1 0 := hb.makesRoom hheld hpos
  have hshift := takes_genericShift_of_move hpos (hhost _) (hroom.length_le.trans (by omega)) hmove
  rwa [SparseArray.visible_of_not_inherited (hnone 0), hroom.cut_eq_replace_nil] at hshift

theorem takes_shift (hhost : ∀ i, host.deletable i) (hnone : ∀ i, host.inherited i = none)
    (hpos : 0 < a.length) :
    Takes a (shift host) (.ok ((a.get? 0).getD .undefined)) (a.replace 0 1 []) := by
  rintro s hs rfl
  rw [shift, Edit.perform_orElse]
  split
  · rename_i v t hshift
    obtain ⟨ht, hreplace, hfirst, -⟩ := fastShift_spec hs hshift
    refine ⟨t, ?_, ht, hreplace⟩
    rw [get?_toSparse, hfirst, Option.getD_some]
  · exact takes_genericShift_of_not_inherited hhost hnone hpos s hs rfl

/-- Values are put before an array that has moved up, holes and all. -/
theorem takes_genericUnshift_of_not_inherited (hhost : ∀ i, host.deletable i)
    (hnone : ∀ i, host.inherited i = none) (hn : a.length + values.length ≤ maxLength) :
    Takes a (genericUnshift values host) (.ok (a.length + values.length))
      (a.replace 0 0 values) := by
  rcases eq_or_ne values [] with rfl | hvalues
  · exact takes_genericUnshift_nil
  · refine takes_of_valid fun _ hheld => ?_
    obtain ⟨b, hmove, hb⟩ := exists_moveSeenUp (a := a) hhost 0 a.length
      (Nat.zero_le values.length) (by omega)
    simp only [SparseArray.visible_of_not_inherited (hnone _)] at hb
    have hroom : a.MakesRoom b 0 0 values.length := hb.makesRoom hheld (Nat.zero_le _)
    have hunshift :=
      takes_genericUnshift_of_move hvalues hn (hroom.length_le.trans (by omega)) hmove
    rwa [show (b.write 0 values).cut (a.length + values.length) = a.replace 0 0 values from
      hroom.cut_write] at hunshift

theorem takes_unshift (hhost : ∀ i, host.deletable i) (hnone : ∀ i, host.inherited i = none)
    (hn : a.length + values.length ≤ maxLength) :
    Takes a (unshift values host) (.ok (a.length + values.length)) (a.replace 0 0 values) := by
  rintro s hs rfl
  rw [perform_unshift]
  split
  · rename_i t hshift
    obtain ⟨ht, -, -, hwrite⟩ := shiftRight_spec hs hshift
    exact hwrite t ht rfl
  · exact takes_genericUnshift_of_not_inherited hhost hnone hn s hs rfl

/-! ### Values that are taken back -/

/-- A pop takes the last of the values behind an array. -/
theorem takes_pop_replace (hhost : ∀ i, host.deletable i) (a : SparseArray) (values : List Value)
    (v : Value) :
    Takes (a.replace a.length 0 (values ++ [v])) (pop host) (.ok v)
      ((a.widenTo (.of v)).replace a.length 0 values) := by
  have hconcat : (values ++ [v]).length = values.length + 1 := List.length_append
  have hlength : (a.replace a.length 0 (values ++ [v])).length = a.length + values.length + 1 := by
    rw [SparseArray.length_replace, hconcat]
    rfl
  have hlast : (a.replace a.length 0 (values ++ [v])).get? (a.length + values.length) = some v := by
    rw [SparseArray.get?_replace (by omega), if_neg (by omega), if_pos (by omega),
      Nat.add_sub_cancel_left, List.getElem?_concat_length]
  have hpop : Takes (a.replace a.length 0 (values ++ [v])) (pop host) _ _ :=
    takes_pop (by omega) (hhost _)
  rwa [hlength, Nat.add_sub_cancel, SparseArray.visible_of_get? hlast, Option.getD_some,
    SparseArray.cut_replace_concat] at hpop

/-- A shift takes the first of the values before an array. -/
theorem takes_shift_replace (hhost : ∀ i, host.deletable i) (hnone : ∀ i, host.inherited i = none)
    (a : SparseArray) (v : Value) (values : List Value) :
    Takes (a.replace 0 0 (v :: values)) (shift host) (.ok v)
      ((a.widenTo (.of v)).replace 0 0 values) := by
  have hlength : (a.replace 0 0 (v :: values)).length = a.length + values.length + 1 := rfl
  have hfirst : (a.replace 0 0 (v :: values)).get? 0 = some v := by
    rw [SparseArray.get?_replace (Nat.zero_lt_succ _), if_neg (Nat.not_lt_zero _),
      if_pos (by rw [List.length_cons]; omega)]
    rfl
  have hshift : Takes (a.replace 0 0 (v :: values)) (shift host) _ _ :=
    takes_shift hhost hnone (by omega)
  rwa [hfirst, Option.getD_some, SparseArray.replace_replace_cons] at hshift

/-- An edit that takes one value after another from where they were put takes all of them, and
leaves what they were put on. -/
theorem takes_times {undo : Edit Store Value} (putOn : SparseArray → List Value → SparseArray)
    (hnil : ∀ a, putOn a [] = a)
    (hcons : ∀ a v values,
      Takes (putOn a (v :: values)) undo (.ok v) (putOn (a.widenTo (.of v)) values))
    (a : SparseArray) (values : List Value) :
    Takes (putOn a values) (undo.times values.length) (.ok values)
      (a.widenTo (.ofAll values)) := by
  induction values generalizing a with
  | nil =>
    rw [hnil, show ElementKind.ofAll [] = .empty from rfl, SparseArray.widenTo_empty]
    exact takes_pure []
  | cons v values ih =>
    have hrest := ih (a.widenTo (.of v))
    rw [SparseArray.widenTo_widenTo, ← ElementKind.ofAll_cons] at hrest
    exact (hcons a v values).bind (hrest.bind (takes_pure _))

theorem takes_times_pop (hhost : ∀ i, host.deletable i) (a : SparseArray) (values : List Value) :
    Takes (a.replace a.length 0 values) ((pop host).times values.length) (.ok values.reverse)
      (a.widenTo (.ofAll values)) := by
  have htimes := takes_times (fun a stack => a.replace a.length 0 stack.reverse)
    (fun _ => SparseArray.replace_nil (Nat.le_refl _))
    (fun a v stack => by
      rw [List.reverse_cons]
      exact takes_pop_replace hhost a stack.reverse v)
    a values.reverse
  rwa [List.reverse_reverse, List.length_reverse, ElementKind.ofAll_reverse] at htimes

theorem takes_times_shift (hhost : ∀ i, host.deletable i) (hnone : ∀ i, host.inherited i = none)
    (a : SparseArray) (values : List Value) :
    Takes (a.replace 0 0 values) ((shift host).times values.length) (.ok values)
      (a.widenTo (.ofAll values)) :=
  takes_times (fun a values => a.replace 0 0 values)
    (fun _ => SparseArray.replace_nil (Nat.zero_le _)) (takes_shift_replace hhost hnone) a values

/-! ### Round trips -/

/-- The edit puts values on the store and answers the new length. The second edit, performed as many
times, answers the values in the given order, and leaves the store as it was but for its kind, which
is then wide enough for the values as well. -/
def UndoneBy (s : Store) (values : List Value) (edit : Edit Store Nat) (undo : Edit Store Value)
    (answers : List Value) : Prop :=
  ∃ t u, edit.perform s = (.ok (s.length + values.length), t) ∧
    (undo.times values.length).perform t = (.ok answers, u) ∧
    u.length = s.length ∧ (∀ i, u.get? i = s.get? i) ∧ u.kind = s.kind.join (.ofAll values)

theorem undoneBy_of_takes {edit : Edit Store Nat} {undo : Edit Store Value} {b : SparseArray}
    {answers : List Value} (h : s.Valid)
    (hedit : Takes s.toSparse edit (.ok (s.length + values.length)) b)
    (hundo : Takes b (undo.times values.length) (.ok answers)
      (s.toSparse.widenTo (.ofAll values))) : s.UndoneBy values edit undo answers := by
  obtain ⟨t, hperform, ht, hb⟩ := hedit s h rfl
  obtain ⟨u, hperform', -, hu⟩ := hundo t ht hb
  exact ⟨t, u, hperform, hperform', length_eq_of_toSparse hu, get?_eq_of_toSparse hu,
    kind_eq_of_toSparse hu⟩

/-- **Pushes are undone by pops, and unshifts by shifts**, on any store, as long as it stays within
the greatest length. Under a host that lets every element go, as many pops as values were pushed
answer these from the last one to the first. Under the plain host, as many shifts as values were
unshifted answer these in order. Either way the length and all elements are as they were, holes
included, and the kind is the old one joined with those of the values. -/
theorem Reachable.ends_inverse (h : s.Reachable) (values : List Value)
    (hn : s.length + values.length ≤ maxLength) :
    (∀ host : Host, (∀ i, host.deletable i) →
      s.UndoneBy values (push values host) (pop host) values.reverse) ∧
    s.UndoneBy values (unshift values .plain) (shift .plain) values := by
  refine ⟨?_, ?_⟩
  · intro host hhost
    exact undoneBy_of_takes h.valid (takes_push hn) (takes_times_pop hhost s.toSparse values)
  · have hhost : ∀ i, Host.plain.deletable i := fun _ => rfl
    have hnone : ∀ i, Host.plain.inherited i = none := fun _ => rfl
    exact undoneBy_of_takes h.valid (takes_unshift hhost hnone hn)
      (takes_times_shift hhost hnone s.toSparse values)

/-- Two holes, the second with a value inherited at it, and two values: pops answer the values, and
the holes are holes again. -/
theorem ends_inverse_of_holes :
    let s := holes {} 2
    let host := Host.plain.inherit 1 .null
    let values : List Value := [.undefined, .boolean true]
    s.Reachable ∧ s.length + values.length ≤ maxLength ∧
      (∃ t u, (push values host).perform s = (.ok 4, t) ∧
        ((pop host).times 2).perform t = (.ok [.boolean true, .undefined], u) ∧
        u.length = 2 ∧ (∀ i, u.get? i = none) ∧ u.kind = .object) ∧
      s.UndoneBy values (unshift values .plain) (shift .plain) values := by
  intro s host values
  have hreachable : s.Reachable := .holes {} 2
  obtain ⟨hpop, hshift⟩ := Reachable.ends_inverse hreachable values (by decide)
  obtain ⟨t, u, hpush, hpops, hlength, hget, hkind⟩ := hpop host fun _ => rfl
  have hholes : ∀ i, s.get? i = none := get?_eq_of_toSparse (toSparse_holes {} 2)
  exact ⟨hreachable, by decide,
    ⟨t, u, hpush, hpops, hlength, fun i => (hget i).trans (hholes i), hkind⟩, hshift⟩

end Store

end ArrayEngine
