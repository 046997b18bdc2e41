import ArrayEngine.Proofs.Bulk.Order
import ArrayEngine.Proofs.Operation
import ArrayEngine.Proofs.Visible.Moves
import Mathlib.Data.List.Permutation

/-!
# Sorting what is seen

A sort collects everything that is seen, inherited values included, orders what is not `undefined`,
and writes it all back from the front: what was inherited and showed through a hole is an element
afterwards. What is left of the length is holes, of the array's own, through which the same values
are seen again.

A comparison by which an array can be sorted is a total preorder (`Std.TransCmp`). Different values
may be equal by it, and these keep their order; the comparison of texts is the one that is taken if
there is no other.

## Main definitions

* `Store.SortedBy`: what it is to be sorted, and stably so
* `Store.collectedValues`, `Store.sortCollected`: values collected as slots where there are no holes

## Main results

* `Store.sortedBy_mergeSort`: merging sorts
* `Store.SortedBy.unique`: there is one order to sort into, whichever way it is come to
* `Store.collectedValues_eq`: it does not matter how values are collected
* `Store.takes_sort`: what a sort makes of an array
* `Store.Reachable.sort_visible`
-/

namespace ArrayEngine.Store

open Std (TransCmp OrientedCmp ReflCmp)

variable {a : SparseArray} {s : Store} {host : Host} {order : Value → Value → Ordering}
  {values sorted : List Value}

/-! ### Order -/

/-- The same values in the order of a comparison. Those that are equal to any given value come in
the order they had. -/
structure SortedBy (order : Value → Value → Ordering) (values sorted : List Value) : Prop where
  perm : sorted.Perm values
  pairwise : sorted.Pairwise fun v w => order v w ≠ .gt
  stable : ∀ v, sorted.filter (order v · = .eq) = values.filter (order v · = .eq)

/-- Merging sorts by every comparison that is a total preorder. -/
theorem sortedBy_mergeSort [TransCmp order] (values : List Value) :
    SortedBy order values (values.mergeSort fun v w => order v w != .gt) := by
  have hle {v w : Value} : (order v w != .gt) = true ↔ (order v w).isLE := by
    rw [bne_iff_ne, Ordering.isLE_iff_ne_gt]
  have trans : ∀ u v w, order u v != .gt → order v w != .gt → order u w != .gt := by
    intro u v w huv hvw
    rw [hle] at huv hvw ⊢
    exact TransCmp.isLE_trans huv hvw
  have total : ∀ v w, order v w != .gt || order w v != .gt := by
    intro v w
    rw [show order w v = (order v w).swap from OrientedCmp.eq_swap]
    cases order v w <;> rfl
  have hperm := values.mergeSort_perm fun v w => order v w != .gt
  refine ⟨hperm, ?_, fun v => ?_⟩
  · exact (List.pairwise_mergeSort trans total values).imp bne_iff_ne.mp
  · -- Values that are equal to `v` are in order already, so that they stay a sublist.
    have hequal : (values.filter (order v · = .eq)).Pairwise fun u w => order u w != .gt := by
      refine List.pairwise_of_forall_mem_list ?_
      intro u hu w hw
      have hu : order v u = .eq := by simpa using (List.mem_filter.mp hu).2
      have hw : order v w = .eq := by simpa using (List.mem_filter.mp hw).2
      rw [TransCmp.eq_trans (OrientedCmp.eq_symm hu) hw]
      rfl
    have hsub := (List.sublist_mergeSort trans total hequal List.filter_sublist).filter
      (order v · = .eq)
    rw [List.filter_filter] at hsub
    simp only [Bool.and_self] at hsub
    exact (hsub.eq_of_length (hperm.filter _).length_eq.symm).symm

section Unique

variable [TransCmp order] {l l' : List Value} {v w : Value}

theorem mem_of_filter_eq (h : ∀ v, l.filter (order v · = .eq) = l'.filter (order v · = .eq))
    (hv : v ∈ l) : v ∈ l' := by
  have hequal : v ∈ l.filter (order v · = .eq) :=
    List.mem_filter.mpr ⟨hv, decide_eq_true ReflCmp.compare_self⟩
  rw [h] at hequal
  exact (List.mem_filter.mp hequal).1

theorem order_head_ne_gt (h : (v :: l).Pairwise fun v w => order v w ≠ .gt) (hw : w ∈ v :: l) :
    order v w ≠ .gt := by
  rcases List.mem_cons.mp hw with rfl | hin
  · have hself : order w w = .eq := ReflCmp.compare_self
    rw [hself]
    decide
  · exact (List.pairwise_cons.mp h).1 w hin

/-- Two lists in the order of a comparison are the same if they have the same values among those
that are equal to any given one, in the same order. -/
theorem eq_of_filter_eq (hl : l.Pairwise fun v w => order v w ≠ .gt)
    (hl' : l'.Pairwise fun v w => order v w ≠ .gt)
    (hequal : ∀ v, l.filter (order v · = .eq) = l'.filter (order v · = .eq)) : l = l' := by
  induction l generalizing l' with
  | nil =>
    cases l' with
    | nil => rfl
    | cons w rest' => cases mem_of_filter_eq (fun v => (hequal v).symm) List.mem_cons_self
  | cons v rest ih =>
    cases l' with
    | nil => cases mem_of_filter_eq hequal List.mem_cons_self
    | cons w rest' =>
      -- The first values are in order both ways, so that they are equal, and each is the first one
      -- among those.
      have hvw : order v w ≠ .gt :=
        order_head_ne_gt hl (mem_of_filter_eq (fun v => (hequal v).symm) List.mem_cons_self)
      have hwv : order w v ≠ .gt :=
        order_head_ne_gt hl' (mem_of_filter_eq hequal List.mem_cons_self)
      have heq : order v w = .eq := by
        have hswap : order w v = (order v w).swap := OrientedCmp.eq_swap
        rw [hswap] at hwv
        cases horder : order v w with
        | eq => rfl
        | lt => exact absurd (congrArg Ordering.swap horder) hwv
        | gt => exact absurd horder hvw
      have hself : order v v = .eq := ReflCmp.compare_self
      have hheads := hequal v
      simp only [List.filter_cons, hself, heq, decide_true, if_true] at hheads
      obtain rfl : v = w := (List.cons.inj hheads).1
      refine congrArg (v :: ·) (ih (List.pairwise_cons.mp hl).2 (List.pairwise_cons.mp hl').2
        fun u => ?_)
      have hrest := hequal u
      rw [List.filter_cons, List.filter_cons] at hrest
      split at hrest
      · exact (List.cons.inj hrest).2
      · exact hrest

/-- Whichever way values are sorted by a total preorder, they come in the same order. -/
theorem SortedBy.unique (h : SortedBy order values sorted) {sorted' : List Value}
    (h' : SortedBy order values sorted') : sorted = sorted' :=
  eq_of_filter_eq h.pairwise h'.pairwise fun v => (h.stable v).trans (h'.stable v).symm

end Unique

/-- The order of texts is one to sort by. -/
instance transCmp_compareTexts : TransCmp Value.compareTexts :=
  inferInstanceAs (TransCmp (compareOn Value.textUnits))

/-- All `undefined` are alike. -/
theorem filter_isUndefined (values : List Value) :
    values.filter (·.isUndefined) = List.replicate (values.count .undefined) .undefined := by
  have hundefined {v : Value} : v.isUndefined = (v == .undefined) := by
    cases v <;> rfl
  simp only [hundefined]
  exact List.filter_beq _

/-! ### Collecting -/

/-- Everything that is seen, taken from the slots where there are no holes, and otherwise from the
indices that have an element or inherit one. -/
def collectedValues (s : Store) (host : Host) : List Value :=
  if s.isContinuous host then s.entries.map Prod.snd
  else ((List.range s.length).filter fun i => s.has i || host.shadows i).filterMap (s.visible host)

theorem collectedValues_eq (h : s.Valid) (host : Host) :
    s.collectedValues host = s.visibleValues host := by
  rw [collectedValues, visibleValues]
  split
  · rename_i hcontinuous
    obtain ⟨hfull, hinherited⟩ := (isContinuous_iff h).mp hcontinuous
    obtain ⟨elements, hlayout, hsize⟩ := exists_full h hfull
    have hentries : s.entries = (List.range s.length).filterMap fun i =>
        (elements.get? i).map fun v => (i, v) := by
      rw [entries, hlayout, ← hsize, Layout.full, Layout.entries]
      simp
    rw [hentries, List.map_filterMap]
    refine List.filterMap_congr fun i hi => ?_
    have hi : i < s.length := List.mem_range.mp hi
    rw [visible, hinherited i hi, Option.or_none, get?_eq_values hlayout hsize, ← Elements.get?_eq,
      Option.map_map]
    exact Option.map_id'
  · rw [List.filterMap_filter]
    refine List.filterMap_congr fun i _ => ?_
    rw [has_eq h, visible, Host.shadows]
    cases s.get? i <;> cases host.inherited i <;> rfl

/-- A sort that collects values in this way. -/
def sortCollected (host : Host) (order : Value → Value → Ordering) : Edit Store Unit := do
  let length := (← get).length
  let sorted := sortedValues order ((← get).collectedValues host)
  assignAll 0 sorted
  (List.range' sorted.length (length - sorted.length)).reverse.forM (discard host)

theorem perform_sortCollected (h : s.Valid) (host : Host) (order : Value → Value → Ordering) :
    (sortCollected host order).perform s = (sort host order).perform s := by
  rw [sortCollected, sort, Edit.perform_get_bind, Edit.perform_get_bind, Edit.perform_get_bind,
    Edit.perform_get_bind, collectedValues_eq h]

/-! ### Writing back -/

/-- Sorted values are written from the front, and everything behind them is removed. -/
theorem takes_sort (hhost : ∀ i, host.deletable i) (s : Store) {sorted : List Value}
    (hsorted : sortedValues order (s.visibleValues host) = sorted) :
    Takes s.toSparse (sort host order) (.ok ())
      ((s.toSparse.write 0 sorted).clear sorted.length (s.length - sorted.length)) := by
  refine takes_of_valid fun hle _ => takes_get fun t ht => takes_get fun u hu => ?_
  have hle : s.length ≤ maxLength := hle
  have hn : sorted.length ≤ s.length := by
    rw [← hsorted, length_sortedValues]
    exact length_visibleValues_le s host
  dsimp only
  rw [length_eq_of_toSparse ht, visibleValues_congr hu, hsorted]
  exact (takes_assignAll (Nat.zero_le _) (by omega)).bind (takes_discardAll fun i _ _ => hhost i)

/-- **Sorting.** Under a host that lets every element go, a sort by a total preorder, or by the
order of texts if none is given, finishes and keeps the length. What is left is everything that was
seen: what is not `undefined` in order, equal values as they came, then as many `undefined` as there
were, and then holes. It is the same whichever way the values are collected. -/
theorem Reachable.sort_visible (h : s.Reachable) (hhost : ∀ i, host.deletable i)
    (order? : Option (Value → Value → Ordering)) (horder : ∀ order ∈ order?, TransCmp order) :
    let order := order?.getD Value.compareTexts
    let seen := (List.range s.length).filterMap (s.visible host)
    ∃ sorted, SortedBy order (seen.filter (!·.isUndefined)) sorted ∧
      ∀ sorting ∈ [sort host order, sortCollected host order],
        s.Leaves sorting () s.length fun i =>
          (sorted ++ List.replicate (seen.count .undefined) .undefined)[i]? := by
  intro order seen
  have hvalid := h.valid
  have htrans : TransCmp order := by
    cases order? with
    | none => exact transCmp_compareTexts
    | some order => exact horder order rfl
  let sorted := (seen.filter (!·.isUndefined)).mergeSort fun v w => order v w != .gt
  refine ⟨sorted, sortedBy_mergeSort _, ?_⟩
  have hvalues : sortedValues order (s.visibleValues host)
      = sorted ++ List.replicate (seen.count .undefined) .undefined := by
    rw [sortedValues, filter_isUndefined]
    rfl
  have hsort : s.Leaves (sort host order) () s.length fun i =>
      (sorted ++ List.replicate (seen.count .undefined) .undefined)[i]? := by
    have hn : (sortedValues order (s.visibleValues host)).length ≤ s.length := by
      rw [length_sortedValues]
      exact length_visibleValues_le s host
    rw [← hvalues]
    refine (takes_sort hhost s rfl).leaves hvalid ?_ fun i hi => ?_
    · rw [SparseArray.length_clear, SparseArray.length_write, length_toSparse]
      omega
    · rw [SparseArray.get?_clear, SparseArray.get?_write]
      by_cases hinside : i < (sortedValues order (s.visibleValues host)).length
      · rw [if_neg (by omega), if_pos (by omega), Nat.sub_zero]
      · rw [if_pos (by omega), List.getElem?_eq_none (by omega)]
  refine List.forall_mem_cons.mpr ⟨hsort, List.forall_mem_singleton.mpr ?_⟩
  rw [Leaves, perform_sortCollected hvalid]
  exact hsort

/-- Four holes, three of which show what is inherited: `undefined` comes behind the two values that
have an order, and before the hole that is left. -/
theorem sort_visible_of_inherited :
    let s := holes {} 4
    let host :=
      ((Host.plain.inherit 0 .undefined).inherit 2 (.boolean true)).inherit 3 (.boolean false)
    (∀ i, host.deletable i) ∧ ∃ t, (sort host Value.compareTexts).perform s = (.ok (), t) ∧
      t.length = 4 ∧ t.get? 0 = some (.boolean false) ∧ t.get? 1 = some (.boolean true) ∧
      t.get? 2 = some .undefined ∧ t.get? 3 = none := by
  intro s host
  have hhost : ∀ i, host.deletable i := fun _ => rfl
  have hseen : s.visible host = host.inherited := funext (visible_holes {} 4 host)
  have hreachable : s.Reachable := .holes {} 4
  obtain ⟨sorted, hsorted, hleaves⟩ := hreachable.sort_visible hhost none (by simp)
  rw [hseen] at hsorted hleaves
  have hvalues : sorted = [.boolean false, .boolean true] := by
    rcases List.perm_pair.mp hsorted.perm with rfl | rfl
    · have horder := List.rel_of_pairwise_cons hsorted.pairwise List.mem_cons_self
      exact absurd (by decide +kernel) horder
    · rfl
  subst hvalues
  obtain ⟨t, hperform, hlength, hget⟩ := hleaves _ List.mem_cons_self
  exact ⟨hhost, t, hperform, hlength, hget 0 (by decide), hget 1 (by decide), hget 2 (by decide),
    hget 3 (by decide)⟩

end ArrayEngine.Store
