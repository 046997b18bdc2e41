import ArrayEngine.Proofs.Bulk.Ends
import ArrayEngine.Proofs.Bulk.Order
import ArrayEngine.Proofs.Operation
import ArrayEngine.Proofs.Visible.Moves

/-!
# Ends of what is seen

Removing at either end, inserting at the front and reversing work on any store by what is seen in
it. A hole that is moved or exchanged becomes an element if something is inherited there, and stays
a hole otherwise. What is not moved stays as it is: all that is before the last element when that is
removed, and the middle of an odd number of elements that are reversed.

Where a store has no holes to see through, the block operations leave the same.

## Main definitions

* `SparseArray.ExchangedSeen`: an array of which the ends have been exchanged
* `Store.unshiftedSeen`, `Store.reversedSeen`: the elements that are left

## Main results

* `SparseArray.ExchangedSeen.succ`, `Store.exists_reverseLoop`: opposite ends are exchanged
* `Store.leaves_genericPop`, `Store.leaves_genericShift`, `Store.leaves_genericUnshift`,
  `Store.leaves_genericReverse`: index by index
* `Store.Reachable.ends_visible`: all of them, and in blocks where these apply
-/

namespace ArrayEngine

namespace SparseArray

/-- `b` is `a` with what is seen at the `k` indices at either end exchanged. -/
structure ExchangedSeen (host : Host) (a b : SparseArray) (k : Nat) : Prop where
  length_eq : b.length = a.length
  get?_eq : ∀ i < a.length, b.get? i =
    if i < k ∨ a.length - k ≤ i then a.visible host (a.length - 1 - i) else a.get? i

namespace ExchangedSeen

variable {a b : SparseArray} {host : Host} {k : Nat}

theorem zero (host : Host) (a : SparseArray) : a.ExchangedSeen host a 0 where
  length_eq := rfl
  get?_eq i hi := by rw [if_neg (by omega)]

/-- Between the ends all is seen as it was. -/
theorem visible_eq (h : a.ExchangedSeen host b k) {i : Nat} (hi : k ≤ i ∧ i < a.length - k) :
    b.visible host i = a.visible host i := by
  rw [visible, visible, h.get?_eq i (by omega), if_neg (by omega)]

/-- One more exchange, of the outermost indices that are as they were. -/
theorem succ (h : a.ExchangedSeen host b k) (hk : k < a.length / 2) :
    a.ExchangedSeen host ((b.place k (a.visible host (a.length - k - 1))).place
      (a.length - k - 1) (a.visible host k)) (k + 1) where
  length_eq := by
    have hlower : (b.place k (a.visible host (a.length - k - 1))).length = b.length :=
      length_place_of_lt (by rw [h.length_eq]; omega) _
    rw [length_place_of_lt (by rw [hlower, h.length_eq]; omega), hlower, h.length_eq]
  get?_eq i hi := by
    rw [get?_place, get?_place, h.get?_eq i hi]
    by_cases hupper : i = a.length - k - 1
    · rw [if_pos hupper, if_pos (by omega)]
      exact congrArg (a.visible host) (by omega)
    · rw [if_neg hupper]
      by_cases hlower : i = k
      · rw [if_pos hlower, if_pos (by omega)]
        exact congrArg (a.visible host) (by omega)
      · rw [if_neg hlower]
        exact if_congr (by omega) rfl rfl

end ExchangedSeen

end SparseArray

namespace Store

variable {a : SparseArray} {s : Store} {host : Host} {values : List Value}

/-! ### Removing and inserting -/

theorem leaves_genericPop (h : s.Valid) (hhost : ∀ i, host.deletable i) (hpos : 0 < s.length) :
    s.Leaves (genericPop host) ((s.visible host (s.length - 1)).getD .undefined) (s.length - 1)
      s.get? := by
  have hpop := takes_genericPop (a := s.toSparse) hpos (hhost _)
  exact hpop.leaves_cut h fun i _ => rfl

theorem leaves_genericShift (h : s.Valid) (hhost : ∀ i, host.deletable i) (hpos : 0 < s.length) :
    s.Leaves (genericShift host) ((s.visible host 0).getD .undefined) (s.length - 1)
      fun i => s.visible host (i + 1) := by
  have hle := h.length_le
  obtain ⟨b, hmove, hb⟩ := exists_moveSeenDown (a := s.toSparse) hhost 0 (s.length - 1)
    (Nat.zero_le 1) (by omega)
  have hlength : b.length ≤ s.length :=
    hb.length_le.trans (Nat.max_le.mpr ⟨Nat.le_refl _, by omega⟩)
  have hshift := takes_genericShift_of_move (a := s.toSparse) hpos (hhost _) hlength hmove
  refine hshift.leaves_cut h fun i hi => ?_
  have hi : i < s.length - 1 := hi
  rw [hb.get?_eq, if_pos (by omega)]
  exact congrArg (s.visible host) (by omega)

/-- Elements of a store of which all that is seen has moved behind values. -/
def unshiftedSeen (s : Store) (host : Host) (values : List Value) (i : Nat) : Option Value :=
  if i < values.length then values[i]? else s.visible host (i - values.length)

theorem leaves_genericUnshift (h : s.Valid) (hhost : ∀ i, host.deletable i) (hvalues : values ≠ [])
    (hn : s.length + values.length ≤ maxLength) :
    s.Leaves (genericUnshift values host) (s.length + values.length) (s.length + values.length)
      (s.unshiftedSeen host values) := by
  obtain ⟨b, hmove, hb⟩ := exists_moveSeenUp (a := s.toSparse) hhost 0 s.length
    (Nat.zero_le values.length) (by omega)
  have hlength : b.length ≤ s.length + values.length :=
    hb.length_le.trans (Nat.max_le.mpr ⟨Nat.le_add_right .., by omega⟩)
  have hunshift := takes_genericUnshift_of_move (a := s.toSparse) hvalues hn hlength hmove
  refine hunshift.leaves_cut h fun i hi => ?_
  have hi : i < s.length + values.length := hi
  rw [SparseArray.get?_write, unshiftedSeen]
  by_cases hinside : i < values.length
  · rw [if_pos (by omega), if_pos hinside, Nat.sub_zero]
  · rw [if_neg (by omega), if_neg hinside, hb.get?_eq, if_pos (by omega)]
    exact congrArg (s.visible host) (by omega)

/-! ### Reversing -/

theorem exists_reverseLoop (hhost : ∀ i, host.deletable i) (hn : a.length ≤ maxLength) :
    ∃ b, Takes a ((List.range' 0 (a.length / 2)).forM fun k => exchange host k (a.length - k - 1))
        (.ok ()) b ∧ a.ExchangedSeen host b (a.length / 2) := by
  refine exists_forM_range' (fun k b => a.ExchangedSeen host b k) (fun k hk b hb => ?_) (.zero ..)
  rw [Nat.zero_add]
  refine ⟨_, takes_exchange (takes_place hhost (by omega) _) (takes_place hhost (by omega) _), ?_⟩
  rw [hb.visible_eq (by omega), hb.visible_eq (by omega)]
  exact hb.succ hk

/-- Elements of a store of which all that is seen is in reverse order. The element in the middle has
not moved, so that nothing shows through if there is none. -/
def reversedSeen (s : Store) (host : Host) (i : Nat) : Option Value :=
  if 2 * i + 1 = s.length then s.get? i else s.visible host (s.length - 1 - i)

theorem leaves_genericReverse (h : s.Valid) (hhost : ∀ i, host.deletable i) :
    s.Leaves (genericReverse host) () s.length (s.reversedSeen host) := by
  obtain ⟨b, hloop, hb⟩ := exists_reverseLoop (a := s.toSparse) hhost h.length_le
  have hreverse : Takes s.toSparse (genericReverse host) (.ok ()) b := by
    refine takes_get fun t ht => ?_
    dsimp only
    rw [length_eq_of_toSparse ht, List.range_eq_range']
    exact hloop
  refine hreverse.leaves h hb.length_eq fun i hi => ?_
  have hget := hb.get?_eq i hi
  rw [length_toSparse] at hget
  rw [hget, reversedSeen]
  by_cases hmiddle : 2 * i + 1 = s.length
  · rw [if_neg (by omega), if_pos hmiddle]
    rfl
  · rw [if_pos (by omega), if_neg hmiddle]
    rfl

/-! ### Block or index by index -/

/-- **The ends of any store**, under a host that lets every element go, index by index and in
blocks. A shift and a pop answer what is seen at their end, `undefined` where nothing is. What moves
is what is seen; what a pop leaves, and the middle of an odd number of reversed elements, is as it
was. -/
theorem Reachable.ends_visible (h : s.Reachable) (hhost : ∀ i, host.deletable i) :
    (0 < s.length → ∀ shifting ∈ [genericShift host, shift host],
      s.Leaves shifting ((s.visible host 0).getD .undefined) (s.length - 1)
        fun i => s.visible host (i + 1)) ∧
    (∀ values, values ≠ [] → s.length + values.length ≤ maxLength →
      ∀ unshifting ∈ [genericUnshift values host, unshift values host],
        s.Leaves unshifting (s.length + values.length) (s.length + values.length)
          (s.unshiftedSeen host values)) ∧
    (∀ unshifting ∈ [genericUnshift [] host, unshift [] host],
      ∃ t, unshifting.perform s = (.ok s.length, t) ∧ t.Alike s) ∧
    (0 < s.length → ∀ popping ∈ [genericPop host, pop host],
      s.Leaves popping ((s.visible host (s.length - 1)).getD .undefined) (s.length - 1) s.get?) ∧
    ∀ reversing ∈ [genericReverse host, reverse host],
      s.Leaves reversing () s.length (s.reversedSeen host) := by
  have hvalid := h.valid
  have hlast : 0 < s.length → host.deletable (s.length - 1) := fun _ => hhost _
  refine ⟨fun hpos => ?_, fun values hvalues hn => ?_, ?_, fun hpos => ?_, ?_⟩
  · exact (leaves_genericShift hvalid hhost hpos).both (shift_sameEnding hvalid hlast)
  · exact (leaves_genericUnshift hvalid hhost hvalues hn).both
      (unshift_sameEnding hvalid values host)
  · have hgeneric := perform_genericUnshift_nil hvalid.length_le host
    have hblock := (hgeneric ▸ unshift_sameEnding hvalid [] host).exists_eq
    simpa using ⟨⟨s, hgeneric, .refl s⟩, hblock⟩
  · exact (leaves_genericPop hvalid hhost hpos).both (pop_sameEnding hvalid hlast)
  · exact (leaves_genericReverse hvalid hhost).both (reverse_sameEnding hvalid host)

/-- Two holes, the second with a value inherited at it: after a shift there is one element, and a
reversal leaves it in front of a hole. -/
theorem ends_visible_of_inherited :
    let s := holes {} 2
    let host := Host.plain.inherit 1 .null
    (∀ i, host.deletable i) ∧
      (∃ t, (shift host).perform s = (.ok .undefined, t) ∧ t.length = 1 ∧
        t.get? 0 = some .null) ∧
      ∃ t, (reverse host).perform s = (.ok (), t) ∧ t.length = 2 ∧ t.get? 0 = some .null ∧
        t.get? 1 = none := by
  intro s host
  have hhost : ∀ i, host.deletable i := fun _ => rfl
  have hseen : ∀ i, s.visible host i = host.inherited i := visible_holes {} 2 host
  obtain ⟨hshift, -, -, -, hreverse⟩ := Reachable.ends_visible (.holes {} 2) hhost
  obtain ⟨t, hperform, ht, hget⟩ := hshift (by decide) (shift host) (by simp)
  obtain ⟨u, hperform', hu, hget'⟩ := hreverse (reverse host) (by simp)
  refine ⟨hhost, ⟨t, ?_, ht, (hget 0 (by decide)).trans (hseen 1)⟩, u, hperform', hu,
    (hget' 0 (by decide)).trans (hseen 1), (hget' 1 (by decide)).trans (hseen 0)⟩
  exact hperform.trans (congrArg (fun v? => (Except.ok (v?.getD .undefined), t)) (hseen 0))

end Store

end ArrayEngine
