import ArrayEngine.Proofs.Bulk.Window
import ArrayEngine.Proofs.Operation

/-!
# Splices of what is seen

A splice of any store answers what is seen in the window, and moves what is seen behind it. So an
inherited value that shows through a hole behind the window is an element afterwards, unless the
window keeps its size: then nothing moves, and a hole stays a hole.

## Main definitions

* `SparseArray.MakesRoomSeen`: what has to be left for a window to be replaced
* `Store.splicedSeen`: what is left when it has been

## Main results

* `Store.exists_moveTailSeen`: shrinking, growing, and neither
* `Store.Reachable.genericSplice_visible`
-/

namespace ArrayEngine

namespace SparseArray

/-- `b` is `a` with room for `inserted` indices in place of the `count` indices from `start` on, and
with what was seen behind them where it belongs. Nothing has moved if the room was there already. -/
structure MakesRoomSeen (host : Host) (a b : SparseArray) (start count inserted : Nat) :
    Prop where
  start_le : start ≤ b.length
  before : ∀ i < start, b.get? i = a.get? i
  behind : ∀ i < a.length - count + inserted, start + inserted ≤ i →
    b.get? i = if inserted = count then a.get? i else a.visible host (i - inserted + count)

variable {a b : SparseArray} {host : Host} {start count inserted : Nat}

theorem Overlaid.makesRoomSeen (hend : start + count ≤ a.length) (hne : inserted ≠ count)
    (h : a.Overlaid b (fun k => a.visible host (start + count + k)) (start + inserted)
      (a.length - count - start)) : a.MakesRoomSeen host b start count inserted where
  start_le := Nat.le_trans (by omega) h.le_length
  before i hi := h.get?_outside (by omega)
  behind i hi hroom := by
    rw [h.get?_eq, if_pos (by omega), if_neg hne]
    exact congrArg (a.visible host) (by omega)

/-- What is left over may be removed. -/
theorem MakesRoomSeen.clear (h : a.MakesRoomSeen host b start count inserted)
    (hend : start + count ≤ a.length) (n : Nat) :
    a.MakesRoomSeen host (b.clear (a.length - count + inserted) n) start count inserted where
  start_le := h.start_le
  before i hi := by
    rw [get?_clear, if_neg (by omega), h.before i hi]
  behind i hi hroom := by
    rw [get?_clear, if_neg (by omega), h.behind i hi hroom]

end SparseArray

namespace Store

variable {a : SparseArray} {host : Host} {values : List Value}

theorem exists_moveTailSeen (hhost : ∀ i, host.deletable i) {start count inserted : Nat}
    (hend : start + count ≤ a.length) (hn : a.length - count + inserted ≤ maxLength) :
    ∃ b, Takes a (moveTail host a.length start count inserted) (.ok ()) b ∧
      a.MakesRoomSeen host b start count inserted := by
  rw [moveTail]
  rcases Nat.lt_trichotomy inserted count with hlt | rfl | hgt
  · obtain ⟨b, hmove, hb⟩ := exists_moveSeenDown (a := a) hhost start
      (a.length - count - start) hlt.le (by omega)
    rw [if_pos hlt]
    refine ⟨_, hmove.bind (takes_discardAll fun i _ _ => hhost i), ?_⟩
    exact (hb.makesRoomSeen hend hlt.ne).clear hend _
  · rw [if_neg (Nat.lt_irrefl _), if_neg (Nat.lt_irrefl _)]
    exact ⟨a, takes_pure (), ⟨by omega, fun _ _ => rfl, fun _ _ _ => (if_pos rfl).symm⟩⟩
  · obtain ⟨b, hmove, hb⟩ := exists_moveSeenUp (a := a) hhost start
      (a.length - count - start) hgt.le (by omega)
    rw [if_neg (by omega), if_pos hgt]
    exact ⟨b, hmove, hb.makesRoomSeen hend hgt.ne'⟩

/-- Elements of a store of which a window was replaced by values: those before the window as they
were, the values, and what was seen behind the window. If the window keeps its size, those behind it
are as they were, too. -/
def splicedSeen (s : Store) (host : Host) (first n : Nat) (values : List Value) (i : Nat) :
    Option Value :=
  if i < first then s.get? i
  else if i < first + values.length then values[i - first]?
  else if values.length = n then s.get? i
  else s.visible host (i - values.length + n)

theorem exists_replaceWindowSeen (s : Store) (hhost : ∀ i, host.deletable i) {first n : Nat}
    (hend : first + n ≤ s.length) (hn : s.length - n + values.length ≤ maxLength) :
    ∃ b, Takes s.toSparse (replaceWindow host s.length first n values) (.ok ()) b ∧
      b.length = s.length - n + values.length ∧
      ∀ i < b.length, b.get? i = s.splicedSeen host first n values i := by
  obtain ⟨b, hmove, hroom⟩ := exists_moveTailSeen (a := s.toSparse) hhost hend hn
  refine ⟨(b.write first values).cut (s.length - n + values.length), ?_, rfl, fun i hi => ?_⟩
  · refine hmove.bind (Takes.bind (takes_assignAll hroom.start_le (by omega)) ?_)
    exact takes_assignLength hn fun i _ _ => hhost i
  · have hi : i < s.length - n + values.length := hi
    rw [SparseArray.get?_cut, if_pos hi, SparseArray.get?_write, splicedSeen]
    by_cases hbefore : i < first
    · rw [if_neg (by omega), if_pos hbefore]
      exact hroom.before i hbefore
    · rw [if_neg hbefore]
      by_cases hinside : i < first + values.length
      · rw [if_pos (by omega), if_pos hinside]
      · rw [if_neg (by omega), if_neg hinside]
        exact hroom.behind i hi (by omega)

/-- **Splicing any store**, under a host that lets every element go. The window that is asked for is
cut down to the store; what is seen in it is answered, values take its place, and all that is seen
behind it moves. -/
theorem Reachable.genericSplice_visible {s : Store} (h : s.Reachable)
    (hhost : ∀ i, host.deletable i) (start count : Nat) (values : List Value) :
    let first := min start s.length
    let n := min count (s.length - first)
    s.length - n + values.length ≤ maxLength →
      ∃ removed, removed.length = n ∧ (∀ k < n, removed.get? k = s.visible host (first + k)) ∧
        s.Leaves (genericSplice start count values host) removed
          (s.length - n + values.length) (s.splicedSeen host first n values) := by
  intro first n hn
  have hle := h.valid.length_le
  have hend : first + n ≤ s.length := by omega
  obtain ⟨removed, hremoved, hlength, hseen⟩ :=
    exists_visiblePart s host first (show n ≤ maxLength by omega)
  obtain ⟨b, hreplace, hb, hget⟩ := exists_replaceWindowSeen s hhost hend hn
  obtain ⟨t, hperform, -, rfl⟩ :=
    exists_genericSplice_of_takes h.valid rfl rfl hn hremoved hreplace
  exact ⟨removed, hlength, hseen, t, hperform, hb, fun i hi => hget i (hb ▸ hi)⟩

/-- The first of three holes is removed: the value that is inherited at the last one becomes an
element, while the hole before it stays one. -/
theorem genericSplice_visible_of_inherited :
    let s := holes {} 3
    let host := Host.plain.inherit 2 .null
    (∀ i, host.deletable i) ∧ ∃ removed t,
      (genericSplice 0 1 [] host).perform s = (.ok removed, t) ∧ removed.length = 1 ∧
        t.length = 2 ∧ t.get? 0 = none ∧ t.get? 1 = some .null := by
  intro s host
  have hhost : ∀ i, host.deletable i := fun _ => rfl
  obtain ⟨removed, hlength, -, t, hperform, ht, hget⟩ :=
    Reachable.genericSplice_visible (.holes {} 3) hhost 0 1 [] (by decide)
  exact ⟨hhost, removed, t, hperform, hlength, ht,
    (hget 0 (by decide)).trans (visible_holes {} 3 host 1),
    (hget 1 (by decide)).trans (visible_holes {} 3 host 2)⟩

end Store

end ArrayEngine
