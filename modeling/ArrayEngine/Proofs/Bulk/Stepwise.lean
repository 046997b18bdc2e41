import ArrayEngine.Bulk.Concat
import ArrayEngine.Bulk.Ends
import ArrayEngine.Bulk.Order
import ArrayEngine.Bulk.Window
import ArrayEngine.Proofs.Bounds
import ArrayEngine.Proofs.Store.Stepwise

/-!
# Algorithms that are made of steps

Each index-by-index algorithm is an edit that consists of steps. What has to be seen to is that no
element is written from the greatest length on and no greater length is assigned; the order of the
steps does not matter here.

A splice answers a new store, which keeps its elements as it pleases, so that not all of it is made
of steps: `Store.replaceWindow` is the part that is.

## Main results

* `Store.stepwise_genericPush`, `Store.stepwise_genericPop`, `Store.stepwise_genericShift`,
  `Store.stepwise_genericUnshift`: at the ends
* `Store.stepwise_replaceWindow`, `Store.stepwise_fill`: windows
* `Store.stepwise_genericReverse`, `Store.stepwise_sort`: the order
* `Store.stepwise_copyPart`, `Store.stepwise_copyOperands`: new stores
-/

namespace ArrayEngine.Store

variable {host : Host}

theorem length_visibleValues_le (s : Store) (host : Host) :
    (s.visibleValues host).length ≤ s.length := by
  have h := List.length_filterMap_le (s.visible host) (List.range s.length)
  rwa [List.length_range] at h

theorem length_sortedValues (order : Value → Value → Ordering) (values : List Value) :
    (sortedValues order values).length = values.length := by
  have h := List.length_eq_length_filter_add (l := values) (·.isUndefined)
  rw [sortedValues, List.length_append, List.length_mergeSort, h, Nat.add_comm]

/-! ### At the ends -/

theorem stepwise_genericPush (values : List Value) (host : Host) :
    Stepwise host (genericPush values host) := by
  refine .read (fun s _ => .checkLength fun hn => ?_) fun s t h => ?_
  · refine .bind (.assignAll hn) fun _ => ?_
    exact .bind (.assignLength hn) fun _ => .pure _
  · rw [← length_toSparse, h, length_toSparse]

/-- The last step of whatever makes a store shorter by one. -/
theorem stepwise_dropLast {α : Type} {n : Nat} (hn : n ≤ maxLength) (a : α) :
    Stepwise host (do discard host n; assignLength host n; return a) :=
  .bind (.discard n) fun _ => .bind (.assignLength hn) fun _ => .pure a

theorem stepwise_genericPop (host : Host) : Stepwise host (genericPop host) := by
  refine .read (fun s hs => ?_) fun s t h => ?_
  · dsimp only
    split
    · exact .pure _
    · refine .read (fun t _ => stepwise_dropLast (by omega) _) fun t u h => ?_
      rw [← visible_toSparse, h, visible_toSparse]
  · rw [← length_toSparse, h, length_toSparse]

theorem stepwise_genericShift (host : Host) : Stepwise host (genericShift host) := by
  refine .read (fun s hs => ?_) fun s t h => ?_
  · dsimp only
    split
    · exact .pure _
    · refine .read (fun t _ => .bind (.forM fun k hk => ?_) fun _ => ?_) fun t u h => ?_
      · have hk := List.mem_range.mp hk
        exact .transfer _ (by omega)
      · exact stepwise_dropLast (by omega) _
      · rw [← visible_toSparse, h, visible_toSparse]
  · rw [← length_toSparse, h, length_toSparse]

theorem stepwise_genericUnshift (values : List Value) (host : Host) :
    Stepwise host (genericUnshift values host) := by
  refine .read (fun s _ => .checkLength fun hn => ?_) fun s t h => ?_
  · have hend : Stepwise host (do
        assignLength host (s.length + values.length); return s.length + values.length) :=
      .bind (.assignLength hn) fun _ => .pure _
    split
    · refine .bind (.forM fun k hk => ?_) fun _ => .bind (.assignAll (by omega)) fun _ => hend
      have hk := List.mem_range.mp (List.mem_reverse.mp hk)
      exact .transfer _ (by omega)
    · exact hend
  · rw [← length_toSparse, h, length_toSparse]

/-! ### Windows -/

theorem stepwise_moveTail (host : Host) {length start count inserted : Nat}
    (hn : length - count + inserted ≤ maxLength) :
    Stepwise host (moveTail host length start count inserted) := by
  have htail : ∀ k ∈ List.range' start (length - count - start),
      Stepwise host (transfer host (k + count) (k + inserted)) := fun k hk => by
    have hk := List.mem_range'_1.mp hk
    exact .transfer _ (by omega)
  rw [moveTail]
  split
  · exact .bind (.forM htail) fun _ => .forM fun k _ => .discard k
  · split
    · exact .forM fun k hk => htail k (List.mem_reverse.mp hk)
    · exact .pure ()

/-- The part of a splice that changes the store. -/
def replaceWindow (host : Host) (length start count : Nat) (values : List Value) :
    Edit Store Unit := do
  moveTail host length start count values.length
  assignAll start values
  assignLength host (length - count + values.length)

theorem genericSplice_eq (start count : Nat) (values : List Value) (host : Host) :
    genericSplice start count values host = (do
      let length := (← get).length
      let start := min start length
      let count := min count (length - start)
      checkLength (length - count + values.length)
      let removed ← MonadExcept.ofExcept ((← get).visiblePart host start count)
      replaceWindow host length start count values
      return removed) := by
  simp only [genericSplice, replaceWindow, bind_assoc]

theorem stepwise_replaceWindow (host : Host) {length start count : Nat} {values : List Value}
    (hstart : start + count ≤ length) (hn : length - count + values.length ≤ maxLength) :
    Stepwise host (replaceWindow host length start count values) := by
  refine .bind (stepwise_moveTail host hn) fun _ => ?_
  exact .bind (.assignAll (by omega)) fun _ => .assignLength hn

/-- A splice keeps what its steps keep. -/
theorem Steady.keeps_genericSplice {I : Store → Prop} (h : Steady host I) (start count : Nat)
    (values : List Value) : Edit.Keeps I (genericSplice start count values host) := by
  rw [genericSplice_eq]
  refine Edit.Keeps.get fun s _ => keeps_checkLength fun hn => Edit.Keeps.get fun t _ => ?_
  refine Edit.Keeps.bind (Edit.Keeps.ofExcept _) fun removed => ?_
  refine Edit.Keeps.bind ((stepwise_replaceWindow host ?_ hn).keeps h) fun _ => Edit.Keeps.pure _
  omega

theorem stepwise_fill (host : Host) (value : Value) (start : Binary.Double)
    (stop : Option Binary.Double) : Stepwise host (fill value start stop) := by
  refine .read (fun s hs => .forM fun i hi => ?_) fun s t h => ?_
  · have hmax : maxLength < 2 ^ 53 := by decide
    have hstop := adjustEnd_le (show s.length ≤ 2 ^ 53 by omega) stop
    have hi := List.mem_range'_1.mp hi
    exact .assign (by omega) value
  · rw [← length_toSparse, h, length_toSparse]

/-! ### The order -/

theorem stepwise_place (host : Host) {i : Nat} (hi : i ≤ maxLength) (value : Option Value) :
    Stepwise host (place host i value) := by
  cases value with
  | none => exact .discard i
  | some v => exact .assign hi v

theorem stepwise_exchange (host : Host) {lower upper : Nat} (hlower : lower ≤ maxLength)
    (hupper : upper ≤ maxLength) : Stepwise host (exchange host lower upper) := by
  refine .read (fun s _ => .read (fun t _ => ?_) fun t u h => ?_) fun s t h => ?_
  · exact .bind (stepwise_place host hlower _) fun _ => stepwise_place host hupper _
  · rw [← visible_toSparse, h, visible_toSparse]
  · rw [← visible_toSparse, h, visible_toSparse]

theorem stepwise_genericReverse (host : Host) : Stepwise host (genericReverse host) := by
  refine .read (fun s hs => .forM fun lower hlower => ?_) fun s t h => ?_
  · have hlower := List.mem_range.mp hlower
    exact stepwise_exchange host (by omega) (by omega)
  · rw [← length_toSparse, h, length_toSparse]

theorem visibleValues_congr {s t : Store} (h : s.toSparse = t.toSparse) (host : Host) :
    s.visibleValues host = t.visibleValues host := by
  rw [visibleValues, visibleValues, ← length_toSparse, ← visible_toSparse, h]
  rfl

theorem stepwise_sort (host : Host) (order : Value → Value → Ordering) :
    Stepwise host (sort host order) := by
  refine .read (fun s _ => .read (fun t ht => ?_) fun t u h => ?_) fun s t h => ?_
  · have hlen : (sortedValues order (t.visibleValues host)).length ≤ maxLength := by
      rw [length_sortedValues]
      exact (length_visibleValues_le t host).trans ht
    exact .bind (.assignAll (by omega)) fun _ => .forM fun k _ => .discard k
  · rw [visibleValues_congr h]
  · rw [← length_toSparse, h, length_toSparse]

/-! ### New stores -/

theorem stepwise_copyVisible (source : Store) (host : Host) {host' : Host} (start : Nat)
    {count target : Nat} (hn : target + count ≤ maxLength) :
    Stepwise host' (copyVisible source host start count target) := by
  refine .forM fun k hk => ?_
  have hk := List.mem_range.mp hk
  rw [copyElement]
  split
  · exact .assign (by omega) _
  · exact .pure ()

theorem stepwise_copyPart (source : Store) (host : Host) (start : Nat) {count : Nat}
    (hn : count ≤ maxLength) : Stepwise .plain (copyPart source host start count) :=
  .bind (stepwise_copyVisible source host start (by omega)) fun _ => .assignLength hn

/-- What follows on an appended operand may rely on the length that it leads to. -/
theorem stepwise_appendOperand {α : Type} (host : Host) {length : Nat} {operand : Operand}
    {next : Nat → Edit Store α}
    (hnext : length + operand.length ≤ maxLength →
      Stepwise .plain (next (length + operand.length))) :
    Stepwise .plain (appendOperand host length operand >>= next) := by
  simp only [appendOperand, bind_assoc]
  refine .checkLength fun hn => ?_
  cases operand with
  | array source =>
    simp only [bind_assoc, pure_bind]
    refine .bind (.widenTo _) fun _ => ?_
    exact .bind (stepwise_copyVisible source host 0 hn) fun _ => hnext hn
  | value element =>
    have hlt : length + 1 ≤ maxLength := hn
    simp only [bind_assoc, pure_bind]
    exact .bind (.assign (by omega) element) fun _ => hnext hn

theorem stepwise_appendAll {α : Type} (host : Host) (operands : List Operand)
    {next : Nat → Edit Store α} (hnext : ∀ n ≤ maxLength, Stepwise .plain (next n)) {length : Nat}
    (hlength : length ≤ maxLength) :
    Stepwise .plain (operands.foldlM (appendOperand host) length >>= next) := by
  induction operands generalizing length with
  | nil => simpa using hnext length hlength
  | cons operand operands ih =>
    rw [List.foldlM_cons, bind_assoc]
    exact stepwise_appendOperand host fun hn => ih hn

theorem stepwise_copyOperands (operands : List Operand) (host : Host) :
    Stepwise .plain (copyOperands operands host) :=
  stepwise_appendAll host operands (fun _ hn => .assignLength hn) (Nat.zero_le _)

end ArrayEngine.Store
