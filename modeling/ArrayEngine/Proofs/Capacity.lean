import ArrayEngine.Config
import ArrayEngine.Proofs.View.Trapping
import Mathlib.Order.Bounds.Basic
import Mathlib.Tactic.Ring

/-!
# Growth of allocated room

Room grows by a loop that doubles a capacity until it is enough. Doubling saturates at the greatest
word, so that the loop could stand still there, and it would stand still at zero. This file has the
loop as what it is, with no bound on the number of its rounds, and shows that it is left: the
capacity that it starts from is not zero, and what is needed is a word.

As long as a round is gone through, the capacity is below a word and the doubling does not saturate.
So only the last round can, and the result is a power of two times the start unless that is too
great.

## Main definitions

* `Config.Doubles`: the loop, with the number of its rounds
* `Config.room?`: how much room is asked for on top of what is taken, where a difference may trap

## Main results

* `Config.exists_doubles`, `Config.not_doubles_zero`: the loop is left after at most sixty-four
  rounds, and never from zero
* `Config.Doubles.unique`: there is one way through the loop
* `Config.Doubles.isLeast`: where it is left
* `Config.grownCapacity_exact`: what the rule of growth answers
-/

namespace ArrayEngine.Config

variable {capacity needed result rounds base : Nat}

/-! ### The loop -/

/-- The loop that doubles a capacity until it reaches `needed`, from a capacity to the result. -/
inductive Doubles (needed : Nat) : (rounds capacity result : Nat) → Prop
  | reached {capacity : Nat} (h : needed ≤ capacity) : Doubles needed 0 capacity capacity
  | again {rounds capacity result : Nat} (h : capacity < needed)
      (hrest : Doubles needed rounds (min (2 * capacity) maxWord) result) :
      Doubles needed (rounds + 1) capacity result

namespace Doubles

/-- There is one way through the loop. -/
theorem unique (h : Doubles needed rounds capacity result) {rounds' result' : Nat}
    (h' : Doubles needed rounds' capacity result') : rounds = rounds' ∧ result = result' := by
  induction h generalizing rounds' with
  | reached h =>
    cases h' with
    | reached => exact ⟨rfl, rfl⟩
    | again hlt => exact absurd h (Nat.not_le.mpr hlt)
  | again hlt _ ih =>
    cases h' with
    | reached h => exact absurd h (Nat.not_le.mpr hlt)
    | again _ hrest =>
      obtain ⟨rfl, rfl⟩ := ih hrest
      exact ⟨rfl, rfl⟩

/-- A bounded number of doublings is the loop, if the bound is no less than its rounds. -/
theorem doubledCapacity_eq (h : Doubles needed rounds capacity result) {bound : Nat}
    (hbound : rounds ≤ bound) : doubledCapacity bound capacity needed = result := by
  induction h generalizing bound with
  | reached h =>
    cases bound with
    | zero => rfl
    | succ bound => exact if_pos h
  | again hlt _ ih =>
    obtain ⟨bound, rfl⟩ := Nat.exists_eq_add_of_le' hbound
    rw [← Nat.add_assoc, doubledCapacity, if_neg (Nat.not_le.mpr hlt)]
    exact ih (by omega)

theorem needed_le (h : Doubles needed rounds capacity result) : needed ≤ result := by
  induction h with
  | reached h => exact h
  | again _ _ ih => exact ih

end Doubles

/-- From zero the loop is never left. -/
theorem not_doubles_zero (h : 0 < needed) : ¬Doubles needed rounds 0 result := by
  intro hdoubles
  induction rounds with
  | zero =>
    cases hdoubles with
    | reached hle => exact absurd h (Nat.not_lt.mpr hle)
  | succ rounds ih =>
    cases hdoubles with
    | again _ hrest => exact ih hrest

/-- If some number of doublings is enough, so many rounds are. -/
theorem exists_doubles_of_le_mul {n : Nat} (hword : needed ≤ maxWord)
    (h : needed ≤ capacity * 2 ^ n) :
    ∃ rounds ≤ n, ∃ result, Doubles needed rounds capacity result := by
  induction n generalizing capacity with
  | zero => exact ⟨0, Nat.le_refl 0, capacity, .reached (by simpa using h)⟩
  | succ n ih =>
    rcases Nat.lt_or_ge capacity needed with hlt | hle
    · have hnext : needed ≤ min (2 * capacity) maxWord * 2 ^ n := by
        rcases Nat.le_total (2 * capacity) maxWord with hdouble | hdouble
        · rw [Nat.min_eq_left hdouble]
          calc needed ≤ capacity * 2 ^ (n + 1) := h
            _ = 2 * capacity * 2 ^ n := by ring
        · rw [Nat.min_eq_right hdouble]
          exact hword.trans (Nat.le_mul_of_pos_right _ (Nat.two_pow_pos n))
      obtain ⟨rounds, hrounds, result, hrest⟩ := ih hnext
      exact ⟨rounds + 1, Nat.succ_le_succ hrounds, result, .again hlt hrest⟩
    · exact ⟨0, Nat.zero_le _, capacity, .reached hle⟩

/-- The loop is left for every word, from every capacity but zero. -/
theorem exists_doubles (hpos : 0 < capacity) (hword : needed ≤ maxWord) :
    ∃ rounds ≤ 64, ∃ result, Doubles needed rounds capacity result := by
  refine exists_doubles_of_le_mul hword ?_
  calc needed ≤ maxWord := hword
    _ ≤ 1 * 2 ^ 64 := by decide
    _ ≤ capacity * 2 ^ 64 := Nat.mul_le_mul_right _ hpos

/-! ### Its result -/

/-- The capacities that doubling a first one leads to, and that are enough. -/
def enough (base needed : Nat) : Set Nat := {c | (∃ k, c = base * 2 ^ k) ∧ needed ≤ c}

theorem isLeast_enough_of_le (h : needed ≤ base) : IsLeast (enough base needed) base := by
  refine ⟨⟨⟨0, (Nat.mul_one base).symm⟩, h⟩, ?_⟩
  rintro _ ⟨⟨k, rfl⟩, -⟩
  exact Nat.le_mul_of_pos_right base (Nat.two_pow_pos k)

/-- A first capacity that is not enough may as well be doubled. -/
theorem enough_double (h : base < needed) : enough (2 * base) needed = enough base needed := by
  ext c
  refine and_congr_left fun hc => ⟨?_, ?_⟩
  · rintro ⟨k, rfl⟩
    exact ⟨k + 1, by ring⟩
  · rintro ⟨k, rfl⟩
    obtain _ | k := k
    · omega
    · exact ⟨k, by ring⟩

/-- The loop comes to the least of these, or to the greatest word if that is none. -/
theorem Doubles.isLeast (hword : needed ≤ maxWord)
    (h : Doubles needed rounds (min base maxWord) result) :
    ∃ c, IsLeast (enough base needed) c ∧ result = min c maxWord := by
  induction rounds generalizing base with
  | zero =>
    cases h with
    | reached h => exact ⟨base, isLeast_enough_of_le (Nat.le_min.mp h).1, rfl⟩
  | succ rounds ih =>
    cases h with
    | again hlt hrest =>
      -- The capacity is below what is needed, so it is the unbounded one.
      have hbase : base < needed := by omega
      have hexact : min base maxWord = base := by omega
      rw [hexact] at hrest
      rw [← enough_double hbase]
      exact ih hrest

/-! ### Room -/

/-- Room to ask for on top of `size` places that are taken, where there is room for `capacity` of
them and `needed` are to fit. -/
def room? (config : Config) (size capacity needed : Nat) : Option Nat :=
  if capacity < needed then Word.sub? (config.grownCapacity capacity needed) size else some 0

/-- **Growth ends and suffices.** From the greatest of the room at hand, the least room and one, the
loop is left after at most sixty-four rounds. Its result is the least power of two times that start
that reaches what is needed, or the greatest word where that is none. So it is no less than what is
needed and than the room at hand; and where no more places are taken than there is room for, the
room to ask for exists and is enough. -/
theorem grownCapacity_exact (config : Config) (hmin : config.minCapacity ≤ maxWord)
    {current : Nat} (hcurrent : current ≤ maxWord) (hneeded : needed ≤ maxWord) :
    let start := max (max current config.minCapacity) 1
    let result := config.grownCapacity current needed
    (∃ rounds ≤ 64, Doubles needed rounds start result) ∧
    (∃ c, IsLeast {c | (∃ k, c = start * 2 ^ k) ∧ needed ≤ c} c ∧
      result = if c ≤ maxWord then c else maxWord) ∧
    needed ≤ result ∧ current ≤ result ∧
    ∀ size ≤ current, ∃ room, config.room? size current needed = some room ∧
      needed ≤ max current (size + room) := by
  intro start result
  have hstart : start ≤ maxWord := by
    have hone : 1 ≤ maxWord := by decide
    omega
  obtain ⟨rounds, hrounds, grown, hdoubles⟩ := exists_doubles (Nat.le_max_right _ 1) hneeded
  obtain rfl : result = grown := hdoubles.doubledCapacity_eq hrounds
  have hneededResult : needed ≤ result := hdoubles.needed_le
  have hleast : ∃ c, IsLeast (enough start needed) c ∧ result = min c maxWord :=
    Doubles.isLeast hneeded (by rwa [Nat.min_eq_left hstart])
  obtain ⟨c, hc, hresult⟩ := hleast
  have hcurrentResult : current ≤ result := by
    obtain ⟨⟨k, hk⟩, -⟩ := hc.1
    have hgrows : start ≤ c := hk ▸ Nat.le_mul_of_pos_right start (Nat.two_pow_pos k)
    omega
  refine ⟨⟨rounds, hrounds, hdoubles⟩, ⟨c, hc, hresult⟩, hneededResult, hcurrentResult, ?_⟩
  intro size hsize
  rw [room?]
  split
  · refine ⟨result - size, if_pos (hsize.trans hcurrentResult), ?_⟩
    omega
  · exact ⟨0, rfl, by omega⟩

/-- Three times `2 ^ 62` is not enough for the greatest word, and three times `2 ^ 63` is none. -/
theorem grownCapacity_exact_of_three :
    let config : Config := { minCapacity := 0 }
    config.minCapacity ≤ maxWord ∧ 3 ≤ maxWord ∧
      config.grownCapacity 3 maxWord = maxWord ∧
        ∃ room, config.room? 2 3 maxWord = some room ∧ maxWord ≤ max 3 (2 + room) := by
  intro config
  have hmin : config.minCapacity ≤ maxWord := Nat.zero_le _
  have hcurrent : 3 ≤ maxWord := by decide
  obtain ⟨-, ⟨c, -, hresult⟩, hneeded, -, hroom⟩ :=
    config.grownCapacity_exact hmin hcurrent (Nat.le_refl maxWord)
  refine ⟨hmin, hcurrent, ?_, hroom 2 (by decide)⟩
  split at hresult <;> omega

end ArrayEngine.Config
