import ArrayEngine.Store.Kind
import ArrayEngine.Proofs.Binary.Exact

/-!
# The chain of kinds

Kinds are compared by their rank, and the more general of two is the one of greater rank. Facts
about the chain are facts about natural numbers: `le_iff_rank` and `rank_join` translate them.
-/

namespace ArrayEngine.ElementKind

variable {a b c : ElementKind}

theorem le_iff_rank : a ≤ b ↔ a.rank ≤ b.rank := Iff.rfl

theorem rank_join (a b : ElementKind) : (a.join b).rank = max a.rank b.rank := by
  cases a <;> cases b <;> rfl

theorem rank_injective (h : a.rank = b.rank) : a = b := by
  cases a <;> cases b <;> simp [rank] at h ⊢

theorem eq_iff_rank : a = b ↔ a.rank = b.rank := ⟨fun h => h ▸ rfl, rank_injective⟩

theorem le_rfl : a ≤ a := Nat.le_refl _

theorem le_trans (h₁ : a ≤ b) (h₂ : b ≤ c) : a ≤ c := Nat.le_trans h₁ h₂

theorem le_antisymm (h₁ : a ≤ b) (h₂ : b ≤ a) : a = b := rank_injective (Nat.le_antisymm h₁ h₂)

theorem join_le (h₁ : a ≤ c) (h₂ : b ≤ c) : a.join b ≤ c := by
  rw [le_iff_rank, rank_join]
  exact Nat.max_le.mpr ⟨h₁, h₂⟩

theorem le_join_left : a ≤ a.join b := by
  rw [le_iff_rank, rank_join]
  exact Nat.le_max_left _ _

theorem le_join_right : b ≤ a.join b := by
  rw [le_iff_rank, rank_join]
  exact Nat.le_max_right _ _

theorem join_eq_left (h : b ≤ a) : a.join b = a := by
  rw [eq_iff_rank, rank_join]
  exact Nat.max_eq_left h

theorem join_comm (a b : ElementKind) : a.join b = b.join a := by
  simp only [eq_iff_rank, rank_join]
  exact Nat.max_comm ..

theorem join_assoc (a b c : ElementKind) : (a.join b).join c = a.join (b.join c) := by
  simp only [eq_iff_rank, rank_join]
  exact Nat.max_assoc ..

@[simp] theorem empty_join (a : ElementKind) : empty.join a = a := by
  cases a <;> rfl

@[simp] theorem join_empty (a : ElementKind) : a.join empty = a := join_eq_left (Nat.zero_le _)

/-! ### Kinds of values -/

theorem of_ne_empty (v : Value) : of v ≠ empty := by
  cases v with
  | number x => simp only [of]; split <;> simp
  | _ => simp [of]

theorem holds_iff {v : Value} : a.holds v = true ↔ of v ≤ a := decide_eq_true_iff

theorem holds_of_le {v : Value} (h : a ≤ b) (hv : a.holds v) : b.holds v :=
  holds_iff.mpr (le_trans (holds_iff.mp hv) h)

theorem holds_join_of (v : Value) : (a.join (of v)).holds v := holds_iff.mpr le_join_right

theorem join_of_holds {v : Value} (h : a.holds v) : a.join (of v) = a :=
  join_eq_left (holds_iff.mp h)

theorem ne_empty_of_holds {v : Value} (h : a.holds v) : a ≠ empty := by
  rintro rfl
  have hle := holds_iff.mp h
  exact of_ne_empty v (rank_injective (Nat.le_zero.mp hle))

theorem join_ne_empty (h : a ≠ empty) : a.join b ≠ empty := by
  rw [ne_eq, eq_iff_rank] at h ⊢
  rw [rank_join]
  have : empty.rank = 0 := rfl
  omega

theorem join_of_ne_empty (v : Value) : a.join (of v) ≠ empty := ne_empty_of_holds (holds_join_of v)

@[simp] theorem object_holds (v : Value) : object.holds v := by
  rw [holds_iff, le_iff_rank]
  cases h : of v <;> decide

/-! ### Kinds of several values -/

/-- The kind `kind`, widened until it holds all of `values`. -/
def joinAll (kind : ElementKind) (values : List Value) : ElementKind :=
  values.foldl (fun kind value => kind.join (of value)) kind

@[simp] theorem joinAll_nil : a.joinAll [] = a := rfl

@[simp] theorem joinAll_cons (v : Value) (values : List Value) :
    a.joinAll (v :: values) = (a.join (of v)).joinAll values := rfl

theorem joinAll_append (values values' : List Value) :
    a.joinAll (values ++ values') = (a.joinAll values).joinAll values' :=
  List.foldl_append

theorem le_joinAll (values : List Value) : a ≤ a.joinAll values := by
  induction values generalizing a with
  | nil => exact le_rfl
  | cons v values ih => exact le_trans le_join_left ih

theorem join_joinAll (values : List Value) :
    (a.join b).joinAll values = a.join (b.joinAll values) := by
  induction values generalizing b with
  | nil => rfl
  | cons v values ih => rw [joinAll_cons, joinAll_cons, join_assoc, ih]

theorem joinAll_eq_join_ofAll (values : List Value) : a.joinAll values = a.join (ofAll values) := by
  have h := join_joinAll (a := a) (b := empty) values
  rwa [join_empty] at h

theorem ofAll_cons (v : Value) (values : List Value) :
    ofAll (v :: values) = (of v).join (ofAll values) := by
  have h := joinAll_cons (a := empty) v values
  rwa [empty_join, joinAll_eq_join_ofAll, joinAll_eq_join_ofAll, empty_join] at h

theorem ofAll_concat (values : List Value) (v : Value) :
    ofAll (values ++ [v]) = (ofAll values).join (of v) := joinAll_append values [v]

theorem ofAll_reverse (values : List Value) : ofAll values.reverse = ofAll values := by
  induction values with
  | nil => rfl
  | cons v values ih => rw [List.reverse_cons, ofAll_concat, ih, ofAll_cons, join_comm]

theorem joinAll_holds {v : Value} {values : List Value} (h : v ∈ values) :
    (a.joinAll values).holds v := by
  induction values generalizing a with
  | nil => cases h
  | cons w values ih =>
    rcases List.mem_cons.mp h with rfl | h
    · exact holds_of_le (le_joinAll values) (holds_join_of v)
    · exact ih h

theorem joinAll_of_holds {values : List Value} (h : ∀ v ∈ values, a.holds v) :
    a.joinAll values = a := by
  induction values with
  | nil => rfl
  | cons v values ih =>
    rw [joinAll_cons, join_of_holds (h v List.mem_cons_self)]
    exact ih fun w hw => h w (List.mem_cons_of_mem _ hw)

end ArrayEngine.ElementKind
