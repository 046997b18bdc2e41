import ArrayEngine.Proofs.Edit
import ArrayEngine.Proofs.Store.Continuous

/-!
# Steps and what they preserve

Two ways to reason about the index-by-index algorithms, of which all are made of a few steps.

What holds of a store whichever way an algorithm ends is an invariant of the single steps and of
the block operations (`Store.Stable`): the algorithm need not be understood for it, only the
indices it writes to.

What an algorithm achieves is said of the sparse array that the store stands for
(`Store.Takes`): the steps are functions on sparse arrays, and a loop is a sequence of sparse
arrays of which each step makes the next one.

## Main definitions

* `Store.Stable`: an invariant that no step breaks
* `Store.Takes`: an edit takes one sparse array to another

## Main results

* `Store.stable_valid_and_le`, `Store.stable_stuck`
* `Store.takes_assign`, `Store.takes_discard`, `Store.takes_transfer`, `Store.takes_assignLength`
* `Store.exists_forM_range'`, `Store.exists_forM_range'_reverse`: loops by an invariant
* `Store.takes_forM_range'`, `Store.takes_forM_range'_reverse`: loops by what each step makes
* `Store.takes_moveDown`, `Store.takes_moveUp`, `Store.takes_discardAll`, `Store.takes_assignAll`
-/

namespace ArrayEngine.Store

open Edit (Keeps)

/-! ### Invariants of the steps -/

/-- An invariant of stores that no single step and no block operation breaks. -/
structure Stable (I : Store → Prop) : Prop where
  length_le {s : Store} : I s → s.length ≤ maxLength
  put {s : Store} {i : Nat} (v : Value) : I s → i < maxLength → I (s.put i v)
  remove {s : Store} (i : Nat) : I s → I (s.remove i)
  setLength {s : Store} {n : Nat} (host : Host) : I s → n ≤ maxLength → I (s.setLength n host).2
  widenTo {s : Store} (kind : ElementKind) : I s → I (s.widenTo kind)
  fastPush {s t : Store} {values : List Value} {host : Host} {n : Nat} :
    I s → s.fastPush values host = some (n, t) → I t
  fastPop {s t : Store} {host : Host} {v : Value} : I s → s.fastPop host = some (v, t) → I t
  fastSplice {s t removed : Store} {start count inserted : Nat} {host : Host} :
    I s → s.fastSplice start count inserted host = some (removed, t) → I t
  fastReverse {s t : Store} {host : Host} : I s → s.fastReverse host = some t → I t
  fastSet {s t : Store} {i : Nat} {v : Value} : I s → s.fastSet i v = some t → I t

/-- A valid store stays valid, and its kind only becomes wider. -/
theorem stable_valid_and_le (kind : ElementKind) : Stable fun s => s.Valid ∧ kind ≤ s.kind where
  length_le h := h.1.length_le
  put {s i} v h hi := by
    refine ⟨valid_put h.1 hi v, ElementKind.le_trans h.2 ?_⟩
    rw [kind_put h.1]
    exact ElementKind.le_join_left
  remove {s} i h := by
    refine ⟨valid_remove h.1 i, ?_⟩
    rw [kind_remove]
    exact h.2
  setLength {s n} host h hn := by
    refine ⟨valid_setLength h.1 hn host, ?_⟩
    rw [kind_setLength h.1]
    exact h.2
  widenTo {s} kind' h := by
    refine ⟨valid_widenTo h.1 kind', ElementKind.le_trans h.2 ?_⟩
    rw [kind_widenTo h.1]
    exact ElementKind.le_join_left
  fastPush h hpush := by
    obtain ⟨hvalid, heq, -⟩ := fastPush_spec h.1 hpush
    refine ⟨hvalid, ElementKind.le_trans h.2 ?_⟩
    rw [kind_eq_of_toSparse heq]
    exact ElementKind.le_join_left
  fastPop h hpop := by
    obtain ⟨hvalid, heq, -⟩ := fastPop_spec h.1 hpop
    refine ⟨hvalid, ?_⟩
    rw [kind_eq_of_toSparse heq]
    exact h.2
  fastSplice h hsplice := by
    obtain ⟨-, ⟨hvalid, heq⟩, -⟩ := fastSplice_spec h.1 hsplice
    refine ⟨hvalid, ?_⟩
    rw [kind_eq_of_toSparse heq]
    exact h.2
  fastReverse h hreverse := by
    obtain ⟨hvalid, heq, -⟩ := fastReverse_spec h.1 hreverse
    refine ⟨hvalid, ?_⟩
    rw [kind_eq_of_toSparse heq]
    exact h.2
  fastSet h hset := by
    obtain ⟨rfl, -, hi⟩ := fastSet_spec h.1 hset
    refine ⟨valid_put h.1 hi _, ElementKind.le_trans h.2 ?_⟩
    rw [kind_put h.1]
    exact ElementKind.le_join_left

theorem stable_valid : Stable Valid := by
  have h := stable_valid_and_le .empty
  have heq : (fun s : Store => s.Valid ∧ ElementKind.empty ≤ s.kind) = Valid :=
    funext fun s => propext (and_iff_left (Nat.zero_le _))
  rwa [heq] at h

theorem continuousParts?_stuck {s : Store} {host : Host} (h : s.layout = .stuck) :
    s.continuousParts? host = none := by
  simp [continuousParts?, isContinuous, isSparse, h]

/-- A store that is stuck stays so. -/
theorem stable_stuck : Stable fun s => s.length ≤ maxLength ∧ s.layout = .stuck where
  length_le h := h.1
  put {s i} v h hi := by
    obtain ⟨config, length, layout⟩ := s
    obtain ⟨hle, rfl⟩ := h
    exact ⟨Nat.max_le.mpr ⟨hle, hi⟩, rfl⟩
  remove {s} i h := by
    obtain ⟨config, length, layout⟩ := s
    obtain ⟨hle, rfl⟩ := h
    exact ⟨hle, rfl⟩
  setLength {s n} host h hn := by
    obtain ⟨config, length, layout⟩ := s
    obtain ⟨hle, rfl⟩ := h
    rw [Store.setLength, truncate]
    split
    · exact ⟨hn, rfl⟩
    · exact ⟨hn, rfl⟩
  widenTo {s} kind h := by
    obtain ⟨config, length, layout⟩ := s
    obtain ⟨hle, rfl⟩ := h
    exact ⟨hle, rfl⟩
  fastPush h hpush := by simp [fastPush, continuousParts?_stuck h.2] at hpush
  fastPop h hpop := by simp [fastPop, continuousParts?_stuck h.2] at hpop
  fastSplice h hsplice := by simp [fastSplice, continuousParts?_stuck h.2] at hsplice
  fastReverse h hreverse := by simp [fastReverse, continuousParts?_stuck h.2] at hreverse
  fastSet h hset := by simp [fastSet, h.2] at hset

/-- What follows on a checked length may rely on it. -/
theorem keeps_checkLength {I : Store → Prop} {α : Type} {n : Nat} {next : Unit → Edit Store α}
    (hnext : n ≤ maxLength → Keeps I (next ())) : Keeps I (checkLength n >>= next) := by
  rw [checkLength]
  split
  · rename_i hn
    exact hnext hn
  · exact Keeps.throw _

theorem answers_checkLength {I : Store → Prop} {α : Type} {P : α → Prop} {n : Nat}
    {next : Unit → Edit Store α} (hnext : n ≤ maxLength → Edit.Answers I P (next ())) :
    Edit.Answers I P (checkLength n >>= next) := by
  rw [checkLength]
  split
  · rename_i hn
    exact Edit.Answers.bind (Keeps.pure ()) fun _ => hnext hn
  · rintro s - a t ⟨⟩

/-! ### Edits as changes of sparse arrays -/

/-- The edit takes every valid store that stands for `a` to a valid store that stands for `b`, and
ends with `r`. -/
def Takes {α : Type} (a : SparseArray) (edit : Edit Store α) (r : Except EngineError α)
    (b : SparseArray) : Prop :=
  ∀ s : Store, s.Valid → s.toSparse = a →
    ∃ t, edit.perform s = (r, t) ∧ t.Valid ∧ t.toSparse = b

section Takes

variable {α β : Type} {a b c : SparseArray} {host : Host}

theorem takes_pure (v : α) : Takes a (pure v) (.ok v) a := fun s h ha => ⟨s, rfl, h, ha⟩

theorem Takes.bind {edit : Edit Store α} {v : α} {next : α → Edit Store β}
    {r : Except EngineError β} (h : Takes a edit (.ok v) b) (hnext : Takes b (next v) r c) :
    Takes a (edit >>= next) r c := by
  intro s hs ha
  obtain ⟨t, hedit, ht, hb⟩ := h s hs ha
  rw [Edit.perform_bind_ok hedit]
  exact hnext t ht hb

/-- What an edit is performed on is what some valid store stands for. -/
theorem takes_of_valid {edit : Edit Store α} {r : Except EngineError α}
    (h : a.length ≤ maxLength → a.Held → Takes a edit r b) : Takes a edit r b := by
  rintro s hs rfl
  exact h hs.length_le hs.held s hs rfl

/-- What follows on a read state may look at all of the store. -/
theorem takes_get {next : Store → Edit Store β} {r : Except EngineError β}
    (hnext : ∀ s : Store, s.toSparse = a → Takes a (next s) r b) : Takes a (get >>= next) r b := by
  intro s hs ha
  rw [Edit.perform_get_bind]
  exact hnext s ha s hs ha

theorem takes_modify {f : Store → Store}
    (h : ∀ s : Store, s.Valid → s.toSparse = a → (f s).Valid ∧ (f s).toSparse = b) :
    Takes a (modify f) (.ok ()) b := fun s hs ha => ⟨f s, rfl, h s hs ha⟩

theorem takes_checkLength {n : Nat} (hn : n ≤ maxLength) : Takes a (checkLength n) (.ok ()) a := by
  rw [checkLength, if_pos hn]
  exact takes_pure ()

/-! #### Steps -/

theorem takes_assign {i : Nat} (hi : i < maxLength) (v : Value) :
    Takes a (assign i v) (.ok ()) (a.put i v) := by
  rintro s hs rfl
  refine ⟨s.put i v, ?_, valid_put hs hi v, toSparse_put hs i v⟩
  exact if_neg (Nat.ne_of_lt hi)

theorem takes_discard {i : Nat} (h : (a.get? i).isSome → host.deletable i) :
    Takes a (discard host i) (.ok ()) (a.remove i) := by
  rintro s hs rfl
  refine ⟨s.remove i, if_neg ?_, valid_remove hs i, toSparse_remove hs i⟩
  rw [Bool.and_eq_true, Bool.not_eq_true', has_eq hs]
  rintro ⟨hhas, hdeletable⟩
  rw [h hhas] at hdeletable
  cases hdeletable

theorem takes_transfer {source target : Nat} {v : Value} (hv : a.visible host source = some v)
    (ht : target < maxLength) :
    Takes a (transfer host source target) (.ok ()) (a.put target v) := by
  refine takes_get ?_
  intro s hs
  rw [← visible_toSparse, hs, hv]
  exact takes_assign ht v

theorem takes_assignLength {n : Nat} (hn : n ≤ maxLength)
    (h : ∀ i, n ≤ i → (a.get? i).isSome → host.deletable i) :
    Takes a (assignLength host n) (.ok ()) (a.cut n) := by
  rintro s hs rfl
  obtain ⟨hstopped, hafter⟩ := setLength_eq hs n host
  rw [SparseArray.setLength_eq_cut h] at hstopped hafter
  refine ⟨(s.setLength n host).2, ?_, valid_setLength hs hn host, hafter⟩
  simp only [Edit.perform, ExceptT.run, StateT.run, assignLength]
  split
  · rename_i t ht
    rw [ht]
  · rename_i stopped t ht
    rw [ht] at hstopped
    cases hstopped

/-- A greater length is assigned under every host. -/
theorem takes_assignLength_of_le {n : Nat} (hn : n ≤ maxLength) (hle : a.length ≤ n) :
    Takes a (assignLength host n) (.ok ()) (a.cut n) := by
  refine takes_assignLength hn ?_
  intro i hi hsome
  rw [a.get?_eq_none i (hle.trans hi)] at hsome
  cases hsome

theorem takes_assignLength_self (hn : a.length ≤ maxLength) :
    Takes a (assignLength host a.length) (.ok ()) a := by
  have h : Takes a (assignLength host a.length) (.ok ()) (a.cut a.length) :=
    takes_assignLength_of_le hn (Nat.le_refl _)
  rwa [SparseArray.cut_length] at h

/-! #### Loops -/

/-- Indices from the bottom up, by what holds after the first `k` of them. -/
theorem exists_forM_range' {f : Nat → Edit Store Unit} {start n : Nat}
    (P : Nat → SparseArray → Prop)
    (hstep : ∀ k < n, ∀ b, P k b → ∃ c, Takes b (f (start + k)) (.ok ()) c ∧ P (k + 1) c)
    (hstart : P 0 a) : ∃ b, Takes a ((List.range' start n).forM f) (.ok ()) b ∧ P n b := by
  induction n generalizing start P a with
  | zero => exact ⟨a, takes_pure (), hstart⟩
  | succ n ih =>
    obtain ⟨b, hfirst, hb⟩ := hstep 0 (Nat.succ_pos n) a hstart
    have hlater : ∀ k < n, ∀ b, P (k + 1) b →
        ∃ c, Takes b (f (start + 1 + k)) (.ok ()) c ∧ P (k + 1 + 1) c := fun k hk b hb => by
      rw [Nat.add_assoc, Nat.add_comm 1]
      exact hstep (k + 1) (Nat.succ_lt_succ hk) b hb
    obtain ⟨c, hrest, hc⟩ := ih (fun k => P (k + 1)) hlater hb
    refine ⟨c, ?_, hc⟩
    rw [List.range'_succ, Edit.forM_cons]
    exact hfirst.bind hrest

/-- Indices from the top down, by what holds when the lowest `k` of them are left. -/
theorem exists_forM_range'_reverse {f : Nat → Edit Store Unit} {start n : Nat}
    (P : Nat → SparseArray → Prop)
    (hstep : ∀ k < n, ∀ b, P (k + 1) b → ∃ c, Takes b (f (start + k)) (.ok ()) c ∧ P k c)
    (hstart : P n a) :
    ∃ b, Takes a ((List.range' start n).reverse.forM f) (.ok ()) b ∧ P 0 b := by
  induction n generalizing a with
  | zero => exact ⟨a, takes_pure (), hstart⟩
  | succ n ih =>
    obtain ⟨b, hlast, hb⟩ := hstep n (Nat.lt_succ_self n) a hstart
    obtain ⟨c, hrest, hc⟩ := ih (fun k hk => hstep k (Nat.lt_succ_of_lt hk)) hb
    refine ⟨c, ?_, hc⟩
    rw [List.range'_1_concat, List.reverse_append, List.reverse_singleton, List.singleton_append,
      Edit.forM_cons]
    exact hlast.bind hrest

/-- Indices from the bottom up: `st k` is what the first `k` of them have made. -/
theorem takes_forM_range' {f : Nat → Edit Store Unit} (start n : Nat) (st : Nat → SparseArray)
    (h : ∀ k < n, Takes (st k) (f (start + k)) (.ok ()) (st (k + 1))) :
    Takes (st 0) ((List.range' start n).forM f) (.ok ()) (st n) := by
  obtain ⟨b, hloop, rfl⟩ := exists_forM_range' (fun k b => b = st k)
    (fun k hk b hb => ⟨_, hb ▸ h k hk, rfl⟩) rfl
  exact hloop

/-- Indices from the top down: `st k` is what is made when the lowest `k` of them are left. -/
theorem takes_forM_range'_reverse {f : Nat → Edit Store Unit} (start n : Nat)
    (st : Nat → SparseArray)
    (h : ∀ k < n, Takes (st (k + 1)) (f (start + k)) (.ok ()) (st k)) :
    Takes (st n) ((List.range' start n).reverse.forM f) (.ok ()) (st 0) := by
  obtain ⟨b, hloop, rfl⟩ := exists_forM_range'_reverse (fun k b => b = st k)
    (fun k hk b hb => ⟨_, hb ▸ h k hk, rfl⟩) rfl
  exact hloop

/-- Elements move down, from the bottom up: each is read before it is overwritten. -/
theorem takes_moveDown {start n source target : Nat} (hle : target ≤ source)
    (hsome : ∀ k < n, (a.get? (start + source + k)).isSome) (hn : start + target + n ≤ maxLength) :
    Takes a ((List.range' start n).forM fun k => transfer host (k + source) (k + target)) (.ok ())
      (a.move (start + source) (start + target) n) := by
  refine takes_of_valid ?_
  intro _ ha
  have hloop := takes_forM_range' (f := fun k => transfer host (k + source) (k + target)) start n
    (a.move (start + source) (start + target)) fun k hk => ?_
  · rwa [SparseArray.move_zero] at hloop
  · obtain ⟨v, hv⟩ := Option.isSome_iff_exists.mp (hsome k hk)
    rw [← SparseArray.put_move_eq_move_succ ha hv, Nat.add_right_comm start k source,
      Nat.add_right_comm start k target]
    refine takes_transfer (SparseArray.visible_of_get? ?_) (by omega)
    rw [SparseArray.get?_move, if_neg (by omega), hv]

/-- Elements move up, from the top down. -/
theorem takes_moveUp {start n source target : Nat} (hle : source ≤ target)
    (hsome : ∀ k < n, (a.get? (start + source + k)).isSome) (hn : start + target + n ≤ maxLength) :
    Takes a ((List.range' start n).reverse.forM fun k => transfer host (k + source) (k + target))
      (.ok ()) (a.move (start + source) (start + target) n) := by
  refine takes_of_valid ?_
  intro _ ha
  have hloop := takes_forM_range'_reverse (f := fun k => transfer host (k + source) (k + target))
    start n (fun k => a.move (start + source + k) (start + target + k) (n - k)) fun k hk => ?_
  · rwa [Nat.sub_self, SparseArray.move_zero] at hloop
  · obtain ⟨v, hv⟩ := Option.isSome_iff_exists.mp (hsome k hk)
    rw [show n - k = n - (k + 1) + 1 by omega, ← SparseArray.put_move_succ_eq_move ha hv,
      Nat.add_right_comm start k source, Nat.add_right_comm start k target]
    refine takes_transfer (SparseArray.visible_of_get? ?_) (by omega)
    rw [SparseArray.get?_move, if_neg (by omega), hv]

theorem takes_discardAll {start n : Nat} (h : ∀ i, start ≤ i → i < start + n → host.deletable i) :
    Takes a ((List.range' start n).reverse.forM (discard host)) (.ok ()) (a.clear start n) := by
  have hloop := takes_forM_range'_reverse (f := discard host) start n
    (fun k => a.clear (start + k) (n - k)) fun k hk => ?_
  · rwa [Nat.sub_self, SparseArray.clear_zero] at hloop
  · rw [show n - k = n - (k + 1) + 1 by omega, ← SparseArray.remove_clear_succ]
    exact takes_discard fun _ => h _ (by omega) (by omega)

/-- Values are written one after another from `start` on. -/
theorem takes_assignAll {start : Nat} {values : List Value} (hstart : start ≤ a.length)
    (hn : start + values.length ≤ maxLength) :
    Takes a (assignAll start values) (.ok ()) (a.write start values) := by
  induction values generalizing a start with
  | nil =>
    rw [SparseArray.write_nil hstart]
    exact takes_pure ()
  | cons v values ih =>
    rw [List.length_cons] at hn
    rw [SparseArray.write_cons hstart, assignAll, List.zipIdx_cons, Edit.forM_cons]
    refine Takes.bind (takes_assign (by omega) v) (ih ?_ (by omega))
    rw [SparseArray.length_put]
    omega

end Takes

end ArrayEngine.Store
