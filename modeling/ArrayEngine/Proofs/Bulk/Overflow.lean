import ArrayEngine.Proofs.Bulk.Trapping
import ArrayEngine.Proofs.View.Safe
import ArrayEngine.Proofs.Visible.Concat

/-!
# Lengths that grow too great

An operation that makes an array longer checks the length that it leads to before it changes
anything. It fails where that length is greater than the greatest one, and in no other case can a
length or an index be what it fails at: every index that is computed on the way fits.

An edit is compared with the form of it in which each number may trap. Since both are built from the
same parts the comparison follows their structure, and what is left at a step is the bound on a
number. All of these come from the one bound on the new length.

## Main definitions

* `Store.Secures`: no step of an edit traps, and no index is what it fails at
* `Store.DetectsOverflow`: what is to be shown of an operation and the length that it leads to

## Main results

* `Store.Secures.bind`, `Store.Secures.read`, `Store.Secures.step`, `Store.Secures.forM`: structure
* `Store.secures_genericPush`, `Store.secures_genericUnshift`, `Store.secures_genericSplice`,
  `Store.secures_copyOperands`: algorithms that go index by index
* `Store.Reachable.overflow_detected`

## Implementation notes

The length of a concatenation is summed up before it is checked, so it has to be a machine word for
that sum not to trap. No array that fits in memory is longer.
-/

namespace ArrayEngine

open Binary (Double)

/-! ### Indices -/

namespace Index

theorem narrow?_eq {n : Nat} (h : n ≤ maxLength) : narrow? n = some n := if_pos h

theorem add?_eq {m n : Nat} (h : m + n ≤ maxLength) : add? m n = some (m + n) := if_pos h

end Index

theorem maxLength_le_maxWord : maxLength ≤ maxWord := by decide

namespace Store

/-! ### Edits that may trap -/

namespace TrapEdit

variable {α β : Type}

theorem perform_bind (edit : TrapEdit α) (next : α → TrapEdit β) (s : Store) :
    (edit >>= next).perform s =
      match edit.perform s with
      | some (.ok a, t) => (next a).perform t
      | some (.error e, t) => some (.error e, t)
      | none => none := by
  simp only [perform, ExceptT.run, bind, ExceptT.bind, ExceptT.mk, StateT.run, StateT.bind,
    ExceptT.bindCont]
  cases edit s with
  | none => rfl
  | some p =>
    obtain ⟨r, t⟩ := p
    cases r <;> rfl

theorem perform_get_bind (next : Store → TrapEdit β) (s : Store) :
    (get >>= next).perform s = (next s).perform s := by
  rw [perform_bind]
  rfl

/-- A number that does not trap. -/
theorem perform_step {o : Option α} {a : α} (h : o = some a) (next : α → TrapEdit β) (s : Store) :
    ((liftM o : TrapEdit α) >>= next).perform s = (next a).perform s := by
  subst h
  rw [perform_bind]
  rfl

end TrapEdit

/-- On valid stores of which `P` holds no step of the edit traps. If all lengths fit, only an
element that may not be removed stops it. -/
structure Secures {α : Type} (fits : Prop) (P : Store → Prop) (trap : TrapEdit α)
    (edit : Edit Store α) : Prop where
  perform_eq {s : Store} : s.Valid → P s → trap.perform s = some (edit.perform s)
  valid {s : Store} : s.Valid → P s → (edit.perform s).2.Valid
  type_of_error {s t : Store} {e : EngineError} :
    fits → s.Valid → P s → edit.perform s = (.error e, t) → e.category = .type

namespace Secures

variable {α β : Type} {fits : Prop} {P : Store → Prop} {trap : TrapEdit α} {edit : Edit Store α}

theorem imp {Q : Store → Prop} (h : Secures fits Q trap edit) (himp : ∀ s, P s → Q s) :
    Secures fits P trap edit where
  perform_eq hs hp := h.perform_eq hs (himp _ hp)
  valid hs hp := h.valid hs (himp _ hp)
  type_of_error hfits hs hp := h.type_of_error hfits hs (himp _ hp)

/-! #### Structure -/

theorem pure (a : α) : Secures fits P (Pure.pure a) (Pure.pure a) where
  perform_eq _ _ := rfl
  valid hs _ := hs
  type_of_error _ _ _ h := by cases h

/-- An edit without numbers. -/
theorem lift (hkeeps : Edit.Keeps Valid edit)
    (htype : ∀ s e t, edit.perform s = (.error e, t) → e.category = .type) :
    Secures fits P (.lift edit) edit where
  perform_eq _ _ := rfl
  valid hs _ := hkeeps _ hs
  type_of_error _ _ _ h := htype _ _ _ h

/-- The parts of an edit, one after the other. What held before the first one need not hold before
the second. -/
theorem bind {trapNext : α → TrapEdit β} {next : α → Edit Store β} (h : Secures fits P trap edit)
    (hnext : ∀ a, Secures fits (fun _ => True) (trapNext a) (next a)) :
    Secures fits P (trap >>= trapNext) (edit >>= next) where
  perform_eq {s} hs hp := by
    have hvalid := h.valid hs hp
    rw [TrapEdit.perform_bind, h.perform_eq hs hp, Edit.perform_bind]
    generalize edit.perform s = outcome at hvalid ⊢
    obtain ⟨_ | a, t⟩ := outcome
    · rfl
    · exact (hnext a).perform_eq hvalid trivial
  valid {s} hs hp := by
    have hvalid := h.valid hs hp
    rw [Edit.perform_bind]
    generalize edit.perform s = outcome at hvalid ⊢
    obtain ⟨_ | a, t⟩ := outcome
    · exact hvalid
    · exact (hnext a).valid hvalid trivial
  type_of_error {s u e} hfits hs hp herror := by
    have hvalid := h.valid hs hp
    have htype {t : Store} {e : EngineError} (ht : edit.perform s = (.error e, t)) :=
      h.type_of_error hfits hs hp ht
    rw [Edit.perform_bind] at herror
    generalize edit.perform s = outcome at hvalid htype herror
    obtain ⟨_ | a, t⟩ := outcome
    · cases herror
      exact htype rfl
    · exact (hnext a).type_of_error hfits hvalid trivial herror

/-- What follows on a read store may rely on what is known of it. -/
theorem read {trapNext : Store → TrapEdit β} {next : Store → Edit Store β}
    (h : ∀ s, s.Valid → P s → Secures fits (· = s) (trapNext s) (next s)) :
    Secures fits P (get >>= trapNext) (get >>= next) where
  perform_eq hs hp := by
    rw [TrapEdit.perform_get_bind, Edit.perform_get_bind]
    exact (h _ hs hp).perform_eq hs rfl
  valid hs hp := by
    rw [Edit.perform_get_bind]
    exact (h _ hs hp).valid hs rfl
  type_of_error hfits hs hp herror := by
    rw [Edit.perform_get_bind] at herror
    exact (h _ hs hp).type_of_error hfits hs rfl herror

/-- A number that does not trap, in front of an edit. -/
theorem step {o : Option α} {a : α} (ho : o = some a) {trapNext : α → TrapEdit β}
    {edit : Edit Store β} (h : Secures fits P (trapNext a) edit) :
    Secures fits P ((liftM o : TrapEdit α) >>= trapNext) edit where
  perform_eq hs hp := by rw [TrapEdit.perform_step ho, h.perform_eq hs hp]
  valid := h.valid
  type_of_error := h.type_of_error

/-- What follows on a checked length may rely on it. -/
theorem check {n : Nat} (hfits : fits → n ≤ maxLength) {trapNext : Unit → TrapEdit β}
    {next : Unit → Edit Store β}
    (h : n ≤ maxLength → Secures fits P (trapNext ()) (next ())) :
    Secures fits P (.lift (checkLength n) >>= trapNext) (checkLength n >>= next) := by
  rw [checkLength]
  split
  · rename_i hn
    exact h hn
  · rename_i hn
    exact ⟨fun _ _ => rfl, fun hs _ => hs, fun h => absurd (hfits h) hn⟩

theorem forM {f : β → TrapEdit Unit} {g : β → Edit Store Unit} {xs : List β}
    (h : ∀ x ∈ xs, Secures fits (fun _ => True) (f x) (g x)) :
    Secures fits P (xs.forM f) (xs.forM g) := by
  induction xs generalizing P with
  | nil => exact pure ()
  | cons x xs ih =>
    rw [List.forall_mem_cons] at h
    exact bind (h.1.imp fun _ _ => trivial) fun _ => ih h.2

/-- A result that is there already. -/
theorem ofExcept {r : Except EngineError α}
    (h : fits → ∀ e, r = .error e → e.category = .type) :
    Secures fits P (MonadExcept.ofExcept r) (MonadExcept.ofExcept r) := by
  cases r with
  | ok a => exact pure a
  | error e =>
    refine ⟨fun _ _ => rfl, fun hs _ => hs, fun hfits _ _ herror => ?_⟩
    cases herror
    exact h hfits e rfl

/-- Edits that go on as others do from another store. -/
theorem resume {s t : Store} {trap' : TrapEdit α} {edit' : Edit Store α}
    (h : Secures fits (· = t) trap edit) (ht : t.Valid) (htrap : trap'.perform s = trap.perform t)
    (hedit : edit'.perform s = edit.perform t) : Secures fits (· = s) trap' edit' where
  perform_eq _ hp := by
    subst hp
    rw [htrap, hedit, h.perform_eq ht rfl]
  valid _ hp := by
    subst hp
    rw [hedit]
    exact h.valid ht rfl
  type_of_error hfits _ hp herror := by
    subst hp
    rw [hedit] at herror
    exact h.type_of_error hfits ht rfl herror

end Secures

/-! ### Steps -/

section Steps

variable {fits : Prop} {P : Store → Prop} {host : Host}

theorem secures_assign {index : Nat} (hi : index < maxLength) (value : Value) :
    Secures fits P (trapAssign index value) (assign index value) := by
  refine .step (Index.add?_eq hi) (.lift (stable_valid.keeps_assign hi.le value) ?_)
  intro s e t herror
  rw [show (assign index value).perform s = (.ok (), s.put index value) from
    if_neg (Nat.ne_of_lt hi)] at herror
  cases herror

theorem secures_discard (index : Nat) :
    Secures fits P (.lift (discard host index)) (discard host index) := by
  refine .lift (stable_valid.keeps (.discard index)) ?_
  intro s e t herror
  simp only [Edit.perform, ExceptT.run, StateT.run, discard] at herror
  split at herror
  · cases herror
    rfl
  · cases herror

/-- The length at which a host stops is one more than the index of an element. -/
theorem secures_assignLength {length : Nat} (hn : length ≤ maxLength) :
    Secures fits P (trapAssignLength host length) (assignLength host length) where
  perform_eq {s} hs _ := by
    have hle := hs.length_le
    rw [trapAssignLength, TrapEdit.perform_get_bind]
    split
    · dsimp only
      rw [TrapEdit.perform_get_bind]
      cases hpinned : s.lastPinned? length host with
      | none => rfl
      | some index =>
        have hlt := lastPinned?_lt hs hpinned
        exact TrapEdit.perform_step (Index.add?_eq (by omega)) _ s
    · rfl
  valid hs _ := stable_valid.keeps (.assignLength hn) _ hs
  type_of_error _ _ _ herror := by
    simp only [Edit.perform, ExceptT.run, StateT.run, assignLength] at herror
    split at herror
    · cases herror
    · cases herror
      rfl

theorem secures_widenTo (kind : ElementKind) :
    Secures fits P (.lift (modify (·.widenTo kind))) (modify (·.widenTo kind)) :=
  .lift (Edit.Keeps.modify fun _ hs => valid_widenTo hs kind) fun s e t herror => by cases herror

theorem secures_transfer (source : Nat) {target : Nat} (ht : target < maxLength) :
    Secures fits P (trapTransfer host source target) (transfer host source target) := by
  refine .read fun s _ _ => ?_
  cases s.visible host source with
  | some value => exact secures_assign ht value
  | none => exact secures_discard target

/-- The index of each value is the first one and the place of the value. -/
theorem assignAll_eq (start : Nat) (values : List Value) :
    assignAll start values
      = values.zipIdx.forM fun (value, k) => assign (start + k) value := by
  have hshift : values.zipIdx start = values.zipIdx.map (Prod.map id (· + start)) := by
    rw [List.map_snd_add_zipIdx_eq_zipIdx, Nat.add_zero]
  rw [assignAll, hshift, List.forM_eq_forM, List.forM_map, ← List.forM_eq_forM]
  simp only [Prod.map, id, Nat.add_comm]

theorem secures_assignAll {start : Nat} {values : List Value}
    (hn : start + values.length ≤ maxLength) :
    Secures fits P (trapAssignAll start values) (assignAll start values) := by
  rw [assignAll_eq]
  refine .forM ?_
  rintro ⟨value, k⟩ hmem
  have hk : k < values.length := List.snd_lt_of_mem_zipIdx hmem
  refine .step (Index.narrow?_eq (by omega)) (.step (Index.add?_eq (by omega)) ?_)
  exact secures_assign (by omega) value

theorem secures_copyVisible (source : Store) (host : Host) {start count target : Nat}
    (hstart : start + count ≤ maxLength) (htarget : target + count ≤ maxLength) :
    Secures fits P (trapCopyVisible source host start count target)
      (copyVisible source host start count target) := by
  refine .forM fun k hk => ?_
  have hk := List.mem_range.mp hk
  refine .step (Index.add?_eq (by omega)) (.step (Index.add?_eq (by omega)) ?_)
  rw [trapCopyElement, copyElement]
  cases source.visible host (start + k) with
  | some value => exact secures_assign (by omega) value
  | none => exact .pure ()

end Steps

/-! ### New stores -/

theorem trapBuild_eq {fits : Prop} {trap : TrapEdit Unit} {edit : Edit Store Unit} {config : Config}
    (h : Secures fits (· = empty config) trap edit) :
    trapBuild config trap = some (build config edit) := by
  rw [trapBuild, h.perform_eq (valid_empty config) rfl, build]
  rcases edit.perform (empty config) with ⟨_ | _, t⟩
  · rfl
  · rfl

theorem type_of_build_eq_error {fits : Prop} {trap : TrapEdit Unit} {edit : Edit Store Unit}
    {config : Config} (h : Secures fits (· = empty config) trap edit) (hfits : fits)
    {e : EngineError} (herror : build config edit = .error e) : e.category = .type := by
  rw [build] at herror
  split at herror
  · cases herror
  · rename_i hperform
    cases herror
    exact h.type_of_error hfits (valid_empty config) rfl hperform

theorem secures_copyPart {fits : Prop} {P : Store → Prop} (s : Store) (host : Host)
    {start count : Nat} (hn : start + count ≤ maxLength) :
    Secures fits P (do trapCopyVisible s host start count 0; trapAssignLength .plain count)
      (copyPart s host start count) :=
  .bind (secures_copyVisible s host hn (by omega)) fun _ => secures_assignLength (by omega)

/-! ### At the ends -/

section Algorithms

variable {s : Store} {host : Host} {values : List Value}

theorem secures_genericPush (host : Host) (hword : s.length + values.length ≤ maxWord) :
    Secures (s.length + values.length ≤ maxLength) (· = s) (trapGenericPush values host)
      (genericPush values host) := by
  refine .read ?_
  rintro s hs rfl
  refine .step (Word.add?_eq hword) (.check id fun hn => ?_)
  refine .bind (secures_assignAll hn) fun _ => ?_
  exact .bind (secures_assignLength hn) fun _ => .pure _

/-- The loop that counts down to one reads one index less than it counts. -/
theorem secures_moveUp {fits : Prop} {P : Store → Prop} {length count : Nat}
    (hn : length + count ≤ maxLength) :
    Secures fits P
      ((List.range' 1 length).reverse.forM fun k => do
        trapTransfer host (← Word.sub? k 1) (← Word.sub? (← Index.add? k count) 1))
      ((List.range length).reverse.forM fun k => transfer host k (k + count)) := by
  rw [List.range'_eq_map_range, ← List.map_reverse, List.forM_eq_forM, List.forM_map,
    ← List.forM_eq_forM]
  refine .forM fun k hk => ?_
  have hk := List.mem_range.mp (List.mem_reverse.mp hk)
  refine .step (Word.sub?_eq (by omega)) (.step (Index.add?_eq (by omega)) ?_)
  refine .step (Word.sub?_eq (by omega)) ?_
  rw [show 1 + k - 1 = k by omega, show 1 + k + count - 1 = k + count by omega]
  exact secures_transfer k (by omega)

theorem secures_genericUnshift (host : Host) (hword : s.length + values.length ≤ maxWord) :
    Secures (s.length + values.length ≤ maxLength) (· = s) (trapGenericUnshift values host)
      (genericUnshift values host) := by
  refine .read ?_
  rintro s hs rfl
  refine .step (Word.add?_eq hword) (.check id fun hn => ?_)
  refine .step (Word.sub?_eq (Nat.le_add_right ..)) ?_
  rw [Nat.add_sub_cancel_left]
  have hend : Secures (s.length + values.length ≤ maxLength) (fun _ => True)
      (do trapAssignLength host (s.length + values.length); return s.length + values.length)
      (do assignLength host (s.length + values.length); return s.length + values.length) :=
    .bind (secures_assignLength hn) fun _ => .pure _
  dsimp only
  split
  · refine .bind (secures_moveUp hn) fun _ => ?_
    exact .bind (secures_assignAll (by omega)) fun _ => hend
  · exact hend.imp fun _ _ => trivial

/-! ### Blocks -/

theorem trapFastPush_eq (host : Host) (hword : s.length + values.length ≤ maxWord) :
    trapFastPush s values host = some (s.fastPush values host) := by
  rw [trapFastPush, Word.add?_eq hword, fastPush]
  dsimp only [Option.bind_eq_bind, Option.bind_some]
  split
  · rfl
  · rename_i hn
    rw [Index.narrow?_eq (Nat.not_lt.mp hn)]
    rfl

theorem fastSplice_eq_none {start count inserted : Nat}
    (h : s.length < start ∨ s.length - start < count ∨ maxLength < s.length - count + inserted ∨
      s.continuousParts? host = none) : s.fastSplice start count inserted host = none := by
  simp only [fastSplice]
  split
  · rfl
  · rename_i hbounds
    simp only [Bool.or_eq_true, decide_eq_true_eq, not_or] at hbounds
    obtain hstart | hcount | hlength | hparts := h
    · exact absurd hstart hbounds.1.1
    · exact absurd hcount hbounds.1.2
    · exact absurd hlength hbounds.2
    · rw [hparts, Option.map_none]

/-- The gap lies in front of what follows the window, so that it ends below the new length. -/
theorem trapFastSplice_eq (hs : s.Valid) (start : Nat) {count inserted : Nat} (host : Host)
    (hword : s.length - count + inserted ≤ maxWord) :
    trapFastSplice s start count inserted host = some (s.fastSplice start count inserted host) := by
  have hle := hs.length_le
  have hmax := maxLength_le_maxWord
  rw [trapFastSplice]
  simp only [Option.bind_eq_bind]
  split
  · rw [fastSplice_eq_none (.inr (.inr (.inl (by omega))))]
    rfl
  split
  · rename_i hstart
    rw [fastSplice_eq_none (.inl hstart)]
    rfl
  rw [Word.sub?_eq (by omega), Option.bind_some]
  split
  · rename_i hcount
    rw [fastSplice_eq_none (.inr (.inl hcount))]
    rfl
  rw [Word.sub?_eq (by omega), Option.bind_some, Word.add?_eq hword, Option.bind_some]
  split
  · rename_i hlength
    rw [fastSplice_eq_none (.inr (.inr (.inl hlength)))]
    rfl
  split
  · rename_i hparts
    rw [fastSplice_eq_none (.inr (.inr (.inr hparts)))]
    rfl
  · rw [Word.add?_eq (by omega), Option.bind_some, Index.narrow?_eq (by omega),
      Index.add?_eq (by omega)]
    simp only [Option.bind_some, ite_self]
    rfl

/-- A block operation that applies is all there is to do. -/
theorem secures_push (hs : s.Valid) (host : Host) (hword : s.length + values.length ≤ maxWord) :
    Secures (s.length + values.length ≤ maxLength) (· = s) (trapPush values host)
      (push values host) := by
  have hblock := trapFastPush_eq host hword
  cases hfast : s.fastPush values host with
  | none =>
    refine (secures_genericPush host hword).resume hs ?_ ?_
    · rw [trapPush, TrapEdit.orElse, TrapEdit.perform_get_bind,
        TrapEdit.perform_step (hblock.trans (congrArg some hfast))]
    · rw [push, Edit.perform_orElse, hfast]
  | some answer =>
    obtain ⟨n, t⟩ := answer
    refine (Secures.pure n).resume (stable_valid.fastPush hs hfast) ?_ ?_
    · rw [trapPush, TrapEdit.orElse, TrapEdit.perform_get_bind,
        TrapEdit.perform_step (hblock.trans (congrArg some hfast))]
      rfl
    · rw [push, Edit.perform_orElse, hfast]
      rfl

/-- Where the block operation applies, what is left to do is to write the values. -/
theorem secures_unshift (hs : s.Valid) (host : Host) (hword : s.length + values.length ≤ maxWord) :
    Secures (s.length + values.length ≤ maxLength) (· = s) (trapUnshift values host)
      (unshift values host) := by
  have hblock : trapFastSplice s 0 0 values.length host
      = some (s.fastSplice 0 0 values.length host) := trapFastSplice_eq hs 0 host hword
  cases hfast : s.fastSplice 0 0 values.length host with
  | none =>
    refine (secures_genericUnshift host hword).resume hs ?_ ?_
    · rw [trapUnshift, TrapEdit.perform_get_bind,
        TrapEdit.perform_step (hblock.trans (congrArg some hfast))]
    · rw [perform_unshift, shiftRight, hfast]
      rfl
  | some answer =>
    obtain ⟨removed, t⟩ := answer
    have hn : s.length + values.length ≤ maxLength := (fastSplice_bounds hfast).2.2
    have hwrite : Secures (s.length + values.length ≤ maxLength) (· = t)
        (do trapAssignAll 0 values; return (← get).length)
        (do assignAll 0 values; return (← get).length) :=
      .bind (secures_assignAll (by omega)) fun _ => .read fun _ _ _ => .pure _
    refine hwrite.resume (stable_valid.fastSplice hs hfast) ?_ ?_
    · rw [trapUnshift, TrapEdit.perform_get_bind,
        TrapEdit.perform_step (hblock.trans (congrArg some hfast))]
      rfl
    · rw [perform_unshift, shiftRight, hfast]
      rfl

/-! ### Splices -/

theorem secures_moveTail {fits : Prop} {P : Store → Prop} {length start count inserted : Nat}
    (hlength : length ≤ maxLength) (hcount : count ≤ length)
    (hn : length - count + inserted ≤ maxLength) :
    Secures fits P
      (trapMoveTail host length start count inserted (length - count + inserted))
      (moveTail host length start count inserted) := by
  have hmove : ∀ k ∈ List.range' start (length - count - start), Secures fits (fun _ => True)
      (do trapTransfer host (← Index.add? k count) (← Index.add? k inserted))
      (transfer host (k + count) (k + inserted)) := by
    intro k hk
    have hk := List.mem_range'_1.mp hk
    refine .step (Index.add?_eq (by omega)) (.step (Index.add?_eq (by omega)) ?_)
    exact secures_transfer _ (by omega)
  rw [trapMoveTail, moveTail]
  refine .step (Word.sub?_eq hcount) ?_
  split
  · rename_i hlt
    rw [show length - (length - count + inserted) = count - inserted by omega]
    exact .bind (.forM hmove) fun _ => .forM fun k _ => secures_discard k
  · split
    · exact .forM fun k hk => hmove k (List.mem_reverse.mp hk)
    · exact .pure ()

theorem secures_genericSplice (start count : Nat) (host : Host)
    (hword : s.length - min count (s.length - min start s.length) + values.length ≤ maxWord) :
    Secures
      (s.length - min count (s.length - min start s.length) + values.length ≤ maxLength) (· = s)
      (trapGenericSplice start count values host) (genericSplice start count values host) := by
  refine .read ?_
  rintro s hs rfl
  have hle := hs.length_le
  dsimp only
  generalize hfirst : min start s.length = first at hword ⊢
  refine .step (Word.sub?_eq (by omega)) ?_
  generalize hn : min count (s.length - first) = n at hword ⊢
  refine .step (Word.sub?_eq (by omega)) (.step (Word.add?_eq hword) ?_)
  refine .check id fun hlength => .step (Index.narrow?_eq (by omega)) (.read fun t _ _ => ?_)
  have hpart : Secures True (· = empty t.config)
      (do trapCopyVisible t host first n 0; trapAssignLength .plain n) (copyPart t host first n) :=
    secures_copyPart t host (by omega)
  refine .step (trapBuild_eq hpart)
    (.bind (.ofExcept fun _ e => type_of_build_eq_error hpart trivial) fun removed => ?_)
  refine .bind (secures_moveTail hle (by omega) hlength) fun _ => ?_
  refine .bind (secures_assignAll (by omega)) fun _ => ?_
  exact .bind (secures_assignLength hlength) fun _ => .pure removed

theorem trapSpliceBounds_eq (hs : s.Valid) (start count : Option Double) :
    trapSpliceBounds s.length start count = some (spliceBounds s.length start count) := by
  have hle := hs.length_le
  have hmax : maxLength ≤ 2 ^ 53 := by decide
  have hfirst : start.elim 0 (adjustIndex · s.length) ≤ s.length := by
    cases start with
    | none => exact Nat.zero_le _
    | some start => exact adjustIndex_le (by omega) start
  rw [trapSpliceBounds, Index.narrow?_eq (by omega), Option.bind_eq_bind, Option.bind_some,
    Word.sub?_eq hfirst]
  cases start <;> cases count <;> rfl

theorem secures_splice (hs : s.Valid) (start count : Option Double) (host : Host)
    (hword : s.length - (spliceBounds s.length start count).2 + values.length ≤ maxWord) :
    Secures (s.length - (spliceBounds s.length start count).2 + values.length ≤ maxLength) (· = s)
      (trapSplice start count values host) (splice start count values host) := by
  have hle := hs.length_le
  have hmax : maxLength ≤ 2 ^ 53 := by decide
  have hbounds := spliceBounds_le (show s.length ≤ 2 ^ 53 by omega) start count
  have htrapBounds := trapSpliceBounds_eq hs start count
  generalize hfirst : spliceBounds s.length start count = bounds at *
  obtain ⟨first, n⟩ := bounds
  dsimp only at hbounds hword ⊢
  have hblock := trapFastSplice_eq hs first host hword
  cases hfast : s.fastSplice first n values.length host with
  | none =>
    have hgeneric := @secures_genericSplice s values first n host
    rw [Nat.min_eq_left hbounds.1, Nat.min_eq_left hbounds.2] at hgeneric
    refine (hgeneric hword).resume hs ?_ ?_
    · rw [trapSplice, TrapEdit.perform_get_bind, TrapEdit.perform_step htrapBounds,
        TrapEdit.perform_get_bind, TrapEdit.perform_step (hblock.trans (congrArg some hfast))]
    · rw [perform_splice hfirst, hfast]
  | some answer =>
    obtain ⟨removed, t⟩ := answer
    have hn := (fastSplice_bounds hfast).2.2
    have hwrite : Secures (s.length - n + values.length ≤ maxLength) (· = t)
        (do trapAssignAll first values; return removed)
        (do assignAll first values; return removed) :=
      .bind (secures_assignAll (by omega)) fun _ => .pure _
    refine hwrite.resume (stable_valid.fastSplice hs hfast) ?_ ?_
    · rw [trapSplice, TrapEdit.perform_get_bind, TrapEdit.perform_step htrapBounds,
        TrapEdit.perform_get_bind, TrapEdit.perform_step (hblock.trans (congrArg some hfast))]
      rfl
    · rw [perform_splice hfirst, hfast]

/-! ### Concatenation -/

/-- What follows on an appended operand may rely on the length that it leads to. -/
theorem secures_appendOperand {α : Type} {fits : Prop} {P : Store → Prop} {length : Nat}
    {operand : Operand} {trapNext : Nat → TrapEdit α} {next : Nat → Edit Store α}
    (hword : length + operand.length ≤ maxWord) (hfits : fits → length + operand.length ≤ maxLength)
    (h : length + operand.length ≤ maxLength → Secures fits (fun _ => True)
      (trapNext (length + operand.length)) (next (length + operand.length))) :
    Secures fits P (trapAppendOperand host length operand >>= trapNext)
      (appendOperand host length operand >>= next) := by
  rw [trapAppendOperand, appendOperand, bind_assoc, bind_assoc]
  refine .step (Word.add?_eq hword) ?_
  rw [bind_assoc]
  refine .check hfits fun hn => ?_
  cases operand with
  | array source =>
    simp only [bind_assoc, pure_bind]
    refine .bind (secures_widenTo _) fun _ => ?_
    have hn' : length + source.length ≤ maxLength := hn
    refine .step (Index.narrow?_eq (by omega)) ?_
    exact .bind (secures_copyVisible source host (by omega) hn) fun _ => h hn
  | value element =>
    simp only [bind_assoc, pure_bind]
    have hn' : length + 1 ≤ maxLength := hn
    refine .step (Index.narrow?_eq (by omega)) ?_
    exact .bind (secures_assign hn element) fun _ => h hn

theorem secures_appendAll {α : Type} {fits : Prop} {P : Store → Prop} {operands : List Operand}
    {length : Nat} {trapNext : Nat → TrapEdit α} {next : Nat → Edit Store α}
    (hword : length + Operand.totalLength operands ≤ maxWord)
    (hfits : fits → length + Operand.totalLength operands ≤ maxLength)
    (hlength : length ≤ maxLength)
    (h : ∀ n ≤ maxLength, Secures fits (fun _ => True) (trapNext n) (next n)) :
    Secures fits P (operands.foldlM (trapAppendOperand host) length >>= trapNext)
      (operands.foldlM (appendOperand host) length >>= next) := by
  induction operands generalizing length P with
  | nil =>
    rw [List.foldlM_nil, List.foldlM_nil, pure_bind, pure_bind]
    exact (h length hlength).imp fun _ _ => trivial
  | cons operand operands ih =>
    rw [Operand.totalLength, List.map_cons, List.sum_cons, ← Nat.add_assoc] at hword hfits
    rw [List.foldlM_cons, List.foldlM_cons, bind_assoc, bind_assoc]
    refine secures_appendOperand (by omega) (fun hf => ?_) fun hn => ih hword hfits hn
    have := hfits hf
    omega

theorem secures_copyOperands {operands : List Operand}
    (hword : Operand.totalLength operands ≤ maxWord) {P : Store → Prop} :
    Secures (Operand.totalLength operands ≤ maxLength) P
      (do
        let length ← operands.foldlM (trapAppendOperand host) 0
        trapAssignLength .plain (← Index.narrow? length))
      (copyOperands operands host) := by
  refine secures_appendAll (by omega) (by omega) (Nat.zero_le _) fun n hn => ?_
  exact .step (Index.narrow?_eq hn) (secures_assignLength hn)

/-- A sum that ends with the first operand that is not continuous is no greater than the whole. -/
theorem trapTotal?_eq {total : Nat} {operands : List Operand}
    (hword : total + Operand.totalLength operands ≤ maxWord) :
    trapTotal? host total operands
      = some (if operands.all (Operand.isContinuous host) then
          some (total + Operand.totalLength operands) else none) := by
  induction operands generalizing total with
  | nil => rfl
  | cons operand operands ih =>
    rw [Operand.totalLength, List.map_cons, List.sum_cons, ← Nat.add_assoc] at hword ⊢
    rw [trapTotal?, List.all_cons]
    cases operand.isContinuous host with
    | false => rfl
    | true =>
      rw [Word.add?_eq (by omega), Option.bind_eq_bind, Option.bind_some, ih hword]
      rfl

theorem fastConcat_eq_none {operands : List Operand}
    (h : ¬((Operand.array s :: operands).all (Operand.isContinuous host) ∧
      Operand.totalLength (.array s :: operands) ≤ maxLength)) :
    s.fastConcat operands host = none := by
  rw [Operand.totalLength_eq_foldl] at h
  rw [fastConcat]
  refine if_neg fun happlies => h ?_
  rwa [Bool.and_eq_true, decide_eq_true_eq] at happlies

theorem trapFastConcat_eq {operands : List Operand} (host : Host)
    (hword : Operand.totalLength (.array s :: operands) ≤ maxWord) :
    trapFastConcat s operands host = some (s.fastConcat operands host) := by
  rw [trapFastConcat, trapTotal?_eq (by rwa [Nat.zero_add]), Nat.zero_add, Option.bind_eq_bind,
    Option.bind_some]
  split_ifs with hcontinuous
  · dsimp only
    split_ifs with hlength
    · rw [fastConcat_eq_none fun h => absurd h.2 (Nat.not_le.mpr hlength)]
      rfl
    · rw [Index.narrow?_eq (Nat.not_lt.mp hlength)]
      rfl
  · rw [fastConcat_eq_none fun h => hcontinuous h.1]
    rfl

theorem secures_genericConcat (operands : List Operand) (host : Host)
    (hword : Operand.totalLength (.array s :: operands) ≤ maxWord) :
    Secures (Operand.totalLength (.array s :: operands) ≤ maxLength) (· = s)
      (trapGenericConcat operands host) (make fun s => s.genericConcat operands host) := by
  refine .read ?_
  rintro s hs rfl
  have hcopy : Secures (Operand.totalLength (.array s :: operands) ≤ maxLength)
      (· = empty s.config)
      (do
        let length ← (Operand.array s :: operands).foldlM (trapAppendOperand host) 0
        trapAssignLength .plain (← Index.narrow? length))
      (copyOperands (.array s :: operands) host) := secures_copyOperands hword
  refine .step (trapBuild_eq hcopy) (.ofExcept ?_)
  exact fun hfits e => type_of_build_eq_error hcopy hfits

theorem secures_concat (hs : s.Valid) {operands : List Operand} (host : Host)
    (hword : Operand.totalLength (.array s :: operands) ≤ maxWord) :
    Secures (Operand.totalLength (.array s :: operands) ≤ maxLength) (· = s)
      (trapConcat operands host) (make fun s => s.concat operands host) := by
  have hblock := trapFastConcat_eq host hword
  cases hfast : s.fastConcat operands host with
  | none =>
    refine (secures_genericConcat operands host hword).resume hs ?_ ?_
    · rw [trapConcat, TrapEdit.perform_get_bind,
        TrapEdit.perform_step (hblock.trans (congrArg some hfast))]
    · rw [make, Edit.perform_get_bind, concat, hfast, make, Edit.perform_get_bind]
  | some result =>
    refine (Secures.pure result).resume hs ?_ ?_
    · rw [trapConcat, TrapEdit.perform_get_bind,
        TrapEdit.perform_step (hblock.trans (congrArg some hfast))]
    · rw [make, Edit.perform_get_bind, concat, hfast]
      rfl

end Algorithms

/-! ### Lengths that are too great -/

section TooLong

variable {α : Type} {a : SparseArray} {s : Store} {host : Host} {list : List (Option Value)}

theorem perform_checkLength_bind {n : Nat} (hn : maxLength < n) (next : Unit → Edit Store α)
    (s : Store) : (checkLength n >>= next).perform s = (.error .invalidLength, s) := by
  rw [checkLength, if_neg (Nat.not_le.mpr hn)]
  rfl

theorem takes_checkLength_of_lt {n : Nat} (hn : maxLength < n) (next : Unit → Edit Store α) :
    Takes a (checkLength n >>= next) (.error .invalidLength) a :=
  fun s hs ha => ⟨s, perform_checkLength_bind hn next s, hs, ha⟩

theorem Takes.stop {β : Type} {b : SparseArray} {e : EngineError} {edit : Edit Store α}
    (h : Takes a edit (.error e) b) (next : α → Edit Store β) :
    Takes a (edit >>= next) (.error e) b := by
  intro s hs ha
  obtain ⟨t, hperform, ht⟩ := h s hs ha
  refine ⟨t, ?_, ht⟩
  rw [Edit.perform_bind, hperform]

/-- Operands are appended up to the first behind which the result would be too long. -/
theorem exists_appendAll_of_lt {operands : List Operand} (host : Host) (h : a.Reads list)
    (hlength : list.length ≤ maxLength)
    (hn : maxLength < list.length + Operand.totalLength operands) :
    ∃ b, Takes a (operands.foldlM (appendOperand host) list.length) (.error .invalidLength) b := by
  induction operands generalizing a list with
  | nil => exact absurd hn (Nat.not_lt.mpr hlength)
  | cons o operands ih =>
    rw [List.foldlM_cons]
    rcases Nat.lt_or_ge maxLength (list.length + o.length) with hlt | hle
    · rw [appendOperand, bind_assoc]
      exact ⟨a, takes_checkLength_of_lt hlt _⟩
    · rw [Operand.totalLength, List.map_cons, List.sum_cons] at hn
      obtain ⟨b, hfirst, hb⟩ := exists_appendOperandSeen o host h hle
      have happended : (list ++ o.seen host).length = list.length + o.length := by
        rw [List.length_append, Operand.length_seen]
      obtain ⟨c, hrest⟩ := ih hb (happended ▸ hle) (by rw [happended, Operand.totalLength]; omega)
      rw [happended] at hrest
      exact ⟨c, hfirst.bind hrest⟩

theorem genericConcat_of_lt {operands : List Operand} (host : Host)
    (hn : maxLength < Operand.totalLength (.array s :: operands)) :
    s.genericConcat operands host = .error .invalidLength := by
  obtain ⟨b, hall⟩ := exists_appendAll_of_lt host SparseArray.Reads.nil (Nat.zero_le _)
    (show maxLength < 0 + Operand.totalLength (.array s :: operands) by rwa [Nat.zero_add])
  obtain ⟨t, hperform, -⟩ := hall.stop (assignLength .plain) (empty s.config)
    (valid_empty s.config) (toSparse_holes s.config 0)
  have hcopy : (copyOperands (.array s :: operands) host).perform (empty s.config)
      = (.error .invalidLength, t) := hperform
  rw [genericConcat, build, hcopy]

theorem perform_genericPush_of_lt {values : List Value} (host : Host)
    (hn : maxLength < s.length + values.length) :
    (genericPush values host).perform s = (.error .invalidLength, s) := by
  rw [genericPush, Edit.perform_get_bind, perform_checkLength_bind hn]

theorem perform_genericUnshift_of_lt {values : List Value} (host : Host)
    (hn : maxLength < s.length + values.length) :
    (genericUnshift values host).perform s = (.error .invalidLength, s) := by
  rw [genericUnshift, Edit.perform_get_bind, perform_checkLength_bind hn]

theorem perform_genericSplice_of_lt {start count : Nat} {values : List Value} (host : Host)
    (hn : maxLength < s.length - min count (s.length - min start s.length) + values.length) :
    (genericSplice start count values host).perform s = (.error .invalidLength, s) := by
  rw [genericSplice, Edit.perform_get_bind, perform_checkLength_bind hn]

end TooLong

/-! ### Detection -/

/-- The operation fails with a range error exactly where it leads to a length that is too great, and
then leaves the store as it is. Otherwise, and if that length is a machine word at all, no number
that it computes traps. -/
structure DetectsOverflow {α : Type} (s : Store) (edit : Edit Store α) (trap : TrapEdit α)
    (length : Nat) : Prop where
  range_iff :
    (∃ e t, edit.perform s = (.error e, t) ∧ e.category = .range) ↔ maxLength < length
  unchanged : maxLength < length → edit.perform s = (.error .invalidLength, s)
  secure : length ≤ maxWord → trap.perform s = some (edit.perform s)

theorem detectsOverflow {α : Type} {s : Store} {edit : Edit Store α} {trap : TrapEdit α}
    {length : Nat} (hs : s.Valid)
    (hsecures : length ≤ maxWord → Secures (length ≤ maxLength) (· = s) trap edit)
    (hover : maxLength < length → edit.perform s = (.error .invalidLength, s)) :
    s.DetectsOverflow edit trap length where
  range_iff := by
    constructor
    · rintro ⟨e, t, herror, hrange⟩
      by_contra hfits
      have hle := Nat.not_lt.mp hfits
      have htype := (hsecures (hle.trans maxLength_le_maxWord)).type_of_error hle hs rfl herror
      rw [htype] at hrange
      cases hrange
    · intro hlt
      exact ⟨.invalidLength, s, hover hlt, rfl⟩
  unchanged := hover
  secure hword := (hsecures hword).perform_eq hs rfl

/-- **Lengths do not overflow.** Every operation that makes an array longer detects a length that is
too great, exactly and before anything is changed: what is appended, written in front or in the
place of a window, and what is concatenated. -/
theorem Reachable.overflow_detected {s : Store} (h : s.Reachable) (host : Host) :
    (∀ values,
      s.DetectsOverflow (push values host) (trapPush values host) (s.length + values.length) ∧
      s.DetectsOverflow (genericPush values host) (trapGenericPush values host)
        (s.length + values.length) ∧
      s.DetectsOverflow (unshift values host) (trapUnshift values host)
        (s.length + values.length) ∧
      s.DetectsOverflow (genericUnshift values host) (trapGenericUnshift values host)
        (s.length + values.length)) ∧
    (∀ start count values,
      s.DetectsOverflow (splice start count values host) (trapSplice start count values host)
        (s.length - (spliceBounds s.length start count).2 + values.length)) ∧
    (∀ start count values,
      s.DetectsOverflow (genericSplice start count values host)
        (trapGenericSplice start count values host)
        (s.length - min count (s.length - min start s.length) + values.length)) ∧
    ∀ operands,
      s.DetectsOverflow (make fun s => s.concat operands host) (trapConcat operands host)
        (Operand.totalLength (.array s :: operands)) ∧
      s.DetectsOverflow (make fun s => s.genericConcat operands host)
        (trapGenericConcat operands host) (Operand.totalLength (.array s :: operands)) := by
  have hs := h.valid
  refine ⟨fun values => ⟨?_, ?_, ?_, ?_⟩, fun start count values => ?_,
    fun start count values => ?_, fun operands => ⟨?_, ?_⟩⟩
  · refine detectsOverflow hs (secures_push hs host) fun hn => ?_
    have hfast : s.fastPush values host = none := if_pos hn
    rw [push, Edit.perform_orElse, hfast, perform_genericPush_of_lt host hn]
  · exact detectsOverflow hs (secures_genericPush host) (perform_genericPush_of_lt host)
  · refine detectsOverflow hs (secures_unshift hs host) fun hn => ?_
    have hfast : s.fastSplice 0 0 values.length host = none :=
      fastSplice_eq_none (.inr (.inr (.inl hn)))
    rw [perform_unshift, shiftRight, hfast]
    exact perform_genericUnshift_of_lt host hn
  · exact detectsOverflow hs (secures_genericUnshift host) (perform_genericUnshift_of_lt host)
  · refine detectsOverflow hs (secures_splice hs start count host) fun hn => ?_
    obtain ⟨first, n, hbounds⟩ : ∃ first n, spliceBounds s.length start count = (first, n) :=
      ⟨_, _, rfl⟩
    rw [hbounds] at hn
    have hfast : s.fastSplice first n values.length host = none :=
      fastSplice_eq_none (.inr (.inr (.inl hn)))
    rw [perform_splice hbounds, hfast]
    refine perform_genericSplice_of_lt host (hn.trans_le ?_)
    dsimp only
    omega
  · exact detectsOverflow hs (secures_genericSplice start count host)
      (perform_genericSplice_of_lt host)
  · refine detectsOverflow hs (secures_concat hs host) fun hn => ?_
    have hfast : s.fastConcat operands host = none :=
      fastConcat_eq_none fun happlies => absurd happlies.2 (Nat.not_le.mpr hn)
    rw [make, Edit.perform_get_bind, concat, hfast, genericConcat_of_lt host hn]
    rfl
  · refine detectsOverflow hs (secures_genericConcat operands host) fun hn => ?_
    rw [make, Edit.perform_get_bind, genericConcat_of_lt host hn]
    rfl

/-- An array of the greatest length, none of whose elements exists: one more value is too many for
every operation, and a splice that takes one away as well succeeds. -/
theorem overflow_detected_of_greatest :
    let s := holes {} maxLength
    s.Reachable ∧
      (push [.null] .plain).perform s = (.error .invalidLength, s) ∧
      (genericUnshift [.null] .plain).perform s = (.error .invalidLength, s) ∧
      ¬∃ e t, (genericSplice 0 1 [.null] .plain).perform s = (.error e, t) ∧
        e.category = .range := by
  have hreachable : (holes {} maxLength).Reachable := .holes {} 0xffffffff
  obtain ⟨hends, -, hsplice, -⟩ := Reachable.overflow_detected hreachable .plain
  obtain ⟨hpush, -, -, hunshift⟩ := hends [.null]
  refine ⟨hreachable, hpush.unchanged (by decide), hunshift.unchanged (by decide), ?_⟩
  rw [(hsplice 0 1 [.null]).range_iff]
  decide

end Store

end ArrayEngine
