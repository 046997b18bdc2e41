import ArrayEngine.Proofs.Store.Step

/-!
# Stores that are alike

What it means that two ways to do the same thing agree. They finish with the same answer or stop
with the same failure, and they leave stores that no observation tells apart.

Valid stores without holes that stand for the same sparse array are alike, so that two edits agree
as soon as they take their sparse arrays to the same full one.

## Main definitions

* `Store.Alike`: no observation tells two stores apart
* `Store.SameArray`, `Store.SameElements`: two stores have the same elements
* `SameEnding`, `SameResult`: two edits, or two answers, agree

## Main results

* `Store.Takes.sameEnding`
-/

namespace ArrayEngine

/-- The same failure, or two answers that `R` relates. -/
inductive SameResult {α : Type} (R : α → α → Prop) :
    Except EngineError α → Except EngineError α → Prop
  | ok {a b : α} (h : R a b) : SameResult R (.ok a) (.ok b)
  | error (e : EngineError) : SameResult R (.error e) (.error e)

theorem SameResult.refl {α : Type} {R : α → α → Prop} (h : ∀ a, R a a)
    (r : Except EngineError α) : SameResult R r r := by
  cases r with
  | ok a => exact .ok (h a)
  | error e => exact .error e

theorem SameResult.eq {α : Type} {r r' : Except EngineError α} (h : SameResult Eq r r') :
    r = r' := by
  cases h with
  | ok hab => rw [hab]
  | error e => rfl

theorem SameResult.map {α β : Type} {R : α → α → Prop} {Q : β → β → Prop} {f : α → β}
    {r r' : Except EngineError α} (h : SameResult R r r') (hf : ∀ a b, R a b → Q (f a) (f b)) :
    SameResult Q (r.map f) (r'.map f) := by
  cases h with
  | ok hab => exact .ok (hf _ _ hab)
  | error e => exact .error e

/-- Answers are related as soon as they are so where both are given. -/
theorem SameResult.imp {α : Type} {R Q : α → α → Prop} {r r' : Except EngineError α}
    (h : SameResult R r r') (hR : ∀ a b, r = .ok a → r' = .ok b → R a b → Q a b) :
    SameResult Q r r' := by
  cases h with
  | ok hab => exact .ok (hR _ _ rfl rfl hab)
  | error e => exact .error e

theorem SameResult.symm {α : Type} {R : α → α → Prop} {r r' : Except EngineError α}
    (h : SameResult R r r') (hR : ∀ a b, R a b → R b a) : SameResult R r' r := by
  cases h with
  | ok hab => exact .ok (hR _ _ hab)
  | error e => exact .error e

theorem SameResult.trans {α : Type} {R : α → α → Prop} {r r' r'' : Except EngineError α}
    (h : SameResult R r r') (h' : SameResult R r' r'')
    (hR : ∀ a b c, R a b → R b c → R a c) : SameResult R r r'' := by
  cases h with
  | ok hab =>
    cases h' with
    | ok hbc => exact .ok (hR _ _ _ hab hbc)
  | error e => exact h'

namespace Store

/-- Stores that no observation tells apart. -/
structure Alike (s t : Store) : Prop where
  length_eq : s.length = t.length
  kind_eq : s.kind = t.kind
  isDictionary_eq : s.isDictionary = t.isDictionary
  get?_eq : ∀ i, s.get? i = t.get? i

theorem Alike.refl (s : Store) : s.Alike s := ⟨rfl, rfl, rfl, fun _ => rfl⟩

/-- Stores that differ in their layouts at most. -/
def SameArray (s t : Store) : Prop :=
  s.length = t.length ∧ s.kind = t.kind ∧ ∀ i, s.get? i = t.get? i

theorem SameArray.refl (s : Store) : s.SameArray s := ⟨rfl, rfl, fun _ => rfl⟩

/-- Stores with the same elements, though perhaps of different kinds. -/
def SameElements (s t : Store) : Prop := s.length = t.length ∧ ∀ i, s.get? i = t.get? i

theorem SameElements.refl (s : Store) : s.SameElements s := ⟨rfl, fun _ => rfl⟩

theorem sameElements_of_lt {s t : Store} (hlength : s.length = t.length)
    (hget : ∀ i < s.length, s.get? i = t.get? i) : s.SameElements t := by
  refine ⟨hlength, ?_⟩
  intro i
  rcases Nat.lt_or_ge i s.length with hi | hi
  · exact hget i hi
  · rw [← get?_toSparse, ← get?_toSparse, s.toSparse.get?_eq_none i hi,
      t.toSparse.get?_eq_none i (hlength.ge.trans hi)]

/-- Full stores are alike if they stand for the same sparse array. -/
theorem alike_of_isFull {s t : Store} {a : SparseArray} (ha : a.IsFull) (hs : s.Valid)
    (ht : t.Valid) (hsa : s.toSparse = a) (hta : t.toSparse = a) : s.Alike t := by
  obtain ⟨hlength, hkind, hget⟩ := toSparse_eq_iff.mp (hsa.trans hta.symm)
  refine ⟨hlength, hkind, ?_, hget⟩
  rw [isDictionary_eq_false hs (hsa ▸ ha), isDictionary_eq_false ht (hta ▸ ha)]

/-- Two endings of an edit: the same failure or answers that `R` relates, and stores that are
alike. -/
structure SameEnding {α : Type} (R : α → α → Prop) (p q : Except EngineError α × Store) : Prop where
  result : SameResult R p.1 q.1
  alike : p.2.Alike q.2

variable {α : Type}

theorem SameEnding.refl {R : α → α → Prop} (h : ∀ a, R a a) (p : Except EngineError α × Store) :
    SameEnding R p p := ⟨.refl h p.1, .refl p.2⟩

theorem SameEnding.rfl {p : Except EngineError α × Store} : SameEnding Eq p p :=
  .refl (fun _ => Eq.refl _) p

/-- What ends as a finished edit does has finished, too. -/
theorem SameEnding.exists_eq {p : Except EngineError α × Store} {v : α} {t : Store}
    (h : SameEnding Eq p (.ok v, t)) : ∃ u, p = (.ok v, u) ∧ u.Alike t :=
  ⟨p.2, Prod.ext h.result.eq (Eq.refl _), h.alike⟩

/-- Edits that take their stores to the same full sparse array end in the same way. -/
theorem Takes.sameEnding {s t : Store} {edit edit' : Edit Store α} {r : Except EngineError α}
    {b : SparseArray} (h : Takes s.toSparse edit r b) (h' : Takes t.toSparse edit' r b)
    (hs : s.Valid) (ht : t.Valid) (hb : b.IsFull) :
    SameEnding Eq (edit.perform s) (edit'.perform t) := by
  obtain ⟨u, heq, hu, hub⟩ := h s hs rfl
  obtain ⟨u', heq', hu', hub'⟩ := h' t ht rfl
  rw [heq, heq']
  exact ⟨.refl (fun _ => rfl) r, alike_of_isFull hb hu hu' hub hub'⟩

end Store

end ArrayEngine
