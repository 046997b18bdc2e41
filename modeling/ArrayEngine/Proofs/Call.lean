import ArrayEngine.Proofs.Store.Step

/-!
# Stores refine sparse arrays

The basic calls on a store, as data: what a call does to a store and what it does to a sparse array
are two functions, and a run of calls is a fold of either. Started from holes, the two runs give the
same replies and end in a store and a sparse array that no observation tells apart. The tuning, the
layouts and the moments at which one gives way to another are not to be seen.

## Main definitions

* `Call`, `Reply`: a basic call, and what it answers
* `Call.perform`, `Call.meaning`: a call on a store, and on a sparse array
* `Store.run`, `SparseArray.run`: calls one after another, with their replies

## Main results

* `Call.perform_spec`: one call
* `Store.run_spec`: a run, from any valid store
* `Store.run_holes_refines`: every observation of a store after any run
-/

namespace ArrayEngine

/-- A basic call on a store. -/
inductive Call where
  | set (index : UInt32) (value : Value)
  | delete (index : UInt32)
  | truncate (length : UInt32) (host : Host)
  | setLength (length : UInt32) (host : Host)
  | widenTo (kind : ElementKind)
  | ensure (index : UInt32)

/-- What a basic call answers. -/
inductive Reply where
  | written (result : Except EngineError Unit)
  | removed (found : Bool)
  | shortened (stopped : Option Truncation)
  | done

theorem toNat_le_maxLength (n : UInt32) : n.toNat ≤ maxLength := by
  have h := n.toNat_lt
  rw [maxLength]
  omega

namespace Call

/-- A call on a store. -/
def perform (s : Store) : Call → Reply × Store
  | set index value =>
    match (Store.assign index.toNat value).perform s with
    | (result, t) => (.written result, t)
  | delete index =>
    match s.delete index.toNat with
    | (found, t) => (.removed found, t)
  | truncate length host =>
    match s.truncate length.toNat host with
    | (stopped, t) => (.shortened stopped, t)
  | setLength length host =>
    match s.setLength length.toNat host with
    | (stopped, t) => (.shortened stopped, t)
  | widenTo kind => (.done, s.widenTo kind)
  | ensure index => (.done, s.reserve index.toNat)

/-- The same call on a sparse array. -/
def meaning (a : SparseArray) : Call → Reply × SparseArray
  | set index value =>
    if index.toNat = maxLength then (.written (.error .invalidIndex), a)
    else (.written (.ok ()), a.put index.toNat value)
  | delete index => (.removed (a.get? index.toNat).isSome, a.remove index.toNat)
  | truncate length host =>
    match a.truncate length.toNat host with
    | (stopped, b) => (.shortened stopped, b)
  | setLength length host =>
    match a.setLength length.toNat host with
    | (stopped, b) => (.shortened stopped, b)
  | widenTo kind => (.done, a.widenTo kind)
  | ensure _ => (.done, a)

/-- A call on a valid store answers and does what it answers and does on the sparse array. -/
theorem perform_spec {s : Store} (h : s.Valid) (call : Call) :
    (call.perform s).2.Valid ∧ (call.perform s).1 = (call.meaning s.toSparse).1 ∧
      (call.perform s).2.toSparse = (call.meaning s.toSparse).2 := by
  cases call with
  | set index value =>
    have hle := toNat_le_maxLength index
    simp only [perform, meaning, Edit.perform, ExceptT.run, StateT.run, Store.assign]
    split
    · exact ⟨h, rfl, rfl⟩
    · exact ⟨Store.valid_put h (by omega) value, rfl, Store.toSparse_put h _ _⟩
  | delete index =>
    refine ⟨Store.valid_remove h _, ?_, Store.toSparse_remove h _⟩
    exact congrArg Reply.removed (Store.delete_fst h _)
  | truncate length host =>
    obtain ⟨hstopped, hafter⟩ := Store.truncate_eq h length.toNat host
    exact ⟨Store.valid_truncate h _ host, congrArg Reply.shortened hstopped, hafter⟩
  | setLength length host =>
    obtain ⟨hstopped, hafter⟩ := Store.setLength_eq h length.toNat host
    refine ⟨Store.valid_setLength h (toNat_le_maxLength length) host, ?_, hafter⟩
    exact congrArg Reply.shortened hstopped
  | widenTo kind => exact ⟨Store.valid_widenTo h kind, rfl, Store.toSparse_widenTo h kind⟩
  | ensure index => exact ⟨h, rfl, rfl⟩

end Call

/-! ### Runs -/

/-- Calls on a store one after another: their replies, and the store in the end. -/
def Store.run (s : Store) : List Call → List Reply × Store
  | [] => ([], s)
  | call :: calls =>
    match call.perform s with
    | (reply, t) =>
      match t.run calls with
      | (replies, u) => (reply :: replies, u)

/-- The same calls on a sparse array. -/
def SparseArray.run (a : SparseArray) : List Call → List Reply × SparseArray
  | [] => ([], a)
  | call :: calls =>
    match call.meaning a with
    | (reply, b) =>
      match b.run calls with
      | (replies, c) => (reply :: replies, c)

namespace Store

theorem run_spec {s : Store} (h : s.Valid) (calls : List Call) :
    (s.run calls).2.Valid ∧ (s.run calls).1 = (s.toSparse.run calls).1 ∧
      (s.run calls).2.toSparse = (s.toSparse.run calls).2 := by
  induction calls generalizing s with
  | nil => exact ⟨h, rfl, rfl⟩
  | cons call calls ih =>
    obtain ⟨hvalid, hreply, hafter⟩ := call.perform_spec h
    obtain ⟨hvalid', hreplies, hend⟩ := ih hvalid
    rw [hafter] at hreplies hend
    exact ⟨hvalid', congrArg₂ List.cons hreply hreplies, hend⟩

/-- **Stores are sparse arrays.** A store that was made with holes only and went through any calls
cannot be told from the sparse array that went through the same calls. -/
theorem run_holes_refines (config : Config) (length : UInt32) (calls : List Call) :
    let (replies, s) := (holes config length.toNat).run calls
    let (replies', a) := (SparseArray.holes length.toNat).run calls
    replies = replies' ∧ s.length = a.length ∧ s.kind = a.kind ∧ (∀ i, s.get? i = a.get? i) ∧
      (∀ i, s.has i = (a.get? i).isSome) ∧
      (s.entries.Pairwise fun p q => p.1 < q.1) ∧
      (∀ i v, (i, v) ∈ s.entries ↔ a.get? i = some v) ∧
      s.toList = (List.range a.length).map a.get? ∧
      (s.isSparse = true ↔ ∃ i < a.length, a.get? i = none) := by
  have hholes := valid_holes config (toNat_le_maxLength length)
  obtain ⟨hvalid, hreplies, hend⟩ := run_spec hholes calls
  rw [toSparse_holes] at hreplies hend
  refine ⟨hreplies, ?_⟩
  rw [← hend]
  exact ⟨rfl, rfl, fun _ => rfl, has_eq hvalid, pairwise_entries _, fun _ _ => mem_entries hvalid,
    rfl, isSparse_iff hvalid⟩

end Store

end ArrayEngine
