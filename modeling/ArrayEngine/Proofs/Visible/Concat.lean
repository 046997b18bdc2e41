import ArrayEngine.Proofs.Bulk.Concat
import ArrayEngine.Proofs.Operation

/-!
# Concatenations of what is seen

A concatenation lists what is seen of its operands, one after another, with a hole where nothing is
seen. Index by index the list is built from the front: each operand finds the result as long as the
positions that are taken, or shorter if the last of them are holes.

Continuous operands are copied as one block into slots whose kind was found beforehand, and index by
index into slots whose kind grows with each operand. Both come to the join of the kinds of those
that contribute an element.

## Main definitions

* `Operand.seen`, `Operand.joinKinds`: what is seen of an operand, and the kind of all of them
* `SparseArray.Reads`: an array whose elements are a list

## Main results

* `Store.exists_appendAllSeen`, `Store.exists_genericConcatSeen`: index by index
* `Store.Reachable.concat_visible`: index by index and as one block
-/

namespace ArrayEngine

/-! ### Lists of what is seen -/

namespace Operand

/-- What is seen of an operand at its positions. -/
def seen (host : Host) : Operand → List (Option Value)
  | .array store => (List.range store.length).map (store.visible host)
  | .value element => [some element]

/-- Kind of an operand, whether or not it contributes an element. -/
def ownKind : Operand → ElementKind
  | .array store => store.kind
  | .value element => .of element

/-- Join of the kinds of all operands that contribute an element. -/
def joinKinds (operands : List Operand) : ElementKind :=
  ((operands.filter fun operand => operand.length ≠ 0).map ownKind).foldl .join .empty

@[simp] theorem length_seen (host : Host) (operand : Operand) :
    (operand.seen host).length = operand.length := by
  cases operand <;> simp [seen, length]

/-- Number of positions of all operands. -/
def totalLength (operands : List Operand) : Nat := (operands.map length).sum

theorem length_flatMap_seen (host : Host) (operands : List Operand) :
    (operands.flatMap (seen host)).length = totalLength operands := by
  simp [totalLength, List.length_flatMap]

theorem totalLength_eq_foldl (operands : List Operand) :
    totalLength operands = operands.foldl (fun length operand => length + operand.length) 0 := by
  rw [totalLength, List.sum_eq_foldl, List.foldl_map]

theorem kind_eq_of_length_eq_zero {operand : Operand} (h : operand.length = 0) :
    operand.kind = .empty := by
  cases operand with
  | array store => exact if_pos h
  | value element => cases h

theorem kind_eq_ownKind {operand : Operand} (h : operand.length ≠ 0) :
    operand.kind = operand.ownKind := by
  cases operand with
  | array store => exact if_neg h
  | value element => rfl

theorem foldl_kind (operands : List Operand) (k : ElementKind) :
    operands.foldl (fun kind operand => kind.join operand.kind) k
      = ((operands.filter fun operand => operand.length ≠ 0).map ownKind).foldl .join k := by
  induction operands generalizing k with
  | nil => rfl
  | cons o operands ih =>
    by_cases hzero : o.length = 0
    · rw [List.foldl_cons, kind_eq_of_length_eq_zero hzero, ElementKind.join_empty, ih,
        List.filter_cons_of_neg (by simpa using hzero)]
    · rw [List.foldl_cons, kind_eq_ownKind hzero, ih,
        List.filter_cons_of_pos (by simpa using hzero), List.map_cons, List.foldl_cons]

theorem kind_concatAll_eq_joinKinds (operands : List Operand) :
    (concatAll operands).kind = joinKinds operands :=
  (kind_concatAll operands).trans (foldl_kind operands .empty)

end Operand

namespace SparseArray

/-- The elements of the array are those of a list, of which the last holes may be missing. -/
structure Reads (a : SparseArray) (list : List (Option Value)) : Prop where
  length_le : a.length ≤ list.length
  get?_eq : ∀ i, a.get? i = list[i]?.join

namespace Reads

variable {a b : SparseArray} {list : List (Option Value)}

theorem nil : (holes 0).Reads [] := ⟨Nat.le_refl 0, fun _ => rfl⟩

theorem widenTo (h : a.Reads list) (kind : ElementKind) : (a.widenTo kind).Reads list :=
  ⟨h.length_le, h.get?_eq⟩

theorem append {f : Nat → Option Value} {n : Nat} (h : a.Reads list)
    (hb : a.Overlaid b f list.length n) : b.Reads (list ++ (List.range n).map f) where
  length_le := by
    have hle := hb.length_le
    have hlist := h.length_le
    rw [List.length_append, List.length_map, List.length_range]
    omega
  get?_eq i := by
    rw [hb.get?_eq]
    by_cases hbefore : i < list.length
    · rw [if_neg (by omega), List.getElem?_append_left hbefore, h.get?_eq]
    · rw [List.getElem?_append_right (by omega), List.getElem?_map]
      by_cases hi : i < list.length + n
      · rw [if_pos (by omega), List.getElem?_range (by omega)]
        rfl
      · rw [if_neg (by omega), h.get?_eq, List.getElem?_eq_none (by omega),
          List.getElem?_eq_none (by rw [List.length_range]; omega)]
        rfl

end Reads

end SparseArray

namespace Store

variable {a : SparseArray} {s t : Store} {host : Host} {list : List (Option Value)}

/-- The elements of a store that was given its length in the end. -/
theorem toList_eq_of_reads (h : a.Reads list) (hs : s.toSparse = a.cut list.length) :
    s.toList = list := by
  have hlength : s.length = list.length := length_eq_of_toSparse hs
  refine List.ext_getElem? fun i => ?_
  rw [toList, List.getElem?_map, hlength]
  rcases Nat.lt_or_ge i list.length with hi | hi
  · rw [List.getElem?_range hi, Option.map_some, get?_eq_of_toSparse hs, SparseArray.get?_cut,
      if_pos hi, h.get?_eq, List.getElem?_eq_getElem hi]
    rfl
  · rw [List.getElem?_eq_none (by rwa [List.length_range]), List.getElem?_eq_none hi]
    rfl

/-! ### Index by index -/

/-- An operand is appended to a result that may be shorter than the positions that are taken. -/
theorem exists_appendOperandSeen (operand : Operand) (host : Host) (h : a.Reads list)
    (hn : list.length + operand.length ≤ maxLength) :
    ∃ b, Takes a (appendOperand host list.length operand) (.ok (list.length + operand.length)) b ∧
      b.Reads (list ++ operand.seen host) := by
  cases operand with
  | array source =>
    obtain ⟨b, hcopy, hb⟩ := exists_copyVisible (a := a.widenTo source.operandKind) source host 0
      h.length_le hn
    refine ⟨b, (takes_checkLength hn).bind (Takes.bind (takes_modify fun t ht hta => ?_)
      (hcopy.bind (takes_pure _))), ?_⟩
    · exact ⟨valid_widenTo ht _, hta ▸ toSparse_widenTo ht _⟩
    · have happend := (h.widenTo source.operandKind).append hb
      simp only [Nat.zero_add] at happend
      exact happend
  | value element =>
    have hput : a.Overlaid (a.put list.length element) (fun _ => some element) list.length 1 :=
      (SparseArray.Overlaid.zero a (fun _ => some element) list.length).succ
    exact ⟨a.put list.length element, (takes_checkLength hn).bind
      (Takes.bind (takes_assign hn element) (takes_pure _)), h.append hput⟩

theorem exists_appendAllSeen (operands : List Operand) (host : Host) (h : a.Reads list)
    (hn : list.length + Operand.totalLength operands ≤ maxLength) :
    ∃ b, Takes a (operands.foldlM (appendOperand host) list.length)
        (.ok (list ++ operands.flatMap (Operand.seen host)).length) b ∧
      b.Reads (list ++ operands.flatMap (Operand.seen host)) := by
  induction operands generalizing a list with
  | nil =>
    rw [List.flatMap_nil, List.append_nil]
    exact ⟨a, takes_pure _, h⟩
  | cons o operands ih =>
    rw [Operand.totalLength, List.map_cons, List.sum_cons] at hn
    obtain ⟨b, hfirst, hb⟩ := exists_appendOperandSeen o host h (by omega)
    have hlength : (list ++ o.seen host).length = list.length + o.length := by
      rw [List.length_append, Operand.length_seen]
    obtain ⟨c, hrest, hc⟩ := ih hb (by rw [hlength, Operand.totalLength]; omega)
    rw [hlength] at hrest
    rw [List.flatMap_cons, ← List.append_assoc, List.foldlM_cons]
    exact ⟨c, hfirst.bind hrest, hc⟩

/-- Index by index there is always a result, as long as it does not grow too long. -/
theorem exists_genericConcatSeen (s : Store) (operands : List Operand) (host : Host)
    (hn : Operand.totalLength (.array s :: operands) ≤ maxLength) :
    ∃ u, s.genericConcat operands host = .ok u ∧
      u.toList = (Operand.array s :: operands).flatMap (Operand.seen host) := by
  obtain ⟨b, hall, hb⟩ := exists_appendAllSeen (.array s :: operands) host
    SparseArray.Reads.nil (by simpa using hn)
  rw [List.nil_append] at hall hb
  have hlength := Operand.length_flatMap_seen host (.array s :: operands)
  have hcut : Takes b (assignLength .plain
      ((Operand.array s :: operands).flatMap (Operand.seen host)).length) (.ok ())
      (b.cut ((Operand.array s :: operands).flatMap (Operand.seen host)).length) :=
    takes_assignLength_of_le (hlength ▸ hn) hb.length_le
  obtain ⟨u, hbuild, -, hu⟩ := exists_build (hall.bind hcut) s.config
  exact ⟨u, hbuild, toList_eq_of_reads hb hu⟩

/-! ### Index by index and as one block -/

theorem toList_eq_of_toSparse (h : s.toSparse = t.toSparse) : s.toList = t.toList := by
  obtain ⟨hlength, -, hget⟩ := toSparse_eq_iff.mp h
  rw [toList, toList, hlength, funext hget]

theorem isSome_fastConcat {operands : List Operand}
    (hcontinuous : ∀ o ∈ Operand.array s :: operands, o.isContinuous host)
    (hn : Operand.totalLength (.array s :: operands) ≤ maxLength) :
    (s.fastConcat operands host).isSome := by
  rw [Operand.totalLength_eq_foldl] at hn
  have happlies : ((Operand.array s :: operands).all (Operand.isContinuous host) &&
      decide ((Operand.array s :: operands).foldl (fun length o => length + o.length) 0
        ≤ maxLength)) = true := by
    rw [Bool.and_eq_true, List.all_eq_true, decide_eq_true_iff]
    exact ⟨hcontinuous, hn⟩
  rw [fastConcat]
  dsimp only
  rw [if_pos happlies]
  rfl

/-- **Concatenating any operands.** What does not grow too long lists what is seen of all of them,
whichever way it is made. If all operands are continuous, both ways come to the kind of those that
contribute an element. The operands are not edited: they are what they were. -/
theorem Reachable.concat_visible (h : s.Reachable) {operands : List Operand}
    (hoperands : ∀ u, .array u ∈ operands → u.Reachable) (host : Host)
    (hn : Operand.totalLength (.array s :: operands) ≤ maxLength) :
    ∃ t u, s.concat operands host = .ok t ∧ s.genericConcat operands host = .ok u ∧
      t.length = Operand.totalLength (.array s :: operands) ∧
      u.length = Operand.totalLength (.array s :: operands) ∧
      t.toList = (Operand.array s :: operands).flatMap (Operand.seen host) ∧
      u.toList = (Operand.array s :: operands).flatMap (Operand.seen host) ∧
      ((∀ o ∈ Operand.array s :: operands, o.isContinuous host) →
        t.kind = Operand.joinKinds (.array s :: operands) ∧
          u.kind = Operand.joinKinds (.array s :: operands)) := by
  obtain ⟨u, hgeneric, hu⟩ := exists_genericConcatSeen s operands host hn
  have hlength {w : Store} (hw : w.toList
      = (Operand.array s :: operands).flatMap (Operand.seen host)) :
      w.length = Operand.totalLength (.array s :: operands) := by
    rw [← Operand.length_flatMap_seen host, ← hw, toList, List.length_map, List.length_range]
  cases hconcat : s.fastConcat operands host with
  | none =>
    refine ⟨u, u, ?_, hgeneric, hlength hu, hlength hu, hu, hu, fun hcontinuous => ?_⟩
    · rw [concat, hconcat]
      exact hgeneric
    · have hsome := isSome_fastConcat hcontinuous hn
      rw [hconcat] at hsome
      cases hsome
  | some t =>
    have hvalid : ∀ o ∈ operands, o.Valid := fun o ho => by
      cases o with
      | array u => exact (hoperands u ho).valid
      | value v => trivial
    obtain ⟨-, hblock, -, -⟩ := fastConcat_spec h.valid hvalid hconcat
    obtain ⟨u', hgeneric', -, hsame⟩ := exists_genericConcat h.valid hvalid hconcat
    obtain rfl : u = u' := Except.ok.inj (hgeneric.symm.trans hgeneric')
    have ht := (toList_eq_of_toSparse hsame).symm.trans hu
    have hkind : t.kind = Operand.joinKinds (.array s :: operands) :=
      (kind_eq_of_toSparse hblock).trans (Operand.kind_concatAll_eq_joinKinds _)
    refine ⟨t, u, ?_, hgeneric, hlength ht, hlength hu, ht, hu, fun _ => ⟨hkind, ?_⟩⟩
    · rw [concat, hconcat]
    · exact (kind_eq_of_toSparse hsame).trans hkind

/-- A hole through which a value shows, and a value: the block copy does not apply to the hole. -/
theorem concat_visible_of_inherited :
    let s := holes {} 1
    let host := Host.plain.inherit 0 .null
    Operand.totalLength [.array s, .array s, .value .undefined] ≤ maxLength ∧
      ∃ t u, s.concat [.array s, .value .undefined] host = .ok t ∧
        s.genericConcat [.array s, .value .undefined] host = .ok u ∧
        t.toList = [some .null, some .null, some .undefined] ∧ u.toList = t.toList := by
  intro s host
  have hn : Operand.totalLength [.array s, .array s, .value .undefined] ≤ maxLength := by decide
  have hoperands : ∀ u, .array u ∈ [Operand.array s, .value .undefined] → u.Reachable := by
    intro u hu
    obtain rfl : u = s := by simpa using hu
    exact .holes {} 1
  have hlist : [Operand.array s, .array s, .value .undefined].flatMap (Operand.seen host)
      = [some .null, some .null, some .undefined] := by
    have hone : Operand.seen host (.array s) = [some .null] :=
      congrArg (fun v? => [v?]) (visible_holes {} 1 host 0)
    rw [List.flatMap_cons, hone, List.flatMap_cons, hone]
    rfl
  obtain ⟨t, u, hconcat, hgeneric, -, -, ht, hu, -⟩ :=
    Reachable.concat_visible (.holes {} 1) hoperands host hn
  exact ⟨hn, t, u, hconcat, hgeneric, ht.trans hlist, hu.trans ht.symm⟩

end Store

end ArrayEngine
