import ArrayEngine.Proofs.Text.Utf16
import ArrayEngine.Proofs.Visible.Sort

/-!
# Strings in the order of their texts

The order of texts compares strings by the code units of what they become as text. Strings that are
code units of a text keep theirs, and come in the order of their own code units. A surrogate without
its other half is compared as U+FFFD: strings that differ in nothing else are equal by the order,
and such a string comes behind strings that its own code units would put it before.

A sort leaves adjacent strings in this order, also where it stops at an element that the host does
not let go: by then all values have been written.

## Main definitions

* `Text.Compares`: an outcome says which of two lists of code units comes first

## Main results

* `Value.compareTexts_string`: how strings are compared
* `Store.get?_of_discardAll`, `Store.get?_of_sort`: what a sort leaves, whichever way it ends
* `Store.Reachable.sort_strings`
-/

namespace ArrayEngine

/-! ### Comparisons of code units -/

namespace Text

/-- The outcome of a comparison says which list of code units comes first, by the first code unit in
which they differ, and is equality for the same list only. -/
structure Compares (outcome : Ordering) (units units' : List UInt16) : Prop where
  lt_iff : outcome = .lt ↔ units < units'
  eq_iff : outcome = .eq ↔ units = units'
  gt_iff : outcome = .gt ↔ units' < units

theorem compare_eq_lt_iff (units units' : List UInt16) :
    compare units units' = .lt ↔ units < units' := by
  induction units generalizing units' with
  | nil => cases units' <;> simp
  | cons u units ih =>
    cases units' with
    | nil => simp
    | cons v units' =>
      rw [List.compare_eq_compareLex] at ih ⊢
      rw [List.compareLex_cons_cons, Ordering.then_eq_lt, ih, List.cons_lt_cons_iff,
        Std.compare_eq_lt, Std.compare_eq_iff_eq]

theorem compares_compare (units units' : List UInt16) :
    Compares (compare units units') units units' where
  lt_iff := compare_eq_lt_iff units units'
  eq_iff := Std.compare_eq_iff_eq
  gt_iff := by rw [Std.OrientedOrd.eq_swap, Ordering.swap_eq_gt, compare_eq_lt_iff]

theorem Compares.le {outcome : Ordering} {units units' : List UInt16}
    (h : Compares outcome units units') (houtcome : outcome ≠ .gt) : units ≤ units' :=
  List.not_lt.mp (h.gt_iff.not.mp houtcome)

end Text

open Text (mended WellFormed Compares)

theorem Value.textUnits_string (units : List UInt16) :
    (Value.string units).textUnits = mended units := by
  rw [textUnits, text, String.toList_ofList, Text.encodeUtf16_decodeUtf16]

/-- Strings are compared with every lone surrogate replaced. -/
theorem Value.compareTexts_string (units units' : List UInt16) :
    Compares (compareTexts (.string units) (.string units')) (mended units) (mended units') := by
  rw [compareTexts, textUnits_string, textUnits_string]
  exact Text.compares_compare _ _

namespace Store

variable {s t : Store} {host : Host} {order : Value → Value → Ordering}
  {r : Except EngineError Unit}

/-! ### What a sort leaves -/

/-- What is seen of a store made of values is these values, since none of them is a hole. -/
theorem visibleValues_ofValues (config : Config) (values : List Value) (host : Host) :
    (ofValues config values).visibleValues host = values := by
  have hvisible : (List.range values.length).map ((ofValues config values).visible host)
      = values.map some := by
    refine List.ext_getElem (by simp) fun i _ hi => ?_
    rw [List.getElem_map, List.getElem_map, List.getElem_range, visible, get?_ofValues,
      List.getElem?_eq_getElem]
    rfl
  calc (ofValues config values).visibleValues host
      = ((List.range values.length).map ((ofValues config values).visible host)).filterMap id := by
        rw [List.filterMap_map, Function.id_comp]
        rfl
    _ = values := by rw [hvisible, List.filterMap_map, Function.id_comp, List.filterMap_some]

theorem exists_sort (h : s.Valid) (hhost : ∀ i, host.deletable i)
    (order : Value → Value → Ordering) : ∃ t, (sort host order).perform s = (.ok (), t) := by
  obtain ⟨t, hperform, -⟩ := takes_sort hhost s rfl s h rfl
  exact ⟨t, hperform⟩

/-- Elements are removed one by one, up to the first that the host does not let go. -/
theorem get?_of_discardAll (h : s.Valid) {indices : List Nat}
    (hperform : (indices.forM (discard host)).perform s = (r, t)) :
    (∀ i, i ∉ indices → t.get? i = s.get? i) ∧ (r = .ok () → ∀ i ∈ indices, t.get? i = none) := by
  induction indices generalizing s with
  | nil =>
    obtain ⟨rfl, rfl⟩ : r = .ok () ∧ t = s := by
      cases hperform
      exact ⟨rfl, rfl⟩
    exact ⟨fun _ _ => rfl, fun _ _ hi => absurd hi List.not_mem_nil⟩
  | cons index rest ih =>
    have hdiscard : (discard host index).perform s = if s.has index && !host.deletable index then
        (.error (.pinned index), s) else (.ok (), s.remove index) := rfl
    rw [Edit.forM_cons, Edit.perform_bind, hdiscard] at hperform
    rcases Bool.eq_false_or_eq_true (s.has index && !host.deletable index) with hpinned | hfree
    case inl =>
      rw [if_pos hpinned] at hperform
      cases hperform
      exact ⟨fun _ _ => rfl, fun hok => nomatch hok⟩
    case inr =>
      rw [hfree, if_neg Bool.false_ne_true] at hperform
      obtain ⟨hkept, hremoved⟩ := ih (valid_remove h index) hperform
      have hget (i : Nat) : (s.remove index).get? i = if i = index then none else s.get? i := by
        rw [get?_eq_of_toSparse (toSparse_remove h index), SparseArray.get?_remove, get?_toSparse]
      constructor
      · intro i hi
        rw [List.mem_cons, not_or] at hi
        rw [hkept i hi.2, hget, if_neg hi.1]
      · intro hok i hi
        by_cases hrest : i ∈ rest
        · exact hremoved hok i hrest
        · obtain rfl : i = index := (List.mem_cons.mp hi).resolve_right hrest
          rw [hkept i hrest, hget, if_pos rfl]

/-- A sort has written all values before it removes anything, and leaves nothing behind them if it
finishes. -/
theorem get?_of_sort (h : s.Valid) (hperform : (sort host order).perform s = (r, t)) :
    (∀ i < (s.visibleValues host).length,
        t.get? i = (sortedValues order (s.visibleValues host))[i]?) ∧
      (r = .ok () → ∀ i, (s.visibleValues host).length ≤ i → t.get? i = none) := by
  generalize hsorted : sortedValues order (s.visibleValues host) = sorted
  have hlength : sorted.length = (s.visibleValues host).length := by
    rw [← hsorted, length_sortedValues]
  have hle := length_visibleValues_le s host
  obtain ⟨u, hu, hvalid, hwritten⟩ :
      ∃ u, (assignAll 0 sorted).perform s = (.ok (), u) ∧ u.Valid ∧
        u.toSparse = s.toSparse.write 0 sorted :=
    takes_assignAll (Nat.zero_le _) (by have := h.length_le; omega) s h rfl
  rw [sort, Edit.perform_get_bind, Edit.perform_get_bind, hsorted, Edit.perform_bind_ok hu]
    at hperform
  obtain ⟨hkept, hremoved⟩ := get?_of_discardAll hvalid hperform
  have hget (i : Nat) : u.get? i = if i < sorted.length then sorted[i]? else s.get? i := by
    rw [get?_eq_of_toSparse hwritten, SparseArray.get?_write]
    exact if_congr (by omega) rfl rfl
  have hmem (i : Nat) : i ∈ (List.range' sorted.length (s.length - sorted.length)).reverse ↔
      sorted.length ≤ i ∧ i < s.length := by
    rw [List.mem_reverse, List.mem_range'_1]
    omega
  rw [← hlength]
  constructor
  · intro i hi
    rw [hkept i (by rw [hmem]; omega), hget, if_pos hi]
  · intro hok i hi
    by_cases hinside : i < s.length
    · exact hremoved hok i ((hmem i).mpr ⟨hi, hinside⟩)
    · rw [hkept i (by rw [hmem]; omega), hget, if_neg (by omega), ← get?_toSparse,
        s.toSparse.get?_eq_none i (Nat.not_lt.mp hinside)]

/-- Two values that are seen in the wrong order change places. -/
theorem get?_of_sort_pair {v w : Value} (h : s.Valid)
    (hperform : (sort host order).perform s = (r, t)) (hseen : s.visibleValues host = [v, w])
    (hv : v.isUndefined = false) (hw : w.isUndefined = false) (horder : order v w = .gt) :
    t.get? 0 = some w ∧ t.get? 1 = some v := by
  have hsorted : sortedValues order (s.visibleValues host) = [w, v] := by
    simp [hseen, sortedValues, hv, hw, List.mergeSort, List.MergeSort.Internal.splitInTwo, horder]
  obtain ⟨hget, -⟩ := get?_of_sort h hperform
  rw [hsorted, hseen] at hget
  exact ⟨hget 0 Nat.zero_lt_two, hget 1 Nat.one_lt_two⟩

/-- Adjacent values that are not `undefined` come in order. -/
theorem order_of_sortedValues [Std.TransCmp order] {values : List Value} {v w : Value} {i : Nat}
    (hv : (sortedValues order values)[i]? = some v)
    (hw : (sortedValues order values)[i + 1]? = some w) (hdefined : w.isUndefined = false) :
    order v w ≠ .gt := by
  generalize hfront : (values.filter (!·.isUndefined)).mergeSort
    (fun v w => order v w != .gt) = front
  rw [sortedValues, hfront] at hv hw
  have hinside : i + 1 < front.length := by
    by_contra hbehind
    rw [List.getElem?_append_right (Nat.not_lt.mp hbehind)] at hw
    have hundefined := (List.mem_filter.mp (List.mem_of_getElem? hw)).2
    rw [hdefined] at hundefined
    cases hundefined
  rw [List.getElem?_append_left (by omega)] at hv
  rw [List.getElem?_append_left hinside] at hw
  obtain ⟨hi, rfl⟩ := List.getElem?_eq_some_iff.mp hv
  obtain ⟨_, rfl⟩ := List.getElem?_eq_some_iff.mp hw
  have hpairwise : front.Pairwise fun v w => order v w ≠ .gt := by
    rw [← hfront]
    exact (sortedBy_mergeSort _).pairwise
  exact List.pairwise_iff_getElem.mp hpairwise i (i + 1) hi hinside (Nat.lt_succ_self i)

/-- Strings that stand next to each other after a sort by texts do so in the order of texts. -/
theorem order_of_sort (h : s.Valid) {sorting : Edit Store Unit}
    (hsorting : sorting ∈ [sort host Value.compareTexts, sortCollected host Value.compareTexts])
    (hperform : sorting.perform s = (r, t)) {i : Nat}
    (hi : r = .ok () ∨ i + 1 < (s.visibleValues host).length) {units units' : List UInt16}
    (hunits : t.get? i = some (.string units)) (hunits' : t.get? (i + 1) = some (.string units')) :
    Value.compareTexts (.string units) (.string units') ≠ .gt := by
  have hsort : (sort host Value.compareTexts).perform s = (r, t) := by
    rcases List.mem_pair.mp hsorting with rfl | rfl
    · exact hperform
    · rwa [perform_sortCollected h] at hperform
  obtain ⟨hwritten, hbehind⟩ := get?_of_sort h hsort
  have hinside : i + 1 < (s.visibleValues host).length := by
    rcases hi with hok | hinside
    · by_contra hle
      rw [hbehind hok (i + 1) (Nat.not_lt.mp hle)] at hunits'
      cases hunits'
    · exact hinside
  rw [hwritten i (by omega)] at hunits
  rw [hwritten (i + 1) hinside] at hunits'
  exact order_of_sortedValues hunits hunits' rfl

/-- **Strings in the order of texts.** Strings are compared by their code units with every lone
surrogate replaced, which is by their own code units if they are those of a text. A sort by texts
finishes under a host that lets every element go. Whichever way it ends, adjacent strings among the
values that it has written come in this order; and if it finishes, these are all strings there
are. -/
theorem Reachable.sort_strings (h : s.Reachable) (host : Host) :
    (∀ units units', Compares (Value.compareTexts (.string units) (.string units'))
        (mended units) (mended units')) ∧
      (∀ units units', WellFormed units → WellFormed units' →
        Compares (Value.compareTexts (.string units) (.string units')) units units') ∧
      ∀ sorting ∈ [sort host Value.compareTexts, sortCollected host Value.compareTexts],
        ((∀ i, host.deletable i) → ∃ t, sorting.perform s = (.ok (), t)) ∧
          ∀ r t, sorting.perform s = (r, t) → ∀ i units units',
            (r = .ok () ∨ i + 1 < (s.visibleValues host).length) →
              t.get? i = some (.string units) → t.get? (i + 1) = some (.string units') →
                mended units ≤ mended units' ∧
                  (WellFormed units → WellFormed units' → units ≤ units') := by
  have hvalid := h.valid
  have hmended := Value.compareTexts_string
  have hown (units units' : List UInt16) (hunits : WellFormed units)
      (hunits' : WellFormed units') :
      Compares (Value.compareTexts (.string units) (.string units')) units units' := by
    have hcompares := hmended units units'
    rwa [Text.mended_eq_self_iff.mpr hunits, Text.mended_eq_self_iff.mpr hunits'] at hcompares
  refine ⟨hmended, hown, fun sorting hsorting => ⟨fun hhost => ?_, ?_⟩⟩
  · obtain ⟨t, hperform⟩ := exists_sort hvalid hhost Value.compareTexts
    refine ⟨t, ?_⟩
    rcases List.mem_pair.mp hsorting with rfl | rfl
    · exact hperform
    · rwa [perform_sortCollected hvalid]
  · intro r t hperform i units units' hi hunits hunits'
    have horder := order_of_sort hvalid hsorting hperform hi hunits hunits'
    exact ⟨(hmended units units').le horder,
      fun hwell hwell' => (hown units units' hwell hwell').le horder⟩

/-- A character beyond U+FFFF comes before one below it, as its first code unit does. -/
theorem Reachable.sort_strings_of_pair :
    let s := Store.ofValues {} [.string [0xe000], .string [0xd83d, 0xde00]]
    s.Reachable ∧ WellFormed [0xe000] ∧ WellFormed [0xd83d, 0xde00] ∧
      Compares (Value.compareTexts (.string [0xe000]) (.string [0xd83d, 0xde00]))
        [0xe000] [0xd83d, 0xde00] ∧
      ∃ t, (sort Host.plain Value.compareTexts).perform s = (.ok (), t) ∧
        t.get? 0 = some (.string [0xd83d, 0xde00]) ∧ t.get? 1 = some (.string [0xe000]) := by
  intro s
  have hreachable : s.Reachable := .ofValues {} _ (by decide)
  have hprivate : WellFormed [0xe000] := ⟨['\ue000'], rfl⟩
  have hface : WellFormed [0xd83d, 0xde00] := ⟨[Char.ofNat 0x1f600], rfl⟩
  obtain ⟨-, hcompares, hsorts⟩ := hreachable.sort_strings Host.plain
  have hbehind := hcompares _ _ hprivate hface
  have hseen := visibleValues_ofValues {} [.string [0xe000], .string [0xd83d, 0xde00]] Host.plain
  obtain ⟨hfinishes, -⟩ := hsorts _ List.mem_cons_self
  obtain ⟨t, ht⟩ := hfinishes fun _ => rfl
  exact ⟨hreachable, hprivate, hface, hbehind, t, ht,
    get?_of_sort_pair hreachable.valid ht hseen rfl rfl (hbehind.gt_iff.mpr (by decide))⟩

/-- Two lone surrogates are equal by the order, and one of them comes behind U+E000, although their
code units say otherwise. -/
theorem sort_strings_of_lone :
    ([0xd800] : List UInt16) < [0xd801] ∧
      Value.compareTexts (.string [0xd800]) (.string [0xd801]) = .eq ∧
      ([0xd800] : List UInt16) < [0xe000] ∧
      Value.compareTexts (.string [0xd800]) (.string [0xe000]) = .gt ∧
      ∃ t, (sort Host.plain Value.compareTexts).perform
          (ofValues {} [.string [0xd800], .string [0xe000]]) = (.ok (), t) ∧
        t.get? 0 = some (.string [0xe000]) ∧ t.get? 1 = some (.string [0xd800]) := by
  have hvalid : (ofValues {} [.string [0xd800], .string [0xe000]]).Valid :=
    valid_ofValues {} (by decide)
  have hseen := visibleValues_ofValues {} [.string [0xd800], .string [0xe000]] Host.plain
  have hgt : Value.compareTexts (.string [0xd800]) (.string [0xe000]) = .gt := by decide
  have hhost : ∀ i, Host.plain.deletable i := fun _ => rfl
  obtain ⟨t, ht⟩ := exists_sort hvalid hhost Value.compareTexts
  exact ⟨by decide, by decide, by decide, hgt, t, ht,
    get?_of_sort_pair hvalid ht hseen rfl rfl hgt⟩

end Store

end ArrayEngine
