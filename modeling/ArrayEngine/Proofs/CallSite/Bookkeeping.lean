import ArrayEngine.CallSite.Basic

/-!
# What a call site counts

Seven kinds of calls go through a site, but the site itself does one of three things: it misses
because there is no guard, it hits because the guard at hand answers, or it is linked anew because
that guard does not. Which receiver, host or operands a call has matters only to the choice among
them, so everything about the counters is a matter of these three steps.

The number of relinks reaches `max 1 maxRelinks` in the step that makes the site megamorphic and in
no other. From then on there is no guard, so that every call misses.

## Implementation notes

Counters are numbers here. Hits and misses add up to the number of calls, and there are no more
relinks than `max 1 maxRelinks`: words that hold these two numbers hold the counters.

A guard has the extras of the operation that it was derived for. So what is said of guards asks that
the calls are those of the site's operation; the counters do not depend on that.

## Main definitions

* `CallSite.Request`, `CallSite.run`: calls of any kind, and a site after them
* `CallSite.Moves`: the three steps of a site
* `CallSite.Counted`: the counters after a number of calls
* `Guard.Suits`: a guard has the extras of an operation

## Main results

* `CallSite.moves_after`: a call is one of the three steps
* `CallSite.Counted.moves`, `CallSite.Counted.run`: what a step preserves, and so a run
* `CallSite.run_bookkeeping`: any run from a new site
-/

namespace ArrayEngine

/-! ### Guards of an operation -/

/-- The guard has the extras of the operation, and only those. -/
structure Guard.Suits (guard : Guard) (op : ArrayOp) : Prop where
  nonEmpty_iff : guard.nonEmpty ↔ op = .pop
  argBound_iff : guard.argBound.isSome ↔ op = .concat
  inBounds_iff : guard.inBounds ↔ op = .get ∨ op = .set
  of_view : ∀ kind, guard.shape = .view kind → op = .get ∨ op = .set

namespace Guard

theorem suits_of_ofStore? {op : ArrayOp} {s : Store} {host : Host} {guard : Guard}
    (h : ofStore? op s host = some guard) : guard.Suits op := by
  rw [ofStore?, Option.ite_none_right_eq_some] at h
  obtain ⟨-, ⟨⟩⟩ := h
  constructor
  · simp
  · cases op <;> simp
  · cases op <;> simp [ArrayOp.isIndexed]
  · rintro kind ⟨⟩

theorem suits_of_ofConcat? {s : Store} {operands : List Operand} {host : Host} {guard : Guard}
    (h : ofConcat? s operands host = some guard) : guard.Suits .concat := by
  rw [ofConcat?, Option.ite_none_right_eq_some, Option.map_eq_some_iff] at h
  obtain ⟨-, wide, hwide, rfl⟩ := h
  have hsuits := suits_of_ofStore? hwide
  exact ⟨hsuits.nonEmpty_iff, by simp, hsuits.inBounds_iff, hsuits.of_view⟩

theorem suits_ofView (view : View) {op : ArrayOp} (h : op = .get ∨ op = .set) :
    (ofView view).Suits op := by
  rcases h with rfl | rfl <;> constructor <;> simp [ofView]

end Guard

namespace CallSite

variable {site : CallSite} {n : Nat}

/-! ### Steps of a site -/

section Steps

variable {next : CallSite} {derived : Option Guard}

/-- What a call does to a site, where `derived` is the guard of its receiver. -/
inductive Moves (derived : Option Guard) (site : CallSite) : CallSite → Prop
  /-- There is no guard. -/
  | miss (h : site.guard? derived = none) : Moves derived site site.miss
  /-- The guard answers. -/
  | hit {guard : Guard} (h : site.guard? derived = some guard) : Moves derived site (site.hit guard)
  /-- The guard does not answer. -/
  | relink {guard : Guard} (h : site.guard? derived = some guard) :
    Moves derived site (site.relink derived)

theorem moves_speculate {α : Type} (site : CallSite) (derived : Option Guard)
    (specialised : Guard → Option α) (generic : Unit → α) :
    Moves derived site (site.speculate derived specialised generic).2 := by
  rw [speculate]
  split
  · rename_i hguard
    exact .miss hguard
  · rename_i guard hguard
    split
    · exact .hit hguard
    · exact .relink hguard

/-- A site that speculates is not megamorphic. -/
theorem state_ne_of_guard? {guard : Guard} (h : site.guard? derived = some guard) :
    site.state ≠ .megamorphic := by
  intro hstate
  simp [guard?, hstate] at h

/-- A guard is either the one at hand or the derived one. -/
theorem guard?_eq_some {guard : Guard} (h : site.guard? derived = some guard) :
    site.state = .monomorphic guard ∨ derived = some guard := by
  rw [guard?] at h
  split at h
  · rename_i known hstate
    obtain rfl := Option.some.inj h
    exact .inl hstate
  · cases h
  · exact .inr h

theorem relinked_eq_megamorphic_iff {maxRelinks relinks : Nat} :
    relinked maxRelinks relinks derived = .megamorphic ↔ maxRelinks ≤ relinks := by
  unfold relinked
  split
  case isTrue hgives => simp [hgives]
  case isFalse hgives => cases derived <;> simp [hgives]

theorem eq_of_relinked {maxRelinks relinks : Nat} {guard : Guard}
    (h : relinked maxRelinks relinks derived = .monomorphic guard) : derived = some guard := by
  unfold relinked at h
  split at h
  · cases h
  · cases derived with
    | none => cases h
    | some known => rw [SiteState.monomorphic.inj h]

theorem Moves.op_eq (h : Moves derived site next) : next.op = site.op := by
  cases h <;> rfl

theorem Moves.maxRelinks_eq (h : Moves derived site next) :
    next.maxRelinks = site.maxRelinks := by
  cases h <;> rfl

/-! ### Counters -/

/-- The counters of a site after `n` calls. -/
structure Counted (site : CallSite) (n : Nat) : Prop where
  hits_add_misses : site.hits + site.misses = n
  relinks_le_misses : site.relinks ≤ site.misses
  relinks_le : site.relinks ≤ max 1 site.maxRelinks
  relinks_eq_iff : site.relinks = max 1 site.maxRelinks ↔ site.state = .megamorphic

theorem counted_fresh (op : ArrayOp) (config : Config) : (fresh op config).Counted 0 := by
  constructor
  · rfl
  · exact Nat.le_refl 0
  · exact Nat.zero_le _
  · simp only [fresh, reduceCtorEq, iff_false]
    omega

theorem Counted.miss (h : site.Counted n) : site.miss.Counted (n + 1) := by
  constructor
  · calc site.hits + (site.misses + 1)
        = site.hits + site.misses + 1 := (Nat.add_assoc _ _ _).symm
      _ = n + 1 := by rw [h.hits_add_misses]
  · exact Nat.le_succ_of_le h.relinks_le_misses
  · exact h.relinks_le
  · exact h.relinks_eq_iff

/-- A site that is not megamorphic has been linked anew less often than it may. -/
theorem Counted.relinks_lt (h : site.Counted n) (hstate : site.state ≠ .megamorphic) :
    site.relinks < max 1 site.maxRelinks :=
  Nat.lt_of_le_of_ne h.relinks_le fun heq => hstate (h.relinks_eq_iff.mp heq)

theorem Counted.hit (h : site.Counted n) (hstate : site.state ≠ .megamorphic) (guard : Guard) :
    (site.hit guard).Counted (n + 1) := by
  have hlt := h.relinks_lt hstate
  constructor
  · calc site.hits + 1 + site.misses
        = site.hits + site.misses + 1 := Nat.add_right_comm _ _ _
      _ = n + 1 := by rw [h.hits_add_misses]
  · exact h.relinks_le_misses
  · exact h.relinks_le
  · simp only [CallSite.hit, reduceCtorEq, iff_false]
    omega

/-- The relink that reaches the bound is the one that makes the site megamorphic, also where the
bound is zero. -/
theorem Counted.relink (h : site.Counted n) (hstate : site.state ≠ .megamorphic)
    (derived : Option Guard) : (site.relink derived).Counted (n + 1) := by
  have hlt := h.relinks_lt hstate
  have hmisses := h.relinks_le_misses
  constructor
  · exact h.miss.hits_add_misses
  · exact Nat.succ_le_succ hmisses
  · exact hlt
  · simp only [CallSite.relink, relinked_eq_megamorphic_iff]
    omega

theorem Counted.moves (h : site.Counted n) (hmove : Moves derived site next) :
    next.Counted (n + 1) := by
  cases hmove with
  | miss hguard => exact h.miss
  | hit hguard => exact h.hit (state_ne_of_guard? hguard) _
  | relink hguard => exact h.relink (state_ne_of_guard? hguard) _

/-- A megamorphic site only counts its misses. -/
theorem Moves.eq_miss (h : Moves derived site next) (hstate : site.state = .megamorphic) :
    next = site.miss := by
  cases h with
  | miss => rfl
  | hit hguard => exact absurd hstate (state_ne_of_guard? hguard)
  | relink hguard => exact absurd hstate (state_ne_of_guard? hguard)

/-- If derived guards suit an operation, so does the guard at hand. -/
theorem Moves.suits {op : ArrayOp} (hmove : Moves derived site next)
    (hderived : ∀ guard, derived = some guard → guard.Suits op)
    (h : ∀ guard, site.state = .monomorphic guard → guard.Suits op) :
    ∀ guard, next.state = .monomorphic guard → guard.Suits op := by
  cases hmove with
  | miss => exact h
  | @hit known hguard =>
    rintro _ ⟨⟩
    exact (guard?_eq_some hguard).elim (h known) (hderived known)
  | relink =>
    intro guard hstate
    exact hderived guard (eq_of_relinked hstate)

end Steps

/-! ### Calls -/

/-- A call of any kind, with everything it is given. -/
inductive Request where
  | push (s : Store) (values : List Value) (host : Host)
  | pop (s : Store) (host : Host)
  | concat (s : Store) (operands : List Operand) (host : Host)
  | getIndex (s : Store) (index : Nat) (host : Host)
  | setIndex (s : Store) (index : Nat) (value : Value) (host : Host)
  | getViewIndex (view : View) (memory : Memory) (index : Nat)
  | setViewIndex (view : View) (memory : Memory) (index : Nat) (value : Value)

namespace Request

/-- Operation of the sites that the call is made at. -/
def op : Request → ArrayOp
  | push .. => .push
  | pop .. => .pop
  | concat .. => .concat
  | getIndex .. | getViewIndex .. => .get
  | setIndex .. | setViewIndex .. => .set

/-- Guard of the receiver. -/
def derived : Request → Option Guard
  | push s _ host => Guard.ofStore? .push s host
  | pop s host => Guard.ofStore? .pop s host
  | concat s operands host => Guard.ofConcat? s operands host
  | getIndex s _ host => Guard.ofStore? .get s host
  | setIndex s _ _ host => Guard.ofStore? .set s host
  | getViewIndex view _ _ | setViewIndex view _ _ _ => some (.ofView view)

theorem suits_of_derived {request : Request} {guard : Guard} (h : request.derived = some guard) :
    guard.Suits request.op := by
  cases request with
  | push s values host => exact Guard.suits_of_ofStore? h
  | pop s host => exact Guard.suits_of_ofStore? h
  | concat s operands host => exact Guard.suits_of_ofConcat? h
  | getIndex s index host => exact Guard.suits_of_ofStore? h
  | setIndex s index value host => exact Guard.suits_of_ofStore? h
  | getViewIndex view memory index =>
    obtain rfl := Option.some.inj h
    exact Guard.suits_ofView view (.inl rfl)
  | setViewIndex view memory index value =>
    obtain rfl := Option.some.inj h
    exact Guard.suits_ofView view (.inr rfl)

end Request

/-- The site after a call. -/
def after (site : CallSite) : Request → CallSite
  | .push s values host => (site.push s values host).2
  | .pop s host => (site.pop s host).2
  | .concat s operands host => (site.concat s operands host).2
  | .getIndex s index host => (site.getIndex s index host).2
  | .setIndex s index value host => (site.setIndex s index value host).2
  | .getViewIndex view memory index => (site.getViewIndex view memory index).2
  | .setViewIndex view memory index value => (site.setViewIndex view memory index value).2

theorem moves_after (site : CallSite) (request : Request) :
    Moves request.derived site (site.after request) := by
  cases request <;> exact moves_speculate ..

/-! ### Runs -/

/-- The site after calls one after another. -/
def run (site : CallSite) (requests : List Request) : CallSite := requests.foldl after site

theorem run_cons (site : CallSite) (request : Request) (requests : List Request) :
    site.run (request :: requests) = (site.after request).run requests := rfl

theorem run_op (site : CallSite) (requests : List Request) :
    (site.run requests).op = site.op ∧ (site.run requests).maxRelinks = site.maxRelinks := by
  induction requests generalizing site with
  | nil => exact ⟨rfl, rfl⟩
  | cons request rest ih =>
    obtain ⟨hop, hmax⟩ := ih (site.after request)
    have hmove := site.moves_after request
    exact ⟨hop.trans hmove.op_eq, hmax.trans hmove.maxRelinks_eq⟩

theorem Counted.run (h : site.Counted n) (requests : List Request) :
    (site.run requests).Counted (n + requests.length) := by
  induction requests generalizing site n with
  | nil => exact h
  | cons request rest ih =>
    have hnext := ih (h.moves (site.moves_after request))
    rwa [run_cons, List.length_cons, Nat.add_comm rest.length, ← Nat.add_assoc]

/-- A megamorphic site only counts its misses, call after call. -/
theorem run_of_megamorphic (hstate : site.state = .megamorphic) (requests : List Request) :
    site.run requests = { site with misses := site.misses + requests.length } := by
  induction requests generalizing site with
  | nil => rfl
  | cons request rest ih =>
    have hmiss : site.after request = site.miss := (site.moves_after request).eq_miss hstate
    have hrest := ih (show site.miss.state = .megamorphic from hstate)
    rw [run_cons, hmiss, hrest, List.length_cons, Nat.add_comm rest.length, ← Nat.add_assoc]
    rfl

theorem run_suits {op : ArrayOp} {requests : List Request}
    (hrequests : ∀ request ∈ requests, request.op = op)
    (h : ∀ guard, site.state = .monomorphic guard → guard.Suits op) :
    ∀ guard, (site.run requests).state = .monomorphic guard → guard.Suits op := by
  induction requests generalizing site with
  | nil => exact h
  | cons request rest ih =>
    rw [List.forall_mem_cons] at hrequests
    obtain ⟨hop, hrest⟩ := hrequests
    refine ih hrest ((site.moves_after request).suits ?_ h)
    intro guard hguard
    rw [← hop]
    exact Request.suits_of_derived hguard

/-- **A call site keeps its books.** After any calls on stores and views at a new site, hits and
misses add up to the number of calls, and no relink is without a miss. The site is megamorphic
exactly when it was linked anew `max 1 maxRelinks` times, which is never exceeded; from then on its
state, its relinks and its hits stay as they are. If the calls are all of the site's operation, a
guard that it remembers has the extras of that operation and no others. -/
theorem run_bookkeeping (op : ArrayOp) (config : Config) (requests : List Request) :
    let site := (fresh op config).run requests
    site.op = op ∧
    site.hits + site.misses = requests.length ∧
    site.relinks ≤ site.misses ∧
    site.relinks ≤ max 1 config.maxRelinks ∧
    (site.relinks = max 1 config.maxRelinks ↔ site.state = .megamorphic) ∧
    (site.state = .megamorphic → ∀ later,
      (site.run later).state = .megamorphic ∧ (site.run later).relinks = site.relinks ∧
        (site.run later).hits = site.hits) ∧
    ((∀ request ∈ requests, request.op = op) →
      ∀ guard, site.state = .monomorphic guard → guard.Suits op) := by
  intro site
  obtain ⟨hop, hmax⟩ := (fresh op config).run_op requests
  have hcounted := (counted_fresh op config).run requests
  have hbound := hcounted.relinks_le
  have hiff := hcounted.relinks_eq_iff
  rw [hmax] at hbound hiff
  refine ⟨hop, ?_, hcounted.relinks_le_misses, hbound, hiff, ?_, ?_⟩
  · rw [hcounted.hits_add_misses, Nat.zero_add]
  · intro hstate later
    rw [run_of_megamorphic hstate]
    exact ⟨hstate, rfl, rfl⟩
  · intro hrequests
    refine run_suits hrequests ?_
    rintro guard ⟨⟩

/-- With no relinks allowed, a site that has read one lane gives up at the first read outside. -/
theorem run_bookkeeping_of_view :
    let memory : Memory := ⟨#[#[1]]⟩
    let view : View := ⟨0, .uint8, 0, 1⟩
    let site := fresh .get { maxRelinks := 0 }
    let inside := site.run [.getViewIndex view memory 0]
    let outside := site.run [.getViewIndex view memory 0, .getViewIndex view memory 1]
    inside.state = .monomorphic (.ofView view) ∧ (Guard.ofView view).Suits .get ∧
      outside.state = .megamorphic ∧ outside.relinks = 1 ∧
      ∀ later, (outside.run later).state = .megamorphic ∧ (outside.run later).hits = 1 := by
  intro memory view site inside outside
  obtain ⟨-, -, -, -, -, -, hsuits⟩ :=
    run_bookkeeping .get { maxRelinks := 0 } [.getViewIndex view memory 0]
  obtain ⟨-, -, -, -, hiff, hstays, -⟩ := run_bookkeeping .get { maxRelinks := 0 }
    [.getViewIndex view memory 0, .getViewIndex view memory 1]
  have houtside : outside.state = .megamorphic := rfl
  refine ⟨rfl, hsuits (by simp [Request.op]) _ rfl, houtside, hiff.mpr houtside, ?_⟩
  intro later
  obtain ⟨hstate, -, hhits⟩ := hstays houtside later
  exact ⟨hstate, hhits⟩

end CallSite

end ArrayEngine
