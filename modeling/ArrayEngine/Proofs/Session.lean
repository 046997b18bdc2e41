import ArrayEngine.Proofs.Call
import ArrayEngine.Proofs.CallSite.InStep
import Mathlib.Logic.Function.Basic

/-!
# The tuning is not observable

A session keeps arrays, call sites and one memory under names, and performs steps on them: it makes
arrays and sites, performs any operation on an array, or performs one at a site. Steps are data, so
that the same steps can be performed in two sessions whose engines are tuned differently.

Two such sessions answer alike, step for step. At every moment their arrays are observed alike,
except in their layouts, and their sites are equal. Of the tuning, only the number of relinks after
which a site gives up has to be the same, since that is what a site counts towards.

## Main definitions

* `ArrayCall`, `SiteCall`, `Step`: what can be done in a session
* `Session`, `Session.run`: steps one after another, with their responses
* `Store.Indistinguishable`: everything that can be observed of a store but its layout

## Main results

* `ArrayCall.inStep`, `Step.perform_agree`: one step
* `Session.run_agree`: any number of steps
* `Session.tuning_unobservable`
-/

namespace ArrayEngine

open Binary (Double)
open Store (InStep)

/-! ### Operations on one array -/

/-- An operation on an array. -/
inductive ArrayCall where
  | basic (call : Call)
  | assignLength (length : UInt32) (host : Host)
  | setLengthValue (value : Value) (host : Host)
  | getIndex (index : UInt32) (host : Host)
  | setIndex (index : UInt32) (value : Value)
  | push (values : List Value) (host : Host)
  | pop (host : Host)
  | shift (host : Host)
  | unshift (values : List Value) (host : Host)
  | slice (start : Double) (stop : Option Double) (host : Host)
  | splice (start count : Option Double) (values : List Value) (host : Host)
  | reverse (host : Host)
  | fill (value : Value) (start : Double) (stop : Option Double)
  | sort (host : Host) (order : Value → Value → Ordering)
  | genericPush (values : List Value) (host : Host)
  | genericPop (host : Host)
  | genericShift (host : Host)
  | genericUnshift (values : List Value) (host : Host)
  | genericSlice (start stop : UInt32) (host : Host)
  | genericSplice (start count : UInt32) (values : List Value) (host : Host)
  | genericReverse (host : Host)

/-- What is answered besides a new array. -/
inductive Answer where
  | reply (reply : Reply)
  | done
  | element (value : Option Value)
  | length (n : Nat)

/-- An answer, and a new array if the operation makes one. -/
abbrev Produced := Answer × Option Store

namespace Edit

/-- An edit that makes no array. -/
def answering {α : Type} (edit : Edit Store α) (answer : α → Answer) : Edit Store Produced := do
  return (answer (← edit), none)

/-- An edit that makes an array. -/
def making (edit : Edit Store Store) : Edit Store Produced := do return (.done, some (← edit))

/-- An array that is made of the store as it is. -/
def making? (f : Store → Except EngineError Store) : Edit Store Produced :=
  making do MonadExcept.ofExcept (f (← get))

end Edit

open Edit (answering making making?)

/-- An operation, as an edit of the array's store. -/
def ArrayCall.edit : ArrayCall → Edit Store Produced
  | basic call => fun s =>
    match call.perform s with
    | (reply, t) => (.ok (.reply reply, none), t)
  | assignLength length host => answering (Store.assignLength host length.toNat) fun _ => .done
  | setLengthValue value host => answering (Store.assignLengthValue host value) fun _ => .done
  | getIndex index host => answering (do return (← get).getIndex host index.toNat) .element
  | setIndex index value => answering (Store.setIndex index.toNat value) fun _ => .done
  | push values host => answering (Store.push values host) .length
  | pop host => answering (Store.pop host) fun v => .element (some v)
  | shift host => answering (Store.shift host) fun v => .element (some v)
  | unshift values host => answering (Store.unshift values host) .length
  | slice start stop host => making? (·.slice start stop host)
  | splice start count values host => making (Store.splice start count values host)
  | reverse host => answering (Store.reverse host) fun _ => .done
  | fill value start stop => answering (Store.fill value start stop) fun _ => .done
  | sort host order => answering (Store.sort host order) fun _ => .done
  | genericPush values host => answering (Store.genericPush values host) .length
  | genericPop host => answering (Store.genericPop host) fun v => .element (some v)
  | genericShift host => answering (Store.genericShift host) fun v => .element (some v)
  | genericUnshift values host => answering (Store.genericUnshift values host) .length
  | genericSlice start stop host => making? (·.genericSlice start.toNat stop.toNat host)
  | genericSplice start count values host =>
    making (Store.genericSplice start.toNat count.toNat values host)
  | genericReverse host => answering (Store.genericReverse host) fun _ => .done

/-- The same answer, and equivalent arrays or none. -/
def SameProduced (p q : Produced) : Prop := p.1 = q.1 ∧ Option.Rel Store.Equivalent p.2 q.2

namespace Store.InStep

theorem answering {α : Type} {edit : Edit Store α} (h : InStep Eq edit edit)
    (answer : α → Answer) :
    InStep SameProduced (edit.answering answer) (edit.answering answer) := by
  refine h.bind ?_
  rintro a _ rfl
  exact .pure ⟨rfl, .none⟩

theorem making {edit : Edit Store Store} (h : InStep Equivalent edit edit) :
    InStep SameProduced edit.making edit.making :=
  h.bind fun _ _ hst => .pure ⟨rfl, .some hst⟩

theorem making? {f : Store → Except EngineError Store}
    (h : ∀ s t : Store, s.Equivalent t → SameResult Equivalent (f s) (f t)) :
    InStep SameProduced (Edit.making? f) (Edit.making? f) :=
  making (.get fun s t hst => .ofExcept (h s t hst))

end Store.InStep

open Store.InStep (answering making making?)

/-- An operation does the same to equivalent stores. -/
theorem ArrayCall.inStep (call : ArrayCall) : InStep SameProduced call.edit call.edit := by
  cases call with
  | basic call =>
    intro s t h
    obtain ⟨hs, hreply, hafter⟩ := call.perform_spec h.left
    obtain ⟨ht, hreply', hafter'⟩ := call.perform_spec h.right
    rw [← h.toSparse_eq] at hreply' hafter'
    exact ⟨.ok ⟨congrArg Answer.reply (hreply.trans hreply'.symm), .none⟩, hs, ht,
      hafter.trans hafter'.symm⟩
  | assignLength length host =>
    exact answering (Store.Stepwise.assignLength (toNat_le_maxLength length)).inStep _
  | setLengthValue value host => exact answering (Store.inStep_assignLengthValue host value) _
  | getIndex index host =>
    refine answering (.get fun s t h => ?_) _
    rw [h.getIndex_eq]
    exact .pure rfl
  | setIndex index value =>
    exact answering (Store.inStep_setIndex (toNat_le_maxLength index) value) _
  | push values host => exact answering (Store.inStep_push values host) _
  | pop host => exact answering (Store.inStep_pop host) _
  | shift host => exact answering (Store.inStep_shift host) _
  | unshift values host => exact answering (Store.inStep_unshift values host) _
  | slice start stop host => exact making? fun s t h => h.slice start stop host
  | splice start count values host => exact making (Store.inStep_splice start count values host)
  | reverse host => exact answering (Store.inStep_reverse host) _
  | fill value start stop =>
    exact answering (Store.stepwise_fill .plain value start stop).inStep _
  | sort host order => exact answering (Store.stepwise_sort host order).inStep _
  | genericPush values host => exact answering (Store.stepwise_genericPush values host).inStep _
  | genericPop host => exact answering (Store.stepwise_genericPop host).inStep _
  | genericShift host => exact answering (Store.stepwise_genericShift host).inStep _
  | genericUnshift values host =>
    exact answering (Store.stepwise_genericUnshift values host).inStep _
  | genericSlice start stop host =>
    have hstop := toNat_le_maxLength stop
    exact making? fun s t h => h.genericSlice (by omega) host
  | genericSplice start count values host =>
    exact making (Store.inStep_genericSplice start.toNat count.toNat values host)
  | genericReverse host => exact answering (Store.stepwise_genericReverse host).inStep _

/-! ### Sessions -/

/-- What is handed to a concatenation: an array by its name, or a value. -/
inductive Argument where
  | array (name : String)
  | value (element : Value)

/-- An operation on an array at a call site. -/
inductive SiteCall where
  | push (values : List Value) (host : Host)
  | pop (host : Host)
  | getIndex (index : UInt32) (host : Host)
  | setIndex (index : UInt32) (value : Value) (host : Host)

/-- Where a concatenation is performed. -/
inductive Joining where
  | blockwise
  | generic
  | site (name : String)

/-- A step of a session. A new array is kept under the name `result`. -/
inductive Step where
  | newHoles (result : String) (length : UInt32)
  | newArray (result : String) (values : List Value)
  | newSite (name : String) (op : ArrayOp)
  | call (array : String) (op : ArrayCall) (result : String)
  | concat (joining : Joining) (array : String) (arguments : List Argument) (host : Host)
    (result : String)
  | siteCall (site array : String) (op : SiteCall)
  | siteGetView (site : String) (view : View) (index : Nat)
  | siteSetView (site : String) (view : View) (index : Nat) (value : Value)

/-- Arrays and call sites by their names, and the memory of the views. -/
structure Session where
  config : Config
  arrays : String → Option Store
  sites : String → Option CallSite
  memory : Memory

/-- What a step answers; nothing if a name is not known. -/
abbrev Response := Option (Except EngineError Answer)

namespace Session

/-- A session without arrays and sites. -/
def fresh (config : Config) (memory : Memory) : Session where
  config
  arrays _ := none
  sites _ := none
  memory

/-- The session with an array kept under a name. -/
def keep (a : Session) (name : String) (s : Store) : Session :=
  { a with arrays := Function.update a.arrays name (some s) }

/-- The session with a call site kept under a name. -/
def keepSite (a : Session) (name : String) (site : CallSite) : Session :=
  { a with sites := Function.update a.sites name (some site) }

/-- The operand that an argument denotes. -/
def operand? (a : Session) : Argument → Option Operand
  | .array name => (a.arrays name).map .array
  | .value element => some (.value element)

/-- The session after an operation on an array. -/
def settle (a : Session) (array result : String) :
    Except EngineError Produced × Store → Response × Session
  | (.ok (answer, none), s) => (some (.ok answer), a.keep array s)
  | (.ok (answer, some t), s) => (some (.ok answer), (a.keep array s).keep result t)
  | (.error e, s) => (some (.error e), a.keep array s)

/-- The session after an array was to be made. -/
def made (a : Session) (result : String) : Except EngineError Store → Response × Session
  | .ok t => (some (.ok .done), a.keep result t)
  | .error e => (some (.error e), a)

end Session

/-- An operation at a call site: what it answers, the store it leaves, and the site afterwards. -/
def SiteCall.perform (site : CallSite) (s : Store) :
    SiteCall → (Except EngineError Produced × Store) × CallSite
  | push values host =>
    match site.push s values host with
    | ((r, t), site) => ((r.map fun n => (.length n, none), t), site)
  | pop host =>
    match site.pop s host with
    | ((r, t), site) => ((r.map fun v => (.element (some v), none), t), site)
  | getIndex index host =>
    match site.getIndex s index.toNat host with
    | (v, site) => ((.ok (.element v, none), s), site)
  | setIndex index value host =>
    match site.setIndex s index.toNat value host with
    | ((r, t), site) => ((r.map fun _ => (.done, none), t), site)

/-- What a step answers, and the session after it. A step with an unknown name does nothing. -/
def Step.perform (a : Session) : Step → Response × Session
  | newHoles result length => a.made result (.ok (.holes a.config length.toNat))
  | newArray result values =>
    a.made result
      (if values.length ≤ maxLength then .ok (.ofValues a.config values)
      else .error .invalidLength)
  | newSite name op => (some (.ok .done), a.keepSite name (.fresh op a.config))
  | call array op result =>
    match a.arrays array with
    | none => (none, a)
    | some s => a.settle array result (op.edit.perform s)
  | concat joining array arguments host result =>
    match a.arrays array, arguments.mapM a.operand? with
    | some s, some operands =>
      match joining with
      | .blockwise => a.made result (s.concat operands host)
      | .generic => a.made result (s.genericConcat operands host)
      | .site name =>
        match a.sites name with
        | none => (none, a)
        | some site =>
          match site.concat s operands host with
          | (r, site) => (a.keepSite name site).made result r
    | _, _ => (none, a)
  | siteCall name array op =>
    match a.sites name, a.arrays array with
    | some site, some s =>
      match op.perform site s with
      | (outcome, site) => (a.keepSite name site).settle array array outcome
    | _, _ => (none, a)
  | siteGetView name view index =>
    match a.sites name with
    | none => (none, a)
    | some site =>
      match site.getViewIndex view a.memory index with
      | (v, site) => (some (.ok (.element v)), a.keepSite name site)
  | siteSetView name view index value =>
    match a.sites name with
    | none => (none, a)
    | some site =>
      match site.setViewIndex view a.memory index value with
      | ((r, memory), site) =>
        (some (r.map fun _ => .done), { a.keepSite name site with memory })

/-- Steps one after another: their responses, and the session in the end. -/
def Session.run (a : Session) : List Step → List Response × Session
  | [] => ([], a)
  | step :: steps =>
    match step.perform a with
    | (response, b) =>
      match b.run steps with
      | (responses, c) => (response :: responses, c)

/-! ### Two sessions -/

/-- Two sessions that may differ in how the elements of their arrays are kept. -/
structure Session.Agree (a b : Session) : Prop where
  maxRelinks_eq : a.config.maxRelinks = b.config.maxRelinks
  arrays : ∀ name, Option.Rel Store.Equivalent (a.arrays name) (b.arrays name)
  sites_eq : a.sites = b.sites
  memory_eq : a.memory = b.memory

namespace Session.Agree

variable {a b : Session} (h : a.Agree b)

include h

theorem keep {s t : Store} (hst : s.Equivalent t) (name : String) :
    (a.keep name s).Agree (b.keep name t) where
  maxRelinks_eq := h.maxRelinks_eq
  arrays name' := by
    rw [Session.keep, Session.keep]
    dsimp only
    rw [Function.update_apply, Function.update_apply]
    split
    · exact .some hst
    · exact h.arrays name'
  sites_eq := h.sites_eq
  memory_eq := h.memory_eq

theorem keepSite (name : String) (site : CallSite) :
    (a.keepSite name site).Agree (b.keepSite name site) where
  maxRelinks_eq := h.maxRelinks_eq
  arrays := h.arrays
  sites_eq := by rw [Session.keepSite, Session.keepSite, h.sites_eq]
  memory_eq := h.memory_eq

/-- The sessions after a step, with the same response. -/
abbrev Same (p q : Response × Session) : Prop := p.1 = q.1 ∧ p.2.Agree q.2

omit h in
theorem settle (h : a.Agree b) (array result : String)
    {p q : Except EngineError Produced × Store} (hpq : Store.SameOutcome SameProduced p q) :
    Same (a.settle array result p) (b.settle array result q) := by
  obtain ⟨r, s⟩ := p
  obtain ⟨r', t⟩ := q
  obtain ⟨hresult, hstore⟩ := hpq
  cases hresult with
  | error e => exact ⟨rfl, h.keep hstore array⟩
  | @ok produced produced' hproduced =>
    obtain ⟨answer, new⟩ := produced
    obtain ⟨answer', new'⟩ := produced'
    obtain ⟨rfl, hnew⟩ := hproduced
    cases hnew with
    | none => exact ⟨rfl, h.keep hstore array⟩
    | some hnew => exact ⟨rfl, (h.keep hstore array).keep hnew result⟩

theorem made (result : String) {r r' : Except EngineError Store}
    (hr : SameResult Store.Equivalent r r') : Same (a.made result r) (b.made result r') := by
  cases hr with
  | ok hst => exact ⟨rfl, h.keep hst result⟩
  | error e => exact ⟨rfl, h⟩

theorem operand? (argument : Argument) :
    Option.Rel Operand.Equivalent (a.operand? argument) (b.operand? argument) := by
  cases argument with
  | array name => exact Store.rel_map (h.arrays name) fun _ _ hst => .array hst
  | value element => exact .some (.value element)

theorem mapM_operand? (arguments : List Argument) :
    Option.Rel (List.Forall₂ Operand.Equivalent) (arguments.mapM a.operand?)
      (arguments.mapM b.operand?) := by
  induction arguments with
  | nil => exact .some .nil
  | cons argument arguments ih =>
    have hfirst := h.operand? argument
    rw [List.mapM_cons, List.mapM_cons]
    generalize a.operand? argument = o at hfirst
    generalize b.operand? argument = o' at hfirst
    cases hfirst with
    | none => exact .none
    | some ho =>
      generalize arguments.mapM a.operand? = os at ih
      generalize arguments.mapM b.operand? = os' at ih
      cases ih with
      | none => exact .none
      | some hos => exact .some (.cons ho hos)

end Session.Agree

/-- An operation at a call site. -/
theorem SiteCall.perform_inStep (op : SiteCall) (site : CallSite) {s t : Store}
    (h : s.Equivalent t) :
    Store.SameOutcome SameProduced (op.perform site s).1 (op.perform site t).1 ∧
      (op.perform site s).2 = (op.perform site t).2 := by
  cases op with
  | push values host =>
    obtain ⟨⟨hresult, hstore⟩, hsite⟩ := site.push_inStep h values host
    exact ⟨⟨hresult.map fun _ _ hn => ⟨congrArg Answer.length hn, .none⟩, hstore⟩, hsite⟩
  | pop host =>
    obtain ⟨⟨hresult, hstore⟩, hsite⟩ := site.pop_inStep h host
    exact ⟨⟨hresult.map fun _ _ hv => ⟨congrArg (Answer.element ∘ some) hv, .none⟩, hstore⟩, hsite⟩
  | getIndex index host =>
    obtain ⟨hv, hsite⟩ := site.getIndex_inStep h index.toNat host
    exact ⟨⟨.ok ⟨congrArg Answer.element hv, .none⟩, h⟩, hsite⟩
  | setIndex index value host =>
    obtain ⟨⟨hresult, hstore⟩, hsite⟩ :=
      site.setIndex_inStep h (toNat_le_maxLength index) value host
    exact ⟨⟨hresult.map fun _ _ _ => ⟨rfl, .none⟩, hstore⟩, hsite⟩

open Session (Agree)

/-- A step answers the same in both sessions, and they go on to differ in layouts only. -/
theorem Step.perform_agree {a b : Session} (h : a.Agree b) (step : Step) :
    Agree.Same (step.perform a) (step.perform b) := by
  cases step with
  | newHoles result length =>
    exact h.made result (.ok (.holes _ _ (toNat_le_maxLength length)))
  | newArray result values =>
    refine h.made result ?_
    split
    · rename_i hn
      exact .ok (.ofValues _ _ hn)
    · exact .error _
  | newSite name op =>
    have hfresh : CallSite.fresh op a.config = .fresh op b.config := by
      rw [CallSite.fresh, CallSite.fresh, h.maxRelinks_eq]
    rw [perform, perform, hfresh]
    exact ⟨rfl, h.keepSite name _⟩
  | call array op result =>
    have hrel := h.arrays array
    simp only [perform]
    generalize a.arrays array = x at hrel
    generalize b.arrays array = y at hrel
    cases hrel with
    | none => exact ⟨rfl, h⟩
    | some hst => exact h.settle array result (op.inStep _ _ hst)
  | concat joining array arguments host result =>
    have hrel := h.arrays array
    have hoperands := h.mapM_operand? arguments
    simp only [perform]
    generalize a.arrays array = x at hrel
    generalize b.arrays array = y at hrel
    generalize arguments.mapM a.operand? = os at hoperands
    generalize arguments.mapM b.operand? = os' at hoperands
    cases hrel with
    | none => exact ⟨rfl, h⟩
    | some hst =>
      cases hoperands with
      | none => exact ⟨rfl, h⟩
      | some hos =>
        cases joining with
        | blockwise => exact h.made result (hst.concat hos host)
        | generic => exact h.made result (hst.genericConcat hos host)
        | site name =>
          dsimp only
          rw [← h.sites_eq]
          cases a.sites name with
          | none => exact ⟨rfl, h⟩
          | some site =>
            obtain ⟨hresult, hsite⟩ := site.concat_inStep hst hos host
            dsimp only
            rw [hsite]
            exact (h.keepSite name _).made result hresult
  | siteCall name array op =>
    have hrel := h.arrays array
    simp only [perform]
    rw [← h.sites_eq]
    generalize a.arrays array = x at hrel
    generalize b.arrays array = y at hrel
    cases a.sites name with
    | none => exact ⟨rfl, h⟩
    | some site =>
      cases hrel with
      | none => exact ⟨rfl, h⟩
      | some hst =>
        obtain ⟨houtcome, hsite⟩ := op.perform_inStep site hst
        dsimp only
        rw [hsite]
        exact (h.keepSite name _).settle array array houtcome
  | siteGetView name view index =>
    simp only [perform]
    rw [← h.sites_eq, ← h.memory_eq]
    cases a.sites name with
    | none => exact ⟨rfl, h⟩
    | some site => exact ⟨rfl, h.keepSite name _⟩
  | siteSetView name view index value =>
    simp only [perform]
    rw [← h.sites_eq, ← h.memory_eq]
    cases a.sites name with
    | none => exact ⟨rfl, h⟩
    | some site =>
      exact ⟨rfl, { h.keepSite name _ with memory_eq := rfl }⟩

namespace Session

theorem run_agree {a b : Session} (h : a.Agree b) (steps : List Step) :
    (a.run steps).1 = (b.run steps).1 ∧ (a.run steps).2.Agree (b.run steps).2 := by
  induction steps generalizing a b with
  | nil => exact ⟨rfl, h⟩
  | cons step steps ih =>
    obtain ⟨hresponse, hafter⟩ := step.perform_agree h
    obtain ⟨hresponses, hend⟩ := ih hafter
    exact ⟨congrArg₂ List.cons hresponse hresponses, hend⟩

end Session

namespace Store

/-- Stores that are observed alike, except in how their elements are kept. -/
structure Indistinguishable (s t : Store) : Prop where
  length_eq : s.length = t.length
  kind_eq : s.kind = t.kind
  isSparse_eq : s.isSparse = t.isSparse
  isContinuous_eq : ∀ host, s.isContinuous host = t.isContinuous host
  get?_eq : ∀ i, s.get? i = t.get? i

theorem Equivalent.indistinguishable {s t : Store} (h : s.Equivalent t) : s.Indistinguishable t :=
  ⟨h.length_eq, h.kind_eq, h.isSparse_eq, h.isContinuous_eq, congrFun h.get?_eq⟩

end Store

namespace Session

/-- **The tuning is not observable.** Whatever is done in two sessions that are tuned differently,
step for step they answer the same and fail in the same way; their arrays are observed alike, and
their call sites are equal. The sites must be allowed as many relinks.

The least room that is allocated decides how much is reserved, and nothing else
(`Store.reserve`). A session whose reservations are not granted comes to an end, and there are no
responses to compare. -/
theorem tuning_unobservable (config config' : Config)
    (hrelinks : config.maxRelinks = config'.maxRelinks) (memory : Memory) (steps : List Step) :
    let (responses, a) := (fresh config memory).run steps
    let (responses', b) := (fresh config' memory).run steps
    responses = responses' ∧ a.sites = b.sites ∧ a.memory = b.memory ∧
      ∀ name, Option.Rel Store.Indistinguishable (a.arrays name) (b.arrays name) := by
  have hfresh : (fresh config memory).Agree (fresh config' memory) :=
    ⟨hrelinks, fun _ => .none, rfl, rfl⟩
  obtain ⟨hresponses, hend⟩ := run_agree hfresh steps
  refine ⟨hresponses, hend.sites_eq, hend.memory_eq, fun name => ?_⟩
  exact Store.rel_imp (hend.arrays name) fun _ _ h => h.indistinguishable

/-- An append at a site, and a write that makes a dictionary in one session only. -/
theorem tuning_unobservable_of_far_write :
    let steps : List Step := [.newHoles "a" 0, .newHoles "b" 0, .newSite "s" .push,
      .siteCall "s" "b" (.push [.undefined] .plain), .call "a" (.basic (.set 9 .null)) "c"]
    let (responses, a) := (fresh {} .empty).run steps
    let (responses', b) := (fresh { sparseGap := 4 } .empty).run steps
    (a.arrays "a").map Store.isDictionary = some false ∧
      (b.arrays "a").map Store.isDictionary = some true ∧ responses = responses' ∧
      a.sites = b.sites ∧
      ∀ name, Option.Rel Store.Indistinguishable (a.arrays name) (b.arrays name) := by
  intro steps
  obtain ⟨hresponses, hsites, -, harrays⟩ :=
    tuning_unobservable {} { sparseGap := 4 } rfl .empty steps
  exact ⟨rfl, rfl, hresponses, hsites, harrays⟩

end Session

end ArrayEngine
