import ServerUi.Proofs.Dispatch.Calls

/-! # The greatest depth only cuts

A dispatcher drops the events that it has no depth left for, and that is all its greatest depth is
good for.  A cascade that was not cut goes the same way under every greater limit: the same store,
the same outcome and the same calls (`limit_only_cuts`).  The watchers may raise one another in a
circle.

Dropped actions stay on record, so a trace that is uncut at its end was uncut all the way
(`uncut_of_steps`); then the two cascades are compared event by event, by induction on the depth
that is left.
-/

namespace ServerUi

/-- Was a cascade cut here for want of depth? -/
def ActionError.isCut : ActionError → Bool
  | .cascadeTooDeep .. => true
  | _ => false

/-- No cascade was cut. -/
def Trace.Uncut (t : Trace) : Prop := ∀ e ∈ t.outcome.dropped, e.isCut = false

namespace Dispatcher

/-- The dispatcher with another greatest depth, and with the same collaborators and stamp. -/
def withDepth (d : Dispatcher) (depth : Nat) : Dispatcher := { d with maxDepth := depth }

variable {d : Dispatcher}

/-! ## What is dropped stays on record -/

theorem Step.dropped {t t' : Trace} (h : Step d t t') :
    t.outcome.dropped <+: t'.outcome.dropped := by
  cases h with
  | drop unasked => exact List.prefix_append _ _
  | scriptFailed given failed => exact List.prefix_append _ _
  | update held applied => exact List.prefix_refl _
  | api request given stamp => exact List.prefix_refl _
  | navigate given => exact List.prefix_refl _
  | script given returned => exact List.prefix_refl _
  | share given => exact List.prefix_refl _
  | ignore tag => exact List.prefix_refl _

theorem Steps.dropped {t t' : Trace} (h : Steps d t t') :
    t.outcome.dropped <+: t'.outcome.dropped := by
  induction h with
  | refl => exact List.prefix_refl _
  | tail _ step ih => exact ih.trans step.dropped

theorem uncut_of_steps {t t' : Trace} (h : Steps d t t') (uncut : t'.Uncut) : t.Uncut :=
  fun e he => uncut e (h.dropped.subset he)

/-! ## Two ways to take events -/

/-- Where the second way agrees with the first on every event that the first takes without a cut,
it agrees on any number of events that the first takes without a cut. -/
theorem foldl_eq_of_uncut {fire deeper : WatchEvent → Trace → Trace}
    (hfire : ∀ e t, Steps d t (fire e t))
    (agree : ∀ e t, (fire e t).Uncut → deeper e t = fire e t)
    (events : List WatchEvent) (t : Trace)
    (uncut : (events.foldl (fun t e => fire e t) t).Uncut) :
    events.foldl (fun t e => deeper e t) t = events.foldl (fun t e => fire e t) t := by
  induction events generalizing t with
  | nil => rfl
  | cons e rest ih =>
    have first : (fire e t).Uncut := uncut_of_steps (steps_foldl hfire rest _) uncut
    rw [List.foldl_cons, agree e t first]
    exact ih (fire e t) uncut

section

variable {fire deeper : WatchEvent → Trace → Trace} (hfire : ∀ e t, Steps d t (fire e t))
  (agree : ∀ e t, (fire e t).Uncut → deeper e t = fire e t)

include hfire agree

theorem perform_eq_of_uncut (spec : ActionSpec) (t : Trace)
    (uncut : (d.perform fire spec t).Uncut) : d.perform deeper spec t = d.perform fire spec t := by
  rw [perform_eq_foldl fire] at uncut
  rw [perform_eq_foldl deeper, perform_eq_foldl fire]
  exact foldl_eq_of_uncut hfire agree _ _ uncut

theorem store_eq_of_uncut (s : Store) (key : String) (v : Value) (t : Trace)
    (uncut : (Dispatcher.store fire s key v t).Uncut) :
    Dispatcher.store deeper s key v t = Dispatcher.store fire s key v t := by
  rw [store_eq_foldl fire] at uncut
  rw [store_eq_foldl deeper, store_eq_foldl fire]
  exact foldl_eq_of_uncut hfire agree _ _ uncut

end

/-! ## Whole cascades -/

theorem perform_withDepth (depth : Nat) (fire : WatchEvent → Trace → Trace) (spec : ActionSpec)
    (t : Trace) : (d.withDepth depth).perform fire spec t = d.perform fire spec t :=
  rfl

/-- By induction on the depth that is left under the smaller limit: at its end every event is cut,
and above it an event is an action whose own events have one level less under both limits. -/
theorem fire_eq_of_uncut {depth n m : Nat} (le : n ≤ m) (e : WatchEvent) (t : Trace)
    (uncut : (d.fire n e t).Uncut) : (d.withDepth depth).fire m e t = d.fire n e t := by
  induction n generalizing m e t with
  | zero =>
    have cut := uncut _ (List.mem_append_right _ (List.mem_singleton_self _))
    cases cut
  | succ n ih =>
    obtain ⟨m, rfl⟩ : ∃ k, m = k + 1 := ⟨m - 1, by omega⟩
    rw [fire, perform_withDepth]
    exact perform_eq_of_uncut (steps_fire n) (fun e t => ih (Nat.le_of_succ_le_succ le) e t) _ t
      uncut

theorem dispatch_eq_of_uncut {depth : Nat} (le : d.maxDepth ≤ depth) (spec : ActionSpec)
    (s : Option Store) (uncut : (d.dispatch spec s).Uncut) :
    (d.withDepth depth).dispatch spec s = d.dispatch spec s := by
  rw [dispatch, perform_withDepth]
  exact perform_eq_of_uncut (steps_fire d.maxDepth) (fire_eq_of_uncut le) spec _ uncut

theorem write_eq_of_uncut {depth : Nat} (le : d.maxDepth ≤ depth) (s : Store) (key : String)
    (v : Value) (uncut : (d.write s key v).Uncut) :
    (d.withDepth depth).write s key v = d.write s key v :=
  store_eq_of_uncut (steps_fire d.maxDepth) (fire_eq_of_uncut le) s key v _ uncut

/-- **The greatest depth only cuts.**  Take any collaborators, any store, whatever its watchers
raise, and two limits.  If the cascade of an action or of a write is not cut under the smaller one,
then under the greater one the whole trace is the same: the store, the effects, the dropped actions
and the calls, each in order. -/
theorem limit_only_cuts (d : Dispatcher) {depth deeper : Nat} (le : depth ≤ deeper)
    (spec : ActionSpec) (store : Option Store) (held : Store) (key : String) (v : Value) :
    (((d.withDepth depth).dispatch spec store).Uncut →
      (d.withDepth deeper).dispatch spec store = (d.withDepth depth).dispatch spec store) ∧
    (((d.withDepth depth).write held key v).Uncut →
      (d.withDepth deeper).write held key v = (d.withDepth depth).write held key v) :=
  ⟨@dispatch_eq_of_uncut (d.withDepth depth) deeper le spec store,
    @write_eq_of_uncut (d.withDepth depth) deeper le held key v⟩

def echoBlock : StateBlock :=
  (((((∅ : StateBlock).bind (.plain "a" .string)).bind (.plain "b" .string)).watch "a"
    (.stateUpdate "b" (.string "@watch:newValue"))).watch "b"
      (.stateUpdate "a" (.string "@watch:newValue"))).watch "b"
        ((ActionSpec.ofKind "onChange" .share).withValue "text" (.string "@watch:newValue"))

/-- Two texts follow each other, and somebody is told what the second one becomes.  The circle ends
at depth two, where the first text gets the value that it has, so a hundred levels do no more.  One
level is not enough. -/
theorem echo_settles :
    let d : Dispatcher := ⟨⟨false, true, none, none⟩, 1, 0⟩
    let store := Store.ofBlock echoBlock
    let spec := ActionSpec.stateUpdate "a" (.string "hi")
    (((d.withDepth 2).dispatch spec (some store)).Uncut ∧
        (d.withDepth 100).dispatch spec (some store) =
          (d.withDepth 2).dispatch spec (some store)) ∧
      (((d.withDepth 2).write store "a" (.string "hi")).Uncut ∧
        (d.withDepth 100).write store "a" (.string "hi") =
          (d.withDepth 2).write store "a" (.string "hi")) ∧
      ¬ (d.write store "a" (.string "hi")).Uncut := by
  intro d store spec
  obtain ⟨acted, written⟩ := limit_only_cuts d (by decide : 2 ≤ 100) spec (some store) store "a"
    (.string "hi")
  have uncut : ((d.withDepth 2).dispatch spec (some store)).Uncut := by
    have kept : ((d.withDepth 2).dispatch spec (some store)).outcome.dropped = [] := by
      decide +kernel
    simp [Trace.Uncut, kept]
  have uncut' : ((d.withDepth 2).write store "a" (.string "hi")).Uncut := by
    have kept : ((d.withDepth 2).write store "a" (.string "hi")).outcome.dropped = [] := by
      decide +kernel
    simp [Trace.Uncut, kept]
  refine ⟨⟨uncut, acted uncut⟩, ⟨uncut', written uncut'⟩, fun shallow => ?_⟩
  have cut : (d.write store "a" (.string "hi")).outcome.dropped =
      [.cascadeTooDeep 1 "b", .cascadeTooDeep 1 "b"] := by decide +kernel
  have first := shallow (.cascadeTooDeep 1 "b") (by rw [cut]; exact List.mem_cons_self)
  cases first

end Dispatcher

end ServerUi
