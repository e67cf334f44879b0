import ServerUi.Proofs.Validation.Supersession
import ServerUi.Validation.Timeline

/-! # Runs in time are runs under a supervisor

A timeline decides when each of its runs is woken; a supervisor leaves that open.  Whatever orders
a timeline works off, its runs are those of a supervisor after some events (`runs_supervised`), so
what holds of runs in every interleaving holds of runs in time.
-/

namespace ServerUi.Validation

/-- Some events lead from one supervisor to the other. -/
def Supervisor.Reaches (s : Run.Setting) (v v' : Supervisor) : Prop :=
  ∃ events : List Supervisor.Event, events.foldl (Supervisor.step s) v = v'

/-- Some wakes lead from one run to the other. -/
def Run.Woken (s : Run.Setting) (r r' : Run) : Prop :=
  ∃ wakes : List Wake, wakes.foldl (fun r w => r.wake s w) r = r'

theorem modify_append_cons {α : Type} (before : List α) (a : α) (behind : List α) (f : α → α) :
    (before ++ a :: behind).modify before.length f = before ++ f a :: behind := by
  induction before with
  | nil => rfl
  | cons b before ih =>
    rw [List.cons_append, List.length_cons, List.modify_succ_cons, ih]
    rfl

namespace Supervisor

variable {s : Run.Setting}

theorem Reaches.refl (v : Supervisor) : Reaches s v v := ⟨[], rfl⟩

theorem Reaches.trans {v v' v'' : Supervisor} (first : Reaches s v v')
    (second : Reaches s v' v'') : Reaches s v v'' := by
  obtain ⟨events, rfl⟩ := first
  obtain ⟨later, rfl⟩ := second
  exact ⟨events ++ later, List.foldl_append⟩

theorem Reaches.step (v : Supervisor) (e : Event) : Reaches s v (step s v e) := ⟨[e], rfl⟩

/-- One run is woken a number of times, behind others and before others. -/
theorem reaches_woken {r r' : Run} (h : r.Woken s r') (before behind : List Run)
    (current : Option Nat) :
    Reaches s ⟨before ++ r :: behind, current⟩ ⟨before ++ r' :: behind, current⟩ := by
  obtain ⟨wakes, rfl⟩ := h
  induction wakes generalizing r with
  | nil => exact .refl _
  | cons w wakes ih =>
    refine Reaches.trans ?_ ih
    have woken : step s ⟨before ++ r :: behind, current⟩ (.wake before.length w) =
        ⟨before ++ r.wake s w :: behind, current⟩ := by
      rw [step, modify_append_cons]
    rw [← woken]
    exact .step _ _

end Supervisor

namespace Timed

variable {s : Run.Setting}

theorem pass_woken (limit : Option Nat) (n : Nat) {t : Timed} (h : t.setting = s) :
    (t.pass limit n).setting = s ∧ t.run.Woken s (t.pass limit n).run := by
  induction n generalizing t with
  | zero => exact ⟨h, [], rfl⟩
  | succ n ih =>
    unfold pass
    split
    · exact ⟨h, [], rfl⟩
    · rename_i due _
      split
      · obtain ⟨setting, wakes, woken⟩ := @ih (t.wakeAt due t.expected) h
        refine ⟨setting, t.expected :: wakes, ?_⟩
        rw [List.foldl_cons, ← woken, ← h]
        rfl
      · exact ⟨h, [], rfl⟩

end Timed

namespace Timeline

variable {s : Run.Setting}

/-- The supervisor of the runs, whatever their times. -/
def supervisor (l : Timeline) : Supervisor := ⟨l.runs.map (·.2.run), l.current⟩

/-- All runs have the same pauses and the same kind of observer. -/
def Uniform (s : Run.Setting) (runs : List (Nat × Timed)) : Prop :=
  ∀ p ∈ runs, p.2.setting = s

/-- The timeline when so much time has passed. -/
def waited (limit : Option Nat) (l : Timeline) : Timeline :=
  ⟨l.runs.map fun p => (p.1, p.2.passUntil limit), l.current⟩

theorem reaches_pass (limit : Option Nat) {runs : List (Nat × Timed)} (h : Uniform s runs)
    (before : List Run) (current : Option Nat) :
    Supervisor.Reaches s ⟨before ++ runs.map (·.2.run), current⟩
      ⟨before ++ runs.map (fun p => (p.2.passUntil limit).run), current⟩ := by
  induction runs generalizing before with
  | nil => exact .refl _
  | cons p runs ih =>
    obtain ⟨-, woken⟩ := Timed.pass_woken limit 4 (h p List.mem_cons_self)
    have others := ih (fun q hq => h q (List.mem_cons_of_mem _ hq))
      (before ++ [(p.2.passUntil limit).run])
    rw [List.append_assoc, List.append_assoc] at others
    exact (Supervisor.reaches_woken woken before _ current).trans others

/-- Time passes for every run. -/
theorem reaches_waited (limit : Option Nat) {l : Timeline} (h : Uniform s l.runs) :
    Uniform s (l.waited limit).runs ∧
      Supervisor.Reaches s l.supervisor (l.waited limit).supervisor := by
  constructor
  · intro p hp
    obtain ⟨q, hq, rfl⟩ := List.mem_map.mp hp
    exact (Timed.pass_woken limit 4 (h q hq)).1
  · have passed := reaches_pass limit h [] l.current
    rw [List.nil_append, List.nil_append] at passed
    unfold supervisor waited
    rw [List.map_map]
    exact passed

/-- To cancel a run in time is to cancel it and to wake it. -/
theorem map_run_change {runs : List (Nat × Timed)} (h : Uniform s runs) (now i : Nat) :
    (change (Timed.cancelAt now) i runs).map (·.2.run) =
      ((runs.map (·.2.run)).modify i Run.cancel).modify i (Run.wake s .poll) := by
  rw [List.modify_modify_eq]
  unfold change
  induction runs generalizing i with
  | nil => rw [List.modify_nil, List.map_nil, List.modify_nil]
  | cons p runs ih =>
    cases i with
    | zero =>
      rw [List.modify_zero_cons, List.map_cons, List.map_cons, List.modify_zero_cons,
        ← h p List.mem_cons_self]
      rfl
    | succ i =>
      rw [List.modify_succ_cons, List.map_cons, List.map_cons, List.modify_succ_cons,
        ih (fun q hq => h q (List.mem_cons_of_mem _ hq))]

theorem Uniform.change {runs : List (Nat × Timed)} (h : Uniform s runs) (now i : Nat) :
    Uniform s (change (Timed.cancelAt now) i runs) := by
  intro p hp
  obtain ⟨j, hj⟩ := List.mem_iff_getElem?.mp hp
  rw [Timeline.change, List.getElem?_modify] at hj
  obtain ⟨q, hq, rfl⟩ := Option.map_eq_some_iff.mp hj
  have setting := h q (List.mem_of_getElem? hq)
  split <;> exact setting

/-- The current run is cancelled and woken at once. -/
theorem reaches_cancelCurrent {l : Timeline} (h : Uniform s l.runs) (now : Nat) :
    Uniform s (l.cancelCurrent now) ∧
      Supervisor.Reaches s l.supervisor ⟨(l.cancelCurrent now).map (·.2.run), none⟩ := by
  obtain ⟨runs, current⟩ := l
  cases current with
  | none => exact ⟨h, .step _ .cancel⟩
  | some i =>
    refine ⟨Uniform.change h now i, [.cancel, .wake i .poll], ?_⟩
    exact congrArg (Supervisor.mk · none) (map_run_change h now i).symm

theorem length_cancelCurrent (l : Timeline) (now : Nat) :
    (l.cancelCurrent now).length = l.runs.length := by
  unfold cancelCurrent
  split
  · rfl
  · exact List.length_modify ..

/-- A supervisor without a current run begins one and wakes it. -/
theorem reaches_start (runs : List Run) :
    Supervisor.Reaches s ⟨runs, none⟩ ⟨runs ++ [Run.fresh.wake s .poll], some runs.length⟩ := by
  refine ⟨[.begin, .wake runs.length .poll], ?_⟩
  show Supervisor.mk (List.modify (runs ++ [Run.fresh]) _ _) _ = _
  rw [modify_append_cons]
  rfl

/-! ## Orders -/

theorem supervisor_start (validator : String → Validator) (l : Timeline) (now index : Nat)
    (code : String) :
    (step validator s l (now, .start index code)).supervisor =
      ⟨((l.waited (some now)).cancelCurrent now).map (·.2.run) ++ [Run.fresh.wake s .poll],
        some l.runs.length⟩ := by
  have length : (l.waited (some now)).runs.length = l.runs.length := List.length_map ..
  rw [← length]
  show Supervisor.mk (List.map _ (_ ++ _)) _ = _
  rw [List.map_append]
  rfl

theorem reaches_order (validator : String → Validator) {l : Timeline} (h : Uniform s l.runs)
    (o : Nat × Order) :
    Uniform s (step validator s l o).runs ∧
      Supervisor.Reaches s l.supervisor (step validator s l o).supervisor := by
  obtain ⟨now, order⟩ := o
  obtain ⟨uniform, passed⟩ := reaches_waited (some now) h
  obtain ⟨uniform', cancelled⟩ := reaches_cancelCurrent uniform now
  cases order with
  | cancel => exact ⟨uniform', passed.trans cancelled⟩
  | start index code =>
    constructor
    · intro p hp
      rcases List.mem_append.mp hp with hp | hp
      · exact uniform' p hp
      · rw [List.mem_singleton.mp hp]
        rfl
    · have started := reaches_start (s := s)
        (((l.waited (some now)).cancelCurrent now).map (·.2.run))
      rw [List.length_map, length_cancelCurrent] at started
      have length : (l.waited (some now)).runs.length = l.runs.length := List.length_map ..
      rw [length] at started
      rw [supervisor_start]
      exact (passed.trans cancelled).trans started

theorem reaches_orders (validator : String → Validator) (os : List (Nat × Order)) {l : Timeline}
    (h : Uniform s l.runs) :
    Uniform s (os.foldl (step validator s) l).runs ∧
      Supervisor.Reaches s l.supervisor (os.foldl (step validator s) l).supervisor := by
  induction os generalizing l with
  | nil => exact ⟨h, .refl _⟩
  | cons o os ih =>
    obtain ⟨uniform, first⟩ := reaches_order validator h o
    obtain ⟨uniform', rest⟩ := ih uniform
    exact ⟨uniform', first.trans rest⟩

/-- **Time adds nothing.** The runs that orders bring about, at the end of time, are the runs of a
supervisor after some events. -/
theorem runs_supervised (validator : String → Validator) (s : Run.Setting)
    (os : List (Nat × Order)) :
    ∃ events, (ofOrders validator s os).map (·.2.run) = (Supervisor.after s events).runs := by
  let last := (sorted os).foldl (step validator s) ⟨[], none⟩
  have nobody : Uniform s (Timeline.mk [] none).runs := fun _ hp => absurd hp List.not_mem_nil
  obtain ⟨uniform, ordered⟩ := reaches_orders validator (sorted os) nobody
  obtain ⟨-, passed⟩ := reaches_waited none uniform
  obtain ⟨events, reached⟩ := ordered.trans passed
  refine ⟨events, ?_⟩
  have same : (ofOrders validator s os).map (·.2.run) = (last.waited none).supervisor.runs := rfl
  rw [same, ← reached]
  rfl

/-- So what was told of each of them is accounted for. -/
theorem accounted_of_mem_ofOrders {validator : String → Validator} {os : List (Nat × Order)}
    {p : Nat × Timed} (h : p ∈ ofOrders validator s os) : p.2.run.Accounted := by
  obtain ⟨events, runs⟩ := runs_supervised validator s os
  have mem : p.2.run ∈ (Supervisor.after s events).runs := by
    rw [← runs]
    exact List.mem_map_of_mem h
  obtain ⟨i, begun⟩ := List.mem_iff_getElem?.mp mem
  exact (Supervisor.faithful_after events begun).accounted

end Timeline

end ServerUi.Validation
