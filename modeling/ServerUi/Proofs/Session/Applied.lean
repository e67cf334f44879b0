import ServerUi.Proofs.Dispatch.Recording
import ServerUi.Proofs.Session.Pumping

/-! # How many replies are written

The report of a pump counts as applied every reply that it hands on to be written.  The store may
still refuse one, because its key is not bound or is computed.  So the report counts the replies
that are written and the refused ones besides (`applied_counts_refused`); it is the revision that
grows with the written ones alone.
-/

namespace ServerUi

/-! ## Accepted writes -/

/-- Is the key bound, and not computed? -/
def Schema.isPlain (s : Schema) (key : String) : Bool :=
  (s.bindings.find? key).isSome && !s.isComputed key

/-- A store accepts a write by what it declares, whatever it holds. -/
theorem Store.isApplied_write (s : Store) (key : String) (v : Value) :
    (s.write key v).2.isApplied = s.schema.isPlain key := by
  rcases write_cases s key v with ⟨unbound, e⟩ | ⟨computed, e⟩ | ⟨b, bound, plain, e⟩
  · rw [e, Schema.isPlain, unbound]
    rfl
  · rw [e, Schema.isPlain, computed, Bool.not_true, Bool.and_false]
    rfl
  · rw [e, Schema.isPlain, bound, plain]
    rfl

namespace Dispatcher

variable (d : Dispatcher)

/-- A write has an effect if the store accepts it, and what it raises adds to that. -/
theorem hasEffect_write (s : Store) (key : String) (v : Value) :
    (d.write s key v).hasEffect = (s.write key v).2.isApplied := by
  simp only [write, store]
  split
  · rename_i applied
    obtain ⟨more, effects, -⟩ := (steps_foldl (steps_fire (d := d) d.maxDepth)
      (s.write key v).2.events _).effects
    rw [Trace.hasEffect, effects, applied]
    rfl
  · rename_i refused
    exact (Bool.eq_false_iff.mpr refused).symm

/-- A write leaves a store that declares what the first one did. -/
theorem exists_store_write (s : Store) (key : String) (v : Value) :
    ∃ next, (d.write s key v).store = some next ∧ next.schema = s.schema := by
  have recorded := (recorded_recordWrite (d := d) s key v).store
  rw [trace_recordWrite] at recorded
  exact ⟨_, recorded, Store.schema_writes s _⟩

theorem length_writeEach (s : Store) (entries : List (String × Value)) :
    (d.writeEach (some s) entries).length = entries.length := by
  induction entries generalizing s with
  | nil => rfl
  | cons entry rest ih =>
    obtain ⟨next, held, -⟩ := d.exists_store_write s entry.1 entry.2
    rw [writeEach, List.length_cons, held, ih, List.length_cons]

theorem countP_writeEach (s : Store) (entries : List (String × Value)) :
    (d.writeEach (some s) entries).countP Trace.hasEffect =
      entries.countP fun entry => s.schema.isPlain entry.1 := by
  induction entries generalizing s with
  | nil => rfl
  | cons entry rest ih =>
    obtain ⟨next, held, schema⟩ := d.exists_store_write s entry.1 entry.2
    rw [writeEach, List.countP_cons, held, ih, schema, hasEffect_write, Store.isApplied_write,
      List.countP_cons]

end Dispatcher

namespace Session

/-! ## Replies at their turns -/

/-- Is a reply written that is taken now?  It is if it asks to be, there is a store, and the store
accepts it. -/
def writes (s : Session) (r : ApiResult) : Bool :=
  match s.store, r.entry? s.generation with
  | some store, some (key, v) => (store.write key v).2.isApplied
  | _, _ => false

/-- How many of these replies are written, each at its turn. -/
def Pump.written (p : Pump) : List ApiResult → Nat
  | [] => 0
  | r :: rest => (p.session.writes r).toNat + (p.take r).written rest

/-- How many of the replies in the inbox a pump writes. -/
def written (s : Session) : Nat := Pump.written ⟨{ s with inbox := [] }, ⟨0, 0⟩, []⟩ s.inbox

/-- What replies in the inbox ask to be written that the store refuses. -/
def refused (s : Session) : List (String × Value) :=
  s.store.elim [] fun store =>
    (s.inbox.filterMap (ApiResult.entry? s.generation)).filter fun entry =>
      !store.schema.isPlain entry.1

theorem toNat_writes (s : Session) (r : ApiResult) :
    (s.writes r).toNat =
      (s.dispatcher.writeEach s.store (r.entry? s.generation).toList).countP Trace.hasEffect := by
  unfold writes
  cases s.store with
  | none =>
    rw [Dispatcher.writeEach_none]
    rfl
  | some store =>
    cases r.entry? s.generation with
    | none => rfl
    | some entry =>
      obtain ⟨key, v⟩ := entry
      rw [Option.toList_some, Dispatcher.countP_writeEach, List.countP_singleton,
        ← store.isApplied_write key v]
      show (store.write key v).2.isApplied.toNat = _
      cases (store.write key v).2.isApplied <;> rfl

/-- By induction on the replies: the first one counts if its write has an effect, and the others
start from the store that it left. -/
theorem Pump.written_eq (p : Pump) (replies : List ApiResult) :
    p.written replies =
      (p.session.dispatcher.writeEach p.session.store
        (replies.filterMap (ApiResult.entry? p.session.generation))).countP Trace.hasEffect := by
  induction replies generalizing p with
  | nil =>
    rw [List.filterMap_nil, Dispatcher.writeEach_nil]
    rfl
  | cons r rest ih =>
    rw [written, ih, toNat_writes, take_eq_advance, filterMap_entry?_cons,
      Dispatcher.writeEach_append, List.countP_append]
    rfl

theorem written_eq (s : Session) : s.written = s.writings.countP Trace.hasEffect :=
  Pump.written_eq _ s.inbox

theorem length_writings (s : Session) : s.writings.length = s.written + s.refused.length := by
  rw [written_eq, writings, refused]
  cases s.store with
  | none =>
    rw [Dispatcher.writeEach_none]
    rfl
  | some store =>
    rw [Dispatcher.length_writeEach, Dispatcher.countP_writeEach, Option.elim_some,
      ← List.countP_eq_length_filter]
    simpa only [Bool.not_eq_true, Bool.decide_eq_false] using
      List.length_eq_countP_add_countP fun entry : String × Value => store.schema.isPlain entry.1

theorem refused_eq_nil_iff (s : Session) :
    s.refused = [] ↔ ∀ r ∈ s.inbox, ∀ key v store, r.entry? s.generation = some (key, v) →
      s.store = some store → store.schema.isPlain key = true := by
  rw [refused]
  cases s.store with
  | none => simp
  | some store =>
    rw [Option.elim_some, List.filter_eq_nil_iff]
    simp only [List.mem_filterMap, Bool.not_eq_true', Bool.not_eq_false]
    constructor
    · rintro plain r mem key v _ asked ⟨⟩
      exact plain (key, v) ⟨r, mem, asked⟩
    · rintro plain ⟨key, v⟩ ⟨r, mem, asked⟩
      exact plain r mem key v store asked rfl

/-- **Refused replies count as applied.**  Whatever the session and the replies in its inbox, the
number that a pump reports as applied is that of the replies whose value is written to the store,
each at its turn, and of those besides that the store refuses.  It is the number of the written ones
exactly if no reply that asks to be written has a key that is not bound or is computed.  The
revision grows by the number of the written ones. -/
theorem applied_counts_refused (s : Session) :
    s.pump.report.applied = s.written + s.refused.length ∧
    (s.pump.report.applied = s.written ↔
      ∀ r ∈ s.inbox, ∀ key v store, r.entry? s.generation = some (key, v) →
        s.store = some store → store.schema.isPlain key = true) ∧
    s.pump.session.revision = s.revision + s.written := by
  have applied : s.pump.report.applied = s.written + s.refused.length := by
    rw [pump_eq_advance, ← length_writings]
    exact Nat.zero_add _
  refine ⟨applied, ?_, ?_⟩
  · rw [applied, ← refused_eq_nil_iff, ← List.length_eq_zero_iff]
    omega
  · rw [pump_eq_advance, written_eq]
    rfl

/-- A session with a count, and a reply for a total that there is not. -/
def totalSession : Session :=
  (start ((Node.bare "page" .text).withState ((∅ : StateBlock).bind (.plain "count" .number)))
    ⟨.none, 8, 0⟩).receive ⟨1, "/total", some "total", .ok (.int 3)⟩

/-- Nothing is written, and yet one reply is reported as applied. -/
theorem total_reported_as_applied :
    totalSession.written = 0 ∧ totalSession.pump.report = ⟨1, 1⟩ ∧
      totalSession.pump.session.revision = totalSession.revision := by
  decide +kernel

end Session

end ServerUi
