import ServerUi.Session

/-! # A pump writes in order

A pump takes the replies one by one.  What it does is said here without looking at one reply after
another: those that are of the generation of the session, bring a value and have a key are written
in the order of the inbox, each to the store that the last one left, and all others are only counted
(`pump_in_order`).  So it does not matter in how many pumps the same replies are taken.
-/

namespace ServerUi

/-- What a reply asks to be written at a generation: its value under its key.  It asks for nothing
if it is of another generation or failed, or if it has no key. -/
def ApiResult.entry? (generation : Nat) (r : ApiResult) : Option (String × Value) :=
  match r.result, r.resultKey with
  | .ok v, some key => if r.generation = generation then some (key, v) else none
  | _, _ => none

/-- Does the trace hold an effect? -/
def Trace.hasEffect (t : Trace) : Bool := !t.outcome.effects.isEmpty

/-- The store that was left last, where one trace follows another. -/
def lastStore (held : Option Store) (traces : List Trace) : Option Store :=
  (traces.getLast?.map Trace.store).getD held

theorem lastStore_cons (held : Option Store) (t : Trace) (traces : List Trace) :
    lastStore held (t :: traces) = lastStore t.store traces := by
  rw [lastStore, lastStore, List.getLast?_cons]
  cases traces.getLast? <;> rfl

theorem lastStore_append (held : Option Store) (traces more : List Trace) :
    lastStore held (traces ++ more) = lastStore (lastStore held traces) more := by
  induction traces generalizing held with
  | nil => rfl
  | cons t rest ih => rw [List.cons_append, lastStore_cons, lastStore_cons, ih]

namespace Dispatcher

variable (d : Dispatcher)

/-- One write after another, each with all that it raises and to the store that the last one left.
Without a store nothing is written. -/
def writeEach : Option Store → List (String × Value) → List Trace
  | some s, (key, v) :: rest => d.write s key v :: writeEach (d.write s key v).store rest
  | _, _ => []

theorem writeEach_nil (held : Option Store) : d.writeEach held [] = [] := by
  cases held <;> rfl

theorem writeEach_none (entries : List (String × Value)) : d.writeEach none entries = [] := by
  cases entries <;> rfl

theorem writeEach_append (held : Option Store) (entries more : List (String × Value)) :
    d.writeEach held (entries ++ more) =
      d.writeEach held entries ++ d.writeEach (lastStore held (d.writeEach held entries)) more := by
  induction entries generalizing held with
  | nil =>
    rw [writeEach_nil]
    rfl
  | cons entry rest ih =>
    cases held with
    | none => simp only [writeEach_none, List.nil_append, lastStore, List.getLast?_nil,
        Option.map_none, Option.getD_none]
    | some s =>
      rw [List.cons_append, writeEach, writeEach, ih, lastStore_cons]
      rfl

end Dispatcher

namespace Session

/-! ## Taking replies -/

theorem destination?_eq (s : Session) (r : ApiResult) :
    s.destination? r = match s.store, r.entry? s.generation with
      | some store, some (key, v) => some (store, key, v)
      | _, _ => none := by
  unfold destination? ApiResult.entry?
  by_cases fresh : r.generation = s.generation
  · rw [if_neg (not_not_intro fresh)]
    cases r.result <;> cases r.resultKey <;> cases s.store <;> simp [fresh]
  · rw [if_pos fresh]
    cases r.result <;> cases r.resultKey <;> cases s.store <;> simp [fresh]

/-- A pump that has counted so many more replies, and of which these are the further traces. -/
def Pump.advance (p : Pump) (consumed : Nat) (traces : List Trace) : Pump where
  session := { p.session with
    store := lastStore p.session.store traces
    revision := p.session.revision + traces.countP Trace.hasEffect }
  report := ⟨p.report.consumed + consumed, p.report.applied + traces.length⟩
  calls := p.calls ++ traces.flatMap Trace.calls

theorem Pump.advance_nil (p : Pump) (n : Nat) :
    p.advance n [] = { p with report := { p.report with consumed := p.report.consumed + n } } := by
  rw [advance, List.flatMap_nil, List.append_nil]
  rfl

theorem Pump.advance_singleton (p : Pump) (n : Nat) (t : Trace) :
    p.advance n [t] =
      ⟨p.session.after t, ⟨p.report.consumed + n, p.report.applied + 1⟩, p.calls ++ t.calls⟩ := by
  rw [advance, after, List.flatMap_singleton, List.countP_singleton, Trace.hasEffect]
  cases t.outcome.effects <;> rfl

theorem Pump.advance_advance (p : Pump) (m n : Nat) (traces more : List Trace) :
    (p.advance m traces).advance n more = p.advance (m + n) (traces ++ more) := by
  simp only [advance, lastStore_append, List.countP_append, List.length_append,
    List.flatMap_append, Nat.add_assoc, List.append_assoc]

/-- Taking one reply is writing what it asks for, if anything. -/
theorem take_eq_advance (p : Pump) (r : ApiResult) :
    p.take r = p.advance 1
      (p.session.dispatcher.writeEach p.session.store (r.entry? p.session.generation).toList) := by
  rw [Pump.take, destination?_eq]
  cases p.session.store with
  | none => rw [Dispatcher.writeEach_none, Pump.advance_nil]
  | some store =>
    cases r.entry? p.session.generation with
    | none => rw [Option.toList_none, Dispatcher.writeEach_nil, Pump.advance_nil]
    | some entry =>
      rw [Option.toList_some, Dispatcher.writeEach, Dispatcher.writeEach_nil,
        Pump.advance_singleton]

theorem filterMap_entry?_cons (generation : Nat) (r : ApiResult) (rest : List ApiResult) :
    (r :: rest).filterMap (ApiResult.entry? generation) =
      (r.entry? generation).toList ++ rest.filterMap (ApiResult.entry? generation) := by
  rw [List.filterMap_cons]
  cases r.entry? generation <;> rfl

/-- By induction on the replies: the traces of the first are followed by those of the others, which
start from the store that it left. -/
theorem foldl_take (replies : List ApiResult) (p : Pump) :
    replies.foldl Pump.take p = p.advance replies.length
      (p.session.dispatcher.writeEach p.session.store
        (replies.filterMap (ApiResult.entry? p.session.generation))) := by
  induction replies generalizing p with
  | nil =>
    rw [List.filterMap_nil, Dispatcher.writeEach_nil, Pump.advance_nil]
    rfl
  | cons r rest ih =>
    rw [List.foldl_cons, ih, take_eq_advance, filterMap_entry?_cons,
      Dispatcher.writeEach_append, List.length_cons, Nat.add_comm]
    exact Pump.advance_advance ..

/-- The traces of the writes that a pump makes. -/
def writings (s : Session) : List Trace :=
  s.dispatcher.writeEach s.store (s.inbox.filterMap (ApiResult.entry? s.generation))

theorem pump_eq_advance (s : Session) :
    s.pump = Pump.advance ⟨{ s with inbox := [] }, ⟨0, 0⟩, []⟩ s.inbox.length s.writings :=
  foldl_take s.inbox _

/-- A reply that asks for nothing may as well not be there, except that it is counted. -/
theorem pump_of_ignored {s : Session} {early late : List ApiResult} {r : ApiResult}
    (inbox : s.inbox = early ++ r :: late)
    (ignored : r.entry? s.generation = none ∨ s.store = none) :
    s.pump = Pump.advance ({ s with inbox := early ++ late } : Session).pump 1 [] := by
  have same : s.writings = ({ s with inbox := early ++ late } : Session).writings := by
    rcases ignored with nothing | storeless
    · rw [writings, inbox, List.filterMap_append, List.filterMap_cons_none nothing,
        ← List.filterMap_append]
      rfl
    · rw [writings, writings, storeless, Dispatcher.writeEach_none, Dispatcher.writeEach_none]
  have counted : s.inbox.length = (early ++ late).length + 1 := by
    rw [inbox, List.length_append, List.length_cons, List.length_append, Nat.add_assoc]
  rw [pump_eq_advance, pump_eq_advance, Pump.advance_advance, List.append_nil, same, counted]

/-! ## Several pumps -/

/-- What two pumps did together, the second from where the first ended. -/
def Pump.followedBy (first second : Pump) : Pump where
  session := second.session
  report := ⟨first.report.consumed + second.report.consumed,
    first.report.applied + second.report.applied⟩
  calls := first.calls ++ second.calls

/-- What is in the inbox is pumped, and then each further batch of replies as it comes. -/
def pumpEach (s : Session) : List (List ApiResult) → Pump
  | [] => s.pump
  | batch :: rest => s.pump.followedBy (pumpEach (batch.foldl receive s.pump.session) rest)

theorem foldl_receive (replies : List ApiResult) (s : Session) :
    replies.foldl receive s = { s with inbox := s.inbox ++ replies } := by
  induction replies generalizing s with
  | nil => rw [List.append_nil, List.foldl_nil]
  | cons r rest ih =>
    rw [List.foldl_cons, ih, receive, List.append_assoc]
    rfl

theorem pump_received {s : Session} (emptied : s.inbox = []) (replies : List ApiResult) :
    (replies.foldl receive s).pump = replies.foldl Pump.take ⟨s, ⟨0, 0⟩, []⟩ := by
  obtain ⟨tree, store, d, generation, inbox, revision, rendered⟩ := s
  cases emptied
  rw [foldl_receive]
  rfl

theorem pump_append (s : Session) (replies : List ApiResult) :
    ({ s with inbox := s.inbox ++ replies } : Session).pump =
      s.pump.followedBy (replies.foldl receive s.pump.session).pump := by
  have together : ({ s with inbox := s.inbox ++ replies } : Session).pump =
      replies.foldl Pump.take s.pump := List.foldl_append
  have emptied : s.pump.session.inbox = [] := by
    rw [pump_eq_advance]
    rfl
  rw [together, pump_received emptied, foldl_take, foldl_take]
  simp only [Pump.followedBy, Pump.advance, Nat.zero_add, List.nil_append]

theorem pumpEach_eq (s : Session) (batches : List (List ApiResult)) :
    s.pumpEach batches = ({ s with inbox := s.inbox ++ batches.flatten } : Session).pump := by
  induction batches generalizing s with
  | nil =>
    rw [List.flatten_nil, List.append_nil]
    rfl
  | cons batch rest ih =>
    have received (t : Session) : ({ t with inbox := t.inbox ++ rest.flatten } : Session) =
        rest.flatten.foldl receive t := (foldl_receive rest.flatten t).symm
    rw [pumpEach, ih, received, ← List.foldl_append, ← List.flatten_cons, ← pump_append]

/-- **A pump writes in order.**  It empties the inbox and counts every reply.  Those that are of the
generation of the session, bring a value and have a key are written, if there is a store, in the
order of the inbox; the store is the one that the last of these writes left, and there is a new
revision for each of them that had an effect.  Nothing else of the session changes, and every other
reply might be missing from the inbox but for its count.  And it is the same whether all replies are
taken by one pump or by several, as they come. -/
theorem pump_in_order (s : Session) :
    s.pump =
      { session := { s with
          inbox := []
          store := lastStore s.store s.writings
          revision := s.revision + s.writings.countP Trace.hasEffect }
        report := ⟨s.inbox.length, s.writings.length⟩
        calls := s.writings.flatMap Trace.calls } ∧
    (∀ early r late, s.inbox = early ++ r :: late →
      r.entry? s.generation = none ∨ s.store = none →
        let others := ({ s with inbox := early ++ late } : Session).pump
        s.pump = { others with
          report := { others.report with consumed := others.report.consumed + 1 } }) ∧
    ∀ batches, s.pumpEach batches =
      ({ s with inbox := s.inbox ++ batches.flatten } : Session).pump := by
  refine ⟨?_, fun early r late inbox ignored => ?_, s.pumpEach_eq⟩
  · -- nothing was counted and nobody was called before the first reply
    rw [pump_eq_advance, Pump.advance]
    simp only [Nat.zero_add, List.nil_append]
  · rw [pump_of_ignored inbox ignored, Pump.advance_nil]

/-- A price, and a note that follows it. -/
def feedTree : Node :=
  (Node.bare "feed" .vStack).withState
    ((((∅ : StateBlock).bind (.plain "price" .number)).bind (.plain "note" .string)).watch "price"
      (.stateUpdate "note" (.string "@watch:newValue")))

/-- The tree on display, with replies in the inbox. -/
def feedSession (replies : List ApiResult) : Session :=
  replies.foldl receive (start feedTree ⟨.none, 8, 0⟩)

/-- Behind a price come a late one, a failure, a value without a key and one for a key that is not
bound, and then a note of its own.  The late price might be missing, and the replies might have come
in two batches. -/
theorem feed_pumped :
    let price : ApiResult := ⟨1, "/price", some "price", .ok (.int 3)⟩
    let late : ApiResult := ⟨0, "/price", some "price", .ok (.int 4)⟩
    let lost : List ApiResult := [⟨1, "/price", some "price", .error "status 500"⟩,
      ⟨1, "/ping", none, .ok .null⟩, ⟨1, "/cost", some "cost", .ok (.int 5)⟩]
    let note : ApiResult := ⟨1, "/note", some "note", .ok (.string "cheap")⟩
    let s := feedSession (price :: late :: (lost ++ [note]))
    s.pump.report.consumed = 6 ∧ s.pump.session.revision = 2 ∧
      (s.pump.session.store.bind (·.get? "note")).any (Value.strictEq (.string "cheap")) = true ∧
      s.pump.session = (feedSession (price :: (lost ++ [note]))).pump.session ∧
      (feedSession [price, late]).pumpEach [lost ++ [note]] = s.pump := by
  intro price late lost note s
  obtain ⟨whole, ignored, -⟩ := pump_in_order s
  obtain ⟨-, -, several⟩ := pump_in_order (feedSession [price, late])
  have revision : s.revision + s.writings.countP Trace.hasEffect = 2 := by decide +kernel
  have held : ((lastStore s.store s.writings).bind (·.get? "note")).any
      (Value.strictEq (.string "cheap")) = true := by decide +kernel
  have without := congrArg Pump.session (ignored [price] late (lost ++ [note]) rfl (.inl rfl))
  refine ⟨?_, ?_, ?_, without, several [lost ++ [note]]⟩
  · rw [whole]
    rfl
  · rw [whole]
    exact revision
  · rw [whole]
    exact held

end Session

end ServerUi
