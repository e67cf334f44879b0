import ServerUi.Proofs.Dispatch.Steps
import ServerUi.Session

/-! # What moves a session

An event and a reply change a session through a trace of the dispatcher and in no other way.  Here
it is said what such a change leaves alone, so that runs of sessions need not look into dispatches.
-/

namespace ServerUi.Session

open Dispatcher

/-! ## Events -/

theorem steps_raise (s : Session) (n : Node) (store : Option Store) :
    Steps s.dispatcher (.start store) (s.raise n store) := by
  unfold raise
  split
  · exact steps_dispatch _ _
  · exact .refl

theorem steps_writeBound (s : Session) (n : Node) (key : String) (v : Value) :
    Steps s.dispatcher (.start s.store) (s.writeBound n key v) := by
  unfold writeBound
  split
  · rename_i held
    rw [held]
    exact steps_write _ _ _
  · exact .refl

theorem steps_edit (s : Session) (n : Node) (key : String) (v : Value) :
    Steps s.dispatcher (.start s.store) (s.edit n key v) :=
  steps_followedBy (steps_writeBound s n key v) (steps_raise s n _)

/-- Whatever an event does is a number of steps of the dispatcher on the store of the session. -/
theorem steps_react (s : Session) (n : Node) (e : UiEvent) :
    Steps s.dispatcher (.start s.store) (s.react n e) := by
  cases e with
  | tap id =>
    simp only [react]
    split
    · exact .refl
    · exact steps_raise s n _
  | textChanged id text => exact steps_edit s n _ _
  | pickerSelected id value => exact steps_edit s n _ _
  | imagePicked id url => exact steps_edit s n _ _

/-- An event does nothing, or it makes the session the one after a trace. -/
theorem handle_cases (s : Session) (e : UiEvent) :
    s.handle e = (s, .empty, []) ∨
      ∃ t, Steps s.dispatcher (.start s.store) t ∧
        s.handle e = (s.after t, t.outcome, t.calls) := by
  unfold handle
  split
  · exact .inl rfl
  · rename_i n _
    exact .inr ⟨s.react n e, steps_react s n e, rfl⟩

/-! ## Replies -/

/-- Taking a reply only counts it, or it writes what the reply holds. -/
theorem take_cases (p : Pump) (r : ApiResult) :
    (p.session.destination? r = none ∧
      p.take r = { p with report := { p.report with consumed := p.report.consumed + 1 } }) ∨
    ∃ store key v t, p.session.destination? r = some (store, key, v) ∧
      Steps p.session.dispatcher (.start p.session.store) t ∧
      p.take r =
        ⟨p.session.after t, ⟨p.report.consumed + 1, p.report.applied + 1⟩, p.calls ++ t.calls⟩ := by
  unfold Pump.take
  cases h : p.session.destination? r with
  | none => exact .inl ⟨rfl, rfl⟩
  | some place =>
    obtain ⟨store, key, v⟩ := place
    have held : p.session.store = some store := by
      unfold destination? at h
      split at h
      · cases h
      · split at h
        · rename_i hs
          cases h
          exact hs
        · cases h
    refine .inr ⟨store, key, v, p.session.dispatcher.write store key v, rfl, ?_, rfl⟩
    rw [held]
    exact steps_write _ _ _

/-! ## What traces keep, events and replies keep -/

/-- A relation between a session, the one that comes of it and the calls made on the way, which
holds across every trace of the dispatcher and across one change after another. -/
structure Tracks (R : Session → Session → List Call → Prop) : Prop where
  refl : ∀ s, R s s []
  trans : ∀ {a b c : Session} {first second : List Call},
    R a b first → R b c second → R a c (first ++ second)
  after : ∀ {s : Session} {t : Trace},
    Steps s.dispatcher (.start s.store) t → R s (s.after t) t.calls

section

variable {R : Session → Session → List Call → Prop} (tracks : Tracks R)

include tracks

theorem Tracks.handle (s : Session) (e : UiEvent) : R s (s.handle e).1 (s.handle e).2.2 := by
  rcases handle_cases s e with h | ⟨t, ht, h⟩
  · rw [h]
    exact tracks.refl s
  · rw [h]
    exact tracks.after ht

theorem Tracks.take (p : Pump) (r : ApiResult) :
    ∃ calls, (p.take r).calls = p.calls ++ calls ∧ R p.session (p.take r).session calls := by
  rcases take_cases p r with ⟨-, e⟩ | ⟨_, _, _, t, -, ht, e⟩
  · rw [e]
    exact ⟨[], (List.append_nil _).symm, tracks.refl _⟩
  · rw [e]
    exact ⟨t.calls, rfl, tracks.after ht⟩

theorem Tracks.takes (replies : List ApiResult) (p : Pump) :
    ∃ calls, (replies.foldl Pump.take p).calls = p.calls ++ calls ∧
      R p.session (replies.foldl Pump.take p).session calls := by
  induction replies generalizing p with
  | nil => exact ⟨[], (List.append_nil _).symm, tracks.refl _⟩
  | cons r rest ih =>
    obtain ⟨calls, hc, hr⟩ := tracks.take p r
    obtain ⟨more, hm, hr'⟩ := ih (p.take r)
    refine ⟨calls ++ more, ?_, tracks.trans hr hr'⟩
    rw [List.foldl_cons, hm, hc, List.append_assoc]

theorem Tracks.pump (s : Session) : R { s with inbox := [] } s.pump.session s.pump.calls := by
  obtain ⟨calls, hc, hr⟩ := tracks.takes s.inbox ⟨{ s with inbox := [] }, ⟨0, 0⟩, []⟩
  have hc : s.pump.calls = calls := hc
  rw [hc]
  exact hr

end

/-! ## What events and replies leave alone -/

/-- Only the store, the revision and the mark of the display differ, and the requests among the
calls carry the stamp of the dispatcher. -/
structure Keeps (s s' : Session) (calls : List Call) : Prop where
  tree : s'.tree = s.tree
  dispatcher : s'.dispatcher = s.dispatcher
  generation : s'.generation = s.generation
  inbox : s'.inbox = s.inbox
  stamped : Stamped s.dispatcher.generation calls

theorem tracks_keeps : Tracks Keeps where
  refl := fun _ => ⟨rfl, rfl, rfl, rfl, fun _ h => absurd h List.not_mem_nil⟩
  trans := fun h h' => ⟨h'.tree.trans h.tree, h'.dispatcher.trans h.dispatcher,
    h'.generation.trans h.generation, h'.inbox.trans h.inbox,
    h.stamped.append (h.dispatcher ▸ h'.stamped)⟩
  after := fun h => ⟨rfl, rfl, rfl, rfl, stamped_of_steps h⟩

end ServerUi.Session
