import Mathlib.Data.List.Basic
import ServerUi.Proofs.Session.Pumping
import ServerUi.Proofs.Session.Revision

/-! # Replies reach the tree that asked for them

A session together with everybody who performs its requests: requests that nobody has answered
yet, answers in the inbox, and those that the pumps have consumed.  Requests are numbered, and each
remembers the era in which it was raised; a new era begins when the tree is replaced.  Answers come
in any order.  A pump writes just what the answers of its own era ask for, no request is answered
twice, and without the answers of past eras the session would do and show the same, now and later
(`written_only_in_own_era`).
-/

namespace ServerUi

open Relation

/-- A request that was handed over. -/
structure Ticket where
  serial : Nat
  /-- How many trees had been replaced when the request was raised. -/
  era : Nat
  request : ApiRequest

/-- An answer in the inbox. -/
structure Posted where
  ticket : Ticket
  result : Except String Value

/-- The answer as the session sees it. -/
def Posted.reply (m : Posted) : ApiResult :=
  ⟨m.ticket.request.generation, m.ticket.request.url, m.ticket.request.resultKey, m.result⟩

/-- What an answer asks to be written in an era: its value under the key of its request.  It asks
for nothing if the request was raised in another era or names no key, or if it failed. -/
def Posted.entry? (era : Nat) (m : Posted) : Option (String × Value) :=
  match m.result, m.ticket.request.resultKey with
  | .ok v, some key => if m.ticket.era = era then some (key, v) else none
  | _, _ => none

/-- A session and its requests. -/
structure System where
  session : Session
  /-- How many trees have been replaced. -/
  era : Nat
  /-- How many requests have been handed over. -/
  issued : Nat
  outstanding : List Ticket
  inbox : List Posted
  /-- The answers that pumps have taken out of the inbox. -/
  consumed : List Posted

namespace System

def requestsOf (calls : List Call) : List ApiRequest :=
  calls.filterMap fun
    | .api request => some request
    | _ => none

/-- Numbers requests from a serial on. -/
def ticketsFrom (era : Nat) : Nat → List ApiRequest → List Ticket
  | _, [] => []
  | serial, r :: rest => ⟨serial, era, r⟩ :: ticketsFrom era (serial + 1) rest

def start (tree : Node) (d : Dispatcher) : System := ⟨Session.start tree d, 0, 0, [], [], []⟩

/-- The session moves on and hands over the requests among the calls. -/
def issue (σ : System) (session : Session) (calls : List Call) : System :=
  { σ with
    session := session
    issued := σ.issued + (requestsOf calls).length
    outstanding := σ.outstanding ++ ticketsFrom σ.era σ.issued (requestsOf calls) }

def handle (σ : System) (e : UiEvent) : System :=
  σ.issue (σ.session.handle e).1 (σ.session.handle e).2.2

def pump (σ : System) : System :=
  { σ.issue σ.session.pump.session σ.session.pump.calls with
    inbox := []
    consumed := σ.consumed ++ σ.inbox }

def render (σ : System) : System := { σ with session := σ.session.render.1 }

def replaceTree (σ : System) (tree : Node) : System :=
  { σ with session := σ.session.replaceTree tree, era := σ.era + 1 }

/-- A request is answered, and these stay outstanding. -/
def answer (σ : System) (t : Ticket) (result : Except String Value) (others : List Ticket) :
    System :=
  { σ with
    session := σ.session.receive (Posted.mk t result).reply
    outstanding := others
    inbox := σ.inbox ++ [⟨t, result⟩] }

inductive Step : System → System → Prop where
  | handle (σ : System) (e : UiEvent) : Step σ (σ.handle e)
  | pump (σ : System) : Step σ σ.pump
  | render (σ : System) : Step σ σ.render
  | replaceTree (σ : System) (tree : Node) : Step σ (σ.replaceTree tree)
  /-- Any outstanding request is answered with any result. -/
  | answer {σ : System} {early late : List Ticket} {t : Ticket}
      (waiting : σ.outstanding = early ++ t :: late) (result : Except String Value) :
      Step σ (σ.answer t result (early ++ late))

def Reachable (tree : Node) (d : Dispatcher) : System → Prop := ReflTransGen Step (start tree d)

/-! ## The invariant -/

/-- The request carries the stamp of its era, which is not beyond this one. -/
structure Dated (era : Nat) (t : Ticket) : Prop where
  stamp : t.request.generation = t.era + 1
  past : t.era ≤ era

/-- The serials of all requests, wherever they are. -/
def serials (σ : System) : List Nat :=
  σ.outstanding.map Ticket.serial ++
    (σ.inbox.map (·.ticket.serial) ++ σ.consumed.map (·.ticket.serial))

/-- What every reachable state has: the stamp of the dispatcher and the generation of the session
are one more than the era, and so is the stamp of each request with respect to its own era; the
inbox of the session holds the answers posted; and each request is in one place. -/
structure Invariant (σ : System) : Prop where
  dispatcher : σ.session.dispatcher.generation = σ.era + 1
  session : σ.session.generation = σ.era + 1
  outstanding : ∀ t ∈ σ.outstanding, Dated σ.era t
  posted : ∀ m ∈ σ.inbox, Dated σ.era m.ticket
  inbox : σ.session.inbox = σ.inbox.map Posted.reply
  nodup : σ.serials.Nodup
  numbered : ∀ n ∈ σ.serials, n < σ.issued

theorem invariant_start (tree : Node) (d : Dispatcher) : Invariant (start tree d) where
  dispatcher := rfl
  session := rfl
  outstanding := by simp [start]
  posted := by simp [start]
  inbox := rfl
  nodup := .nil
  numbered := by simp [start, serials]

/-! ## Handing over -/

theorem mem_requestsOf {calls : List Call} {r : ApiRequest} :
    r ∈ requestsOf calls ↔ Call.api r ∈ calls := by
  unfold requestsOf
  rw [List.mem_filterMap]
  constructor
  · rintro ⟨c, hc, h⟩
    split at h
    · cases h
      exact hc
    · cases h
  · intro h
    exact ⟨_, h, rfl⟩

theorem dated_ticketsFrom {era serial : Nat} {requests : List ApiRequest}
    (h : ∀ r ∈ requests, r.generation = era + 1) :
    ∀ t ∈ ticketsFrom era serial requests, Dated era t := by
  induction requests generalizing serial with
  | nil => simp [ticketsFrom]
  | cons r rest ih =>
    intro t ht
    rcases List.mem_cons.mp ht with rfl | ht
    · exact ⟨h r List.mem_cons_self, Nat.le_refl era⟩
    · exact ih (fun r hr => h r (List.mem_cons_of_mem _ hr)) t ht

theorem map_serial_ticketsFrom (era serial : Nat) (requests : List ApiRequest) :
    (ticketsFrom era serial requests).map Ticket.serial =
      List.range' serial requests.length := by
  induction requests generalizing serial with
  | nil => rfl
  | cons r rest ih =>
    show serial :: _ = serial :: _
    rw [ih]

theorem serials_issue_perm {σ : System} {session : Session} {calls : List Call} :
    ((σ.issue session calls).serials).Perm
      (List.range' σ.issued (requestsOf calls).length ++ σ.serials) := by
  unfold serials issue
  rw [List.map_append, map_serial_ticketsFrom, List.append_assoc]
  exact List.perm_append_comm_assoc _ _ _

/-- Handing over the requests of a stamped change keeps the invariant. -/
theorem Invariant.issue {σ : System} (h : Invariant σ) {session : Session} {calls : List Call}
    (hk : Session.Keeps σ.session session calls) : Invariant (σ.issue session calls) where
  dispatcher := by
    show session.dispatcher.generation = _
    rw [hk.dispatcher]
    exact h.dispatcher
  session := hk.generation.trans h.session
  outstanding := by
    intro t ht
    rcases List.mem_append.mp ht with ht | ht
    · exact h.outstanding t ht
    · refine dated_ticketsFrom (fun r hr => ?_) t ht
      exact (hk.stamped r (mem_requestsOf.mp hr)).trans h.dispatcher
  posted := h.posted
  inbox := hk.inbox.trans h.inbox
  nodup := by
    refine serials_issue_perm.nodup_iff.mpr (List.nodup_append.mpr ⟨List.nodup_range', h.nodup, ?_⟩)
    intro n hn m hm e
    have := h.numbered m hm
    have := List.mem_range'.mp hn
    omega
  numbered := by
    intro n hn
    show n < σ.issued + _
    rcases List.mem_append.mp (serials_issue_perm.mem_iff.mp hn) with hn | hn
    · have := List.mem_range'.mp hn
      omega
    · have := h.numbered n hn
      omega

/-! ## Taking -/

theorem Invariant.pump {σ : System} (h : Invariant σ) : Invariant σ.pump := by
  have emptied : Invariant { σ with
      session := { σ.session with inbox := [] }
      inbox := []
      consumed := σ.consumed ++ σ.inbox } := by
    -- the answers go over to the consumed ones, so the serials are the same in another order
    have moved : (σ.outstanding.map Ticket.serial ++
        ([] ++ (σ.consumed ++ σ.inbox).map fun m : Posted => m.ticket.serial)).Perm
        σ.serials := by
      rw [List.nil_append, List.map_append]
      exact List.perm_append_comm.append_left _
    refine ⟨h.dispatcher, h.session, h.outstanding, by simp, rfl, ?_, ?_⟩
    · exact moved.nodup_iff.mpr h.nodup
    · intro n hn
      exact h.numbered n (moved.mem_iff.mp hn)
  exact emptied.issue (Session.tracks_keeps.pump σ.session)

theorem Invariant.answer {σ : System} (h : Invariant σ) {early late : List Ticket} {t : Ticket}
    (hopen : σ.outstanding = early ++ t :: late) (result : Except String Value) :
    Invariant (σ.answer t result (early ++ late)) := by
  have moved : ((σ.answer t result (early ++ late)).serials).Perm σ.serials := by
    unfold serials System.answer
    rw [hopen]
    simp only [List.map_append, List.map_cons, List.map_nil, List.append_assoc, List.cons_append,
      List.nil_append]
    refine List.Perm.append_left _ ?_
    rw [← List.append_assoc, ← List.append_assoc]
    exact List.perm_middle
  have kept : ∀ u, u ∈ early ++ late → u ∈ σ.outstanding := by
    intro u hu
    rw [hopen]
    rcases List.mem_append.mp hu with hu | hu
    · exact List.mem_append_left _ hu
    · exact List.mem_append_right _ (List.mem_cons_of_mem _ hu)
  refine ⟨h.dispatcher, h.session, fun u hu => h.outstanding u (kept u hu), ?_, ?_, ?_, ?_⟩
  · intro m hm
    rcases List.mem_append.mp hm with hm | hm
    · exact h.posted m hm
    · cases List.mem_singleton.mp hm
      exact h.outstanding t (hopen ▸ List.mem_append_right _ List.mem_cons_self)
  · show σ.session.inbox ++ [_] = _
    rw [h.inbox]
    simp [System.answer]
  · exact moved.nodup_iff.mpr h.nodup
  · exact fun n hn => h.numbered n (moved.mem_iff.mp hn)

theorem Dated.later {era : Nat} {t : Ticket} (h : Dated era t) : Dated (era + 1) t :=
  ⟨h.stamp, Nat.le_succ_of_le h.past⟩

theorem Invariant.replaceTree {σ : System} (h : Invariant σ) (tree : Node) :
    Invariant (σ.replaceTree tree) where
  dispatcher := congrArg (· + 1) h.session
  session := congrArg (· + 1) h.session
  outstanding t ht := (h.outstanding t ht).later
  posted m hm := (h.posted m hm).later
  inbox := h.inbox
  nodup := h.nodup
  numbered := h.numbered

theorem Invariant.render {σ : System} (h : Invariant σ) : Invariant σ.render :=
  ⟨h.dispatcher, h.session, h.outstanding, h.posted, h.inbox, h.nodup, h.numbered⟩

/-! ## Every run -/

theorem Invariant.step {σ τ : System} (h : Invariant σ) (hs : Step σ τ) : Invariant τ := by
  cases hs with
  | handle e => exact h.issue (Session.tracks_keeps.handle σ.session e)
  | pump => exact h.pump
  | render => exact h.render
  | replaceTree tree => exact h.replaceTree tree
  | answer hopen result => exact h.answer hopen result

theorem invariant_of_reachable {tree : Node} {d : Dispatcher} {σ : System}
    (h : Reachable tree d σ) : Invariant σ := by
  induction h with
  | refl => exact invariant_start tree d
  | tail _ hs ih => exact ih.step hs

/-! ## Writing -/

/-- The traces of what the answers in the inbox ask to be written in this era, one write after
another. -/
def writings (σ : System) : List Trace :=
  σ.session.dispatcher.writeEach σ.session.store (σ.inbox.filterMap (Posted.entry? σ.era))

/-- The answers in the inbox to requests of this era. -/
def own (σ : System) : List Posted := σ.inbox.filter (·.ticket.era = σ.era)

/-- The generation of a session tells the era of a request by its stamp. -/
theorem entry?_reply {era : Nat} {m : Posted} (dated : Dated era m.ticket) :
    m.reply.entry? (era + 1) = m.entry? era := by
  have same : m.reply.generation = era + 1 ↔ m.ticket.era = era := by
    show m.ticket.request.generation = _ ↔ _
    rw [dated.stamp, Nat.add_right_cancel_iff]
  simp only [ApiResult.entry?, Posted.entry?, same]
  rfl

theorem Invariant.writings_eq {σ : System} (h : Invariant σ) :
    σ.session.writings = σ.writings := by
  have asked : (σ.inbox.map Posted.reply).filterMap (ApiResult.entry? σ.session.generation) =
      σ.inbox.filterMap (Posted.entry? σ.era) := by
    rw [List.filterMap_map, h.session]
    apply List.filterMap_congr
    intro m hm
    exact entry?_reply (h.posted m hm)
  rw [Session.writings, h.inbox, asked, writings]

theorem writings_of_late {σ : System} (late : ∀ m ∈ σ.inbox, m.ticket.era ≠ σ.era) :
    σ.writings = [] := by
  have nothing : σ.inbox.filterMap (Posted.entry? σ.era) = [] := by
    rw [List.filterMap_eq_nil_iff]
    intro m hm
    unfold Posted.entry?
    split
    · exact if_neg (late m hm)
    · rfl
  rw [writings, nothing, Dispatcher.writeEach_nil]

theorem Invariant.pump_eq {σ : System} (h : Invariant σ) :
    σ.session.pump =
      { session := { σ.session with
          inbox := []
          store := lastStore σ.session.store σ.writings
          revision := σ.session.revision + σ.writings.countP Trace.hasEffect }
        report := ⟨σ.inbox.length, σ.writings.length⟩
        calls := σ.writings.flatMap Trace.calls } := by
  rw [Session.pump_eq_advance, h.writings_eq, h.inbox, List.length_map]
  simp only [Session.Pump.advance, Nat.zero_add, List.nil_append]

end System

/-! ## Doing without late replies -/

namespace Session

/-- The replies in the inbox, but for those to requests of past generations. -/
def timely (s : Session) : List ApiResult := s.inbox.filter (s.generation ≤ ·.generation)

/-- The sessions differ in late replies at most. -/
structure AlikeButLate (s t : Session) : Prop where
  rest : t = { s with inbox := t.inbox }
  timely : t.timely = s.timely

variable {s t : Session}

theorem AlikeButLate.refl (s : Session) : AlikeButLate s s := ⟨rfl, rfl⟩

/-- Only timely replies are written. -/
theorem writings_eq_timely (s : Session) :
    s.writings = s.dispatcher.writeEach s.store
      (s.timely.filterMap (ApiResult.entry? s.generation)) := by
  have late : ∀ r : ApiResult, ¬ s.generation ≤ r.generation → r.entry? s.generation = none := by
    intro r late
    unfold ApiResult.entry?
    split
    · exact if_neg fun same => late (Nat.le_of_eq same.symm)
    · rfl
  rw [writings, timely, List.filterMap_filter]
  refine congrArg _ (List.filterMap_congr fun r _ => ?_)
  by_cases current : s.generation ≤ r.generation
  · rw [if_pos (decide_eq_true current)]
  · rw [late r current, if_neg (by simpa using current)]

theorem handle_inbox (s : Session) (inbox : List ApiResult) (e : UiEvent) :
    ({ s with inbox := inbox } : Session).handle e =
      ({ (s.handle e).1 with inbox := inbox }, (s.handle e).2) := by
  simp only [handle]
  cases s.tree.find? e.target with
  | none => rfl
  | some n => cases e <;> rfl

theorem AlikeButLate.handle (h : AlikeButLate s t) (e : UiEvent) :
    AlikeButLate (s.handle e).1 (t.handle e).1 := by
  obtain ⟨inbox, rfl⟩ : ∃ inbox, t = { s with inbox := inbox } := ⟨_, h.rest⟩
  have kept := tracks_keeps.handle s e
  rw [handle_inbox s inbox e]
  refine ⟨rfl, ?_⟩
  show inbox.filter ((s.handle e).1.generation ≤ ·.generation) =
    (s.handle e).1.inbox.filter ((s.handle e).1.generation ≤ ·.generation)
  rw [kept.generation, kept.inbox]
  exact h.timely

theorem AlikeButLate.receive (h : AlikeButLate s t) (r : ApiResult) :
    AlikeButLate (s.receive r) (t.receive r) := by
  obtain ⟨inbox, rfl⟩ : ∃ inbox, t = { s with inbox := inbox } := ⟨_, h.rest⟩
  refine ⟨rfl, ?_⟩
  show (inbox ++ [r]).filter (s.generation ≤ ·.generation) =
    (s.inbox ++ [r]).filter (s.generation ≤ ·.generation)
  rw [List.filter_append, List.filter_append]
  exact congrArg (· ++ _) h.timely

theorem AlikeButLate.pump (h : AlikeButLate s t) :
    AlikeButLate s.pump.session t.pump.session := by
  obtain ⟨inbox, rfl⟩ : ∃ inbox, t = { s with inbox := inbox } := ⟨_, h.rest⟩
  have writings : ({ s with inbox := inbox } : Session).writings = s.writings := by
    rw [writings_eq_timely, h.timely, writings_eq_timely]
  rw [pump_eq_advance, pump_eq_advance, writings]
  exact .refl _

/-- A reply that is late stays so under the next tree. -/
theorem AlikeButLate.replaceTree (h : AlikeButLate s t) (tree : Node) :
    AlikeButLate (s.replaceTree tree) (t.replaceTree tree) := by
  obtain ⟨inbox, rfl⟩ : ∃ inbox, t = { s with inbox := inbox } := ⟨_, h.rest⟩
  have narrowed (rs : List ApiResult) : rs.filter (s.generation + 1 ≤ ·.generation) =
      (rs.filter (s.generation ≤ ·.generation)).filter (s.generation + 1 ≤ ·.generation) := by
    rw [List.filter_filter]
    refine List.filter_congr fun r _ => ?_
    rw [eq_comm, Bool.and_eq_left_iff_imp, decide_eq_true_eq, decide_eq_true_eq]
    exact Nat.le_of_succ_le
  refine ⟨rfl, ?_⟩
  show inbox.filter (s.generation + 1 ≤ ·.generation) =
    s.inbox.filter (s.generation + 1 ≤ ·.generation)
  rw [narrowed inbox, narrowed s.inbox]
  exact congrArg _ h.timely

namespace View

variable {v w : View}

/-- What is displayed does not depend on the inbox. -/
theorem alikeButLate_step (h : AlikeButLate v.session w.session) (shown : w.shown = v.shown)
    (u : Use) :
    AlikeButLate (v.step u).session (w.step u).session ∧ (w.step u).shown = (v.step u).shown := by
  cases u with
  | handle e => exact ⟨h.handle e, shown⟩
  | receive r => exact ⟨h.receive r, shown⟩
  | pump => exact ⟨h.pump, shown⟩
  | replaceTree tree => exact ⟨h.replaceTree tree, shown⟩
  | render =>
    obtain ⟨session, shown'⟩ := w
    obtain ⟨inbox, rfl⟩ : ∃ inbox, session = { v.session with inbox := inbox } := ⟨_, h.rest⟩
    exact ⟨⟨rfl, h.timely⟩, rfl⟩

theorem alikeButLate_after (h : AlikeButLate v.session w.session) (shown : w.shown = v.shown)
    (uses : List Use) :
    AlikeButLate (v.after uses).session (w.after uses).session ∧
      (w.after uses).shown = (v.after uses).shown := by
  induction uses generalizing v w with
  | nil => exact ⟨h, shown⟩
  | cons u rest ih =>
    obtain ⟨alike, same⟩ := alikeButLate_step h shown u
    exact ih alike same

end View

end Session

namespace System

/-! ## Every state -/

theorem Invariant.alikeButLate_own {σ : System} (h : Invariant σ) :
    Session.AlikeButLate σ.session { σ.session with inbox := σ.own.map Posted.reply } := by
  have timely : ∀ m ∈ σ.inbox,
      decide (σ.era + 1 ≤ m.reply.generation) = decide (m.ticket.era = σ.era) := by
    intro m hm
    have dated := h.posted m hm
    have stamp : m.reply.generation = m.ticket.era + 1 := dated.stamp
    have past := dated.past
    rw [stamp, decide_eq_decide]
    omega
  refine ⟨rfl, ?_⟩
  show (σ.own.map Posted.reply).filter (σ.session.generation ≤ ·.generation) =
    σ.session.inbox.filter (σ.session.generation ≤ ·.generation)
  rw [h.inbox, h.session, List.filter_map, List.filter_map, own, List.filter_filter]
  refine congrArg _ (List.filter_congr fun m hm => ?_)
  show (decide (σ.era + 1 ≤ m.reply.generation) && decide (m.ticket.era = σ.era)) =
    decide (σ.era + 1 ≤ m.reply.generation)
  rw [timely m hm, Bool.and_self]

/-- **Replies reach the tree that asked for them.** In every state that a session and its requests
can come to, over any order of events, pumps, displays, replacements and answers:

- a pump consumes the inbox and writes in order what the answers to requests of this era ask for,
  with no replacement between the request and the pump, and nothing else; it changes the store by
  these writes alone, makes a new revision for each that had an effect, and leaves the tree and the
  generation;
- a pump of answers to requests of past eras leaves the whole session but the inbox;
- if such answers are taken out of the inbox, then whatever is done with the session from here on,
  it comes to the same tree, store, generation and revision and has displayed the same;
- the inbox holds the answers posted, and each request is outstanding, answered in the inbox or
  consumed, and only once. -/
theorem written_only_in_own_era {tree : Node} {d : Dispatcher} {σ : System}
    (h : Reachable tree d σ) :
    σ.session.pump =
      { session := { σ.session with
          inbox := []
          store := lastStore σ.session.store σ.writings
          revision := σ.session.revision + σ.writings.countP Trace.hasEffect }
        report := ⟨σ.inbox.length, σ.writings.length⟩
        calls := σ.writings.flatMap Trace.calls } ∧
    ((∀ m ∈ σ.inbox, m.ticket.era ≠ σ.era) →
      σ.session.pump.session = { σ.session with inbox := [] }) ∧
    (∀ uses : List Session.Use,
      let v := Session.View.after ⟨σ.session, none⟩ uses
      let w := Session.View.after
        ⟨{ σ.session with inbox := σ.own.map Posted.reply }, none⟩ uses
      w.session.tree = v.session.tree ∧ w.session.store = v.session.store ∧
        w.session.generation = v.session.generation ∧
        w.session.revision = v.session.revision ∧ w.shown = v.shown) ∧
    σ.session.inbox = σ.inbox.map Posted.reply ∧ σ.serials.Nodup := by
  have inv := invariant_of_reachable h
  refine ⟨inv.pump_eq, ?_, ?_, inv.inbox, inv.nodup⟩
  · intro late
    rw [inv.pump_eq, writings_of_late late]
    rfl
  · intro uses v w
    obtain ⟨alike, shown⟩ := Session.View.alikeButLate_after
      (v := ⟨σ.session, none⟩) (w := ⟨_, none⟩) inv.alikeButLate_own rfl uses
    have rest : w.session = { v.session with inbox := w.session.inbox } := alike.rest
    rw [rest]
    exact ⟨rfl, rfl, rfl, rfl, shown⟩

/-- A button that asks for a value to be put under a key. -/
def fetchTree : Node :=
  ((Node.bare "root" .vStack).withState
    ((∅ : StateBlock).bind (.plain "price" .number))).withChild
      ((Node.bare "get" .button).withAction
        (((ActionSpec.ofKind "onClick" .apiCall).withValue "url" (.string "/price")).withValue
          "resultKey" (.string "price")))

/-- Somebody performs requests, and nothing else is performed. -/
def fetcher : Dispatcher := ⟨⟨true, false, none, none⟩, 8, 0⟩

/-- The price is asked for, the tree is replaced by one like it, and the price is asked for once
more. -/
def askedTwice : System :=
  (((start fetchTree fetcher).handle (.tap "get")).replaceTree fetchTree).handle (.tap "get")

/-- The request for the price that is raised in an era, with its serial. -/
def priceTicket (serial era : Nat) : Ticket :=
  ⟨serial, era, ⟨"/price", .get, none, some "price", era + 1⟩⟩

/-- The second request is answered before the first. -/
def answeredTwice : System :=
  (askedTwice.answer (priceTicket 1 1) (.ok (.int 7)) [priceTicket 0 0]).answer (priceTicket 0 0)
    (.ok (.int 5)) []

theorem reachable_answeredTwice : Reachable fetchTree fetcher answeredTwice := by
  have asked : Reachable fetchTree fetcher askedTwice :=
    ((ReflTransGen.single (Step.handle _ _)).tail (.replaceTree _ fetchTree)).tail (.handle _ _)
  have second : askedTwice.outstanding = [priceTicket 0 0] ++ priceTicket 1 1 :: [] := rfl
  have answered := asked.tail (.answer second (.ok (.int 7)))
  have first : (askedTwice.answer (priceTicket 1 1) (.ok (.int 7)) [priceTicket 0 0]).outstanding =
      [] ++ priceTicket 0 0 :: [] := rfl
  exact answered.tail (.answer first (.ok (.int 5)))

/-- Of both answers only the one to the second request is written, though it came first, and the
other might as well not be there.  After one more replacement neither is written. -/
theorem late_price_ignored :
    Reachable fetchTree fetcher answeredTwice ∧
      answeredTwice.inbox.map (·.ticket.era) = [1, 0] ∧ answeredTwice.era = 1 ∧
      answeredTwice.session.pump.report = ⟨2, 1⟩ ∧
      (answeredTwice.session.pump.session.store.bind (·.get? "price")).any
        (Value.strictEq (.int 7)) = true ∧
      ({ answeredTwice.session with
          inbox := answeredTwice.own.map Posted.reply } : Session).pump.session.store =
        answeredTwice.session.pump.session.store ∧
      (answeredTwice.replaceTree fetchTree).session.pump.session =
        { (answeredTwice.replaceTree fetchTree).session with inbox := [] } := by
  have reachable := reachable_answeredTwice
  obtain ⟨pumped, -, purged, -, -⟩ := written_only_in_own_era reachable
  have replaced := reachable.tail (.replaceTree answeredTwice fetchTree)
  obtain ⟨-, ignored, -, -, -⟩ := written_only_in_own_era replaced
  refine ⟨reachable, rfl, rfl, ?_, ?_, (purged [.pump]).2.1, ignored ?_⟩
  · rw [pumped]
    rfl
  · rw [pumped]
    decide +kernel
  · intro m hm
    have past : m.ticket.era ∈ answeredTwice.inbox.map (fun m => m.ticket.era) :=
      List.mem_map_of_mem hm
    intro same
    rw [same] at past
    exact absurd past (by decide)

end System

end ServerUi
