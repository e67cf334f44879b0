import ServerUi.Proofs.Dispatch.Copying
import ServerUi.Proofs.State.Coherence

/-! # How far a chain is followed

In a chain each key is watched by an action that sets the next one to the same value.  A value that
is written to the first key passes from key to key, one level deeper at each hop, until the chain or
the depth is at its end.  What one write in a chain does is said once (`Filled.write`); the cascade
from there is an induction on the depth that is left (`followed_of_filled`), and `cut_at_hop` reads
it at the start of the chain.
-/

namespace ServerUi

/-- The plain numbers `a 0`, …, `a n` start at zero, and a change of each but the last is passed on
to the next by the only watcher of the key.  There may be other keys, and they may be watched. -/
structure StateBlock.Chain (s : StateBlock) (a : Nat → String) (n : Nat) : Prop where
  distinct : ∀ i ≤ n, ∀ j ≤ n, a i = a j → i = j
  number : ∀ i ≤ n, ∃ b, s.bindings.find? (a i) = some b ∧ b.kind = .number ∧ b.source? = none ∧
    b.initial = .int 0
  watched : ∀ i < n, ∃ w, s.watchers.filter (·.key == a i) = [w] ∧
    w.action.Updates (a (i + 1)) (.string (stateMark ++ a i))
  last : s.watchers.filter (·.key == a n) = []
  /-- No name is a reference to an event. -/
  named : ∀ i ≤ n, a i ∉ ["@watch:key", "@watch:oldValue", "@watch:newValue"]

/-- The first so many keys of a chain hold a number, and the others still hold zero. -/
structure Store.Filled (block : StateBlock) (a : Nat → String) (n : Nat) (v : Int64) (count : Nat)
    (s : Store) : Prop where
  schema : s.schema = Schema.ofBlock block
  holds : ∀ i ≤ n, s.get? (a i) = some (.int (if i < count then v else 0))

namespace Store

variable {block : StateBlock} {a : Nat → String} {n count : Nat} {v : Int64} {s : Store}

theorem filled_ofBlock (chain : block.Chain a n) (v : Int64) :
    (ofBlock block).Filled block a n v 0 where
  schema := rfl
  holds := by
    intro i hi
    obtain ⟨b, hb, -, plain, initial⟩ := chain.number i hi
    rw [get?_ofBlock_of_unplanned hb (Schema.unplanned_of_plain hb plain), initial]
    rfl

/-- A write to the next key of the chain fills it and no other, and is a change. -/
theorem Filled.write (chain : block.Chain a n) (nonzero : v ≠ 0) (next : count ≤ n)
    (h : s.Filled block a n v count) :
    (s.write (a count) (.int v)).1.Filled block a n v (count + 1) ∧
      (s.write (a count) (.int v)).2.changed = true := by
  obtain ⟨b, hb, kind, plain, -⟩ := chain.number count next
  obtain ⟨reported, stored⟩ := write_plain h.schema hb plain (.int v)
  have coerced : b.kind.coerce (.int v) = .int v := by rw [kind]; rfl
  rw [coerced] at reported stored
  have old : s.values.find? (a count) = some (.int 0) := by
    have held := h.holds count next
    rwa [if_neg (Nat.lt_irrefl count)] at held
  refine ⟨⟨(schema_write ..).trans h.schema, fun i hi => ?_⟩, ?_⟩
  · by_cases same : i = count
    · rw [same, stored, if_pos (Nat.lt_succ_self count)]
    · have other : a i ≠ a count := fun e => same (chain.distinct i hi count next e)
      obtain ⟨c, hc, -, plain', -⟩ := chain.number i hi
      rw [get?_write_of_ne h.schema other (Schema.unplanned_of_plain hc plain'), h.holds i hi]
      have below : i < count ↔ i < count + 1 := by omega
      simp only [below]
  · have differ : Value.looseEq (.int 0) (.int v) = false := beq_eq_false_iff_ne.mpr nonzero.symm
    rw [reported, old, Option.getD_some, WriteOutcome.changed, differ]
    rfl

end Store

namespace Dispatcher

variable {d : Dispatcher} {block : StateBlock} {a : Nat → String} {n count : Nat} {v : Int64}
  {s : Store}

open Store (Filled)

section

variable (chain : block.Chain a n) (nonzero : v ≠ 0) (h : s.Filled block a n v count)

include chain nonzero h

/-- At the end of the chain a write is all there is. -/
theorem store_at_end (fire : WatchEvent → Trace → Trace) (ended : count = n) (t : Trace) :
    Dispatcher.store fire s (a count) (.int v) t =
      { t with store := some (s.write (a count) (.int v)).1 }.effect
        (.stateUpdate (a count) true) := by
  obtain ⟨-, changed⟩ := h.write chain nonzero (Nat.le_of_eq ended)
  obtain ⟨b, hb, -, plain, -⟩ := chain.number count (Nat.le_of_eq ended)
  rw [store_of_unwatched fire h.schema hb plain (ended ▸ chain.last), changed]

/-- Before the end of the chain the next key is asked for. -/
theorem store_before_end (fire : WatchEvent → Trace → Trace) (inner : count < n) (t : Trace) :
    ∃ e : WatchEvent, e.key = a count ∧
      e.action.Updates (a (count + 1)) (.string (stateMark ++ a count)) ∧
      Dispatcher.store fire s (a count) (.int v) t =
        fire e ({ t with store := some (s.write (a count) (.int v)).1 }.effect
          (.stateUpdate (a count) true)) := by
  obtain ⟨-, changed⟩ := h.write chain nonzero (Nat.le_of_lt inner)
  obtain ⟨b, hb, -, plain, -⟩ := chain.number count (Nat.le_of_lt inner)
  obtain ⟨w, watched, passed⟩ := chain.watched count inner
  exact ⟨_, rfl, passed, store_of_watched fire h.schema hb plain watched changed t⟩

end

/-- What is asked for is the value that was just written. -/
theorem perform_next (chain : block.Chain a n) (fire : WatchEvent → Trace → Trace)
    (inner : count < n) (h : s.Filled block a n v (count + 1)) {e : WatchEvent}
    (passed : e.action.Updates (a (count + 1)) (.string (stateMark ++ a count))) {t : Trace}
    (held : t.store = some s) :
    d.perform fire e.boundAction t = Dispatcher.store fire s (a (count + 1)) (.int v) t := by
  have bound := passed.boundAction (WatchEvent.lookup?_eq_none (chain.named _ inner))
  rw [WatchEvent.bind_stateMark] at bound
  have value := h.holds count (Nat.le_of_lt inner)
  rw [if_pos (Nat.lt_succ_self count)] at value
  have resolved : Value.resolveDeep (some s) (.string (stateMark ++ a count)) = .int v := by
    show Value.resolve (some s) _ = _
    rw [Value.resolve, Value.stateKey?_mark]
    show (s.get? (a count)).getD _ = _
    rw [value, Option.getD_some]
  rw [perform_of_updates fire bound held, resolved]

/-- What a cascade in the chain leaves, if it begins at a key and so many hops follow. -/
structure Followed (d : Dispatcher) (block : StateBlock) (a : Nat → String) (n : Nat) (v : Int64)
    (count left : Nat) (before after : Trace) : Prop where
  filled : ∃ s, after.store = some s ∧ s.Filled block a n v (min n (count + left) + 1)
  effects : after.outcome.effects = before.outcome.effects ++
    (List.range' count (min n (count + left) + 1 - count)).map fun i => .stateUpdate (a i) true
  dropped : after.outcome.dropped = before.outcome.dropped ++
    if n ≤ count + left then [] else [.cascadeTooDeep d.maxDepth (a (count + left))]
  calls : after.calls = before.calls

/-- One hop more: what comes from the next key comes from this one, behind its own update. -/
theorem Followed.hop {left : Nat} {before after : Trace} {kept : Option Store} (inner : count < n)
    (h : Followed d block a n v (count + 1) left
      ({ before with store := kept }.effect (.stateUpdate (a count) true)) after) :
    Followed d block a n v count (left + 1) before after := by
  have depth : count + 1 + left = count + (left + 1) := by omega
  obtain ⟨filled, effects, dropped, calls⟩ := h
  rw [depth] at filled effects dropped
  refine ⟨filled, ?_, dropped, calls⟩
  have hops : min n (count + (left + 1)) + 1 - count =
      min n (count + (left + 1)) + 1 - (count + 1) + 1 := by omega
  rw [effects, hops, List.range'_succ, List.map_cons]
  simp only [Trace.effect, List.append_assoc, List.singleton_append]

theorem followed_at_end (chain : block.Chain a n) (nonzero : v ≠ 0)
    (h : s.Filled block a n v count) (left : Nat) (ended : count = n) (t : Trace) :
    Followed d block a n v count left t
      (Dispatcher.store (d.fire left) s (a count) (.int v) t) := by
  obtain ⟨filled, -⟩ := h.write chain nonzero (Nat.le_of_eq ended)
  have last : min n (count + left) = count := by omega
  rw [store_at_end chain nonzero h _ ended t]
  refine ⟨⟨_, rfl, by rwa [last]⟩, ?_, ?_, rfl⟩
  · rw [last, Nat.add_sub_cancel_left]
    rfl
  · rw [if_pos (by omega), List.append_nil]
    rfl

/-- By induction on the depth that is left: a write in the chain fills one key after the other, and
the event that no depth is left for is dropped. -/
theorem followed_of_filled (chain : block.Chain a n) (nonzero : v ≠ 0) (left : Nat)
    (next : count ≤ n) (h : s.Filled block a n v count) (t : Trace) :
    Followed d block a n v count left t
      (Dispatcher.store (d.fire left) s (a count) (.int v) t) := by
  induction left generalizing count s t with
  | zero =>
    rcases Nat.lt_or_eq_of_le next with inner | ended
    · obtain ⟨filled, -⟩ := h.write chain nonzero next
      obtain ⟨e, key, -, written⟩ := store_before_end chain nonzero h (d.fire 0) inner t
      have last : min n (count + 0) = count := by omega
      rw [written, fire, key]
      refine ⟨⟨_, rfl, by rwa [last]⟩, ?_, ?_, rfl⟩
      · rw [last, Nat.add_sub_cancel_left]
        rfl
      · rw [if_neg (by omega)]
        rfl
    · exact followed_at_end chain nonzero h 0 ended t
  | succ left ih =>
    rcases Nat.lt_or_eq_of_le next with inner | ended
    · obtain ⟨filled, -⟩ := h.write chain nonzero next
      obtain ⟨e, -, passed, written⟩ := store_before_end chain nonzero h (d.fire (left + 1)) inner t
      rw [written, fire, perform_next chain (d.fire left) inner filled passed rfl]
      exact (ih inner filled _).hop inner
    · exact followed_at_end chain nonzero h (left + 1) ended t

/-- **The limit cuts at its hop.**  Take a chain of plain numbers from `a 0` to `a n`, of any length,
and any greatest depth `D`.  An action that updates `a 0` to a number other than zero leaves that
number in the keys up to `a D` and zero in those behind.  The updates of these keys are the effects,
in the order of the chain, each a change.  Nothing is dropped if the chain ends there; else the one
event of `a D` is. -/
theorem cut_at_hop (d : Dispatcher) (chain : block.Chain a n) (nonzero : v ≠ 0) {spec : ActionSpec}
    (first : spec.Updates (a 0) (.int v)) :
    let t := d.dispatch spec (some (Store.ofBlock block))
    (∃ after, t.store = some after ∧
      ∀ i ≤ n, after.get? (a i) = some (.int (if i ≤ d.maxDepth then v else 0))) ∧
    t.outcome.effects = (List.range (min n d.maxDepth + 1)).map (fun i => .stateUpdate (a i) true) ∧
    t.outcome.dropped =
      (if n ≤ d.maxDepth then [] else [.cascadeTooDeep d.maxDepth (a d.maxDepth)]) ∧
    t.calls = [] := by
  intro t
  have written : t = d.write (Store.ofBlock block) (a 0) (.int v) := dispatch_of_updates first
  have followed : Followed d block a n v 0 d.maxDepth (.start (some (Store.ofBlock block))) t := by
    rw [written]
    exact followed_of_filled chain nonzero d.maxDepth (Nat.zero_le n)
      (Store.filled_ofBlock chain v) _
  obtain ⟨⟨after, held, filled⟩, effects, dropped, calls⟩ := followed
  rw [Nat.zero_add] at filled effects dropped
  refine ⟨⟨after, held, fun i hi => ?_⟩, ?_, dropped, calls⟩
  · have reached : i < min n d.maxDepth + 1 ↔ i ≤ d.maxDepth := by omega
    rw [filled.holds i hi]
    simp only [reached]
  · rw [effects, Nat.sub_zero, ← List.range_eq_range']
    rfl

/-- Four numbers, each set to the one before it, and a sum that nobody sets. -/
def relayBlock : StateBlock :=
  ((((((((∅ : StateBlock).bind (.plain "north" .number)).bind (.plain "east" .number)).bind
    (.plain "south" .number)).bind ((Binding.plain "west" .number).withDefault (.string " 0 "))).bind
      (.computedBy "sum" .number "north + west")).watch "south"
        (.stateUpdate "west" (.string (stateMark ++ "south")))).watch "north"
          (.stateUpdate "east" (.string (stateMark ++ "north")))).watch "east"
            (.stateUpdate "south" (.string (stateMark ++ "east")))

def relay (i : Nat) : String := ["north", "east", "south", "west"].getD i ""

theorem relayBlock_chain : relayBlock.Chain relay 3 where
  distinct := by decide
  number
    | 0, _ => ⟨.plain "north" .number, rfl, rfl, rfl, rfl⟩
    | 1, _ => ⟨.plain "east" .number, rfl, rfl, rfl, rfl⟩
    | 2, _ => ⟨.plain "south" .number, rfl, rfl, rfl, rfl⟩
    | 3, _ => ⟨(Binding.plain "west" .number).withDefault (.string " 0 "), rfl, rfl, rfl, rfl⟩
    | _ + 4, h => absurd h (by omega)
  watched
    | 0, _ => ⟨⟨"north", .stateUpdate "east" (.string (stateMark ++ "north"))⟩, rfl,
        ActionSpec.updates_stateUpdate "east" _⟩
    | 1, _ => ⟨⟨"east", .stateUpdate "south" (.string (stateMark ++ "east"))⟩, rfl,
        ActionSpec.updates_stateUpdate "south" _⟩
    | 2, _ => ⟨⟨"south", .stateUpdate "west" (.string (stateMark ++ "south"))⟩, rfl,
        ActionSpec.updates_stateUpdate "west" _⟩
    | _ + 3, h => absurd h (by omega)
  last := rfl
  named := by decide

/-- With two levels the least integer comes to the third of four keys, and the event of that key is
cut. -/
theorem relay_cut_at_south :
    let d : Dispatcher := ⟨.none, 2, 0⟩
    let v : Int64 := -9223372036854775808
    let t := d.dispatch (.stateUpdate "north" (.int v)) (some (Store.ofBlock relayBlock))
    relayBlock.Chain relay 3 ∧ v ≠ 0 ∧
      (∃ after, t.store = some after ∧ after.get? "south" = some (.int v) ∧
        after.get? "west" = some (.int 0)) ∧
      t.outcome.effects =
        [.stateUpdate "north" true, .stateUpdate "east" true, .stateUpdate "south" true] ∧
      t.outcome.dropped = [.cascadeTooDeep 2 "south"] := by
  intro d v t
  have nonzero : v ≠ 0 := by decide
  obtain ⟨⟨after, held, values⟩, effects, dropped, -⟩ :=
    cut_at_hop d relayBlock_chain nonzero (ActionSpec.updates_stateUpdate "north" (.int v))
  refine ⟨relayBlock_chain, nonzero, ⟨after, held, ?_, ?_⟩, ?_, ?_⟩
  · exact (values 2 (by decide)).trans (by rw [if_pos (by decide)])
  · exact (values 3 (by decide)).trans (by rw [if_neg (by decide)])
  · have reached : List.range (min 3 d.maxDepth + 1) = [0, 1, 2] := by decide
    rw [effects, reached]
    rfl
  · rw [dropped]
    rfl

end Dispatcher

end ServerUi
