import ServerUi.State.Store

/-! # References

A text that starts with `@state:` stands for the value of a key of the state, and a text that
starts with `@watch:` in the action of a watcher stands for a part of its event.  References are
replaced in one pass: what is put in their place is taken as it is.
-/

namespace ServerUi

/-- The rest of a text behind a start. -/
def behind? : List Char → List Char → Option (List Char)
  | [], cs => some cs
  | _ :: _, [] => none
  | p :: ps, c :: cs => if p = c then behind? ps cs else none

/-- The start of a reference to the state. -/
def stateMark : String := "@state:"

/-- The start of a reference to an event. -/
def watchMark : String := "@watch:"

namespace Value

/-- The key that a value refers to, if it is a reference to the state. -/
def stateKey? : Value → Option String
  | .string s => (behind? stateMark.toList s.toList).map String.ofList
  | _ => none

/-- The value that a reference stands for; every other value, and a reference to a key that is not
bound, stands for itself. -/
def resolve (store : Option Store) (v : Value) : Value :=
  match v.stateKey? with
  | none => v
  | some key => (store.bind (·.get? key)).getD v

mutual
def resolveDeep (store : Option Store) : Value → Value
  | .array items => .array (resolveItems store items)
  | .object entries => .object (resolveEntries store entries)
  | v => v.resolve store
def resolveItems (store : Option Store) : List Value → List Value
  | [] => []
  | v :: rest => resolveDeep store v :: resolveItems store rest
def resolveEntries (store : Option Store) : List (String × Value) → List (String × Value)
  | [] => []
  | (k, v) :: rest => (k, resolveDeep store v) :: resolveEntries store rest
end

end Value

namespace WatchEvent

/-- The part of an event that a text refers to. -/
def lookup? (e : WatchEvent) (s : String) : Option Value :=
  match (behind? watchMark.toList s.toList).map String.ofList with
  | some "key" => some (.string e.key)
  | some "oldValue" => some e.old
  | some "newValue" => some e.new
  | _ => none

mutual
/-- Replaces the references to an event at every depth. -/
def bind (e : WatchEvent) : Value → Value
  | .string s => (e.lookup? s).getD (.string s)
  | .array items => .array (bindItems e items)
  | .object entries => .object (bindEntries e entries)
  | v => v
def bindItems (e : WatchEvent) : List Value → List Value
  | [] => []
  | v :: rest => bind e v :: bindItems e rest
def bindEntries (e : WatchEvent) : List (String × Value) → List (String × Value)
  | [] => []
  | (k, v) :: rest => (k, bind e v) :: bindEntries e rest
end

/-- The action of the watcher with the parts of the event put into its payload. -/
def boundAction (e : WatchEvent) : ActionSpec :=
  { e.action with payload := e.action.payload.map e.bind }

end WatchEvent

end ServerUi
