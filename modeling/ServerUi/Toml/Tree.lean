import ServerUi.Json.Document

/-! # Tables of TOML

The tables of a TOML text grow statement by statement.  A table may be opened by one header only.
What a header implies on its way down may be opened later, and what the dots of a key make may get
more keys by dots; a value that was written out can never be extended.
-/

namespace ServerUi.Toml

open ServerUi.Json (Document)

/-- How a table came about. -/
inductive Origin where
  /-- It was opened by a header. -/
  | header
  /-- It lies on the way of a header. -/
  | implied
  /-- It lies on the way of a key with dots. -/
  | dotted
deriving DecidableEq

/-- What stands under a key. -/
inductive Tree where
  | leaf (d : Document)
  | table (origin : Origin) (entries : List (String × Tree))
  /-- The elements of an array of tables; the last one is open. -/
  | tables (front : List (List (String × Tree))) (last : List (String × Tree))

namespace Tree

/-- Entries in the order of writing. -/
abbrev Branch := List (String × Tree)

def child? (es : Branch) (k : String) : Option Tree := (es.find? (·.1 == k)).map (·.2)

def setChild (es : Branch) (k : String) (t : Tree) : Branch :=
  es.map fun e => if e.1 == k then (k, t) else e

def put : List String → Document → Branch → Option Branch
  | [], _, _ => none
  | [k], d, es => if (child? es k).isSome then none else some (es ++ [(k, .leaf d)])
  | k :: rest, d, es =>
    match child? es k with
    | none => (put rest d []).map fun sub => es ++ [(k, .table .dotted sub)]
    | some (.table .header _) => none
    | some (.table origin sub) => (put rest d sub).map fun sub => setChild es k (.table origin sub)
    | _ => none

/-- Changes the branch at the end of the way of a header. -/
def descend (f : Branch → Option Branch) : List String → Branch → Option Branch
  | [], es => f es
  | k :: rest, es =>
    match child? es k with
    | none => (descend f rest []).map fun sub => es ++ [(k, .table .implied sub)]
    | some (.table origin sub) =>
      (descend f rest sub).map fun sub => setChild es k (.table origin sub)
    | some (.tables front last) =>
      (descend f rest last).map fun last => setChild es k (.tables front last)
    | some (.leaf _) => none

def openTable (k : String) (es : Branch) : Option Branch :=
  match child? es k with
  | none => some (es ++ [(k, .table .header [])])
  | some (.table .implied sub) => some (setChild es k (.table .header sub))
  | _ => none

def openElement (k : String) (es : Branch) : Option Branch :=
  match child? es k with
  | none => some (es ++ [(k, .tables [] [])])
  | some (.tables front last) => some (setChild es k (.tables (front ++ [last]) []))
  | _ => none

mutual
def toDocument : Tree → Document
  | .leaf d => d
  | .table _ es => .object (toEntries es)
  | .tables front last => .array (toObjects front ++ [.object (toEntries last)])
def toEntries : List (String × Tree) → List (String × Document)
  | [] => []
  | (k, t) :: rest => (k, toDocument t) :: toEntries rest
def toObjects : List (List (String × Tree)) → List Document
  | [] => []
  | es :: rest => .object (toEntries es) :: toObjects rest
end

end Tree

end ServerUi.Toml
