import ServerUi.Proofs.Json.Scanning
import ServerUi.Proofs.Text.Utf8

/-! # Reading written documents

The compact text of a document is read back, up to the limit on open containers.  The proof goes
through the tokens of the document: the automaton finds them in the text (`yields_chars`), and the
machine builds from them the document in which every container too deep is `malformed`
(`run_tokens`).  Both are inductions over the document, and the order of the lemmas in them is the
order of the functions that write.

The texts of reals are not looked into: `Legible` asks of each real that its text alone is read
back.
-/

namespace ServerUi.Json

open ServerUi.Text (Symbol)
open ServerUi.Decimal (signedDigits)

namespace Document

/-! ## Tokens of a document -/

mutual
/-- The tokens that the compact text of a document consists of. -/
def tokens : Document → List Token
  | .array items => .openArray :: (itemTokens items ++ [.closeArray])
  | .object entries => .openObject :: (entryTokens entries ++ [.closeObject])
  | .string s => [.text (some s)]
  | d => [.atom d]
def itemTokens : List Document → List Token
  | [] => []
  | d :: rest => tokens d ++ moreItemTokens rest
def moreItemTokens : List Document → List Token
  | [] => []
  | d :: rest => .comma :: (tokens d ++ moreItemTokens rest)
def entryTokens : List (String × Document) → List Token
  | [] => []
  | (k, d) :: rest => .text (some k) :: .colon :: (tokens d ++ moreEntryTokens rest)
def moreEntryTokens : List (String × Document) → List Token
  | [] => []
  | (k, d) :: rest => .comma :: .text (some k) :: .colon :: (tokens d ++ moreEntryTokens rest)
end

/-! ## Documents whose leaves read back -/

mutual
/-- Does every number have a text that is read back as that number?  A whole number does if it
fits a word. -/
def Legible : Document → Prop
  | .integer n => fitsSigned n = true ∨ fitsUnsigned n = true
  | .real x => read (String.ofList (realChars x)) = some (.real x)
  | .array items => LegibleItems items
  | .object entries => LegibleEntries entries
  | .malformed => False
  | _ => True
/-- Are all items legible? -/
def LegibleItems : List Document → Prop
  | [] => True
  | d :: rest => Legible d ∧ LegibleItems rest
/-- Are all documents under the keys legible? -/
def LegibleEntries : List (String × Document) → Prop
  | [] => True
  | (_, d) :: rest => Legible d ∧ LegibleEntries rest
end

end Document

/-! ## A real is read from one token only -/

namespace Machine

/-- Is a container open?  Then there is no document yet. -/
def Inside (m : Machine) : Prop := m.stack ≠ [] ∧ m.result = none

theorem inside_cons (f : Frame) (stack : List Frame) (e : Expect) : Inside ⟨f :: stack, e, none⟩ :=
  ⟨List.cons_ne_nil f stack, rfl⟩

theorem place_cases {stack : List Frame} {d : Document} {m : Machine} (h : place stack d = some m) :
    (stack = [] ∧ m = ⟨[], .more, some d⟩) ∨ m.Inside := by
  unfold place at h
  split at h
  · cases h
    exact .inl ⟨rfl, rfl⟩
  · cases h
    exact .inr (inside_cons _ _ _)
  · cases h
    exact .inr (inside_cons _ _ _)
  · cases h

/-- Behind a complete document there is no token more. -/
theorem step_complete (d : Document) (t : Token) : step ⟨[], .more, some d⟩ t = none := by
  cases t <;> simp [step]

theorem close_ne_real (depth : Nat) {d : Option Document} (h : ∀ x, d ≠ some (.real x))
    (x : Float) : close depth d ≠ .real x := by
  unfold close
  split
  · cases d with
    | none => simp
    | some d => exact fun e => h x (congrArg some e)
  · simp

/-- Inside a container the machine stays in one, unless the token closes the outermost; then the
document is that container and no real. -/
theorem step_inside {m next : Machine} {t : Token} (h : m.Inside) (hs : m.step t = some next) :
    next.Inside ∨ ∃ d, next = ⟨[], .more, some d⟩ ∧ ∀ x, d ≠ .real x := by
  obtain ⟨stack, expect, result⟩ := m
  obtain ⟨nonempty, rfl⟩ := h
  -- a value joins the container around it, and only what is closed can be outermost
  have placed {d : Document} (hp : place stack d = some next) : next.Inside :=
    (place_cases hp).resolve_left fun e => nonempty e.1
  have closed {outer : List Frame} {d : Option Document} (hd : ∀ x, d ≠ some (.real x))
      (hp : place outer (close outer.length d) = some next) :
      next.Inside ∨ ∃ d, next = ⟨[], .more, some d⟩ ∧ ∀ x, d ≠ .real x := by
    rcases place_cases hp with ⟨-, e⟩ | hn
    · exact .inr ⟨_, e, close_ne_real _ hd⟩
    · exact .inl hn
  cases t with
  | openArray =>
    simp only [step, Option.ite_none_right_eq_some, Option.some.injEq] at hs
    obtain ⟨-, rfl⟩ := hs
    exact .inl (inside_cons _ _ _)
  | openObject =>
    simp only [step, Option.ite_none_right_eq_some, Option.some.injEq] at hs
    obtain ⟨-, rfl⟩ := hs
    exact .inl (inside_cons _ _ _)
  | closeArray =>
    simp only [step] at hs
    split at hs
    · rw [Option.ite_none_right_eq_some] at hs
      exact closed (by simp) hs.2
    · cases hs
  | closeObject =>
    simp only [step] at hs
    split at hs
    · rw [Option.ite_none_right_eq_some] at hs
      exact closed (by simp) hs.2
    · cases hs
  | comma =>
    simp only [step] at hs
    split at hs
    · split at hs
      all_goals cases hs
      all_goals exact .inl (inside_cons _ _ _)
    · cases hs
  | colon =>
    simp only [step, Option.ite_none_right_eq_some, Option.some.injEq] at hs
    obtain ⟨-, rfl⟩ := hs
    exact .inl ⟨nonempty, rfl⟩
  | text s =>
    simp only [step] at hs
    split at hs
    · exact .inl (placed hs)
    · exact .inl (placed hs)
    · split at hs
      all_goals cases hs
      exact .inl (inside_cons _ _ _)
    · split at hs
      all_goals cases hs
      exact .inl (inside_cons _ _ _)
    · cases hs
  | atom d =>
    simp only [step] at hs
    rw [Option.ite_none_right_eq_some] at hs
    exact .inl (placed hs.2)

theorem run_complete {d e : Document} {ts : List Token}
    (h : run ⟨[], .more, some d⟩ ts = some e) : ts = [] ∧ d = e := by
  cases ts with
  | nil =>
    cases h
    exact ⟨rfl, rfl⟩
  | cons t rest => simp [run, step_complete] at h

theorem run_inside_ne_real {m : Machine} (h : m.Inside) (ts : List Token) (x : Float) :
    m.run ts ≠ some (.real x) := by
  induction ts generalizing m with
  | nil => simp [run, h.2]
  | cons t rest ih =>
    intro hr
    obtain ⟨next, hs, hr⟩ := Option.bind_eq_some_iff.mp hr
    rcases step_inside h hs with inside | ⟨d, rfl, hd⟩
    · exact ih inside hr
    · exact hd x (run_complete hr).2

/-- A text whose document is a real holds one token. -/
theorem tokens_of_run_real {ts : List Token} {x : Float}
    (h : initial.run ts = some (.real x)) : ts = [.atom (.real x)] := by
  cases ts with
  | nil => cases h
  | cons t rest =>
    obtain ⟨next, hs, hr⟩ := Option.bind_eq_some_iff.mp h
    cases t with
    | openArray =>
      cases hs
      exact absurd hr (run_inside_ne_real (inside_cons _ _ _) rest x)
    | openObject =>
      cases hs
      exact absurd hr (run_inside_ne_real (inside_cons _ _ _) rest x)
    | text s =>
      cases hs
      have e := (run_complete hr).2
      cases s <;> cases e
    | atom d =>
      cases hs
      obtain ⟨rfl, rfl⟩ := run_complete hr
      rfl
    | closeArray => cases hs
    | closeObject => cases hs
    | comma => cases hs
    | colon => cases hs

end Machine

/-! ## The automaton finds the tokens -/

namespace Scan

/-- Before some symbols, characters are read as these tokens. -/
def Yields (cs : List Char) (ts : List Token) (rest : List Symbol) : Prop :=
  between.run (cs.map .char ++ rest) = (between.run rest).map (ts ++ ·)

theorem yields_nil (rest : List Symbol) : Yields [] [] rest := by
  show between.run rest = (between.run rest).map ([] ++ ·)
  cases between.run rest <;> rfl

theorem Yields.append {cs ds : List Char} {ts us : List Token} {rest : List Symbol}
    (h : Yields cs ts (ds.map .char ++ rest)) (h' : Yields ds us rest) :
    Yields (cs ++ ds) (ts ++ us) rest := by
  unfold Yields at *
  rw [List.map_append, List.append_assoc, h, h']
  cases between.run rest <;> simp

/-- A bracket, a comma or a colon is a token wherever a token may start. -/
theorem Yields.mark {c : Char} {t : Token} {cs : List Char} {ts : List Token} {rest : List Symbol}
    (hc : start c = some (between, [t])) (h : Yields cs ts rest) :
    Yields (c :: cs) (t :: ts) rest := by
  have step : between.advance [.char c] = some (between, [t]) := by
    simp [advance, Scan.step, hc]
  have first : Yields [c] [t] (cs.map .char ++ rest) := run_of_advance step _
  exact first.append h

theorem yields_stringChars (s : String) (rest : List Symbol) :
    Yields (stringChars s) [.text (some s)] rest :=
  run_of_advance (advance_stringChars s) rest

/-- A text that is one token by itself is so before a boundary. -/
theorem yields_of_run {cs : List Char} {ts : List Token} {rest : List Symbol}
    (h : between.run (cs.map .char) = some ts) (hb : Boundary rest) : Yields cs ts rest :=
  run_append_boundary h hb

theorem run_of_read_real {cs : List Char} {x : Float}
    (h : Document.read (String.ofList cs) = some (.real x)) :
    between.run (cs.map .char) = some [.atom (.real x)] := by
  rw [Document.read, Text.symbolsOf, String.toList_ofList] at h
  obtain ⟨ts, hts, hr⟩ := Option.bind_eq_some_iff.mp h
  rw [hts, Machine.tokens_of_run_real hr]

open Document

theorem boundary_moreItems (items : List Document) (rest : List Symbol) (hb : Boundary rest) :
    Boundary ((moreItemChars items).map .char ++ rest) := by
  cases items with
  | nil => exact hb
  | cons d more => exact .inl rfl

theorem boundary_moreEntries (entries : List (String × Document)) (rest : List Symbol)
    (hb : Boundary rest) : Boundary ((moreEntryChars entries).map .char ++ rest) := by
  cases entries with
  | nil => exact hb
  | cons e more => exact .inl rfl

mutual
/-- **The automaton finds the tokens of a document in its text**, whatever comes behind it that
may follow a value. -/
theorem yields_chars : ∀ {d : Document} {rest : List Symbol}, d.Legible → Boundary rest →
    Yields d.chars d.tokens rest
  | .null, _, _, hb => yields_of_run rfl hb
  | .bool true, _, _, hb => yields_of_run rfl hb
  | .bool false, _, _, hb => yields_of_run rfl hb
  | .integer _, _, h, hb => yields_of_run (run_signedDigits h) hb
  | .real _, _, h, hb => yields_of_run (run_of_read_real h) hb
  | .string s, rest, _, _ => yields_stringChars s rest
  | .array items, rest, h, _ => by
    have last : Boundary (.char ']' :: rest) := Or.inr (Or.inl rfl)
    have close : Yields [']'] [.closeArray] rest := .mark rfl (yields_nil rest)
    rw [chars, tokens]
    exact .mark rfl ((yields_itemChars h last).append close)
  | .object entries, rest, h, _ => by
    have last : Boundary (.char '}' :: rest) := Or.inr (Or.inr rfl)
    have close : Yields ['}'] [.closeObject] rest := .mark rfl (yields_nil rest)
    rw [chars, tokens]
    exact .mark rfl ((yields_entryChars h last).append close)
theorem yields_itemChars : ∀ {items : List Document} {rest : List Symbol}, LegibleItems items →
    Boundary rest → Yields (itemChars items) (itemTokens items) rest
  | [], rest, _, _ => yields_nil rest
  | _ :: more, rest, h, hb => by
    rw [itemChars, itemTokens]
    exact (yields_chars h.1 (boundary_moreItems more rest hb)).append (yields_moreItemChars h.2 hb)
theorem yields_moreItemChars : ∀ {items : List Document} {rest : List Symbol},
    LegibleItems items → Boundary rest → Yields (moreItemChars items) (moreItemTokens items) rest
  | [], rest, _, _ => yields_nil rest
  | _ :: more, rest, h, hb => by
    rw [moreItemChars, moreItemTokens]
    exact .mark rfl
      ((yields_chars h.1 (boundary_moreItems more rest hb)).append (yields_moreItemChars h.2 hb))
theorem yields_entryChars : ∀ {entries : List (String × Document)} {rest : List Symbol},
    LegibleEntries entries → Boundary rest → Yields (entryChars entries) (entryTokens entries) rest
  | [], rest, _, _ => yields_nil rest
  | (k, _) :: more, rest, h, hb => by
    have value := (yields_chars h.1 (boundary_moreEntries more rest hb)).append
      (yields_moreEntryChars h.2 hb)
    rw [entryChars, entryTokens]
    exact (yields_stringChars k _).append (.mark rfl value)
theorem yields_moreEntryChars : ∀ {entries : List (String × Document)} {rest : List Symbol},
    LegibleEntries entries → Boundary rest →
      Yields (moreEntryChars entries) (moreEntryTokens entries) rest
  | [], rest, _, _ => yields_nil rest
  | (k, _) :: more, rest, h, hb => by
    have value := (yields_chars h.1 (boundary_moreEntries more rest hb)).append
      (yields_moreEntryChars h.2 hb)
    rw [moreEntryChars, moreEntryTokens]
    exact .mark rfl ((yields_stringChars k _).append (.mark rfl value))
end

end Scan

/-! ## The machine builds the document -/

namespace Document

mutual
/-- What a reader makes of a document inside `depth` open containers: a container inside too many
others is malformed. -/
def capped (depth : Nat) : Document → Document
  | .array items => Machine.close depth (some (.array (cappedItems (depth + 1) items)))
  | .object entries => Machine.close depth (some (.object (cappedEntries (depth + 1) entries)))
  | d => d
def cappedItems (depth : Nat) : List Document → List Document
  | [] => []
  | d :: rest => capped depth d :: cappedItems depth rest
def cappedEntries (depth : Nat) : List (String × Document) → List (String × Document)
  | [] => []
  | (k, d) :: rest => (k, capped depth d) :: cappedEntries depth rest
end

end Document

namespace Machine

open Document

theorem run_step {m next : Machine} {t : Token} (h : m.step t = some next) (rest : List Token) :
    m.run (t :: rest) = next.run rest := by
  simp [run, h]

/-- Entries as an open object holds them: backwards, with keys that may be broken but are not. -/
def heldEntries (entries : List (String × Document)) : List (Option String × Document) :=
  (entries.map fun e => (some e.1, e.2)).reverse

theorem keyed_heldEntries (entries : List (String × Document)) :
    keyed (heldEntries entries).reverse = some entries := by
  rw [heldEntries, List.reverse_reverse]
  induction entries with
  | nil => rfl
  | cons e rest ih =>
    rw [List.map_cons, keyed, ih]
    rfl

theorem heldEntries_append (entries : List (String × Document)) (k : String) (d : Document) :
    (some k, d) :: heldEntries entries = heldEntries (entries ++ [(k, d)]) := by
  simp [heldEntries]

mutual
/-- **The machine builds the document from its tokens**, where a value may come next, and puts it
where it belongs. -/
theorem run_tokens : ∀ {d : Document} {stack : List Frame} {e : Expect} (rest : List Token),
    (e = .value ∨ e = .valueOrClose) →
      run ⟨stack, e, none⟩ (d.tokens ++ rest) =
        (place stack (d.capped stack.length)).bind (·.run rest)
  | .null, _, _, rest, he => by simp [tokens, capped, run, step, he]
  | .bool _, _, _, rest, he => by simp [tokens, capped, run, step, he]
  | .integer _, _, _, rest, he => by simp [tokens, capped, run, step, he]
  | .real _, _, _, rest, he => by simp [tokens, capped, run, step, he]
  | .malformed, _, _, rest, he => by simp [tokens, capped, run, step, he]
  | .string s, _, _, rest, he => by
    rcases he with rfl | rfl <;> simp [tokens, capped, run, step]
  | .array items, stack, e, rest, he => by
    have opened : step ⟨stack, e, none⟩ .openArray =
        some ⟨.array [] :: stack, .valueOrClose, none⟩ :=
      if_pos he
    rw [tokens, capped, List.cons_append, List.append_assoc, run_step opened]
    exact run_itemTokens rest
  | .object entries, stack, e, rest, he => by
    have opened : step ⟨stack, e, none⟩ .openObject =
        some ⟨.object [] :: stack, .keyOrClose, none⟩ :=
      if_pos he
    rw [tokens, capped, List.cons_append, List.append_assoc, run_step opened]
    exact run_entryTokens rest
theorem run_itemTokens : ∀ {items : List Document} {stack : List Frame} (rest : List Token),
    run ⟨.array [] :: stack, .valueOrClose, none⟩ (itemTokens items ++ (.closeArray :: rest)) =
      (place stack (close stack.length (some (.array (cappedItems (stack.length + 1) items))))).bind
        (·.run rest)
  | [], stack, rest => rfl
  | d :: more, stack, rest => by
    rw [itemTokens, List.append_assoc, run_tokens _ (.inr rfl)]
    exact @run_moreItemTokens more stack [_] rest
theorem run_moreItemTokens : ∀ {items : List Document} {stack : List Frame} {held : List Document}
    (rest : List Token),
    run ⟨.array held :: stack, .more, none⟩ (moreItemTokens items ++ (.closeArray :: rest)) =
      (place stack (close stack.length
        (some (.array (held.reverse ++ cappedItems (stack.length + 1) items))))).bind (·.run rest)
  | [], stack, held, rest => by
    rw [cappedItems, List.append_nil]
    rfl
  | d :: more, stack, held, rest => by
    have comma : step ⟨.array held :: stack, .more, none⟩ .comma =
        some ⟨.array held :: stack, .value, none⟩ := rfl
    rw [moreItemTokens, List.cons_append, run_step comma, List.append_assoc,
      run_tokens _ (.inl rfl)]
    show run _ _ = _
    -- the item just read is held in front, backwards, and is the next in order
    rw [run_moreItemTokens rest, cappedItems]
    simp
theorem run_entryTokens : ∀ {entries : List (String × Document)} {stack : List Frame}
    (rest : List Token),
    run ⟨.object [] :: stack, .keyOrClose, none⟩ (entryTokens entries ++ (.closeObject :: rest)) =
      (place stack (close stack.length
        (some (.object (cappedEntries (stack.length + 1) entries))))).bind (·.run rest)
  | [], stack, rest => rfl
  | (k, d) :: more, stack, rest => by
    have key : step ⟨.object [] :: stack, .keyOrClose, none⟩ (.text (some k)) =
        some ⟨.entry [] (some k) :: stack, .colon, none⟩ := rfl
    have colon : step ⟨.entry [] (some k) :: stack, .colon, none⟩ .colon =
        some ⟨.entry [] (some k) :: stack, .value, none⟩ := rfl
    rw [entryTokens, List.cons_append, run_step key, List.cons_append, run_step colon,
      List.append_assoc, run_tokens _ (.inl rfl)]
    exact @run_moreEntryTokens more stack [(k, _)] rest
theorem run_moreEntryTokens : ∀ {entries : List (String × Document)} {stack : List Frame}
    {held : List (String × Document)} (rest : List Token),
    run ⟨.object (heldEntries held) :: stack, .more, none⟩
        (moreEntryTokens entries ++ (.closeObject :: rest)) =
      (place stack (close stack.length
        (some (.object (held ++ cappedEntries (stack.length + 1) entries))))).bind (·.run rest)
  | [], stack, held, rest => by
    have closed : step ⟨.object (heldEntries held) :: stack, .more, none⟩ .closeObject =
        place stack (close stack.length (some (.object held))) := by
      simp [step, keyed_heldEntries]
    rw [cappedEntries, List.append_nil, moreEntryTokens, List.nil_append, run, closed]
    rfl
  | (k, d) :: more, stack, held, rest => by
    have comma : step ⟨.object (heldEntries held) :: stack, .more, none⟩ .comma =
        some ⟨.object (heldEntries held) :: stack, .key, none⟩ := rfl
    have key : step ⟨.object (heldEntries held) :: stack, .key, none⟩ (.text (some k)) =
        some ⟨.entry (heldEntries held) (some k) :: stack, .colon, none⟩ := rfl
    have colon : step ⟨.entry (heldEntries held) (some k) :: stack, .colon, none⟩ .colon =
        some ⟨.entry (heldEntries held) (some k) :: stack, .value, none⟩ := rfl
    rw [moreEntryTokens, List.cons_append, run_step comma, List.cons_append, run_step key,
      List.cons_append, run_step colon, List.append_assoc, run_tokens _ (.inl rfl)]
    show run ⟨.object ((some k, _) :: heldEntries held) :: stack, .more, none⟩ _ = _
    rw [heldEntries_append, run_moreEntryTokens rest, cappedEntries]
    simp
end

end Machine

namespace Document

theorem ofSymbols_compact {d : Document} (h : d.Legible) :
    ofSymbols (d.chars.map .char) = some (d.capped 0) := by
  have scanned : Scan.Yields d.chars d.tokens [] := Scan.yields_chars h trivial
  have built : Machine.initial.run (d.tokens ++ []) = some (d.capped 0) :=
    Machine.run_tokens [] (.inl rfl)
  rw [Scan.Yields, List.append_nil] at scanned
  rw [ofSymbols, scanned]
  exact built

/-- **Compact text is read back**, from the text and from its bytes. -/
theorem read_compact {d : Document} (h : d.Legible) : read d.compact = some (d.capped 0) := by
  rw [read, Text.symbolsOf, compact, String.toList_ofList]
  exact ofSymbols_compact h

theorem readBytes_compact {d : Document} (h : d.Legible) :
    readBytes (Text.bytesOf d.compact) = some (d.capped 0) := by
  rw [readBytes, Text.symbols_bytesOf, Text.symbolsOf, compact, String.toList_ofList]
  exact ofSymbols_compact h

end Document

end ServerUi.Json
