import ServerUi.Json.Reader
import ServerUi.Proofs.Decimal.Magnitude

/-! # What a reader hands over

A document that was read from bytes has no more containers inside one another than a reader takes,
and its numbers are such as a text can write: integers that fit a word and reals that are finite
(`held_readBytes`).  The depth is counted from where a document stands: inside `k` open containers a
reader holds documents with at most `maxDepth - k` containers inside one another, and every step of
the machine keeps that.
-/

namespace ServerUi.Json

open ServerUi.Text (Symbol)

namespace Document

/-! ## Leaves and depth -/

mutual
/-- The parts of a document that are no containers, in the order of writing. -/
def leaves : Document → List Document
  | .array items => leavesAmong items
  | .object entries => leavesUnder entries
  | d => [d]
def leavesAmong : List Document → List Document
  | [] => []
  | d :: rest => leaves d ++ leavesAmong rest
def leavesUnder : List (String × Document) → List Document
  | [] => []
  | (_, d) :: rest => leaves d ++ leavesUnder rest
end

mutual
/-- How many containers are inside one another. -/
def depth : Document → Nat
  | .array items => depthAmong items + 1
  | .object entries => depthUnder entries + 1
  | _ => 0
def depthAmong : List Document → Nat
  | [] => 0
  | d :: rest => max (depth d) (depthAmong rest)
def depthUnder : List (String × Document) → Nat
  | [] => 0
  | (_, d) :: rest => max (depth d) (depthUnder rest)
end

theorem mem_leavesAmong {items : List Document} {l : Document} :
    l ∈ leavesAmong items ↔ ∃ d ∈ items, l ∈ d.leaves := by
  induction items with
  | nil => simp [leavesAmong]
  | cons d rest ih => simp [leavesAmong, ih]

theorem mem_leavesUnder {entries : List (String × Document)} {l : Document} :
    l ∈ leavesUnder entries ↔ ∃ e ∈ entries, l ∈ e.2.leaves := by
  induction entries with
  | nil => simp [leavesUnder]
  | cons e rest ih => simp [leavesUnder, ih]

theorem depthAmong_le_iff {items : List Document} {n : Nat} :
    depthAmong items ≤ n ↔ ∀ d ∈ items, d.depth ≤ n := by
  induction items with
  | nil => simp [depthAmong]
  | cons d rest ih => simp [depthAmong, ih]

theorem depthUnder_le_iff {entries : List (String × Document)} {n : Nat} :
    depthUnder entries ≤ n ↔ ∀ e ∈ entries, e.2.depth ≤ n := by
  induction entries with
  | nil => simp [depthUnder]
  | cons e rest ih => simp [depthUnder, ih]

/-- What holds of a document if it holds of the documents directly inside it, holds of every
document. -/
@[elab_as_elim]
theorem induction {motive : Document → Prop} (null : motive .null) (bool : ∀ b, motive (.bool b))
    (integer : ∀ n, motive (.integer n)) (real : ∀ x, motive (.real x))
    (string : ∀ s, motive (.string s)) (malformed : motive .malformed)
    (array : ∀ items, (∀ d ∈ items, motive d) → motive (.array items))
    (object : ∀ entries : List (String × Document), (∀ e ∈ entries, motive e.2) →
      motive (.object entries)) (d : Document) : motive d :=
  @Document.rec motive (fun items => ∀ d ∈ items, motive d)
    (fun entries => ∀ e ∈ entries, motive e.2) (fun e => motive e.2)
    null bool integer real string array object malformed
    nofun (fun _ _ first others => List.forall_mem_cons.mpr ⟨first, others⟩)
    nofun (fun _ _ first others => List.forall_mem_cons.mpr ⟨first, others⟩)
    (fun _ _ h => h) d

/-- A number of a document is one that a text can write: an integer fits a word, and a real is
finite. -/
def Sound : Document → Prop
  | .integer n => fitsSigned n = true ∨ fitsUnsigned n = true
  | .real x => x.isFinite = true
  | _ => True

/-- What a reader may hold inside `k` open containers. -/
structure Held (k : Nat) (d : Document) : Prop where
  sound : ∀ l ∈ d.leaves, l.Sound
  shallow : d.depth ≤ maxDepth - k

theorem Held.leaf {k : Nat} {d : Document} (leaf : d.leaves = [d]) (flat : d.depth = 0)
    (sound : d.Sound) : d.Held k := by
  refine ⟨fun l hl => ?_, by omega⟩
  rw [leaf, List.mem_singleton] at hl
  exact hl ▸ sound

theorem Held.array {k : Nat} {items : List Document} (inner : k < maxDepth)
    (h : ∀ d ∈ items, d.Held (k + 1)) : (Document.array items).Held k := by
  refine ⟨fun l hl => ?_, ?_⟩
  · obtain ⟨d, hd, hl⟩ := mem_leavesAmong.mp hl
    exact (h d hd).sound l hl
  · have := depthAmong_le_iff.mpr fun d hd => (h d hd).shallow
    rw [depth]
    omega

theorem Held.object {k : Nat} {entries : List (String × Document)} (inner : k < maxDepth)
    (h : ∀ e ∈ entries, e.2.Held (k + 1)) : (Document.object entries).Held k := by
  refine ⟨fun l hl => ?_, ?_⟩
  · obtain ⟨e, he, hl⟩ := mem_leavesUnder.mp hl
    exact (h e he).sound l hl
  · have := depthUnder_le_iff.mpr fun e he => (h e he).shallow
    rw [depth]
    omega

end Document

/-! ## Literals -/

namespace Literal

open Decimal

theorem takeWord_lt {n : Nat} (h : n < 2 ^ 64) (ds : List Char) : (takeWord n ds).1 < 2 ^ 64 := by
  induction ds generalizing n with
  | nil => exact h
  | cons c rest ih =>
    rw [takeWord]
    split
    · rename_i fits
      rw [fitsUnsigned, Bool.and_eq_true, decide_eq_true_eq, decide_eq_true_eq] at fits
      exact ih (by exact_mod_cast fits.2)
    · exact h

theorem significand_lt (l : Literal) : l.significand.1 < 2 ^ 64 := by
  have whole := takeWord_lt (by decide : 0 < 2 ^ 64) l.whole
  rw [significand]
  generalize takeWord 0 l.whole = first at whole
  obtain ⟨n, dropped⟩ := first
  cases l.fraction with
  | none => exact whole
  | some ds => exact takeWord_lt whole ds

theorem held_real (l : Literal) (k : Nat) : l.real.Held k := by
  unfold real
  have fits := l.significand_lt
  dsimp only
  split
  · exact .leaf rfl rfl trivial
  · rename_i x scaled
    have finite := isFinite_scaled fits scaled
    split
    · exact .leaf rfl rfl (isFinite_neg finite)
    · exact .leaf rfl rfl finite

/-- The document of a literal is no container, and its number is one that can be written. -/
theorem held_toDocument (l : Literal) (k : Nat) : l.toDocument.Held k := by
  unfold toDocument
  dsimp only
  split
  · split
    · split
      · rename_i fits
        rw [Bool.and_eq_true] at fits
        exact .leaf rfl rfl (.inl fits.2)
      · exact l.held_real k
    · split
      · exact .leaf rfl rfl (.inr ‹_›)
      · exact l.held_real k
  · exact l.held_real k

end Literal

/-! ## Tokens -/

/-- The document of a token may be held anywhere. -/
def Token.Held : Token → Prop
  | .atom d => ∀ k, d.Held k
  | _ => True

namespace Scan

/-- The word that is being read stands for a document that may be held anywhere. -/
def Held : Scan → Prop
  | .word _ value => ∀ k, value.Held k
  | _ => True

theorem held_start {c : Char} {s : Scan} {ts : List Token} (h : start c = some (s, ts)) :
    s.Held ∧ ∀ t ∈ ts, t.Held := by
  unfold start at h
  split at h
  · cases h
    exact ⟨trivial, nofun⟩
  · split at h
    case h_13 =>
      split at h
      · cases h
        exact ⟨trivial, nofun⟩
      · cases h
    all_goals cases h
    -- a bracket, a comma or a colon is a token without a document
    case h_1 | h_2 | h_3 | h_4 | h_5 | h_6 =>
      refine ⟨trivial, fun t ht => ?_⟩
      obtain rfl := List.mem_singleton.mp ht
      trivial
    -- the words for truth, falsehood and null
    case h_8 | h_9 | h_10 => exact ⟨fun k => .leaf rfl rfl trivial, nofun⟩
    all_goals exact ⟨trivial, nofun⟩

theorem held_step {s next : Scan} {x : Symbol} {ts : List Token} (hs : s.Held)
    (h : s.step x = some (next, ts)) : next.Held ∧ ∀ t ∈ ts, t.Held := by
  cases x with
  | stray b =>
    cases s <;> cases h
    exact ⟨trivial, nofun⟩
  | char c =>
    cases s with
    | between => exact held_start h
    | word rest value =>
      simp only [step] at h
      split at h
      · cases h
      · rw [Option.ite_none_right_eq_some] at h
        cases h.2
        refine ⟨trivial, fun t ht => ?_⟩
        obtain rfl := List.mem_singleton.mp ht
        exact hs
      · rw [Option.ite_none_right_eq_some] at h
        cases h.2
        exact ⟨hs, nofun⟩
    | number part l =>
      simp only [step] at h
      split at h
      · cases h
        exact ⟨trivial, nofun⟩
      · rw [Option.ite_none_right_eq_some] at h
        obtain ⟨-, h⟩ := h
        obtain ⟨⟨first, more⟩, hc, h⟩ := Option.map_eq_some_iff.mp h
        cases h
        obtain ⟨hf, hm⟩ := held_start hc
        refine ⟨hf, fun t ht => ?_⟩
        rcases List.mem_cons.mp ht with rfl | ht
        · exact fun k => l.reversed.held_toDocument k
        · exact hm t ht
    | string t =>
      simp only [step] at h
      split at h
      · cases h
        refine ⟨trivial, fun t ht => ?_⟩
        obtain rfl := List.mem_singleton.mp ht
        trivial
      · split at h
        · cases h
          exact ⟨trivial, nofun⟩
        · split at h
          · cases h
          · cases h
            exact ⟨trivial, nofun⟩
    | escape t =>
      simp only [step] at h
      split at h
      · cases h
        exact ⟨trivial, nofun⟩
      · obtain ⟨d, -, h⟩ := Option.map_eq_some_iff.mp h
        cases h
        exact ⟨trivial, nofun⟩
    | unit more code t =>
      obtain ⟨d, -, h⟩ := Option.bind_eq_some_iff.mp h
      cases more <;> cases h <;> exact ⟨trivial, nofun⟩

theorem held_finish {s : Scan} {ts : List Token} (h : s.finish = some ts) :
    ∀ t ∈ ts, t.Held := by
  cases s with
  | number part l =>
    rw [finish, Option.ite_none_right_eq_some] at h
    cases h.2
    intro t ht
    obtain rfl := List.mem_singleton.mp ht
    exact fun k => l.reversed.held_toDocument k
  | between =>
    cases h
    nofun
  | word rest value => cases h
  | string t => cases h
  | escape t => cases h
  | unit more code t => cases h

theorem held_run {s : Scan} {xs : List Symbol} {ts : List Token} (hs : s.Held)
    (h : s.run xs = some ts) : ∀ t ∈ ts, t.Held := by
  induction xs generalizing s ts with
  | nil => exact held_finish h
  | cons x rest ih =>
    obtain ⟨⟨next, first⟩, hx, h⟩ := Option.bind_eq_some_iff.mp h
    obtain ⟨more, hr, h⟩ := Option.bind_eq_some_iff.mp h
    cases h
    obtain ⟨hn, hf⟩ := held_step hs hx
    intro t ht
    rcases List.mem_append.mp ht with ht | ht
    · exact hf t ht
    · exact ih hn hr t ht

end Scan

/-! ## Open containers -/

namespace Frame

/-- The documents that an open container holds. -/
def documents : Frame → List Document
  | .array items => items
  | .object entries | .entry entries _ => entries.map (·.2)

end Frame

namespace Machine

/-- The documents in open containers are such as may be held there. -/
def HeldIn : List Frame → Prop
  | [] => True
  | f :: rest => (∀ d ∈ f.documents, d.Held (rest.length + 1)) ∧ HeldIn rest

/-- The documents of a machine are such as may be held where they are. -/
structure Held (m : Machine) : Prop where
  stack : HeldIn m.stack
  result : ∀ d, m.result = some d → d.Held 0

theorem held_place {stack : List Frame} {d : Document} {m : Machine} (hs : HeldIn stack)
    (hd : d.Held stack.length) (h : place stack d = some m) : m.Held := by
  unfold place at h
  split at h
  · cases h
    exact ⟨trivial, fun e he => Option.some.inj he ▸ hd⟩
  · cases h
    refine ⟨⟨fun e he => ?_, hs.2⟩, nofun⟩
    rcases List.mem_cons.mp he with rfl | he
    · exact hd
    · exact hs.1 e he
  · cases h
    refine ⟨⟨fun e he => ?_, hs.2⟩, nofun⟩
    rcases List.mem_cons.mp he with rfl | he
    · exact hd
    · exact hs.1 e he
  · cases h

theorem held_closeArray {k : Nat} {items : List Document} (h : ∀ d ∈ items, d.Held (k + 1)) :
    (close k (some (.array items))).Held k := by
  unfold close
  split
  · exact .array ‹_› h
  · exact .leaf rfl rfl trivial

theorem mem_of_keyed {held : List (Option String × Document)} {entries : List (String × Document)}
    (h : keyed held = some entries) : ∀ e ∈ entries, e.2 ∈ held.map (·.2) := by
  induction held generalizing entries with
  | nil =>
    cases h
    nofun
  | cons first rest ih =>
    obtain ⟨key, d⟩ := first
    cases key with
    | none => cases h
    | some k =>
      rw [keyed, Option.map_eq_some_iff] at h
      obtain ⟨more, hm, rfl⟩ := h
      intro e he
      rcases List.mem_cons.mp he with rfl | he
      · exact List.mem_cons_self
      · exact List.mem_cons_of_mem _ (ih hm e he)

theorem held_closeObject {k : Nat} {held : List (Option String × Document)}
    (h : ∀ d ∈ held.map (·.2), d.Held (k + 1)) :
    (close k ((keyed held.reverse).map .object)).Held k := by
  unfold close
  split
  · cases hk : keyed held.reverse with
    | none => exact .leaf rfl rfl trivial
    | some entries =>
      refine .object ‹_› fun e he => h e.2 ?_
      simpa using mem_of_keyed hk e he
  · exact .leaf rfl rfl trivial

theorem held_step {m next : Machine} {t : Token} (hm : m.Held) (ht : t.Held)
    (h : m.step t = some next) : next.Held := by
  obtain ⟨stack, expect, result⟩ := m
  obtain ⟨hs, hr⟩ := hm
  cases t with
  | openArray =>
    simp only [step, Option.ite_none_right_eq_some, Option.some.injEq] at h
    obtain ⟨-, rfl⟩ := h
    exact ⟨⟨nofun, hs⟩, nofun⟩
  | openObject =>
    simp only [step, Option.ite_none_right_eq_some, Option.some.injEq] at h
    obtain ⟨-, rfl⟩ := h
    exact ⟨⟨nofun, hs⟩, nofun⟩
  | closeArray =>
    simp only [step] at h
    split at h
    · rw [Option.ite_none_right_eq_some] at h
      refine held_place hs.2 (held_closeArray fun d hd => ?_) h.2
      exact hs.1 d (List.mem_reverse.mp hd)
    · cases h
  | closeObject =>
    simp only [step] at h
    split at h
    · rw [Option.ite_none_right_eq_some] at h
      exact held_place hs.2 (held_closeObject hs.1) h.2
    · cases h
  | comma =>
    simp only [step] at h
    split at h
    · split at h
      all_goals cases h
      all_goals exact ⟨hs, hr⟩
    · cases h
  | colon =>
    simp only [step, Option.ite_none_right_eq_some, Option.some.injEq] at h
    obtain ⟨-, rfl⟩ := h
    exact ⟨hs, hr⟩
  | text s =>
    have value : (s.elim .malformed .string : Document).Held stack.length := by
      cases s <;> exact .leaf rfl rfl trivial
    simp only [step] at h
    split at h
    · exact held_place hs value h
    · exact held_place hs value h
    · split at h
      all_goals cases h
      exact ⟨hs, nofun⟩
    · split at h
      all_goals cases h
      exact ⟨hs, nofun⟩
    · cases h
  | atom d =>
    simp only [step] at h
    rw [Option.ite_none_right_eq_some] at h
    exact held_place hs (ht stack.length) h.2

theorem held_run {m : Machine} {ts : List Token} {d : Document} (hm : m.Held)
    (ht : ∀ t ∈ ts, t.Held) (h : m.run ts = some d) : d.Held 0 := by
  induction ts generalizing m with
  | nil => exact hm.result d h
  | cons t rest ih =>
    obtain ⟨next, hs, h⟩ := Option.bind_eq_some_iff.mp h
    exact ih (held_step hm (ht t List.mem_cons_self) hs)
      (fun u hu => ht u (List.mem_cons_of_mem _ hu)) h

end Machine

namespace Document

/-- **What a reader hands over.**  No more containers are inside one another than it takes, and
every number in them could be written. -/
theorem held_readBytes {bytes : List UInt8} {d : Document} (h : readBytes bytes = some d) :
    d.Held 0 := by
  obtain ⟨ts, hs, h⟩ := Option.bind_eq_some_iff.mp h
  have between : Scan.between.Held := trivial
  have start : Machine.initial.Held := ⟨trivial, nofun⟩
  exact Machine.held_run start (Scan.held_run between hs) h

end Document

end ServerUi.Json
