import ServerUi.Proofs.Expr.Lexing

/-! # The reader implements the grammar

The reader climbs by strength, with one loop for all operators that are strong enough, while the
grammar has a rule for each strength.  Every formula that is read is derived from its tokens
(`derives_of_ofTokens?`), and every formula that the grammar derives is read
(`ofTokens?_of_derives`).  The main statement is `parses_iff_written`: reading succeeds exactly on
what the grammar writes, with the formula it writes, and a source writes one formula at most.
-/

namespace ServerUi.Expr

/-! ## Strengths and rules -/

/-- The rule for chains of operators that have at least this strength. -/
def rule : Nat → Nonterminal
  | 0 | 1 => .tier .or
  | 2 => .tier .and
  | 3 => .tier .eq
  | 4 => .tier .cmp
  | 5 => .tier .sum
  | 6 => .tier .product
  | _ + 7 => .unary

theorem derives_of_succ {s : Nat} {ts : List Token} {e : Expr} (h : Derives (rule (s + 1)) ts e) :
    Derives (rule s) ts e :=
  match s, h with
  | 0, h => h
  | 1, h | 2, h | 3, h | 4, h | 5, h | 6, h => .operand h
  | _ + 7, h => h

theorem derives_of_le {s k : Nat} (le : s ≤ k) {ts : List Token} {e : Expr}
    (h : Derives (rule k) ts e) : Derives (rule s) ts e := by
  induction le with
  | refl => exact h
  | step _ ih => exact ih (derives_of_succ h)

theorem derives_binary {o : BinaryOp} {ls rs : List Token} {l r : Expr}
    (left : Derives (rule o.strength) ls l) (right : Derives (rule (o.strength + 1)) rs r) :
    Derives (rule o.strength) (ls ++ .op o :: rs) (.binary o l r) := by
  cases o <;> exact .binary (by decide) left right

theorem strength_le (o : BinaryOp) : o.strength ≤ 6 := by
  cases o <;> decide

/-- The tokens do not go on with an operator of at least this strength. -/
def Stops (s : Nat) (ts : List Token) : Prop :=
  ∀ o rest, ts = .op o :: rest → o.strength < s

/-! ## What is read is derived -/

/-- With so much fuel, each part of the reader returns what its rule derives from the tokens it
used. -/
structure SoundUpTo (n : Nat) : Prop where
  ofFormula : ∀ {ts rest e}, formula n ts = some (e, rest) →
    ∃ used, ts = used ++ rest ∧ Derives .expr used e
  ofChain : ∀ {s ts rest e}, s ≤ 7 → chain n s ts = some (e, rest) →
    ∃ used, ts = used ++ rest ∧ Derives (rule s) used e ∧ Stops s rest
  /-- The left operand so far is a chain of some strength, and no stronger operator follows it. -/
  ofMore : ∀ {s k ls left ts rest e}, s ≤ k → Derives (rule k) ls left → Stops (k + 1) ts →
    more n s left ts = some (e, rest) →
    ∃ used, ts = used ++ rest ∧ Derives (rule s) (ls ++ used) e ∧ Stops s rest
  ofOperand : ∀ {ts rest e}, operand n ts = some (e, rest) →
    ∃ used, ts = used ++ rest ∧ Derives .unary used e

theorem soundUpTo_zero : SoundUpTo 0 where
  ofFormula h := by simp [formula] at h
  ofChain _ h := by simp [chain] at h
  ofMore _ _ _ h := by simp [more] at h
  ofOperand h := by simp [operand] at h

namespace SoundUpTo

variable {n : Nat} {ts rest : List Token} {e : Expr}

theorem formula_succ (sound : SoundUpTo n) (h : formula (n + 1) ts = some (e, rest)) :
    ∃ used, ts = used ++ rest ∧ Derives .expr used e := by
  simp only [formula, Option.bind_eq_bind, Option.bind_eq_some_iff] at h
  obtain ⟨⟨t, behind⟩, ht, h⟩ := h
  obtain ⟨test, rfl, derives, -⟩ := sound.ofChain (by omega) ht
  dsimp only at h
  split at h
  · simp only [Option.bind_eq_some_iff] at h
    obtain ⟨⟨y, behind⟩, hy, h⟩ := h
    obtain ⟨yes, rfl, derivesYes⟩ := sound.ofFormula hy
    dsimp only at h
    split at h
    · simp only [Option.bind_eq_some_iff] at h
      obtain ⟨⟨no, behind⟩, hn, h⟩ := h
      obtain ⟨used, rfl, derivesNo⟩ := sound.ofFormula hn
      cases h
      exact ⟨test ++ .question :: (yes ++ .colon :: used), by simp,
        .choice derives derivesYes derivesNo⟩
    · cases h
  · cases h
    exact ⟨test, rfl, .plain derives⟩

theorem chain_succ (sound : SoundUpTo n) {s : Nat} (le : s ≤ 7)
    (h : chain (n + 1) s ts = some (e, rest)) :
    ∃ used, ts = used ++ rest ∧ Derives (rule s) used e ∧ Stops s rest := by
  simp only [chain, Option.bind_eq_bind, Option.bind_eq_some_iff] at h
  obtain ⟨⟨left, behind⟩, hl, h⟩ := h
  obtain ⟨ls, rfl, derives⟩ := sound.ofOperand hl
  have weaker : Stops (7 + 1) behind := fun o _ _ => by
    have := strength_le o
    omega
  obtain ⟨used, rfl, derives, stops⟩ := sound.ofMore le derives weaker h
  exact ⟨ls ++ used, by simp, derives, stops⟩

theorem more_succ (sound : SoundUpTo n) {s k : Nat} {ls : List Token} {left : Expr} (le : s ≤ k)
    (derives : Derives (rule k) ls left) (stops : Stops (k + 1) ts)
    (h : more (n + 1) s left ts = some (e, rest)) :
    ∃ used, ts = used ++ rest ∧ Derives (rule s) (ls ++ used) e ∧ Stops s rest := by
  have done : Stops s ts → some (left, ts) = some (e, rest) →
      ∃ used, ts = used ++ rest ∧ Derives (rule s) (ls ++ used) e ∧ Stops s rest := by
    intro stops h
    cases h
    exact ⟨[], rfl, by simpa using derives_of_le le derives, stops⟩
  simp only [more] at h
  split at h
  · rename_i o behind
    split at h
    · rename_i strong
      simp only [Option.bind_eq_bind, Option.bind_eq_some_iff] at h
      obtain ⟨⟨right, behind⟩, hr, h⟩ := h
      obtain ⟨rs, rfl, derivesRight, weaker⟩ :=
        sound.ofChain (by have := strength_le o; omega) hr
      have weak : o.strength ≤ k := Nat.lt_succ_iff.mp (stops o _ rfl)
      have longer := derives_binary (derives_of_le weak derives) derivesRight
      obtain ⟨used, rfl, derives, stops⟩ := sound.ofMore strong longer weaker h
      exact ⟨.op o :: (rs ++ used), by simp, by simpa using derives, stops⟩
    · rename_i weak
      refine done ?_ h
      rintro _ _ e
      cases e
      exact Nat.lt_of_not_le weak
  · rename_i other
    exact done (fun o behind e => absurd e (other o behind)) h

theorem operand_succ (sound : SoundUpTo n) (h : operand (n + 1) ts = some (e, rest)) :
    ∃ used, ts = used ++ rest ∧ Derives .unary used e := by
  simp only [operand] at h
  split at h
  · cases h
    exact ⟨[_], rfl, .atom (.literal _)⟩
  · cases h
    exact ⟨[_], rfl, .atom (.name _)⟩
  · simp only [Option.bind_eq_bind, Option.bind_eq_some_iff] at h
    obtain ⟨⟨inner, behind⟩, hi, h⟩ := h
    obtain ⟨used, rfl, derives⟩ := sound.ofOperand hi
    cases h
    exact ⟨.bang :: used, rfl, .not derives⟩
  · simp only [Option.bind_eq_bind, Option.bind_eq_some_iff] at h
    obtain ⟨⟨inner, behind⟩, hi, h⟩ := h
    obtain ⟨used, rfl, derives⟩ := sound.ofOperand hi
    cases h
    exact ⟨.op .sub :: used, rfl, .neg derives⟩
  · simp only [Option.bind_eq_bind, Option.bind_eq_some_iff] at h
    obtain ⟨⟨inner, behind⟩, hi, h⟩ := h
    obtain ⟨used, rfl, derives⟩ := sound.ofFormula hi
    dsimp only at h
    split at h
    · cases h
      exact ⟨.openParen :: (used ++ [.closeParen]), by simp, .atom (.parens derives)⟩
    · cases h
  · cases h

end SoundUpTo

/-- By induction on the fuel: each part of the reader calls the others with less. -/
theorem soundUpTo (n : Nat) : SoundUpTo n := by
  induction n with
  | zero => exact soundUpTo_zero
  | succ n ih => exact ⟨ih.formula_succ, ih.chain_succ, ih.more_succ, ih.operand_succ⟩

theorem derives_of_ofTokens? {ts : List Token} {e : Expr} (h : ofTokens? ts = some e) :
    Derives .expr ts e := by
  unfold ofTokens? at h
  split at h
  · rename_i read
    cases h
    obtain ⟨used, rfl, derives⟩ := (soundUpTo _).ofFormula read
    simpa using derives
  · cases h

/-! ## What is derived is read -/

/-- The tokens do not go on with an operator or a question. -/
def Ends (ts : List Token) : Prop := Stops 1 ts ∧ ∀ rest, ts ≠ .question :: rest

theorem more_of_stops {n s : Nat} {e : Expr} {rest : List Token} (stops : Stops s rest) :
    more (n + 1) s e rest = some (e, rest) := by
  simp only [more]
  split
  · rename_i o behind
    exact if_neg (Nat.not_le_of_lt (stops o behind rfl))
  · rfl

theorem Stops.mono {s k : Nat} (le : s ≤ k) {ts : List Token} (h : Stops s ts) : Stops k ts :=
  fun o rest e => Nat.lt_of_lt_of_le (h o rest e) le

def Tier.strength : Tier → Nat
  | .or => 1
  | .and => 2
  | .eq => 3
  | .cmp => 4
  | .sum => 5
  | .product => 6

theorem strength_of_mem {k : Tier} {o : BinaryOp} (mem : o ∈ k.operators) :
    o.strength = k.strength := by
  revert mem
  cases k <;> cases o <;> decide

/-- The reader of chains of this strength, or of any weaker one, passes over the tokens: behind
them it stands in its loop with the formula as left operand.  The loop has run once for each
operator, and the fuel is reckoned in tokens. -/
def Passes (s : Nat) (ts : List Token) (e : Expr) : Prop :=
  ∀ {s' : Nat} {rest : List Token}, s' ≤ s → Stops (s + 1) rest →
    ∃ j ≤ ts.length, ∀ n, 4 * ts.length ≤ n + 1 →
      chain n s' (ts ++ rest) = more (n - j) s' e rest

/-- What each part of the reader does with the tokens of its rule and any tokens behind them. -/
def Read : Nonterminal → List Token → Expr → Prop
  | .expr, ts, e => ∀ {rest : List Token} {n : Nat}, Ends rest → 4 * ts.length ≤ n →
    formula n (ts ++ rest) = some (e, rest)
  | .tier k, ts, e => Passes k.strength ts e
  | .unary, ts, e | .atom, ts, e => ∀ {rest : List Token} {n : Nat}, 4 * ts.length ≤ n + 2 →
    operand n (ts ++ rest) = some (e, rest)

theorem Passes.chain_eq {s : Nat} {ts : List Token} {e : Expr} (h : Passes s ts e)
    {rest : List Token} (stops : Stops s rest) (nonempty : ts ≠ []) {n : Nat}
    (fuel : 4 * ts.length ≤ n + 1) : chain n s (ts ++ rest) = some (e, rest) := by
  obtain ⟨j, le, read⟩ := h (Nat.le_refl s) (stops.mono (Nat.le_succ s))
  have length := List.length_pos_iff.mpr nonempty
  obtain ⟨m, hm⟩ : ∃ m, n - j = m + 1 := Nat.exists_eq_add_one.mpr (by omega)
  rw [read n fuel, hm, more_of_stops stops]

theorem passes_of_unary {ts : List Token} {e : Expr} (h : Read .unary ts e) (nonempty : ts ≠ [])
    (s : Nat) : Passes s ts e := by
  intro s' rest _ _
  have length := List.length_pos_iff.mpr nonempty
  refine ⟨1, length, fun n fuel => ?_⟩
  obtain ⟨m, rfl⟩ : ∃ m, n = m + 1 := Nat.exists_eq_add_one.mpr (by omega)
  have read : operand m (ts ++ rest) = some (e, rest) := h (by omega)
  simp [chain, read]

theorem passes_operand {k : Tier} {ts : List Token} {e : Expr} (h : Read k.operand ts e)
    (nonempty : ts ≠ []) : Passes (k.strength + 1) ts e := by
  cases k with
  | product => exact passes_of_unary h nonempty 7
  | _ => exact h

/-- One more operator: the loop takes it, and its right operand ends where the next operator of
the same rule could follow. -/
theorem passes_binary {k : Tier} {o : BinaryOp} (mem : o ∈ k.operators) {ls rs : List Token}
    {l r : Expr} (left : Passes k.strength ls l) (right : Passes (k.strength + 1) rs r)
    (nonempty : rs ≠ []) : Passes k.strength (ls ++ .op o :: rs) (.binary o l r) := by
  intro s' rest le stops
  have strength := strength_of_mem mem
  have next : Stops (k.strength + 1) (.op o :: (rs ++ rest)) := by
    rintro _ _ e
    cases e
    omega
  obtain ⟨j, hj, readLeft⟩ := left le next
  have length : (ls ++ .op o :: rs).length = ls.length + (rs.length + 1) := by simp
  refine ⟨j + 1, by omega, fun n fuel => ?_⟩
  obtain ⟨m, hm⟩ : ∃ m, n - j = m + 1 := Nat.exists_eq_add_one.mpr (by omega)
  have readRight : chain m (o.strength + 1) (rs ++ rest) = some (r, rest) := by
    rw [strength]
    exact right.chain_eq stops nonempty (by omega)
  have taken : s' ≤ o.strength := by omega
  have behind : n - (j + 1) = m := by omega
  rw [List.append_assoc, List.cons_append, readLeft n (by omega), hm, behind]
  simp [more, taken, readRight]

/-- By induction on the derivation, rule by rule. -/
theorem read_of_derives {x : Nonterminal} {ts : List Token} {e : Expr} (h : Derives x ts e) :
    Read x ts e := by
  induction h with
  | @plain ts e derives ih =>
    intro rest n ends fuel
    have nonempty := derives.compound.nonempty
    have length := List.length_pos_iff.mpr nonempty
    obtain ⟨m, rfl⟩ : ∃ m, n = m + 1 := Nat.exists_eq_add_one.mpr (by omega)
    have read : chain m 1 (ts ++ rest) = some (e, rest) := ih.chain_eq ends.1 nonempty (by omega)
    have noQuestion := ends.2
    simp only [formula, read, Option.bind_eq_bind, Option.bind_some, Option.pure_def]
  | @choice ts ys ns t y no derives _ _ ih ihy ihn =>
    intro rest n ends fuel
    have nonempty := derives.compound.nonempty
    have length : (ts ++ .question :: (ys ++ .colon :: ns)).length =
        ts.length + (ys.length + (ns.length + 1) + 1) := by simp
    obtain ⟨m, rfl⟩ : ∃ m, n = m + 1 := Nat.exists_eq_add_one.mpr (by omega)
    have readTest : chain m 1 (ts ++ .question :: (ys ++ .colon :: (ns ++ rest))) =
        some (t, .question :: (ys ++ .colon :: (ns ++ rest))) :=
      ih.chain_eq (by rintro _ _ ⟨⟩) nonempty (by omega)
    have readYes : formula m (ys ++ .colon :: (ns ++ rest)) =
        some (y, .colon :: (ns ++ rest)) :=
      ihy ⟨by rintro _ _ ⟨⟩, by rintro _ ⟨⟩⟩ (by omega)
    have readNo : formula m (ns ++ rest) = some (no, rest) := ihn ends (by omega)
    simp [formula, readTest, readYes, readNo]
  | @operand k ts e derives ih =>
    intro s' rest le stops
    exact passes_operand ih derives.compound.nonempty (by omega) (stops.mono (by omega))
  | binary mem _ derives left right =>
    exact passes_binary mem left (passes_operand right derives.compound.nonempty)
      derives.compound.nonempty
  | @not ts e _ ih =>
    intro rest n fuel
    rw [List.length_cons] at fuel
    obtain ⟨m, rfl⟩ : ∃ m, n = m + 1 := Nat.exists_eq_add_one.mpr (by omega)
    have read : operand m (ts ++ rest) = some (e, rest) := ih (by omega)
    simp [operand, read]
  | @neg ts e _ ih =>
    intro rest n fuel
    rw [List.length_cons] at fuel
    obtain ⟨m, rfl⟩ : ∃ m, n = m + 1 := Nat.exists_eq_add_one.mpr (by omega)
    have read : operand m (ts ++ rest) = some (e, rest) := ih (by omega)
    simp [operand, read]
  | atom _ ih => exact ih
  | literal v =>
    intro rest n fuel
    obtain ⟨m, rfl⟩ : ∃ m, n = m + 1 := Nat.exists_eq_add_one.mpr (by simp at fuel; omega)
    simp [operand]
  | name k =>
    intro rest n fuel
    obtain ⟨m, rfl⟩ : ∃ m, n = m + 1 := Nat.exists_eq_add_one.mpr (by simp at fuel; omega)
    simp [operand]
  | @parens ts e _ ih =>
    intro rest n fuel
    have length : (.openParen :: (ts ++ [.closeParen])).length = ts.length + 2 := by simp
    obtain ⟨m, rfl⟩ : ∃ m, n = m + 1 := Nat.exists_eq_add_one.mpr (by omega)
    have read : formula m (ts ++ .closeParen :: rest) = some (e, .closeParen :: rest) :=
      ih ⟨by rintro _ _ ⟨⟩, by rintro _ ⟨⟩⟩ (by omega)
    simp [operand, read]

theorem ofTokens?_of_derives {ts : List Token} {e : Expr} (h : Derives .expr ts e) :
    ofTokens? ts = some e := by
  have ends : Ends [] := ⟨by rintro _ _ ⟨⟩, by rintro _ ⟨⟩⟩
  have read : formula (4 * ts.length + 4) (ts ++ []) = some (e, []) :=
    read_of_derives h ends (by omega)
  rw [List.append_nil] at read
  simp [ofTokens?, read]

/-! ## Sources -/

theorem written_of_parse? {source : String} {e : Expr} (h : parse? source = some e) :
    Written source e := by
  obtain ⟨ts, tokens, read⟩ := Option.bind_eq_some_iff.mp h
  exact ⟨ts, writes_of_tokens? tokens, derives_of_ofTokens? read⟩

theorem parse?_of_written {source : String} {e : Expr} (h : Written source e) :
    parse? source = some e := by
  obtain ⟨ts, writes, derives⟩ := h
  rw [parse?, tokens?_of_writes writes derives.compound.meets, Option.bind_some,
    ofTokens?_of_derives derives]

/-- **The reader is exact.** A source is read as a formula just if the grammar writes the formula
so; it is refused just if the grammar writes no formula so; and the grammar is unambiguous. -/
theorem parses_iff_written (source : String) :
    (∀ e, parse? source = some e ↔ Written source e) ∧
    (parse? source = none ↔ ∀ e, ¬ Written source e) ∧
    ∀ e e', Written source e → Written source e' → e = e' := by
  have exact_iff : ∀ e, parse? source = some e ↔ Written source e := fun e =>
    ⟨written_of_parse?, parse?_of_written⟩
  refine ⟨exact_iff, ?_, fun e e' h h' => ?_⟩
  · rw [Option.eq_none_iff_forall_ne_some]
    exact forall_congr' fun e => not_congr (exact_iff e)
  · exact Option.some.inj ((parse?_of_written h).symm.trans (parse?_of_written h'))

/-- Differences group to the left, and in no other way. -/
theorem differences_group_left :
    Written "a - b - c" (.binary .sub (.binary .sub (.name "a") (.name "b")) (.name "c")) ∧
      ¬ Written "a - b - c" (.binary .sub (.name "a") (.binary .sub (.name "b") (.name "c"))) := by
  obtain ⟨reads, -, unique⟩ := parses_iff_written "a - b - c"
  have lexed : tokens? "a - b - c" =
      some [.name "a", .op .sub, .name "b", .op .sub, .name "c"] := rfl
  have left :
      Written "a - b - c" (.binary .sub (.binary .sub (.name "a") (.name "b")) (.name "c")) :=
    (reads _).mp (by rw [parse?, lexed]; rfl)
  refine ⟨left, fun right => ?_⟩
  cases unique _ _ left right

end ServerUi.Expr
