import Mathlib.Data.Char
import Mathlib.Data.Option.Basic
import ServerUi.Proofs.Expr.Grammar

/-! # Reading tokens

The automaton of the tokens against the spellings of the grammar.  Whatever it reads are tokens
that the source writes (`writes_of_tokens?`), and of the rows of tokens that a source writes it
finds the one whose tokens meet as they do in a formula (`tokens?_of_writes`).
-/

namespace ServerUi.Expr

open ServerUi.Decimal

theorem Writes.blank {ts : List Token} {ws cs : List Char} (blank : Blank ws) (h : Writes ts cs) :
    Writes ts (ws ++ cs) := by
  have more : ∀ {vs : List Char}, Blank vs → Blank (ws ++ vs) := by
    intro vs hv c hc
    rcases List.mem_append.mp hc with hc | hc
    · exact blank c hc
    · exact hv c hc
  cases h with
  | nil hv => exact .nil (more hv)
  | cons hv token rest =>
    rw [← List.append_assoc]
    exact .cons (more hv) token rest

theorem blank_nil : Blank [] := fun _ hc => absurd hc List.not_mem_nil

theorem Writes.token {t : Token} {ts : List Token} {w cs : List Char} (token : Spells t w)
    (h : Writes ts cs) : Writes (t :: ts) (w ++ cs) :=
  .cons blank_nil token h

namespace Scan

/-! ## What is read is written -/

/-- The characters of the token that is not complete yet. -/
def pending : Scan → List Char
  | .between => []
  | .zero => ['0']
  | .whole ds => ds.reverse
  | .point ws => ws.reverse ++ ['.']
  | .fraction ws ds => ws.reverse ++ '.' :: ds.reverse
  | .word ls => ls.reverse
  | .quoted q ls => q :: ls.reverse
  | .half c => [c]

/-- The characters kept so far can start such a token. -/
def Sound : Scan → Prop
  | .whole ds => Digits ds.reverse ∧ ds.reverse.head? ≠ some '0'
  | .point ws => Whole ws.reverse
  | .fraction ws ds => Whole ws.reverse ∧ Digits ds.reverse
  | .word ls => Word ls.reverse
  | .quoted q ls => (q = '\'' ∨ q = '"') ∧ q ∉ ls
  | _ => True

theorem digits_concat {ds : List Char} (digits : ∀ c ∈ ds, c.isDigit = true) {c : Char}
    (digit : c.isDigit = true) : Digits (ds ++ [c]) := by
  refine ⟨by simp, fun d hd => ?_⟩
  rcases List.mem_append.mp hd with hd | hd
  · exact digits d hd
  · exact List.mem_singleton.mp hd ▸ digit

theorem word_concat {cs : List Char} (word : Word cs) {c : Char} (letter : continuesWord c = true) :
    Word (cs ++ [c]) := by
  cases cs with
  | nil => exact word.elim
  | cons d cs =>
    refine ⟨word.1, fun x hx => ?_⟩
    rcases List.mem_append.mp hx with hx | hx
    · exact word.2 x hx
    · exact List.mem_singleton.mp hx ▸ letter

theorem spells_wholeToken? {ds : List Char} (whole : Whole ds) {t : Token}
    (h : wholeToken? ds = some t) : Spells t ds := by
  obtain ⟨i, hi, rfl⟩ := Option.map_eq_some_iff.mp h
  exact .integer whole (toInt_of_int64? hi)

theorem spells_wordToken {cs : List Char} (word : Word cs) :
    Spells (wordToken (String.ofList cs)) cs := by
  unfold wordToken
  have chars : ∀ {s : String}, String.ofList cs = s → cs = s.toList := by
    rintro s rfl
    simp
  split
  · rename_i h
    rw [chars h]
    exact .true
  split
  · rename_i h
    rw [chars h]
    exact .false
  split
  · rename_i h
    rw [chars h]
    exact .null
  · rename_i noTrue noFalse noNull
    refine .name word ?_
    simp only [keywords, List.mem_cons, List.not_mem_nil, or_false, not_or]
    exact ⟨noTrue, noFalse, noNull⟩

theorem spells_pair? {c d : Char} {o : BinaryOp} (h : pair? c d = some o) :
    Spells (.op o) [c, d] := by
  unfold pair? at h
  split at h
  all_goals cases h
  all_goals exact .op _

theorem spells_lone? {c : Char} {t : Token} (h : lone? c = some t) : Spells t [c] := by
  unfold lone? at h
  split at h
  all_goals cases h
  · exact .bang
  · exact .op .lt
  · exact .op .gt

theorem spells_complete? {s : Scan} (sound : s.Sound) {t : Token} (h : s.complete? = some t) :
    Spells t s.pending := by
  cases s with
  | between => cases h
  | zero => exact spells_wholeToken? (.inl rfl) h
  | whole ds => exact spells_wholeToken? (.inr sound) h
  | point ws => cases h
  | fraction ws ds =>
    cases h
    exact .decimal sound.1 sound.2
  | word ls =>
    cases h
    exact spells_wordToken sound
  | quoted q ls => cases h
  | half c => exact spells_lone? h

/-- What a scan has put out so far, and what is still open, are tokens of what was read. -/
def Extends (out : List Token) (next : Scan) (read : List Char) : Prop :=
  next.Sound ∧ ∀ ts cs, Writes ts (next.pending ++ cs) → Writes (out ++ ts) (read ++ cs)

theorem extends_token {t : Token} {w : List Char} (h : Spells t w) : Extends [t] .between w :=
  ⟨trivial, fun _ _ rest => .token h rest⟩

theorem extends_open {next : Scan} {w : List Char} (sound : next.Sound) (same : next.pending = w) :
    Extends [] next w :=
  ⟨sound, fun _ _ rest => same ▸ rest⟩

theorem extends_start {c : Char} {next : Scan} {out : List Token}
    (h : start c = some (next, out)) : Extends out next [c] := by
  unfold start at h
  split at h
  · rename_i blank
    cases h
    exact ⟨trivial, fun _ _ rest => rest.blank (by simpa [Blank] using blank)⟩
  split at h
  · rename_i zero
    cases h
    exact extends_open trivial (by simpa [pending] using (beq_iff_eq.mp zero).symm)
  split at h
  · rename_i zero digit
    cases h
    refine extends_open ⟨⟨by simp, by simpa using digit⟩, ?_⟩ rfl
    simpa using zero
  split at h
  · rename_i letter
    cases h
    exact extends_open (by simpa [Sound, Word] using letter) rfl
  split at h
  all_goals cases h
  all_goals first
    | exact extends_open trivial rfl
    | exact extends_open ⟨by simp, by simp⟩ rfl
    | exact extends_token (by constructor)

/-- The step on a character that ends the token and starts the next one. -/
def turn (s : Scan) (c : Char) : Option (Scan × List Token) := do
  let t ← s.complete?
  let (n, ts) ← start c
  pure (n, t :: ts)

theorem extends_turn {s next : Scan} (sound : s.Sound) {c : Char} {out : List Token}
    (h : s.turn c = some (next, out)) : Extends out next (s.pending ++ [c]) := by
  simp only [turn, Option.bind_eq_bind, Option.bind_eq_some_iff, Option.pure_def,
    Option.some.injEq] at h
  obtain ⟨t, ht, ⟨n, ts⟩, hn, e⟩ := h
  cases e
  obtain ⟨soundNext, writes⟩ := extends_start hn
  refine ⟨soundNext, fun us cs rest => ?_⟩
  rw [List.append_assoc]
  exact .token (spells_complete? sound ht) (writes us cs rest)

theorem extends_step {s next : Scan} (sound : s.Sound) {c : Char} {out : List Token}
    (h : s.step c = some (next, out)) : Extends out next (s.pending ++ [c]) := by
  cases s with
  | between => exact extends_start h
  | zero =>
    simp only [step] at h
    split at h
    · rename_i dot
      cases h
      exact extends_open (.inl rfl) (by simp [pending, beq_iff_eq.mp dot])
    · exact extends_turn sound h
  | whole ds =>
    simp only [step] at h
    split at h
    · rename_i digit
      cases h
      obtain ⟨⟨nonempty, digits⟩, first⟩ := sound
      refine extends_open ⟨?_, ?_⟩ (by simp [pending])
      · exact List.reverse_cons ▸ digits_concat digits digit
      · rwa [List.reverse_cons, List.head?_append_of_ne_nil _ nonempty]
    split at h
    · rename_i dot
      cases h
      exact extends_open (.inr sound) (by simp [pending, beq_iff_eq.mp dot])
    · exact extends_turn sound h
  | point ws =>
    simp only [step] at h
    split at h
    · rename_i digit
      cases h
      exact extends_open ⟨sound, by simp, by simpa using digit⟩ (by simp [pending])
    · cases h
  | fraction ws ds =>
    simp only [step] at h
    split at h
    · rename_i digit
      cases h
      obtain ⟨whole, -, digits⟩ := sound
      exact extends_open ⟨whole, List.reverse_cons ▸ digits_concat digits digit⟩ (by simp [pending])
    · exact extends_turn sound h
  | word ls =>
    simp only [step] at h
    split at h
    · rename_i letter
      cases h
      have longer : Word (c :: ls).reverse := List.reverse_cons ▸ word_concat sound letter
      exact extends_open longer (by simp [pending])
    · exact extends_turn sound h
  | quoted q ls =>
    simp only [step] at h
    split at h
    · rename_i close
      cases h
      have spelled : Spells (.literal (.string (String.ofList ls.reverse)))
          (q :: (ls.reverse ++ [q])) := .text sound.1 (by simpa using sound.2)
      obtain rfl := beq_iff_eq.mp close
      exact extends_token (by simpa [pending] using spelled)
    · rename_i inside
      cases h
      refine extends_open ⟨sound.1, ?_⟩ (by simp [pending])
      rw [List.mem_cons, not_or]
      exact ⟨fun e => inside (by simp [e]), sound.2⟩
  | half first =>
    simp only [step] at h
    split at h
    · rename_i o pair
      cases h
      exact extends_token (spells_pair? pair)
    · exact extends_turn sound h

/-- By induction on the characters, over every state of the automaton. -/
theorem writes_of_run {cs : List Char} {s : Scan} (sound : s.Sound) {ts : List Token}
    (h : s.run cs = some ts) : Writes ts (s.pending ++ cs) := by
  induction cs generalizing s ts with
  | nil =>
    cases s with
    | between =>
      cases h
      exact .nil blank_nil
    | _ =>
      simp only [run, finish, Option.map_eq_some_iff] at h
      obtain ⟨t, ht, rfl⟩ := h
      exact .token (spells_complete? sound ht) (.nil blank_nil)
  | cons c rest ih =>
    simp only [run, Option.bind_eq_bind, Option.bind_eq_some_iff, Option.pure_def,
      Option.some.injEq] at h
    obtain ⟨⟨next, out⟩, hs, more, hm, rfl⟩ := h
    obtain ⟨soundNext, writes⟩ := extends_step sound hs
    simpa using writes more rest (ih soundNext hm)

end Scan

theorem writes_of_tokens? {source : String} {ts : List Token} (h : tokens? source = some ts) :
    Writes ts source.toList :=
  @Scan.writes_of_run _ .between trivial _ h

/-! ## What is written is read -/

/-- The characters behind a token do not go on with it. -/
def Apart (t : Token) (cs : List Char) : Prop :=
  ∀ c ∈ cs.head?, if t.closes then continuesWord c = false ∧ c ≠ '.' else c ≠ '='

namespace Scan

theorem run_of_step {s next : Scan} {c : Char} {out : List Token}
    (h : s.step c = some (next, out)) (cs : List Char) :
    s.run (c :: cs) = (next.run cs).map (out ++ ·) := by
  simp only [run, h, Option.bind_eq_bind, Option.bind_some, Option.pure_def]
  cases next.run cs <;> rfl

theorem run_of_step_nil {s next : Scan} {c : Char} (h : s.step c = some (next, []))
    (cs : List Char) : s.run (c :: cs) = next.run cs := by
  rw [run_of_step h]
  cases next.run cs <;> rfl

/-- A state that keeps characters keeps all of them. -/
theorem run_many (keep : List Char → Scan) {cs : List Char}
    (stays : ∀ c ∈ cs, ∀ ls, (keep ls).step c = some (keep (c :: ls), [])) (ls rest : List Char) :
    (keep ls).run (cs ++ rest) = (keep (cs.reverse ++ ls)).run rest := by
  induction cs generalizing ls with
  | nil => rfl
  | cons c cs ih =>
    rw [List.cons_append, run_of_step_nil (stays c List.mem_cons_self ls),
      ih (fun d hd => stays d (List.mem_cons_of_mem c hd))]
    simp

/-- A complete token ends before a character that does not go on with it. -/
theorem run_of_turn {s : Scan} {t : Token} (complete : s.complete? = some t) {cs : List Char}
    (ends : ∀ c ∈ cs.head?, s.step c = s.turn c) :
    s.run cs = (between.run cs).map (t :: ·) := by
  cases cs with
  | nil =>
    cases s with
    | between => cases complete
    | _ => simp [run, finish, complete]
  | cons c rest =>
    have first : between.step c = start c := rfl
    simp only [run, ends c rfl, turn, complete, first, Option.bind_eq_bind, Option.bind_some,
      Option.pure_def]
    cases start c with
    | none => rfl
    | some r =>
      obtain ⟨next, out⟩ := r
      simp only [Option.bind_some]
      cases next.run rest <;> rfl

/-! ### Characters of tokens -/

theorem digit_range {c : Char} (h : c.isDigit = true) : 48 ≤ c.toNat ∧ c.toNat ≤ 57 := by
  simp only [Char.isDigit, Bool.and_eq_true, decide_eq_true_eq] at h
  exact h

theorem letter_range {c : Char} (h : c.isAlpha = true) :
    65 ≤ c.toNat ∧ c.toNat ≤ 90 ∨ 97 ≤ c.toNat ∧ c.toNat ≤ 122 := by
  rcases Bool.or_eq_true_iff.mp h with upper | lower
  · exact .inl (of_decide_eq_true upper)
  · obtain ⟨low, high⟩ := Bool.and_eq_true_iff.mp lower
    exact .inr ⟨of_decide_eq_true low, of_decide_eq_true high⟩

theorem continuesWord_of_digit {c : Char} (h : c.isDigit = true) : continuesWord c = true := by
  simp [continuesWord, h]

theorem continuesWord_of_startsWord {c : Char} (h : startsWord c = true) :
    continuesWord c = true := by
  simp only [startsWord, Bool.or_eq_true] at h
  rcases h with h | h <;> simp [continuesWord, h]

theorem isDigit_of_startsWord {c : Char} (h : startsWord c = true) : c.isDigit = false := by
  simp only [startsWord, Bool.or_eq_true, beq_iff_eq] at h
  rcases h with letter | rfl
  · have := letter_range letter
    cases digit : c.isDigit with
    | false => rfl
    | true =>
      have := digit_range digit
      omega
  · rfl

theorem isBlank_of_continuesWord {c : Char} (h : continuesWord c = true) :
    Text.isBlank c = false := by
  simp only [continuesWord, Bool.or_eq_true, beq_iff_eq] at h
  rcases h with (letter | digit) | rfl
  · have := letter_range letter
    exact Text.isBlank_eq_false (by omega) (by omega)
  · have := digit_range digit
    exact Text.isBlank_eq_false (by omega) (by omega)
  · rfl

theorem start_digit {c : Char} (digit : c.isDigit = true) (first : c ≠ '0') :
    start c = some (.whole [c], []) := by
  simp [start, isBlank_of_continuesWord (continuesWord_of_digit digit), digit, first]

theorem start_letter {c : Char} (letter : startsWord c = true) :
    start c = some (.word [c], []) := by
  have first : c ≠ '0' := by
    rintro rfl
    cases letter
  simp [start, isBlank_of_continuesWord (continuesWord_of_startsWord letter),
    isDigit_of_startsWord letter, letter, first]

theorem start_blank {c : Char} (blank : Text.isBlank c = true) : start c = some (.between, []) := by
  simp [start, blank]

/-! ### Numbers -/

theorem wholeToken?_of_fits {ds : List Char} {i : Int64} (fits : i.toInt = natOfDigits ds) :
    wholeToken? ds = some (.literal (.int i)) := by
  rw [wholeToken?, ← fits, int64?_toInt]
  rfl

/-- Where the automaton stands behind the digits of a whole number. -/
structure BehindWhole (ws : List Char) (s : Scan) : Prop where
  complete : s.complete? = wholeToken? ws
  dot : s.step '.' = some (.point ws.reverse, [])
  ends : ∀ c, continuesWord c = false → c ≠ '.' → s.step c = s.turn c

theorem isDigit_of_ends {c : Char} (h : continuesWord c = false) : c.isDigit = false := by
  cases digit : c.isDigit with
  | false => rfl
  | true => simp [continuesWord_of_digit digit] at h

theorem run_whole {ws : List Char} (whole : Whole ws) :
    ∃ s, BehindWhole ws s ∧ ∀ cs, between.run (ws ++ cs) = s.run cs := by
  rcases whole with rfl | ⟨⟨nonempty, digits⟩, first⟩
  · refine ⟨.zero, ⟨rfl, rfl, ?_⟩, fun cs => run_of_step_nil rfl cs⟩
    intro c _ dot
    simp [step, turn, dot]
  · cases ws with
    | nil => exact absurd rfl nonempty
    | cons d ds =>
      have opened : between.step d = some (.whole [d], []) :=
        start_digit (digits d List.mem_cons_self) (by simpa using first)
      have stays : ∀ c ∈ ds, ∀ ls, (whole ls).step c = some (whole (c :: ls), []) := by
        intro c hc ls
        simp [step, digits c (List.mem_cons_of_mem d hc)]
      refine ⟨.whole (ds.reverse ++ [d]), ⟨by simp [complete?], by simp [step], ?_⟩, fun cs => ?_⟩
      · intro c ends dot
        simp [step, turn, isDigit_of_ends ends, dot]
      · rw [List.cons_append, run_of_step_nil opened, run_many whole stays]

theorem run_fraction (ws : List Char) {fs : List Char} (digits : Digits fs) (cs : List Char) :
    (point ws).run (fs ++ cs) = (fraction ws fs.reverse).run cs := by
  obtain ⟨nonempty, digits⟩ := digits
  cases fs with
  | nil => exact absurd rfl nonempty
  | cons f fs =>
    have opened : (point ws).step f = some (.fraction ws [f], []) := by
      simp [step, digits f List.mem_cons_self]
    have stays : ∀ c ∈ fs, ∀ ls,
        (fraction ws ls).step c = some (fraction ws (c :: ls), []) := by
      intro c hc ls
      simp [step, digits c (List.mem_cons_of_mem f hc)]
    rw [List.cons_append, run_of_step_nil opened, run_many (fraction ws) stays]
    simp

/-! ### Words and texts -/

theorem run_word {w : List Char} (word : Word w) {cs : List Char}
    (ends : ∀ c ∈ cs.head?, continuesWord c = false) :
    between.run (w ++ cs) = (between.run cs).map (wordToken (String.ofList w) :: ·) := by
  cases w with
  | nil => exact word.elim
  | cons l ls =>
    have opened : between.step l = some (.word [l], []) := start_letter word.1
    have stays : ∀ c ∈ ls, ∀ ks, (Scan.word ks).step c = some (.word (c :: ks), []) := by
      intro c hc ks
      simp [step, word.2 c hc]
    rw [List.cons_append, run_of_step_nil opened, run_many Scan.word stays]
    refine run_of_turn (by simp [complete?]) fun c hc => ?_
    simp [step, turn, ends c hc]

theorem run_text {q : Char} (mark : q = '\'' ∨ q = '"') {w : List Char} (inside : q ∉ w)
    (cs : List Char) :
    between.run (q :: (w ++ [q]) ++ cs) =
      (between.run cs).map (.literal (.string (String.ofList w)) :: ·) := by
  have opened : between.step q = some (.quoted q [], []) := by
    rcases mark with rfl | rfl <;> rfl
  have stays : ∀ c ∈ w, ∀ ls, (quoted q ls).step c = some (quoted q (c :: ls), []) := by
    intro c hc ls
    have other : c ≠ q := fun e => inside (e ▸ hc)
    simp [step, other]
  have closed : (quoted q w.reverse).step q =
      some (.between, [.literal (.string (String.ofList w))]) := by
    simp [step]
  rw [List.cons_append, List.append_assoc, run_of_step_nil opened, run_many (quoted q) stays,
    List.append_nil, List.singleton_append, run_of_step closed]
  rfl

/-! ### Operators -/

theorem pair?_of_ne {c d : Char} {t : Token} (lone : lone? c = some t) (h : d ≠ '=') :
    pair? c d = none := by
  unfold lone? at lone
  split at lone
  all_goals cases lone
  all_goals
    unfold pair?
    split <;> simp_all

theorem run_single {c : Char} {t : Token} (opened : start c = some (.between, [t]))
    (cs : List Char) : between.run (c :: cs) = (between.run cs).map (t :: ·) :=
  @run_of_step between _ _ _ opened cs

/-- A sign that could start a longer one, before a character that does not make it longer. -/
theorem run_lone {c : Char} {t : Token} (opened : start c = some (.half c, []))
    (lone : lone? c = some t) {cs : List Char} (ends : ∀ d ∈ cs.head?, d ≠ '=') :
    between.run (c :: cs) = (between.run cs).map (t :: ·) := by
  have first : between.step c = some (.half c, []) := opened
  have complete : (half c).complete? = some t := lone
  rw [run_of_step_nil first]
  refine run_of_turn complete fun d hd => ?_
  simp [step, turn, pair?_of_ne lone (ends d hd)]

theorem run_pair {c d : Char} {o : BinaryOp} (opened : start c = some (.half c, []))
    (pair : pair? c d = some o) (cs : List Char) :
    between.run (c :: d :: cs) = (between.run cs).map (.op o :: ·) := by
  have first : between.step c = some (.half c, []) := opened
  have second : (half c).step d = some (.between, [.op o]) := by simp [step, pair]
  rw [run_of_step_nil first, run_of_step second]
  rfl

theorem run_op (o : BinaryOp) {cs : List Char} (ends : ∀ c ∈ cs.head?, c ≠ '=') :
    between.run (o.symbol.toList ++ cs) = (between.run cs).map (.op o :: ·) := by
  cases o with
  | or => exact run_pair rfl rfl cs
  | and => exact run_pair rfl rfl cs
  | eq => exact run_pair rfl rfl cs
  | ne => exact run_pair rfl rfl cs
  | le => exact run_pair rfl rfl cs
  | ge => exact run_pair rfl rfl cs
  | lt => exact run_lone rfl rfl ends
  | gt => exact run_lone rfl rfl ends
  | add => exact run_single rfl cs
  | sub => exact run_single rfl cs
  | mul => exact run_single rfl cs
  | div => exact run_single rfl cs
  | rem => exact run_single rfl cs

/-- A spelled token is read as a whole where the characters behind it stand apart. -/
theorem run_spells {t : Token} {w : List Char} (h : Spells t w) {cs : List Char}
    (apart : Apart t cs) : between.run (w ++ cs) = (between.run cs).map (t :: ·) := by
  cases h with
  | integer whole fits =>
    obtain ⟨s, behind, same⟩ := run_whole whole
    rw [same]
    exact run_of_turn (behind.complete.trans (wholeToken?_of_fits fits)) fun c hc =>
      behind.ends c (apart c hc).1 (apart c hc).2
  | decimal whole fraction =>
    obtain ⟨s, behind, same⟩ := run_whole whole
    rw [List.append_assoc, same, List.cons_append, run_of_step_nil behind.dot,
      run_fraction _ fraction]
    refine run_of_turn (by simp [complete?, fractionToken]) fun c hc => ?_
    simp [step, turn, isDigit_of_ends (apart c hc).1]
  | text mark inside => exact run_text mark inside cs
  | true =>
    have word : Word ['t', 'r', 'u', 'e'] := ⟨rfl, List.all_eq_true.mp rfl⟩
    exact run_word word fun c hc => (apart c hc).1
  | false =>
    have word : Word ['f', 'a', 'l', 's', 'e'] := ⟨rfl, List.all_eq_true.mp rfl⟩
    exact run_word word fun c hc => (apart c hc).1
  | null =>
    have word : Word ['n', 'u', 'l', 'l'] := ⟨rfl, List.all_eq_true.mp rfl⟩
    exact run_word word fun c hc => (apart c hc).1
  | name word free =>
    rw [run_word word fun c hc => (apart c hc).1]
    simp only [keywords, List.mem_cons, List.not_mem_nil, or_false, not_or] at free
    simp [wordToken, free]
  | openParen => exact run_single rfl cs
  | closeParen => exact run_single rfl cs
  | question => exact run_single rfl cs
  | colon => exact run_single rfl cs
  | bang => exact run_lone rfl rfl apart
  | op o => exact run_op o apart

theorem run_blank {ws : List Char} (blank : Blank ws) (cs : List Char) :
    between.run (ws ++ cs) = between.run cs :=
  run_many (fun _ => between) (fun c hc _ => start_blank (blank c hc)) [] cs

end Scan

/-! ### Rows of tokens -/

theorem ends_of_blank {c : Char} (blank : Text.isBlank c = true) :
    continuesWord c = false ∧ c ≠ '.' ∧ c ≠ '=' := by
  refine ⟨?_, ?_, ?_⟩
  · cases h : continuesWord c with
    | false => rfl
    | true => simp [Scan.isBlank_of_continuesWord h] at blank
  · rintro rfl
    cases blank
  · rintro rfl
    cases blank

theorem head_of_joins {u : Token} {w : List Char} (h : Spells u w) (joins : u.joins = true) :
    ∃ c rest, w = c :: rest ∧ continuesWord c = false ∧ c ≠ '.' := by
  cases h with
  | closeParen => exact ⟨_, _, rfl, rfl, by decide⟩
  | question => exact ⟨_, _, rfl, rfl, by decide⟩
  | colon => exact ⟨_, _, rfl, rfl, by decide⟩
  | op o => cases o <;> exact ⟨_, _, rfl, rfl, by decide⟩
  | _ => cases joins

theorem head_of_opens {u : Token} {w : List Char} (h : Spells u w) (opens : u.opens = true) :
    ∃ c rest, w = c :: rest ∧ c ≠ '=' := by
  have digit : ∀ {ds : List Char}, Whole ds → ∃ c rest, ds = c :: rest ∧ c ≠ '=' := by
    rintro ds (rfl | ⟨⟨nonempty, digits⟩, -⟩)
    · exact ⟨_, _, rfl, by decide⟩
    · cases ds with
      | nil => exact absurd rfl nonempty
      | cons d ds =>
        refine ⟨d, ds, rfl, ?_⟩
        rintro rfl
        cases digits '=' List.mem_cons_self
  cases h with
  | integer whole fits => exact digit whole
  | decimal whole fraction =>
    obtain ⟨c, rest, rfl, other⟩ := digit whole
    exact ⟨c, _, rfl, other⟩
  | text mark inside => rcases mark with rfl | rfl <;> exact ⟨_, _, rfl, by decide⟩
  | true => exact ⟨_, _, rfl, by decide⟩
  | false => exact ⟨_, _, rfl, by decide⟩
  | null => exact ⟨_, _, rfl, by decide⟩
  | name word free =>
    cases w with
    | nil => exact word.elim
    | cons c cs =>
      refine ⟨c, cs, rfl, ?_⟩
      rintro rfl
      cases word.1
  | openParen => exact ⟨_, _, rfl, by decide⟩
  | bang => exact ⟨_, _, rfl, by decide⟩
  | op o =>
    cases o with
    | sub => exact ⟨_, _, rfl, by decide⟩
    | _ => cases opens
  | _ => cases opens

/-- Tokens that may stand behind another one start with a character that does not go on with
it. -/
theorem apart_of_writes {t : Token} {ts : List Token} {cs : List Char} (h : Writes ts cs)
    (meets : ∀ u ∈ ts.head?, Token.Meets t u) : Apart t cs := by
  have blank_first : ∀ c, Text.isBlank c = true →
      if t.closes then continuesWord c = false ∧ c ≠ '.' else c ≠ '=' := by
    intro c blank
    obtain ⟨word, dot, equals⟩ := ends_of_blank blank
    split
    · exact ⟨word, dot⟩
    · exact equals
  cases h with
  | nil blank => exact fun c hc => blank_first c (blank c (List.mem_of_mem_head? hc))
  | @cons u _ ws w rest blank token _ =>
    have meet : Token.Meets t u := meets u rfl
    cases ws with
    | cons b _ =>
      rintro c hc
      obtain rfl : b = c := by simpa using hc
      exact blank_first b (blank b List.mem_cons_self)
    | nil =>
      unfold Token.Meets at meet
      split at meet
      · rename_i closes
        obtain ⟨c, more, rfl, first⟩ := head_of_joins token meet
        simpa [Apart, closes] using first
      · rename_i closes
        obtain ⟨c, more, rfl, first⟩ := head_of_opens token meet
        simpa [Apart, closes] using first

/-- By induction on the tokens: each stands apart from the characters of those behind it. -/
theorem tokens?_of_writes {source : String} {ts : List Token} (h : Writes ts source.toList)
    (meets : ts.IsChain Token.Meets) : tokens? source = some ts := by
  show Scan.between.run source.toList = some ts
  generalize source.toList = cs at h
  induction h with
  | nil blank => simpa [Scan.run, Scan.finish] using Scan.run_blank blank []
  | cons blank token rest ih =>
    obtain ⟨first, meets⟩ := List.isChain_cons.mp meets
    rw [Scan.run_blank blank, Scan.run_spells token (apart_of_writes rest first), ih meets]
    rfl

end ServerUi.Expr
