import Mathlib.Data.Fintype.EquivFin
import Mathlib.Logic.Relation
import ServerUi.State.Store

/-! # The order of evaluation is exact

A formula reads another one if it names its key.  The order holds exactly the formulas from which
no cycle of reads can be reached (`mem_order_iff`), each once, and none names its own key or the
key of a later one (`order_ordered`).
-/

namespace ServerUi.Plan

open Relation

/-- The formula under one key names another key that has a formula. -/
def Reads (formulas : Entries Expr) (a b : String) : Prop :=
  ∃ e, (a, e) ∈ formulas ∧ b ∈ e.names ∧ b ∈ formulas.keys

/-- Whoever follows the reads from this key can come onto a cycle. -/
def ReachesCycle (formulas : Entries Expr) (k : String) : Prop :=
  ∃ c, ReflTransGen (Reads formulas) k c ∧ TransGen (Reads formulas) c c

/-- No formula names its own key or that of a later one, and no key comes twice. -/
structure Ordered (plan : Entries Expr) : Prop where
  pairwise : plan.Pairwise fun p q => p.1 ≠ q.1 ∧ q.1 ∉ p.2.names
  self : ∀ p ∈ plan, p.1 ∉ p.2.names

/-! ## Cycles -/

theorem exists_reads_of_reachesCycle {formulas : Entries Expr} {a : String}
    (h : ReachesCycle formulas a) : ∃ b, Reads formulas a b ∧ ReachesCycle formulas b := by
  obtain ⟨c, hac, hcc⟩ := h
  rcases hac.cases_head with rfl | ⟨b, hab, hbc⟩
  · obtain ⟨b, hab, hba⟩ := TransGen.head'_iff.mp hcc
    exact ⟨b, hab, a, hba, hcc⟩
  · exact ⟨b, hab, c, hbc, hcc⟩

/-- Finitely many keys that each read another one of them all reach a cycle: else the keys
reached from one of them would be well-founded under reading, and a least one reads nothing. -/
theorem reachesCycle_of_closed {formulas : Entries Expr} (keys : List String)
    (h : ∀ a ∈ keys, ∃ b ∈ keys, Reads formulas a b) {k : String} (hk : k ∈ keys) :
    ReachesCycle formulas k := by
  by_contra hno
  let Reached := {a : String // a ∈ keys ∧ ReflTransGen (Reads formulas) k a}
  let below : Reached → Reached → Prop := fun a b => TransGen (Reads formulas) b.1 a.1
  have : Finite Reached :=
    Finite.of_injective (fun a : Reached => (⟨a.1, a.2.1⟩ : {a // a ∈ keys}))
      fun a b e => Subtype.ext (congrArg (·.1) e)
  have : IsTrans Reached below := ⟨fun _ _ _ hab hbc => hbc.trans hab⟩
  have : Std.Irrefl below := ⟨fun a ha => hno ⟨a.1, a.2.2, ha⟩⟩
  have wf : WellFounded below := Finite.wellFounded_of_trans_of_irrefl below
  have none_reached : ∀ a : Reached, False := by
    intro a
    induction a using wf.induction with
    | _ a ih =>
      obtain ⟨b, hb, hab⟩ := h a.1 a.2.1
      exact ih ⟨b, hb, a.2.2.tail hab⟩ (TransGen.single hab)
  exact none_reached ⟨k, hk, .refl⟩

/-! ## Rounds -/

theorem mem_keys {formulas : Entries Expr} {p : String × Expr} (h : p ∈ formulas) :
    p.1 ∈ formulas.keys :=
  List.mem_map_of_mem h

theorem exists_of_mem_keys {formulas : Entries Expr} {k : String} (h : k ∈ formulas.keys) :
    ∃ e, (k, e) ∈ formulas := by
  obtain ⟨p, hp, rfl⟩ := List.mem_map.mp h
  exact ⟨p.2, hp⟩

theorem eq_of_mem_of_nodup {formulas : Entries Expr} (hn : formulas.keys.Nodup) {k : String}
    {e f : Expr} (he : (k, e) ∈ formulas) (hf : (k, f) ∈ formulas) : e = f :=
  congrArg Prod.snd (List.inj_on_of_nodup_map hn he hf rfl)

theorem isReady_iff {waiting : Entries Expr} {e : Expr} :
    isReady waiting e = true ↔ ∀ k ∈ e.names, k ∉ waiting.keys := by
  simp [isReady]

/-- A round with a formula that is ready takes all of that kind and leaves the others to the next
rounds. -/
theorem rounds_succ_of_ready {waiting : Entries Expr} {p : String × Expr} (waits : p ∈ waiting)
    (ready : isReady waiting p.2 = true) (n : Nat) :
    rounds (n + 1) waiting = (waiting.filter fun q => isReady waiting q.2) ++
      rounds n (waiting.filter fun q => !isReady waiting q.2) := by
  have taken : (waiting.filter fun q => isReady waiting q.2).isEmpty = false :=
    List.isEmpty_eq_false_iff.mpr (List.ne_nil_of_mem (List.mem_filter.mpr ⟨waits, ready⟩))
  rw [rounds, taken]
  rfl

/-- A round that finds nothing ready is the last one. -/
theorem rounds_succ_of_stuck {waiting : Entries Expr}
    (stuck : ¬ ∃ p ∈ waiting, isReady waiting p.2 = true) (n : Nat) :
    rounds (n + 1) waiting = [] := by
  have taken : (waiting.filter fun q => isReady waiting q.2) = [] :=
    List.filter_eq_nil_iff.mpr fun p waits ready => stuck ⟨p, waits, ready⟩
  rw [rounds, taken]
  rfl

/-- Fewer formulas wait after a round. -/
theorem length_unready_lt {waiting : Entries Expr} {p : String × Expr} (waits : p ∈ waiting)
    (ready : isReady waiting p.2 = true) :
    (waiting.filter fun q => !isReady waiting q.2).length < waiting.length := by
  have taken : 0 < (waiting.filter fun q => isReady waiting q.2).length :=
    List.length_pos_of_mem (List.mem_filter.mpr ⟨waits, ready⟩)
  have total := List.length_eq_length_filter_add (l := waiting) fun q => isReady waiting q.2
  omega

/-- What a round takes is ready, or it is taken later. -/
theorem mem_rounds_succ {n : Nat} {waiting : Entries Expr} {p : String × Expr} :
    p ∈ rounds (n + 1) waiting ↔
      (p ∈ waiting ∧ isReady waiting p.2 = true) ∨
        (∃ q ∈ waiting, isReady waiting q.2 = true) ∧
          p ∈ rounds n (waiting.filter fun q => !isReady waiting q.2) := by
  by_cases some_ready : ∃ q ∈ waiting, isReady waiting q.2 = true
  · obtain ⟨q, waits, ready⟩ := some_ready
    rw [rounds_succ_of_ready waits ready, List.mem_append, List.mem_filter]
    constructor
    · rintro (hp | hp)
      · exact .inl hp
      · exact .inr ⟨⟨q, waits, ready⟩, hp⟩
    · rintro (hp | ⟨-, hp⟩)
      · exact .inl hp
      · exact .inr hp
  · rw [rounds_succ_of_stuck some_ready]
    constructor
    · intro hp
      cases hp
    · rintro (⟨hp, ready⟩ | ⟨some, -⟩)
      · exact absurd ⟨p, hp, ready⟩ some_ready
      · exact absurd some some_ready

theorem mem_of_mem_rounds {n : Nat} {waiting : Entries Expr} {p : String × Expr}
    (h : p ∈ rounds n waiting) : p ∈ waiting := by
  induction n generalizing waiting with
  | zero => simp [rounds] at h
  | succ n ih =>
    rcases mem_rounds_succ.mp h with ⟨hp, -⟩ | ⟨-, hp⟩
    · exact hp
    · exact (List.mem_filter.mp (ih hp)).1

theorem rounds_ordered (n : Nat) (waiting : Entries Expr) (hn : waiting.keys.Nodup) :
    Ordered (rounds n waiting) := by
  induction n generalizing waiting with
  | zero => exact ⟨.nil, by simp [rounds]⟩
  | succ n ih =>
    have distinct : waiting.Pairwise fun p q => p.1 ≠ q.1 := List.pairwise_map.mp hn
    have rest := ih (waiting.filter fun p => !isReady waiting p.2)
      (hn.sublist (List.filter_sublist.map _))
    -- what is ready names nothing that waits, neither this round's keys nor later ones
    have ready : ∀ p ∈ waiting, isReady waiting p.2 = true → ∀ q ∈ waiting, q.1 ∉ p.2.names :=
      fun p _ hp q hq hname => isReady_iff.mp hp _ hname (mem_keys hq)
    constructor
    · simp only [rounds]
      split
      · exact .nil
      · refine List.pairwise_append.mpr ⟨?_, rest.pairwise, ?_⟩
        · refine (distinct.filter _).imp_of_mem fun {p q} hp hq hne => ⟨hne, ?_⟩
          exact ready p (List.mem_filter.mp hp).1 (List.mem_filter.mp hp).2 q
            (List.mem_filter.mp hq).1
        · intro p hp q hq
          obtain ⟨hp, hready⟩ := List.mem_filter.mp hp
          obtain ⟨hq, hlater⟩ := List.mem_filter.mp (mem_of_mem_rounds hq)
          refine ⟨fun e => ?_, ready p hp hready q hq⟩
          have : p = q := List.inj_on_of_nodup_map hn hp hq e
          subst this
          simp [hready] at hlater
    · intro p hp
      rcases mem_rounds_succ.mp hp with ⟨hp, hready⟩ | ⟨-, hp⟩
      · exact ready p hp hready p hp
      · exact rest.self p hp

/-- Enough rounds leave only formulas that reach a cycle. -/
theorem mem_rounds_or_reachesCycle {formulas : Entries Expr} {n : Nat} (waiting : Entries Expr)
    (hsub : ∀ p ∈ waiting, p ∈ formulas) (hlen : waiting.length ≤ n) {p : String × Expr}
    (hp : p ∈ waiting) : p ∈ rounds n waiting ∨ ReachesCycle formulas p.1 := by
  induction n generalizing waiting with
  | zero =>
    rw [List.length_eq_zero_iff.mp (Nat.le_zero.mp hlen)] at hp
    simp at hp
  | succ n ih =>
    by_cases hready : isReady waiting p.2 = true
    · exact .inl (mem_rounds_succ.mpr (.inl ⟨hp, hready⟩))
    by_cases some_ready : ∃ q ∈ waiting, isReady waiting q.2 = true
    · have shorter : (waiting.filter fun q => !isReady waiting q.2).length ≤ n := by
        obtain ⟨q, hq, hr⟩ := some_ready
        exact Nat.le_of_lt_succ (Nat.lt_of_lt_of_le (length_unready_lt hq hr) hlen)
      rcases ih (waiting.filter fun q => !isReady waiting q.2)
          (fun q hq => hsub q (List.mem_filter.mp hq).1) shorter
          (List.mem_filter.mpr ⟨hp, by simpa using hready⟩) with h | h
      · exact .inl (mem_rounds_succ.mpr (.inr ⟨some_ready, h⟩))
      · exact .inr h
    · refine .inr (reachesCycle_of_closed waiting.keys ?_ (mem_keys hp))
      intro a ha
      obtain ⟨e, he⟩ := exists_of_mem_keys ha
      have blocked : ¬ isReady waiting e = true := fun h => some_ready ⟨_, he, h⟩
      simp only [isReady_iff, not_forall, not_not] at blocked
      obtain ⟨b, hb, hwait⟩ := blocked
      obtain ⟨f, hf⟩ := exists_of_mem_keys hwait
      exact ⟨b, hwait, e, hsub _ he, hb, mem_keys (hsub _ hf)⟩

/-- What a round takes reaches no cycle, as long as what was taken before reaches none. -/
theorem not_reachesCycle_of_mem_rounds {formulas : Entries Expr} (hn : formulas.keys.Nodup)
    {n : Nat} {waiting : Entries Expr} (hsub : ∀ p ∈ waiting, p ∈ formulas)
    (hdone : ∀ k ∈ formulas.keys, k ∉ waiting.keys → ¬ ReachesCycle formulas k)
    {p : String × Expr} (hp : p ∈ rounds n waiting) : ¬ ReachesCycle formulas p.1 := by
  induction n generalizing waiting with
  | zero => simp [rounds] at hp
  | succ n ih =>
    have ready : ∀ q ∈ waiting, isReady waiting q.2 = true → ¬ ReachesCycle formulas q.1 := by
      intro q hq hr hcycle
      obtain ⟨b, ⟨e, he, hb, hkey⟩, hb'⟩ := exists_reads_of_reachesCycle hcycle
      have : e = q.2 := eq_of_mem_of_nodup hn he (hsub q hq)
      subst this
      exact hdone b hkey (isReady_iff.mp hr b hb) hb'
    rcases mem_rounds_succ.mp hp with ⟨hp, hr⟩ | ⟨-, hp⟩
    · exact ready p hp hr
    · refine ih (fun q hq => hsub q (List.mem_filter.mp hq).1) ?_ hp
      intro k hk hleft
      by_cases hwait : k ∈ waiting.keys
      · obtain ⟨e, he⟩ := exists_of_mem_keys hwait
        refine ready (k, e) he ?_
        by_contra hr
        exact hleft (mem_keys (List.mem_filter.mpr ⟨he, by simpa using hr⟩))
      · exact hdone k hk hwait

/-! ## The order -/

theorem order_ordered {formulas : Entries Expr} (hn : formulas.keys.Nodup) :
    Ordered (order formulas) :=
  rounds_ordered _ _ hn

theorem mem_order_iff {formulas : Entries Expr} (hn : formulas.keys.Nodup) {p : String × Expr} :
    p ∈ order formulas ↔ p ∈ formulas ∧ ¬ ReachesCycle formulas p.1 := by
  constructor
  · intro hp
    refine ⟨mem_of_mem_rounds hp, not_reachesCycle_of_mem_rounds hn (fun _ h => h) ?_ hp⟩
    exact fun k hk hno => absurd hk hno
  · rintro ⟨hp, hno⟩
    exact (mem_rounds_or_reachesCycle _ (fun _ h => h) (Nat.le_refl _) hp).resolve_right hno

end ServerUi.Plan
