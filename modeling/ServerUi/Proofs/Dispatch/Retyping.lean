import ServerUi.Proofs.Decimal.Digits
import ServerUi.Proofs.Dispatch.Repeats

/-! # Typing what is shown

An input shows the plain text of the value that is bound to it, and sends that text back when it is
left.  For a text, a truth value or an integer the text stands for the value again
(`coerce_display`), so the write that comes of it puts the value where it is: nothing in the store
moves, computed keys included, and nobody is told.
-/

namespace ServerUi

namespace Decimal

theorem isBlank_signedDigits (n : Int) : ∀ c ∈ signedDigits n, Text.isBlank c = false := by
  have digit {c : Char} (hc : c ∈ digits n.natAbs) : Text.isBlank c = false := by
    have range := all_isDigit_digits _ c hc
    simp only [Char.isDigit, Bool.and_eq_true, decide_eq_true_eq] at range
    have low : 48 ≤ c.toNat := range.1
    have high : c.toNat ≤ 57 := range.2
    exact Text.isBlank_eq_false (by omega) (by omega)
  unfold signedDigits
  split
  · intro c hc
    rcases List.mem_cons.mp hc with rfl | hc
    · rfl
    · exact digit hc
  · exact fun c hc => digit hc

end Decimal

/-! ## Texts that stand for their value -/

/-- Texts, truth values and integers: the values that an input shows in full. -/
inductive Value.Typeable : Value → Prop
  | string (s : String) : Typeable (.string s)
  | bool (b : Bool) : Typeable (.bool b)
  | int (i : Int64) : Typeable (.int i)

namespace BindingKind

theorem typedNumber_intText (i : Int64) : typedNumber (intText i) = .int i := by
  have chars : Text.trimBlank (intText i).toList = Decimal.signedDigits i.toInt := by
    rw [intText, String.toList_ofList,
      Text.trimBlank_eq_self (Decimal.isBlank_signedDigits i.toInt)]
  simp only [typedNumber, chars, Decimal.integerOf?_signedDigits, Option.bind_some, int64?_toInt]

/-- The text that is shown for a value of a kind becomes the value again. -/
theorem coerce_display {k : BindingKind} {v : Value} (admitted : k.admits v = true)
    (typeable : v.Typeable) : k.coerce (.string v.display) = v := by
  cases typeable with
  | string s =>
    cases k with
    | string => rfl
    | _ => cases admitted
  | bool b =>
    cases k with
    | boolean => cases b <;> rfl
    | _ => cases admitted
  | int i =>
    cases k with
    | number => exact typedNumber_intText i
    | _ => cases admitted

end BindingKind

theorem Value.Typeable.looseEq_self {v : Value} (h : v.Typeable) : v.looseEq v = true := by
  rw [Value.looseEq_self]
  cases h <;> rfl

namespace Store

variable {block : StateBlock} {s : Store}

/-! ## Stores in use are settled -/

theorem settled_ofBlock (block : StateBlock) : (ofBlock block).Settled :=
  recompute_recompute (Schema.plan_ordered block) _

/-- A write leaves a settled store settled, whether it is accepted or not. -/
theorem Settled.kept (hs : s.schema = Schema.ofBlock block) (h : s.Settled) (key : String)
    (v : Value) : (s.write key v).1.Settled := by
  cases applied : (s.write key v).2.isApplied with
  | true => exact settled_of_isApplied hs applied
  | false =>
    rw [write_of_not_applied applied]
    exact h

/-- After any uses a store has the types of its block, and its plan has nothing left to do. -/
theorem settled_after (block : StateBlock) (uses : List Use) :
    ∃ s, (ofBlock block).after uses = some s ∧ s.Typed block ∧ s.Settled :=
  after_keeps (P := fun s => s.Typed block ∧ s.Settled)
    (fun _ key v h => ⟨h.1.write key v, h.2.kept h.1.schema key v⟩)
    ⟨typed_ofBlock block, settled_ofBlock block⟩ uses

/-! ## Typing it again -/

/-- **Typing what is shown changes nothing.**  Take the store of any state block after any uses,
and a plain key that holds a text, a truth value or an integer.  Writing the text that is shown for
the value is accepted, leaves every stored value as it is, and raises no event. -/
theorem retyping_is_silent (block : StateBlock) (uses : List Use) {key : String} {b : Binding}
    (hb : block.bindings.find? key = some b) (plain : b.source? = none) :
    ∃ s, (ofBlock block).after uses = some s ∧
      ∀ v, s.get? key = some v → v.Typeable →
        s.write key (.string v.display) = (s, .applied v v []) := by
  obtain ⟨s, reached, typed, settled⟩ := settled_after block uses
  refine ⟨s, reached, fun v held typeable => ?_⟩
  obtain ⟨w, held', admitted⟩ := typed.shaped.bound key b hb
  obtain rfl : v = w := Option.some.inj (held.symm.trans held')
  have back := BindingKind.coerce_display admitted typeable
  have bound : s.schema.bindings.find? key = some b := by
    rw [typed.schema]
    exact hb
  have unplanned : s.schema.isComputed key = false := by
    rw [typed.schema]
    exact Schema.isComputed_of_plain hb plain
  have written := settled.write (v := .string v.display) bound unplanned (back.symm ▸ held)
  rw [written, back, eventsOf, if_pos typeable.looseEq_self]

/-- Twice the least integer is none, so the text that reads it keeps what it was.  The least integer
typed once more moves neither. -/
theorem least_reading_retyped :
    ∃ s, (ofBlock meterBlock).after
        [.set "reading" (.int 21), .set "reading" (.int Int64.minValue)] = some s ∧
      s.get? "reading" = some (.int Int64.minValue) ∧ s.get? "twice" = some (.string "42") ∧
      s.write "reading" (.string "-9223372036854775808") =
        (s, .applied (.int Int64.minValue) (.int Int64.minValue) []) := by
  let uses : List Use := [.set "reading" (.int 21), .set "reading" (.int Int64.minValue)]
  have values : ((ofBlock meterBlock).after uses).map (fun s =>
      ((s.get? "reading").bind Value.int?, (s.get? "twice").bind Value.string?)) =
        some (some Int64.minValue, some "42") := by
    decide +kernel
  have bound : meterBlock.bindings.find? "reading" = some (.plain "reading" .number) := rfl
  obtain ⟨s, reached, silent⟩ := retyping_is_silent meterBlock uses bound rfl
  rw [reached, Option.map_some, Option.some.injEq, Prod.mk.injEq, Option.bind_eq_some_iff,
    Option.bind_eq_some_iff] at values
  obtain ⟨⟨reading, held, integer⟩, twice, text, string⟩ := values
  rw [Value.int?_eq_some_iff] at integer
  rw [Value.string?_eq_some_iff] at string
  subst integer string
  exact ⟨s, reached, held, text, silent _ held (.int Int64.minValue)⟩

end Store

end ServerUi
