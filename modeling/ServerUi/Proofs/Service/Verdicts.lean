import ServerUi.Proofs.Json.Reading
import ServerUi.Proofs.Json.Records
import ServerUi.Proofs.Validation.Endings
import ServerUi.Service

/-! # The verdicts of the validation service

The service answers one of the two questions about a piece of code, and the other one counts as
failed.  So whatever comes back decides on a failure (`exists_failure`), and no run that asks the
service completes (`no_reply_completes`).
-/

namespace ServerUi.Service

open ServerUi.Http (Response)
open ServerUi.Json (Document Record Tree)
open ServerUi.Validation

/-! ## Replies as they are written -/

/-- What an entry gives; null counts as nothing. -/
def given? (es : Entries Document) (name : String) : Option Document :=
  (es.find? name).filter fun d => !d.isNull

def named (names : List String) (es : Entries Document) : Entries Document :=
  es.filter fun e => names.contains e.1

/-- The body writes a reply with an object as its payload.  No known field of them comes twice, and
each is of its kind; what else stands there is left open. -/
structure WritesReply (body : String) (es fs : Entries Document) : Prop where
  read : Document.read body = some (.object es)
  once : (named ["success", "any"] es).keys.Nodup
  success : ∀ d ∈ es.find? "success", ∃ b, d = .bool b
  payload : es.find? "any" = some (.object fs)
  payloadOnce : (named ["isValid", "json", "stateManager"] fs).keys.Nodup
  isValid : ∀ d ∈ given? fs "isValid", ∃ b, d = .bool b
  trees : ∀ name ∈ ["json", "stateManager"], ∀ d ∈ given? fs name, ∃ t, Tree.ofDocument d = some t

variable {es fs : Entries Document} {body name : String} {names : List String}

theorem find?_named (known : name ∈ names) : (named names es).find? name = es.find? name := by
  rw [named, Record.find?_filter fun k => names.contains k,
    if_pos (List.contains_iff_mem.mpr known)]

theorem optional_named {α : Type} (known : name ∈ names) (read : Document → Option α) :
    Record.optional ⟨named names es⟩ name read =
      match given? es name with
      | none => some none
      | some d => (read d).map some := by
  unfold Record.optional given?
  rw [find?_named known]
  cases es.find? name with
  | none => rfl
  | some d => cases d <;> rfl

theorem presence_named (known : name ∈ names)
    (h : ∀ d ∈ given? es name, ∃ t, Tree.ofDocument d = some t) :
    Finding.presence ⟨named names es⟩ name = some (given? es name).isSome := by
  rw [Finding.presence, optional_named known]
  cases given : given? es name with
  | none => rfl
  | some d =>
    obtain ⟨t, ht⟩ := h d given
    simp [ht]

theorem optional_bool_named (known : name ∈ names)
    (h : ∀ d ∈ given? es name, ∃ b, d = .bool b) :
    Record.optional ⟨named names es⟩ name (·.bool?) = some ((given? es name).bind (·.bool?)) := by
  rw [optional_named known]
  cases given : given? es name with
  | none => rfl
  | some d =>
    obtain ⟨b, rfl⟩ := h d given
    rfl

def written (fs : Entries Document) : Finding where
  isValid := (given? fs "isValid").bind (·.bool?)
  hasDocument := (given? fs "json").isSome
  hasState := (given? fs "stateManager").isSome

theorem WritesReply.finding (h : WritesReply body es fs) :
    Finding.ofDocument (.object fs) = some (written fs) := by
  have known := Record.ofDocument_known
    [.defaulted "isValid", .defaulted "json", .defaulted "stateManager"] h.payloadOnce
  change _ = some (Record.mk (named ["isValid", "json", "stateManager"] fs)) at known
  rw [Finding.ofDocument, known, Option.bind_eq_bind, Option.bind_some,
    optional_bool_named (by decide) h.isValid,
    presence_named (by decide) (h.trees "json" (by decide)),
    presence_named (by decide) (h.trees "stateManager" (by decide))]
  rfl

/-- A reply that is written is read, and its payload is what was found out. -/
theorem WritesReply.decode (h : WritesReply body es fs) :
    ∃ success, ValidatorReply.decode body = some ⟨success, written fs⟩ := by
  have known := Record.ofDocument_known [.defaulted "success", .defaulted "any"] h.once
  change _ = some (Record.mk (named ["success", "any"] es)) at known
  have success : ∃ success,
      Record.defaulted ⟨named ["success", "any"] es⟩ "success" false (·.bool?) = some success := by
    rw [Record.defaulted, find?_named (by decide)]
    cases found : es.find? "success" with
    | none => exact ⟨false, rfl⟩
    | some d =>
      obtain ⟨b, rfl⟩ := h.success d found
      exact ⟨b, rfl⟩
  have payload : Record.defaulted ⟨named ["success", "any"] es⟩ "any" .nothing Finding.ofDocument =
      some (written fs) := by
    rw [Record.defaulted, find?_named (by decide), h.payload]
    exact h.finding
  obtain ⟨success, found⟩ := success
  refine ⟨success, ?_⟩
  rw [ValidatorReply.decode, h.read, Option.bind_some, ValidatorReply.ofDocument, known,
    Option.bind_eq_bind, Option.bind_some, found, payload]
  rfl

/-! ## Verdicts -/

theorem endingOf_verdict (f : Finding) :
    endingOf f.verdict = .failed
      (match f.isValid with
      | some true => .stepFailed 1
      | some false => .stepFailed 0
      | none =>
        if f.hasDocument || f.hasState then .stepFailed 0 else .error .unexpectedPayload) := by
  obtain ⟨isValid, hasDocument, hasState⟩ := f
  cases isValid with
  | some valid => cases valid <;> rfl
  | none => cases hasDocument <;> cases hasState <;> rfl

/-- Whatever comes back from the service decides on a failure. -/
theorem exists_failure (came : Except Http.Failure Response) :
    ∃ reason, endingOf (Validator.interpret came) = .failed reason := by
  cases came with
  | error e => exact ⟨_, rfl⟩
  | ok response =>
    unfold Validator.interpret
    dsimp only
    split
    · split
      · exact ⟨_, endingOf_verdict _⟩
      · exact ⟨_, rfl⟩
    · exact ⟨_, rfl⟩

theorem interpret_ok {response : Response} (success : response.isSuccess = true)
    {reply : ValidatorReply} (decoded : ValidatorReply.decode response.body = some reply) :
    Validator.interpret (.ok response) = reply.finding.verdict := by
  simp only [Validator.interpret, success, if_true, decoded]

/-- **No reply completes a check.**  Take a validation service, a piece of code and whatever comes
back: an error, or a response with any status and any body.  It decides on one failure, and runs end
by it unless they are cancelled; no run completes, in whatever order it is woken and cancelled.  A
successful reply that finds the code valid makes the second step fail, whatever else it carries, and
one that says nothing of that but carries a document or a state makes the first step fail; so do all
bodies that write such a reply. -/
theorem no_reply_completes (v : Service.Validator) (code : String)
    (came : Except Http.Failure Response) :
    ∃ reason : FailureReason,
      Ends ((v.exchange code).interpret came) (.failed reason) ∧
      (∀ s r, Run.Driven s ((v.exchange code).interpret came) r →
        r.ending? ≠ some .completed ∧ .completed ∉ r.notices) ∧
      ∀ response, came = .ok response → response.isSuccess = true →
        (∀ reply, ValidatorReply.decode response.body = some reply →
          (reply.finding.isValid = some true → reason = .stepFailed 1) ∧
          (reply.finding.isValid = none →
            (reply.finding.hasDocument = true ∨ reply.finding.hasState = true) →
            reason = .stepFailed 0)) ∧
        ∀ es fs, WritesReply response.body es fs →
          (given? fs "isValid" = some (.bool true) → reason = .stepFailed 1) ∧
          (given? fs "isValid" = none →
            (given? fs "json" ≠ none ∨ given? fs "stateManager" ≠ none) →
            reason = .stepFailed 0) := by
  obtain ⟨reason, decided⟩ := exists_failure came
  have ends := ends_as_answered (Validator.interpret came)
  rw [decided] at ends
  refine ⟨reason, ends, fun s r driven => ?_, ?_⟩
  · have notCompleted : r.ending? ≠ some .completed := by
      intro completed
      rcases ends.driven s r driven _ completed with e | ⟨e, -⟩ <;> cases e
    refine ⟨notCompleted, ?_⟩
    rw [← List.count_eq_zero, driven.faithful.accounted.completions, if_neg notCompleted]
  · rintro response rfl success
    have replies : ∀ reply, ValidatorReply.decode response.body = some reply →
        (reply.finding.isValid = some true → reason = .stepFailed 1) ∧
        (reply.finding.isValid = none →
          (reply.finding.hasDocument = true ∨ reply.finding.hasState = true) →
          reason = .stepFailed 0) := by
      intro reply decoded
      rw [interpret_ok success decoded, endingOf_verdict] at decided
      have decided := Ending.failed.inj decided
      refine ⟨fun valid => ?_, fun unsaid carried => ?_⟩
      · rw [← decided, valid]
      · rw [← decided, unsaid]
        exact if_pos (by simpa using carried)
    refine ⟨replies, fun es fs writes => ?_⟩
    obtain ⟨_, decoded⟩ := writes.decode
    obtain ⟨first, second⟩ := replies _ decoded
    refine ⟨fun valid => first ?_, fun unsaid carried => second ?_ ?_⟩
    · simp only [written, valid, Option.bind_some, Document.bool?]
    · simp only [written, unsaid, Option.bind_none]
    · simpa only [written, Option.isSome_iff_ne_none] using carried

/-- The entries of a payload that answers both questions and says more. -/
def fullPayload : Entries Document :=
  [("isValid", .bool true), ("json", .object []), ("notes", .array [])]

def fullBody : String :=
  "\x7b\"any\":\x7b\"isValid\":true,\"json\":\x7b\x7d,\"notes\":[]\x7d,\"took\":3\x7d"

theorem fullBody_writes : WritesReply fullBody
    [("any", .object fullPayload), ("took", .integer 3)] fullPayload where
  read := by
    have text : fullBody =
        (Document.object [("any", .object fullPayload), ("took", .integer 3)]).compact := by
      decide +kernel
    have legible : (Document.object [("any", .object fullPayload), ("took", .integer 3)]).Legible :=
      ⟨⟨trivial, trivial, trivial, trivial⟩, .inl rfl, trivial⟩
    rw [text]
    exact Document.read_compact legible
  once := by decide
  success := by
    rintro d ⟨⟩
  payload := rfl
  payloadOnce := by decide
  isValid := by
    rintro d ⟨⟩
    exact ⟨true, rfl⟩
  trees := by
    intro name known d given
    rcases List.mem_pair.mp known with rfl | rfl
    · obtain rfl : Document.object [] = d := Option.some.inj given
      exact ⟨_, rfl⟩
    · cases given

/-- A reply that finds the code valid and carries a document too: the second step fails. -/
theorem fullReply_fails :
    let service : Service.Validator := ⟨"http://localhost:3000/api/valid", 30000⟩
    let response : Response := ⟨200, fullBody⟩
    response.isSuccess = true ∧ given? fullPayload "isValid" = some (.bool true) ∧
      Ends ((service.exchange "VStack").interpret (.ok response)) (.failed (.stepFailed 1)) := by
  intro service response
  obtain ⟨reason, ends, -, decided⟩ := no_reply_completes service "VStack" (.ok response)
  obtain ⟨-, bodies⟩ := decided response rfl rfl
  obtain ⟨second, -⟩ := bodies _ _ fullBody_writes
  obtain rfl := second rfl
  exact ⟨rfl, rfl, ends⟩

end ServerUi.Service
