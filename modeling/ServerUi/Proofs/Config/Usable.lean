import Mathlib.Data.List.DropRight
import ServerUi.Cli.Program
import ServerUi.Config.File

/-! # What usable settings are good for

Settings are usable if the addresses of both services are on the web, blanks around them apart, and
no limit that is checked is zero (`isUsable_iff`).  The services take the addresses as they are set,
blanks included, and the time to wait for a reply is not among the limits that are checked.  So what
is in effect is sound just if no blank stands around an address and that time is not set to zero
(`usable_in_effect`).
-/

namespace ServerUi

open Text

namespace Config

/-- The address starts with a scheme of the web. -/
def OnWeb (url : String) : Prop :=
  "http://".toList <+: url.toList ∨ "https://".toList <+: url.toList

instance (url : String) : Decidable (OnWeb url) := inferInstanceAs (Decidable (_ ∨ _))

/-- No blank stands in front. -/
def UnblankFront (cs : List Char) : Prop := ∀ c ∈ cs.head?, isBlank c = false

/-- The text is a base that does not end in a slash, with slashes behind it. -/
def IsBase (base text : String) : Prop :=
  base.toList.getLast? ≠ some '/' ∧ ∃ n, text.toList = base.toList ++ List.replicate n '/'

/-! ## The check -/

theorem toList_trim (s : String) : (trim s).toList = trimBlank s.toList := String.toList_ofList

theorem urlFault?_eq_none_iff {url : String} : urlFault? url = none ↔ OnWeb (trim url) := by
  unfold urlFault? OnWeb
  rw [toList_trim]
  dsimp only
  split
  · rename_i empty
    rw [List.isEmpty_iff.mp empty]
    simp
  · split
    · rename_i scheme
      simpa [List.isPrefixOf_iff_prefix] using scheme
    · rename_i scheme
      simpa [List.isPrefixOf_iff_prefix] using scheme

theorem limitFault?_eq_none_iff {n : Nat} : limitFault? n = none ↔ n ≠ 0 := by
  unfold limitFault?
  split <;> simp_all

theorem firstFault?_eq_none_iff {checks : List (String × Option String)} :
    firstFault? checks = none ↔ ∀ c ∈ checks, c.2 = none := by
  induction checks with
  | nil => exact iff_of_true rfl (List.forall_mem_nil _)
  | cons c rest ih =>
    obtain ⟨field, reason⟩ := c
    rw [List.forall_mem_cons, ← ih]
    cases reason with
    | none => exact (and_iff_right rfl).symm
    | some reason => exact iff_of_false nofun nofun

/-- The settings that pass the check. -/
theorem isUsable_iff {s : Settings} :
    s.isUsable = true ↔
      OnWeb (trim s.chat.baseUrl) ∧ OnWeb (trim s.validation.endpoint) ∧
      s.validation.seconds ≠ 0 ∧ s.dispatch.maxWatcherDepth ≠ 0 ∧ s.scripts.memory ≠ 0 ∧
      s.scripts.instructions ≠ 0 := by
  rw [Settings.isUsable, Settings.fault?, Option.isNone_iff_eq_none, firstFault?_eq_none_iff]
  simp [faults, urlFault?_eq_none_iff, limitFault?_eq_none_iff]

/-! ## Addresses in effect -/

theorem trimBlank_eq_rdropWhile (cs : List Char) :
    trimBlank cs = (cs.dropWhile isBlank).rdropWhile isBlank := rfl

theorem OnWeb.head? {url : String} (h : OnWeb url) : url.toList.head? = some 'h' := by
  rcases h with ⟨rest, h⟩ | ⟨rest, h⟩ <;> rw [← h] <;> rfl

theorem dropWhile_isBlank {cs : List Char} (front : UnblankFront cs) :
    cs.dropWhile isBlank = cs := by
  cases cs with
  | nil => rfl
  | cons c rest =>
    have unblank := front c rfl
    exact List.dropWhile_cons_of_neg (by rw [unblank]; decide)

theorem OnWeb.unblankFront {url : String} (h : OnWeb url) : UnblankFront url.toList := by
  intro c hc
  rw [h.head?] at hc
  cases hc
  rfl

/-- An address that is on the web without the blanks around it is so as it stands, unless a blank
stands in front. -/
theorem onWeb_iff_unblankFront {url : String} (h : OnWeb (trim url)) :
    OnWeb url ↔ UnblankFront url.toList := by
  refine ⟨OnWeb.unblankFront, fun front => ?_⟩
  have inside : (trim url).toList <+: url.toList := by
    rw [toList_trim, trimBlank_eq_rdropWhile, dropWhile_isBlank front]
    exact List.rdropWhile_prefix _ _
  exact h.imp (·.trans inside) (·.trans inside)

theorem isBase_withoutSlashes (text : String) :
    IsBase (Service.Chat.withoutSlashes text) text := by
  let isSlash : Char → Bool := (· == '/')
  let base := text.toList.rdropWhile isSlash
  let behind := text.toList.rtakeWhile isSlash
  have chars : (Service.Chat.withoutSlashes text).toList = base := String.toList_ofList
  rw [IsBase, chars]
  refine ⟨fun last => ?_, behind.length, ?_⟩
  · obtain ⟨before, split⟩ := List.getLast?_eq_some_iff.mp last
    have kept : base.rdropWhile isSlash = base := List.rdropWhile_idempotent ..
    rw [split, List.rdropWhile_concat_pos _ _ _ rfl] at kept
    have shorter := (List.rdropWhile_prefix isSlash before).length_le
    rw [kept, List.length_append, List.length_singleton] at shorter
    omega
  · have slashes : behind = List.replicate behind.length '/' :=
      List.eq_replicate_of_mem fun c hc =>
        beq_iff_eq.mp (List.mem_rtakeWhile_imp (p := isSlash) hc)
    rw [← slashes]
    exact List.rdropWhile_append_rtakeWhile.symm

/-- Only an address without blanks around it has a base in common with what is left of it without
them. -/
theorem trim_eq_self_of_isBase {url base : String} (web : OnWeb (trim url)) (own : IsBase base url)
    (trimmed : IsBase base (trim url)) : trim url = url := by
  obtain ⟨-, n, hn⟩ := own
  obtain ⟨-, m, hm⟩ := trimmed
  have scheme := web.head?
  -- the base holds the scheme, so it is where the address itself starts
  have start : base.toList.head? = some 'h' := by
    rw [hm] at scheme
    cases chars : base.toList with
    | nil =>
      rw [chars] at scheme
      cases m <;> cases scheme
    | cons c rest =>
      rw [chars] at scheme
      exact scheme
  have front : UnblankFront url.toList := by
    intro c hc
    rw [hn, List.head?_append_of_ne_nil _ (by rintro e; rw [e] at start; cases start), start] at hc
    cases hc
    rfl
  have cut : (trim url).toList = url.toList.rdropWhile isBlank := by
    rw [toList_trim, trimBlank_eq_rdropWhile, dropWhile_isBlank front]
  apply String.toList_inj.mp
  cases n with
  | zero =>
    -- what is left holds the whole address, so nothing was dropped
    rw [List.replicate_zero, List.append_nil] at hn
    have shorter : (trim url).toList.length ≤ url.toList.length := by
      rw [cut]
      exact (List.rdropWhile_prefix _ _).length_le
    rw [hm, hn, List.length_append, List.length_replicate] at shorter
    rw [hm, hn, show m = 0 by omega, List.replicate_zero, List.append_nil]
  | succ n =>
    -- the address ends in a slash, which is no blank
    rw [cut, hn, List.replicate_succ', ← List.append_assoc]
    exact List.rdropWhile_concat_neg _ _ _ (by decide)

theorem url_eq (s : Settings) (app : String) :
    (Cli.chatService s).url app =
      Service.Chat.withoutSlashes s.chat.baseUrl ++ "/" ++ app ++ "/chat" := rfl

/-- **Usable settings in effect.**  In settings that pass the check no limit is zero, and the time to
wait for a chat reply is zero just if it was set to that.  The validation service is asked where the
web is unless a blank stands in front of its address.  The address of an app is its name between the
base of the chat service and `/chat`; the base is that of the address as it was set, and it is that
of the address without the blanks around it just if there are none. -/
theorem usable_in_effect {s : Settings} (usable : s.isUsable = true) :
    s.validation.seconds ≠ 0 ∧ s.dispatch.maxWatcherDepth ≠ 0 ∧ s.scripts.memory ≠ 0 ∧
    s.scripts.instructions ≠ 0 ∧ (s.chat.seconds ≠ 0 ↔ s.chat.seconds? ≠ some 0) ∧
    (OnWeb (Cli.validatorService s).endpoint ↔ UnblankFront s.validation.endpoint.toList) ∧
    ∀ app : String,
      (∃ base, IsBase base s.chat.baseUrl ∧
        (Cli.chatService s).url app = base ++ "/" ++ app ++ "/chat") ∧
      ((∃ base, IsBase base (trim s.chat.baseUrl) ∧
          (Cli.chatService s).url app = base ++ "/" ++ app ++ "/chat") ↔
        trim s.chat.baseUrl = s.chat.baseUrl) := by
  obtain ⟨chat, validation, seconds, depth, memory, instructions⟩ := isUsable_iff.mp usable
  have own := isBase_withoutSlashes s.chat.baseUrl
  refine ⟨seconds, depth, memory, instructions, ?_, onWeb_iff_unblankFront validation, ?_⟩
  · unfold ChatSettings.seconds
    cases s.chat.seconds? with
    | none => exact iff_of_true (by decide) nofun
    | some n => exact not_congr (Option.some_inj).symm
  · intro app
    refine ⟨⟨_, own, url_eq s app⟩, ?_, fun unblank => ?_⟩
    · rintro ⟨base, trimmed, url⟩
      rw [url_eq] at url
      simp only [String.append_left_inj] at url
      exact trim_eq_self_of_isBase chat own (url ▸ trimmed)
    · rw [unblank]
      exact ⟨_, own, url_eq s app⟩

/-- Both services at addresses of their own, and a short time to wait. -/
def remoteSettings : Settings :=
  { Settings.initial with
    chat := ⟨"https://chat.example.com/apps//", none, some 5⟩
    validation := ⟨"https://valid.example.com", 1, ⟨0, 0, 0⟩⟩ }

/-- Settings without blanks keep all that is promised of them. -/
theorem remoteSettings_in_effect :
    remoteSettings.isUsable = true ∧ remoteSettings.chat.seconds ≠ 0 ∧
      OnWeb (Cli.validatorService remoteSettings).endpoint ∧
      ∃ base, IsBase base (trim remoteSettings.chat.baseUrl) ∧
        (Cli.chatService remoteSettings).url "shop" = base ++ "/" ++ "shop" ++ "/chat" := by
  have usable : remoteSettings.isUsable = true := by decide +kernel
  obtain ⟨-, -, -, -, chat, web, urls⟩ := usable_in_effect usable
  refine ⟨usable, chat.mpr (by decide), web.mpr ?_, (urls "shop").2.mpr (by decide +kernel)⟩
  intro c hc
  cases hc
  decide

/-- Blanks around both addresses, and no time to wait. -/
def blankSettings : Settings :=
  { Settings.initial with
    chat := ⟨"http://localhost:3000/ ", none, some 0⟩
    validation := ⟨" http://localhost:3001", 1, ⟨0, 0, 0⟩⟩ }

/-- They pass the check, no reply is waited for, and both services are asked where they are not. -/
theorem blankSettings_usable :
    blankSettings.isUsable = true ∧ blankSettings.chat.seconds = 0 ∧
      ¬ OnWeb (Cli.validatorService blankSettings).endpoint ∧
      (Cli.chatService blankSettings).url "shop" = "http://localhost:3000/ /shop/chat" ∧
      IsBase "http://localhost:3000" (trim blankSettings.chat.baseUrl) := by
  refine ⟨by decide +kernel, rfl, by decide +kernel, by decide +kernel, by decide +kernel, 1, ?_⟩
  decide +kernel

end Config

end ServerUi
