import ServerUi.Proofs.Session.Reactions

/-! # The revision tells whether the display is right

Whatever is done to a session, the revision grows with every change of the tree or the store.  So
while `needsRender` is false, displaying the tree again would give what was displayed last.
-/

namespace ServerUi.Session

/-- The revision does not fall, and while it stays, so do the tree and the store.  Nothing is
displayed in between. -/
structure Advances (s s' : Session) : Prop where
  rendered : s'.rendered = s.rendered
  revision : s.revision ≤ s'.revision
  same : s'.revision = s.revision → s'.tree = s.tree ∧ s'.store = s.store

theorem Advances.refl (s : Session) : Advances s s :=
  ⟨rfl, Nat.le_refl _, fun _ => ⟨rfl, rfl⟩⟩

theorem Advances.trans {a b c : Session} (h : Advances a b) (h' : Advances b c) :
    Advances a c := by
  refine ⟨h'.rendered.trans h.rendered, Nat.le_trans h.revision h'.revision, fun e => ?_⟩
  have hb : b.revision = a.revision := by
    have := h.revision
    have := h'.revision
    omega
  obtain ⟨tree, store⟩ := h.same hb
  obtain ⟨tree', store'⟩ := h'.same (e.trans hb.symm)
  exact ⟨tree'.trans tree, store'.trans store⟩

/-- A trace without effects has left the store alone, and one with effects makes a new
revision. -/
theorem advances_after {s : Session} {t : Trace}
    (h : Dispatcher.Steps s.dispatcher (.start s.store) t) : Advances s (s.after t) := by
  cases he : t.outcome.effects with
  | nil =>
    have held : t.store = s.store := Dispatcher.store_eq_of_no_effects h he
    refine ⟨rfl, ?_, fun _ => ⟨rfl, held⟩⟩
    simp [after, he]
  | cons e rest =>
    have grown : (s.after t).revision = s.revision + 1 := by simp [after, he]
    refine ⟨rfl, by omega, fun same => ?_⟩
    omega

theorem tracks_advances : Tracks fun s s' _ => Advances s s' :=
  ⟨Advances.refl, Advances.trans, advances_after⟩

theorem advances_pump (s : Session) : Advances s s.pump.session := by
  have emptied : Advances s { s with inbox := [] } := ⟨rfl, Nat.le_refl _, fun _ => ⟨rfl, rfl⟩⟩
  exact emptied.trans (tracks_advances.pump s)

theorem advances_replaceTree (s : Session) (tree : Node) : Advances s (s.replaceTree tree) := by
  have grown : (s.replaceTree tree).revision = s.revision + 1 := rfl
  refine ⟨rfl, by omega, fun same => ?_⟩
  omega

theorem advances_receive (s : Session) (r : ApiResult) : Advances s (s.receive r) :=
  ⟨rfl, Nat.le_refl _, fun _ => ⟨rfl, rfl⟩⟩

/-! ## Uses of a session -/

inductive Use where
  | handle (event : UiEvent)
  | receive (reply : ApiResult)
  | pump
  | replaceTree (tree : Node)
  | render

/-- A session, and what it displayed last. -/
structure View where
  session : Session
  shown : Option Element

namespace View

/-- A view of a new session, before anything is displayed. -/
def start (tree : Node) (d : Dispatcher) : View := ⟨Session.start tree d, none⟩

def step (v : View) : Use → View
  | .handle e => { v with session := (v.session.handle e).1 }
  | .receive r => { v with session := v.session.receive r }
  | .pump => { v with session := v.session.pump.session }
  | .replaceTree tree => { v with session := v.session.replaceTree tree }
  | .render => ⟨v.session.render.1, some v.session.render.2⟩

def after (v : View) (uses : List Use) : View := uses.foldl step v

/-- What was displayed last belongs to a revision not beyond the present one; if it is the present
one, it is what the tree and the store display now. -/
structure Right (v : View) : Prop where
  bounded : ∀ r, v.session.rendered = some r → r ≤ v.session.revision
  shown : v.session.needsRender = false →
    v.shown = some (Render.element v.session.store v.session.tree)

theorem needsRender_eq_false_iff (s : Session) :
    s.needsRender = false ↔ s.rendered = some s.revision := by
  simp [needsRender]

/-- A use displays the session, or it advances it and what was displayed last stays. -/
theorem step_cases (v : View) (u : Use) :
    v.step u = ⟨v.session.render.1, some v.session.render.2⟩ ∨
      ∃ s, Advances v.session s ∧ v.step u = { v with session := s } := by
  cases u with
  | handle e => exact .inr ⟨_, tracks_advances.handle _ e, rfl⟩
  | receive r => exact .inr ⟨_, advances_receive _ r, rfl⟩
  | pump => exact .inr ⟨_, advances_pump _, rfl⟩
  | replaceTree tree => exact .inr ⟨_, advances_replaceTree _ tree, rfl⟩
  | render => exact .inl rfl

/-- A session that advances to a state in no need of a display has stayed where it was. -/
theorem Right.unmoved {v : View} (h : v.Right) {s : Session} (ha : Advances v.session s)
    (fresh : s.needsRender = false) :
    v.session.needsRender = false ∧ s.tree = v.session.tree ∧ s.store = v.session.store := by
  have hr : v.session.rendered = some s.revision :=
    ha.rendered.symm.trans ((needsRender_eq_false_iff s).mp fresh)
  -- the revision displayed is at most the old one, and the new one is at least that
  have same : s.revision = v.session.revision := Nat.le_antisymm (h.bounded _ hr) ha.revision
  exact ⟨(needsRender_eq_false_iff _).mpr (same ▸ hr), ha.same same⟩

theorem right_start (tree : Node) (d : Dispatcher) : (start tree d).Right := by
  constructor
  · intro r h
    cases h
  · intro h
    cases (needsRender_eq_false_iff _).mp h

theorem Right.step {v : View} (h : v.Right) (u : Use) : (v.step u).Right := by
  rcases step_cases v u with e | ⟨s, ha, e⟩
  · rw [e]
    constructor
    · intro r hr
      cases hr
      exact Nat.le_refl _
    · exact fun _ => rfl
  · rw [e]
    constructor
    · intro r hr
      exact Nat.le_trans (h.bounded r (ha.rendered.symm.trans hr)) ha.revision
    · intro fresh
      obtain ⟨old, tree, store⟩ := h.unmoved ha fresh
      show v.shown = some (Render.element s.store s.tree)
      rw [tree, store]
      exact h.shown old

theorem Right.after {v : View} (h : v.Right) (uses : List Use) : (v.after uses).Right := by
  induction uses generalizing v with
  | nil => exact h
  | cons u rest ih => exact ih (h.step u)

/-- A use that leaves the session in no need of a display has not changed what it displays. -/
theorem Right.element_step {v : View} (h : v.Right) {u : Use}
    (fresh : (v.step u).session.needsRender = false) :
    (v.step u).session.element = v.session.element := by
  rcases step_cases v u with e | ⟨s, ha, e⟩
  · rw [e]
    rfl
  · rw [e] at fresh ⊢
    obtain ⟨-, tree, store⟩ := h.unmoved ha fresh
    show Render.element s.store s.tree = Render.element v.session.store v.session.tree
    rw [tree, store]

/-- **No change goes unseen.** After any uses of a session, for any tree and dispatcher: while the
session needs no display, the tree and the store display as what was displayed last; and a further
use that changes what they display makes the session need one. -/
theorem shown_unless_needsRender (tree : Node) (d : Dispatcher) (uses : List Use) :
    let v := (start tree d).after uses
    (v.session.needsRender = false →
      v.shown = some (Render.element v.session.store v.session.tree)) ∧
    ∀ u, (v.step u).session.element ≠ v.session.element →
      (v.step u).session.needsRender = true := by
  intro v
  have right : v.Right := (right_start tree d).after uses
  refine ⟨right.shown, fun u change => ?_⟩
  cases fresh : (v.step u).session.needsRender with
  | true => rfl
  | false => exact absurd (right.element_step fresh) change

/-- A label that shows a count, and a button that sets the count to one. -/
def countTree : Node :=
  (((Node.bare "root" .vStack).withState
    ((∅ : StateBlock).bind (.plain "count" .number))).withChild
      ((Node.bare "label" .text).withProp "text" (.string "@state:count"))).withChild
        ((Node.bare "set" .button).withAction (.stateUpdate "count" (.int 1)))

/-- The display stays right after a reply that belongs to no tree of the session, and a press of
the button makes a new one due. -/
theorem shown_of_countTree :
    let v := (start countTree ⟨.none, 8, 0⟩).after
      [.render, .receive ⟨7, "", some "count", .ok (.int 2)⟩, .pump]
    v.session.needsRender = false ∧
      v.shown = some (Render.element v.session.store v.session.tree) ∧
      (v.step (.handle (.tap "set"))).session.needsRender = true := by
  intro v
  obtain ⟨shown, unseen⟩ := shown_unless_needsRender countTree ⟨.none, 8, 0⟩
    [.render, .receive ⟨7, "", some "count", .ok (.int 2)⟩, .pump]
  have fresh : v.session.needsRender = false := by decide +kernel
  have change : (v.step (.handle (.tap "set"))).session.element.outline ≠
      v.session.element.outline := by decide +kernel
  exact ⟨fresh, shown fresh, unseen _ fun same => change (congrArg Element.outline same)⟩

end View

end ServerUi.Session
