import ServerUi.Node

/-! # Equality of trees

Two trees are equal if they are written alike and hold equal values.  Values are told apart as by
`Value.strictEq`, so a tree that holds a NaN does not equal itself.
-/

namespace ServerUi

def strictEqOption {α : Type} (eq : α → α → Bool) : Option α → Option α → Bool
  | none, none => true
  | some a, some b => eq a b
  | _, _ => false

def strictEqList {α : Type} (eq : α → α → Bool) : List α → List α → Bool
  | [], [] => true
  | a :: as, b :: bs => eq a b && strictEqList eq as bs
  | _, _ => false

def strictEqTable {α : Type} (eq : α → α → Bool) (a b : Table α) : Bool :=
  strictEqList (fun p q => p.1 == q.1 && eq p.2 q.2) a.entries b.entries

def ActionSpec.strictEq (a b : ActionSpec) : Bool :=
  a.trigger == b.trigger && a.kind == b.kind && strictEqTable Value.strictEq a.payload b.payload

def NodeStyle.strictEq (a b : NodeStyle) : Bool :=
  a.variant == b.variant && a.color == b.color
    && strictEqOption (strictEqTable Value.strictEq) a.custom b.custom

def Binding.strictEq (a b : Binding) : Bool :=
  a.key == b.key && a.kind == b.kind && strictEqOption Value.strictEq a.default b.default
    && a.computed == b.computed && a.formula == b.formula

def Watcher.strictEq (a b : Watcher) : Bool := a.key == b.key && a.action.strictEq b.action

def StateBlock.strictEq (a b : StateBlock) : Bool :=
  strictEqTable Binding.strictEq a.bindings b.bindings
    && strictEqList Watcher.strictEq a.watchers b.watchers

namespace Node

mutual
def strictEq : Node → Node → Bool
  | mk id kind props style action state children, n =>
    id == n.id && kind == n.kind && strictEqTable Value.strictEq props n.props
      && strictEqOption NodeStyle.strictEq style n.style
      && strictEqOption ActionSpec.strictEq action n.action
      && strictEqOption StateBlock.strictEq state n.state
      && strictEqChildren children n.children?
def strictEqChildren : Option (List Node) → Option (List Node) → Bool
  | none, none => true
  | some as, some bs => strictEqAll as bs
  | _, _ => false
def strictEqAll : List Node → List Node → Bool
  | [], [] => true
  | a :: as, b :: bs => strictEq a b && strictEqAll as bs
  | _, _ => false
end

end Node

end ServerUi
