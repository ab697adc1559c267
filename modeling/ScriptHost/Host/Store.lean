/-! Items in the order in which they were pushed, each under a source word. -/

namespace ScriptHost

/-- Pushed items, oldest first, each with its source word. -/
structure Store (α : Type) where
  entries : List (UInt64 × α)
deriving DecidableEq, Repr

namespace Store

variable {α : Type}

def empty : Store α :=
  ⟨[]⟩

/-- Adds an item behind all others. -/
def push (store : Store α) (source : UInt64) (item : α) : Store α :=
  ⟨store.entries ++ [(source, item)]⟩

/-- The items under a source word, oldest first. -/
def items (store : Store α) (source : UInt64) : List α :=
  (store.entries.filter (·.1 = source)).map Prod.snd

/-- The item that an index word counts to under a source word. -/
def get? (store : Store α) (source index : UInt64) : Option α :=
  (store.items source)[index.toNat]?

theorem items_push_self (store : Store α) (source : UInt64) (item : α) :
    (store.push source item).items source = store.items source ++ [item] := by
  simp [items, push]

theorem items_push_of_ne (store : Store α) {source other : UInt64} (h : other ≠ source) (item : α) :
    (store.push other item).items source = store.items source := by
  simp [items, push, h]

end Store

end ScriptHost
