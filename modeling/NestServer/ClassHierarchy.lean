import Mathlib.Data.List.Basic

/-! # Class hierarchies

    Classes that extend one another, each with an identity of its own.  A lookup
    walks the chain of a class: the class first, then its base classes; that
    every chain ends is part of the structure. -/

/-- Single inheritance over `Class`. -/
structure ClassHierarchy (Class : Type) where
  parent   : Class → Option Class
  chain    : Class → List Class
  chain_eq : ∀ c, chain c = c :: (parent c).elim [] chain

namespace ClassHierarchy

variable {Class α : Type} (h : ClassHierarchy Class)

/-- What the nearest class of the chain has to say. -/
def nearest (said : Class → Option α) (c : Class) : Option α := (h.chain c).findSome? said

/-- Classes without a base class. -/
def flat (Class : Type) : ClassHierarchy Class where
  parent _   := none
  chain c    := [c]
  chain_eq _ := rfl

end ClassHierarchy
