/-!
# Reading a text as far as it goes

A text is read from its beginning on. If it breaks the rules somewhere, what
stands before that place can still be told, and a fault in there is met before
the broken rule is.
-/

namespace ApiBaseline

/-- What is made from a text. -/
structure Begun (α : Type) where
  /-- What has been made when the reading ends. -/
  value : α
  /-- The reading ends with the text, and not at a broken rule. -/
  isWhole : Bool
  deriving Repr

namespace Begun

variable {α β : Type}

/-- What is made from a text in a further step. -/
def map (f : α → β) (b : Begun α) : Begun β := ⟨f b.value, b.isWhole⟩

/-- A further step that may find a rule broken, too. -/
def andThen (b : Begun α) (f : α → Begun β) : Begun β :=
  let next := f b.value
  ⟨next.value, b.isWhole && next.isWhole⟩

/-- What is made from a text that keeps the rules. -/
def whole? (b : Begun α) : Option α := if b.isWhole then some b.value else none

end Begun

end ApiBaseline
