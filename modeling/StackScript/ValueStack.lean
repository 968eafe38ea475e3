import StackScript.Value

/-!
# The value stack

The stack is a row of cells with a mark for its top. Taking a value off only moves the mark, so the
cells above the top still hold what was stored in them last; pushing overwrites the first of them.
Moving the mark up again brings those values back.

The row is kept as two lists that meet at the mark: the live cells downwards from the top, and the
spent ones upwards from it.
-/

namespace StackScript

/-- A stack of values and the cells above its top. -/
structure ValueStack where
  /-- The values on the stack, the top first. -/
  live : List Value := []
  /-- The cells above the top, the nearest first. -/
  spent : List Value := []

namespace ValueStack

/-- The number of values on the stack. -/
def height (s : ValueStack) : Nat := s.live.length

/-- The values on the stack, the bottom first. -/
def toList (s : ValueStack) : List Value := s.live.reverse

/-- Stores a value above the top and makes it the top. -/
def push (s : ValueStack) (v : Value) : ValueStack := ⟨v :: s.live, s.spent.tail⟩

/-- The top value. -/
def top? (s : ValueStack) : Option Value := s.live.head?

/-- Moves the mark one cell down. -/
def lower (s : ValueStack) : ValueStack :=
  match s.live with
  | [] => s
  | v :: rest => ⟨rest, v :: s.spent⟩

/-- Moves the mark one cell up. A cell that never held a value holds null. -/
def raise (s : ValueStack) : ValueStack :=
  match s.spent with
  | [] => ⟨.null :: s.live, []⟩
  | v :: rest => ⟨v :: s.live, rest⟩

/-- Moves the mark `n` cells down. -/
def lowerBy : (n : Nat) → ValueStack → ValueStack
  | 0, s => s
  | n + 1, s => lowerBy n s.lower

/-- Moves the mark `n` cells up. -/
def raiseBy : (n : Nat) → ValueStack → ValueStack
  | 0, s => s
  | n + 1, s => raiseBy n s.raise

/-- Moves the mark to a given height. -/
def cutTo (s : ValueStack) (height : Nat) : ValueStack :=
  if height ≤ s.height then s.lowerBy (s.height - height) else s.raiseBy (height - s.height)

/-- The values above a given height, reduced to one: the top one if there is any, else null. -/
def resultAbove (s : ValueStack) (height : Nat) : Value :=
  if height < s.height then s.top?.getD .null else .null

/-- The `n` topmost values, the lowest of them first. -/
def topmost (s : ValueStack) (n : Nat) : List Value := (s.live.take n).reverse

end ValueStack

end StackScript
