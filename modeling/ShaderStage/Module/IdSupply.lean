import ShaderStage.Instruction.Basic

/-! # Result ids

Ids are handed out in increasing order from one. The bound of a module is one more id, and taking
it closes the supply. The supply counts without limit; an id is a word, so ids wrap. -/

namespace ShaderStage

/-- The id handed out after `n` others. -/
def Id.nth (n : Nat) : Id := .ofNat (n + 1)

/-- The ids handed out so far. -/
structure IdSupply where
  taken : Nat := 0
  closed : Bool := false
deriving DecidableEq

namespace IdSupply

/-- The next id. -/
def next (s : IdSupply) : Id := .nth s.taken

/-- The next id and the supply after it. -/
def take (s : IdSupply) : Except Fault (Id × IdSupply) :=
  if s.closed then .error .idsClosed else .ok (s.next, { s with taken := s.taken + 1 })

/-- The bound of the ids handed out, and the closed supply. -/
def bound (s : IdSupply) : Except Fault (Id × IdSupply) :=
  if s.closed then .error .idsClosed else .ok (s.next, { s with closed := true })

end IdSupply

end ShaderStage
