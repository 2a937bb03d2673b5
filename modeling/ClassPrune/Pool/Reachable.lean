import ClassPrune.Pool.Basic

/-!
# Reachable constants

The slots that can be reached from given indices by following the references between constants.
A reference leads to the slot whose index the referenced constant was given.

- `Pool.visit`: marks what the work still to do leads to. Every slot is marked at most once, so
  the number of slots without a mark and the work left bound the search.
- `Pool.reachable`: the marks that the search leaves.
-/

namespace ClassPrune

/-- One mark for each index of a pool. -/
abbrev Marks := Array Bool

/-- Whether an index is marked. -/
def Marks.has (marks : Marks) (index : PoolIndex) : Bool := marks[index.toNat]?.getD false

theorem Marks.count_set_lt (marks : Marks) (i : Nat) (h : i < marks.size)
    (unmarked : marks[i] = false) : (marks.set i true h).count false < marks.count false := by
  have positive : 0 < marks.count false := by
    rw [Array.count_pos_iff, ← unmarked]
    exact Array.getElem_mem h
  have less : marks.count false - 1 + 0 < marks.count false := by omega
  rw [Array.count_set h, unmarked]
  exact less

namespace Pool

/-- Marks everything that `work` leads to. -/
def visit (p : Pool) (marks : Marks) (work : List PoolIndex) : Marks :=
  match work with
  | [] => marks
  | index :: rest =>
    if h : index.toNat < marks.size then
      if unmarked : marks[index.toNat] = false ∧ (p.find? index).isSome then
        p.visit (marks.set index.toNat true h) (p.linkedIndices index ++ rest)
      else p.visit marks rest
    else p.visit marks rest
termination_by (marks.count false, work.length)
decreasing_by
  · exact Prod.Lex.left _ _ (marks.count_set_lt _ h unmarked.1)
  · exact Prod.Lex.right _ (Nat.lt_succ_self _)
  · exact Prod.Lex.right _ (Nat.lt_succ_self _)

/-- The slots that can be reached from `roots`. -/
def reachable (p : Pool) (roots : List PoolIndex) : Marks :=
  p.visit (Array.replicate p.size false) roots

end Pool

end ClassPrune
