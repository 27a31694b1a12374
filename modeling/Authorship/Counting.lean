namespace Authorship

/-- The sum, written out as a fold. What `List.sum` takes for zero is found by instances, and is
another term where ordered rings are known. -/
def sumOf (counts : List Nat) : Nat := counts.foldr (· + ·) 0

end Authorship
