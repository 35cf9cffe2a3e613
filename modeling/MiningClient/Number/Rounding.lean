namespace MiningClient

/-- The whole number nearest to `n / d`; of two equally near, the even one. -/
def divHalfEven (n d : Nat) : Nat :=
  let q := n / d
  let r := n % d
  if 2 * r < d then q else if d < 2 * r then q + 1 else q + q % 2

end MiningClient
