/-!
Powers of natural numbers.
-/

namespace EndpointDsl

/-- The product of `n` factors `base`. -/
def power (base n : Nat) : Nat := Nat.pow base n

end EndpointDsl
