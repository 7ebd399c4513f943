/-!
# Powers of two and ten

The powers in which numbers are measured and written down.

* `pow2`, `pow10`
-/

namespace Checkup

/-- The power of two. -/
def pow2 (n : Nat) : Nat := Nat.pow 2 n

/-- The power of ten. -/
def pow10 (n : Nat) : Nat := Nat.pow 10 n

end Checkup
