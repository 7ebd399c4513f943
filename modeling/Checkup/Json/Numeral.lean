import Checkup.Json.Basic

/-!
# Numerals

A numeral is the written form of a number; `Numeral.read` takes one off a text and `Numeral.value` gives the number
it stands for. A numeral without fraction and exponent is an integer if a 64-bit word holds it. Any other is the
double that one multiplication or division of its leading digits by a power of ten gives: the leading digits are
those whose number a 64-bit word holds, and the power of ten makes up for the rest. There is none beyond the range
of the doubles.
-/

namespace Checkup.Json

/-- The written form of a number: its sign and digits, and for the exponent its sign and digits. -/
structure Numeral where
  negative : Bool
  whole : Text
  fraction : Text
  exponent : Option (Bool × Text)

namespace Numeral

/-- The digits at the start of a text, and the rest. -/
def digits (t : Text) : Text × Text := (t.takeWhile Char.isDigit, t.dropWhile Char.isDigit)

theorem digits_snd_length (t : Text) : (digits t).2.length ≤ t.length := (List.dropWhile_suffix _).length_le

/-- The digits before the point: a zero, or digits that do not start with one. -/
def readWhole (t : Text) : Option (Text × Text) :=
  match t with
  | '0' :: rest => some (['0'], rest)
  | _ => if (digits t).1.isEmpty then none else some (digits t)

/-- The digits behind the point, none if there is no point. -/
def readFraction (t : Text) : Option (Text × Text) :=
  match t with
  | '.' :: rest => if (digits rest).1.isEmpty then none else some (digits rest)
  | _ => some ([], t)

/-- The exponent after its letter. -/
def readPower (t : Text) : Option (Option (Bool × Text) × Text) :=
  let (negative, rest) : Bool × Text :=
    match t with
    | '-' :: rest => (true, rest)
    | '+' :: rest => (false, rest)
    | _ => (false, t)
  if (digits rest).1.isEmpty then none else some (some (negative, (digits rest).1), (digits rest).2)

/-- The exponent, if there is one. -/
def readExponent (t : Text) : Option (Option (Bool × Text) × Text) :=
  match t with
  | 'e' :: rest => readPower rest
  | 'E' :: rest => readPower rest
  | _ => some (none, t)

/-- The numeral at the start of a text that has no sign, and the rest. -/
def readUnsigned (negative : Bool) (t : Text) : Option (Numeral × Text) := do
  let (whole, t) ← readWhole t
  let (fraction, t) ← readFraction t
  let (exponent, t) ← readExponent t
  return (⟨negative, whole, fraction, exponent⟩, t)

/-- The numeral at the start of a text, and the rest. -/
def read (t : Text) : Option (Numeral × Text) :=
  match t with
  | '-' :: rest => readUnsigned true rest
  | _ => readUnsigned false t

/-! ## Values -/

/-- The value of a digit. -/
def digitValue (c : Char) : Nat := c.toNat - '0'.toNat

/-- Appends digits to the number `n` as long as a 64-bit word holds it; also the digits that are left. -/
def leading (n : Nat) : Text → Nat × Text
  | [] => (n, [])
  | c :: t => if 10 * n + digitValue c < pow2 64 then leading (10 * n + digitValue c) t else (n, c :: t)

/-- The number that digits stand for. -/
def ofDigits (t : Text) : Nat := t.foldl (fun n c => 10 * n + digitValue c) 0

/-- The power of ten as a double. -/
def tenTo (n : Nat) : Float := OfScientific.ofScientific 1 false n

/-- `x` divided by `10 ^ n`, in steps that the doubles can hold. -/
def shrink (x : Float) (n : Nat) : Float :=
  if n ≤ 308 then x / tenTo n else if x == 0 then x else shrink (x / tenTo 308) (n - 308)
termination_by n

/-- `n · 10 ^ power` as a double, none if that is beyond the range. A 64-bit word holds `n`. -/
def toDouble (n : Nat) (power : Int) : Option Float :=
  let x := n.toUInt64.toFloat
  if power < 0 then some (shrink x power.natAbs)
  else if 308 < power then if n = 0 then some x else none
  else
    let y := x * tenTo power.toNat
    if y.isInf then none else some y

/-- The exponent as a number. -/
def power (n : Numeral) : Int :=
  match n.exponent with
  | none => 0
  | some (true, ds) => -(ofDigits ds : Int)
  | some (false, ds) => ofDigits ds

/-- Whether the numeral has neither fraction nor exponent. -/
def isInteger (n : Numeral) : Bool := n.fraction.isEmpty && n.exponent.isNone

/-- The double that the numeral stands for. -/
def double (n : Numeral) : Option Float :=
  let (w, skipped) := leading 0 n.whole
  let (w, left) := leading w n.fraction
  let x := toDouble w ((skipped.length : Int) - (n.fraction.length - left.length : Nat) + n.power)
  if n.negative then x.map fun x => -x else x

/-- The number that the numeral stands for. Minus zero is a double. -/
def value (n : Numeral) : Option Number :=
  let w := ofDigits n.whole
  if n.isInteger && !n.negative && w < pow2 64 then some (.nat w)
  else if n.isInteger && n.negative && 0 < w && w ≤ pow2 63 then some (.neg w)
  else n.double.map .real

/-! ## Lengths -/

theorem readWhole_length {t ds r : Text} (h : readWhole t = some (ds, r)) : r.length < t.length := by
  unfold readWhole at h
  split at h
  · simp only [Option.some.injEq, Prod.mk.injEq] at h
    simp [h.2]
  · split at h
    · cases h
    · rename_i hne
      simp only [Option.some.injEq] at h
      have h1 : (digits t).1 ++ (digits t).2 = t := List.takeWhile_append_dropWhile
      have h2 : (digits t).1.length ≠ 0 := by simpa [List.length_eq_zero_iff] using hne
      have h3 := congrArg List.length h1
      rw [h] at h2 h3
      simp only [List.length_append] at h2 h3
      omega

theorem readFraction_length {t ds r : Text} (h : readFraction t = some (ds, r)) : r.length ≤ t.length := by
  unfold readFraction at h
  split at h
  · split at h
    · cases h
    · rename_i rest _
      simp only [Option.some.injEq] at h
      have := digits_snd_length rest
      rw [h] at this
      simp only [List.length_cons] at this ⊢
      omega
  · simp only [Option.some.injEq, Prod.mk.injEq] at h
    simp [h.2]

theorem readPower_length {t r : Text} {e : Option (Bool × Text)} (h : readPower t = some (e, r)) :
    r.length ≤ t.length := by
  have key : ∀ u : Text, u.length ≤ t.length → (digits u).2.length ≤ t.length :=
    fun u hu => Nat.le_trans (digits_snd_length u) hu
  unfold readPower at h
  split at h
  rename_i heq
  split at heq <;> simp only [Prod.mk.injEq] at heq <;>
    (split at h
     · cases h
     · simp only [Option.some.injEq, Prod.mk.injEq] at h
       rw [← h.2, ← heq.2]
       exact key _ (by simp))

theorem readExponent_length {t r : Text} {e : Option (Bool × Text)} (h : readExponent t = some (e, r)) :
    r.length ≤ t.length := by
  unfold readExponent at h
  split at h
  · have := readPower_length h
    simp only [List.length_cons]
    omega
  · have := readPower_length h
    simp only [List.length_cons]
    omega
  · simp only [Option.some.injEq, Prod.mk.injEq] at h
    simp [h.2]

theorem readUnsigned_length {b : Bool} {t r : Text} {n : Numeral} (h : readUnsigned b t = some (n, r)) :
    r.length < t.length := by
  simp only [readUnsigned, bind, Option.bind_eq_some_iff] at h
  obtain ⟨⟨_, t₁⟩, h₁, ⟨_, t₂⟩, h₂, ⟨_, t₃⟩, h₃, h⟩ := h
  simp only [pure, Option.some.injEq, Prod.mk.injEq] at h
  have h₁ := readWhole_length h₁
  have h₂ := readFraction_length h₂
  have h₃ := readExponent_length h₃
  rw [← h.2]
  exact Nat.lt_of_le_of_lt (Nat.le_trans h₃ h₂) h₁

/-- Reading a numeral takes at least one character. -/
theorem read_length {t r : Text} {n : Numeral} (h : read t = some (n, r)) : r.length < t.length := by
  unfold read at h
  split at h
  · have := readUnsigned_length h
    simp only [List.length_cons]
    omega
  · exact readUnsigned_length h

end Numeral

end Checkup.Json
