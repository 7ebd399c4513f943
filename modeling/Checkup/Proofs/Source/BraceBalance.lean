import Mathlib.Data.Int.Order.Basic
import Mathlib.Data.List.Induction
import Mathlib.Order.Bounds.Basic
import Checkup.Proofs.Source.BraceFloor

/-!
# The depth of a text from its counts

A closing brace that nothing has opened leads nowhere, so how deep a text leads is more than a count of its braces. It
is still said by counts alone: the balance of a text is how many more opening braces than closing ones it has, and the
text is as deep as its balance is above the least balance of its starts.

* `braceDepth_eq_max`: where a text leads from any depth. It leads to the depth that its balance asks for, unless one of
  its starts had no depth left to lead out of.
* `BraceScope.depth_calls`: a tracker is as deep as the text of all pieces, in one.
* `BraceScope.calls_balance` puts the two together.
-/

namespace Checkup

variable {least : Int}

/-- How many more opening braces than closing ones a text has. -/
def braceBalance (t : Text) : Int := t.count '\x7b' - t.count '\x7d'

/-- The balances of the starts of a text. -/
def startBalances (t : Text) : Set Int := {b | ∃ k ≤ t.length, braceBalance (t.take k) = b}

/-! ## One more character -/

theorem braceDepth_concat (depth : Nat) (t : Text) (c : Char) :
    braceDepth depth (t ++ [c]) =
      if c = '\x7b' then braceDepth depth t + 1 else if c = '\x7d' then braceDepth depth t - 1
        else braceDepth depth t :=
  braceDepth_append depth t [c]

theorem braceBalance_concat (t : Text) (c : Char) :
    braceBalance (t ++ [c]) = braceBalance t + (if c = '\x7b' then 1 else if c = '\x7d' then -1 else 0) := by
  simp only [braceBalance, List.count_append, List.count_singleton, beq_iff_eq]
  split_ifs <;> simp_all <;> omega

/-- The starts of a text are what it has in front. -/
theorem mem_startBalances {t : Text} {b : Int} : b ∈ startBalances t ↔ ∃ p, p <+: t ∧ braceBalance p = b := by
  constructor
  · rintro ⟨k, _, rfl⟩
    exact ⟨t.take k, List.take_prefix k t, rfl⟩
  · rintro ⟨p, hp, rfl⟩
    exact ⟨p.length, hp.length_le, by rw [← List.prefix_iff_eq_take.mp hp]⟩

theorem startBalances_nil : startBalances [] = {0} := by
  ext b
  rw [mem_startBalances, Set.mem_singleton_iff]
  simp only [List.prefix_nil, exists_eq_left]
  exact eq_comm

/-- One more character adds the balance of the whole text. -/
theorem startBalances_concat (t : Text) (c : Char) :
    startBalances (t ++ [c]) = insert (braceBalance (t ++ [c])) (startBalances t) := by
  ext b
  rw [Set.mem_insert_iff, mem_startBalances, mem_startBalances]
  simp only [List.prefix_concat_iff, or_and_right, exists_or, exists_eq_left]
  rw [eq_comm]

/-! ## The lowest start -/

theorem exists_isLeast_startBalances (t : Text) : ∃ least, IsLeast (startBalances t) least := by
  induction t using List.reverseRecOn with
  | nil => exact ⟨0, startBalances_nil ▸ isLeast_singleton⟩
  | append_singleton t c ih =>
    obtain ⟨low, hlow⟩ := ih
    exact ⟨_, startBalances_concat t c ▸ hlow.insert _⟩

/-- **Where a text leads**: as far as its balance from where it starts, or, if it led out of all depth on the way, as
far as its balance is above the least one. -/
theorem braceDepth_eq_max {t : Text} (h : IsLeast (startBalances t) least) (depth : Nat) :
    (braceDepth depth t : Int) = max (depth + braceBalance t) (braceBalance t - least) := by
  induction t using List.reverseRecOn generalizing least with
  | nil =>
    rw [startBalances_nil] at h
    obtain rfl := h.unique isLeast_singleton
    simp [braceDepth, braceBalance]
  | append_singleton t c ih =>
    obtain ⟨low, hlow⟩ := exists_isLeast_startBalances t
    have hdepth := ih hlow
    rw [startBalances_concat, braceBalance_concat] at h
    obtain rfl := h.unique (hlow.insert _)
    rw [braceDepth_concat, braceBalance_concat]
    -- at depth 0 a closing brace takes the least balance down with it
    split_ifs <;> omega

namespace BraceScope

variable {α : Type}

/-! ## The depth of a tracker -/

/-- What a call feeds. -/
def Call.text : Call α → Text
  | .announce _ => []
  | .feed t => t

theorem Call.text_flatMap_steps (call : Call α) : call.steps.flatMap Step.text = call.text := by
  cases call with
  | announce tag => rfl
  | feed t => exact text_steps t

/-- A tracker is as deep as the text of all pieces leads, whatever scopes it is told of. -/
theorem depth_calls (calls : List (Call α)) (s : BraceScope α) :
    (calls.foldl Call.apply s).depth = braceDepth s.depth (calls.flatMap Call.text) := by
  rw [← foldl_flatMap_steps, depth_run, List.flatMap_assoc]
  simp only [Call.text_flatMap_steps]

/-- **The depth of a tracker.** Let calls announce scopes and feed pieces of text, and let `t` be the pieces joined.
The starts of `t` have a least balance, and the tracker is as deep as the balance of `t` is above it. So it is as deep
behind any calls that feed `t`, in whatever pieces and with whatever scopes between them. -/
theorem calls_balance (calls : List (Call α)) :
    let t := calls.flatMap Call.text
    let s := calls.foldl Call.apply start
    (∃ least, IsLeast (startBalances t) least ∧ (s.depth : Int) = braceBalance t - least) ∧
      ∀ (β : Type) (calls' : List (Call β)), calls'.flatMap Call.text = t →
        (calls'.foldl Call.apply start).depth = s.depth := by
  intro t s
  have hdepth : s.depth = braceDepth 0 t := depth_calls calls start
  constructor
  · obtain ⟨least, hleast⟩ := exists_isLeast_startBalances t
    have hnil : least ≤ 0 := hleast.2 (mem_startBalances.mpr ⟨[], List.nil_prefix, rfl⟩)
    have hmax := braceDepth_eq_max hleast 0
    exact ⟨least, hleast, by omega⟩
  · intro β calls' htext
    rw [depth_calls, htext, hdepth]
    rfl

/-- A text that leads out of all depth twice, in one piece and in two with a scope between them. -/
theorem calls_balance_pieces :
    let calls : List (Call String) := [.feed "\x7d \x7b".toList, .announce "Row", .feed "\x7b \x7d\x7d\x7d \x7b".toList]
    let whole : List (Call Unit) := [.feed "\x7d \x7b\x7b \x7d\x7d\x7d \x7b".toList]
    let t := calls.flatMap Call.text
    whole.flatMap Call.text = t ∧ (whole.foldl Call.apply start).depth = (calls.foldl Call.apply start).depth ∧
      (calls.foldl Call.apply start).depth = 1 ∧ braceBalance t = -1 ∧ IsLeast (startBalances t) (-2) := by
  intro calls whole t
  obtain ⟨⟨least, hleast, hdepth⟩, hpieces⟩ := calls_balance calls
  have hone : (calls.foldl Call.apply start).depth = 1 := by decide
  have hbalance : braceBalance t = -1 := by decide
  have habove : (1 : Int) = -1 - least := by rwa [hone, hbalance] at hdepth
  obtain rfl : least = -2 := by omega
  exact ⟨rfl, hpieces Unit whole rfl, hone, hbalance, hleast⟩

end BraceScope

end Checkup
