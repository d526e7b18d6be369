/-
This file gives the numbers of a composite key in closed form.

A key is folded from its parts with 64 bits, so every step may pass the end of the words. Passing it
takes away a multiple of `2 ^ 64`, and sums and products do not see that. The numbers of the key are
therefore sums of natural numbers, reduced once at the end: the checksum adds up the fingerprints,
and the hash code adds them up with weights. The weight of a part is its place, counted from one,
times 37 for every part behind it, and what the hash code starts from takes a factor 37 at every
part.

Parts that are appended to a key go on counting where the key stopped. How the parts were spread
over the calls is not seen in any of these numbers.
-/

import Mathlib.Algebra.BigOperators.Fin
import LayeredCache.Proofs.Weights

namespace LayeredCache.Key

/-- A power of words is the power of numbers, reduced. -/
theorem ofNat_pow (base exponent : Nat) :
    UInt64.ofNat (base ^ exponent) = UInt64.ofNat base ^ exponent := by
  induction exponent with
  | zero => rfl
  | succ exponent inductionHypothesis =>
    rw [pow_succ, pow_succ, UInt64.ofNat_mul, inductionHypothesis]

namespace Composite

variable {fingerprint : Part → UInt64}

/-- The weighted sum of words is the weighted sum of numbers, reduced. -/
theorem weigh_eq_ofNat (count : Nat) (parts : List Part) :
    weigh fingerprint count parts =
      UInt64.ofNat (∑ i : Fin parts.length,
        37 ^ (parts.length - (i + 1)) * (count + (i + 1)) * (fingerprint parts[i]).toNat) := by
  induction parts generalizing count with
  | nil => rfl
  | cons part rest inductionHypothesis =>
    have later : ∀ i : Fin rest.length,
        37 ^ (rest.length + 1 - (i.succ + 1)) * (count + (i.succ + 1)) *
            (fingerprint (part :: rest)[i.succ]).toNat =
          37 ^ (rest.length - (i + 1)) * (count + 1 + (i + 1)) *
            (fingerprint rest[i]).toNat := by
      intro i
      rw [Fin.val_succ, Nat.add_sub_add_right, Nat.add_assoc count 1, Nat.add_comm 1]
      rfl
    have first : UInt64.ofNat (37 ^ rest.length * (count + 1) * (fingerprint part).toNat) =
        multiplier ^ rest.length * (UInt64.ofNat (count + 1) * fingerprint part) := by
      rw [UInt64.ofNat_mul, UInt64.ofNat_mul, ofNat_pow, UInt64.ofNat_toNat, mul_assoc]
      rfl
    rw [weigh_cons, inductionHypothesis, ← first, ← UInt64.ofNat_add]
    refine congrArg UInt64.ofNat ?_
    show _ = ∑ i : Fin (rest.length + 1), _
    rw [Fin.sum_univ_succ]
    exact congrArg (37 ^ rest.length * (count + 1) * (fingerprint part).toNat + ·)
      (Finset.sum_congr rfl fun i _ => (later i).symm)

theorem sum_eq_ofNat (parts : List Part) :
    (parts.map fingerprint).sum =
      UInt64.ofNat (∑ i : Fin parts.length, (fingerprint parts[i]).toNat) := by
  induction parts with
  | nil => rfl
  | cons part rest inductionHypothesis =>
    rw [List.map_cons, List.sum_cons, inductionHypothesis]
    show _ = UInt64.ofNat (∑ i : Fin (rest.length + 1), _)
    rw [Fin.sum_univ_succ, UInt64.ofNat_add]
    congr 1
    exact UInt64.ofNat_toNat.symm

theorem toNat_hashcode_appendAllBy (key : Composite) (parts : List Part) :
    (key.appendAllBy fingerprint parts).hashcode.toNat =
      (37 ^ parts.length * key.hashcode.toNat + ∑ i : Fin parts.length,
        37 ^ (parts.length - (i + 1)) * (key.count + (i + 1)) *
          (fingerprint parts[i]).toNat) % 2 ^ 64 := by
  have scaled : UInt64.ofNat (37 ^ parts.length * key.hashcode.toNat) =
      multiplier ^ parts.length * key.hashcode := by
    rw [UInt64.ofNat_mul, ofNat_pow, UInt64.ofNat_toNat]
    rfl
  rw [hashcode_appendAllBy, weigh_eq_ofNat, ← scaled, ← UInt64.ofNat_add, UInt64.toNat_ofNat']

theorem toNat_checksum_appendAllBy (key : Composite) (parts : List Part) :
    (key.appendAllBy fingerprint parts).checksum.toNat =
      (key.checksum.toNat + ∑ i : Fin parts.length, (fingerprint parts[i]).toNat) % 2 ^ 64 := by
  rw [checksum_appendAllBy, sum_eq_ofNat, UInt64.toNat_add, UInt64.toNat_ofNat', Nat.add_mod_mod]

end Composite

namespace Making

/-- The key that is made, as a fold over its parts. -/
theorem key_eq (making : Making) :
    making.key = Composite.empty.appendAllBy Part.fingerprint making.parts := by
  rw [← keyBy_fingerprint, keyBy_eq]

theorem count_key (making : Making) : making.key.count = making.parts.length := by
  rw [key_eq, Composite.count_appendAllBy]
  exact Nat.zero_add _

/-- Whichever calls have made a key: its hash code is `17 * 37 ^ n` and the weighted sum of the
fingerprints of its `n` parts, its checksum is their plain sum, both reduced to 64 bits, and its
count is `n`. Whichever calls have made a key with more parts at the end, appending them to the
first key among others: its hash code is the one of the first key, times 37 for every one of these
parts, and their weighted sum, in which their places go on from the count of the first key. -/
theorem key_closed_form (making : Making) :
    let parts := making.parts
    making.key.hashcode.toNat =
        (17 * 37 ^ parts.length + ∑ i : Fin parts.length,
          37 ^ (parts.length - (i + 1)) * (i + 1) * parts[i].fingerprint.toNat) % 2 ^ 64 ∧
      making.key.checksum.toNat =
        (∑ i : Fin parts.length, parts[i].fingerprint.toNat) % 2 ^ 64 ∧
      making.key.count = parts.length ∧
      ∀ (longer : Making) (more : List Part), longer.parts = parts ++ more →
        longer.key = making.key.appendAll more ∧
        longer.key.hashcode.toNat =
          (37 ^ more.length * making.key.hashcode.toNat + ∑ j : Fin more.length,
            37 ^ (more.length - (j + 1)) * (parts.length + (j + 1)) *
              more[j].fingerprint.toNat) % 2 ^ 64 := by
  intro parts
  refine ⟨?_, ?_, count_key making, fun longer more same => ?_⟩
  · rw [key_eq, Composite.toNat_hashcode_appendAllBy, Nat.mul_comm (37 ^ _)]
    show (17 * 37 ^ parts.length + ∑ i : Fin parts.length, _ * (0 + _) * _) % 2 ^ 64 = _
    simp only [Nat.zero_add]
    rfl
  · rw [key_eq, Composite.toNat_checksum_appendAllBy]
    exact congrArg (· % 2 ^ 64) (Nat.zero_add _)
  · have longer_eq : longer.key = making.key.appendAll more := by
      rw [key_eq, same, ← Composite.appendAllBy_append, ← key_eq,
        Composite.appendAllBy_fingerprint]
    refine ⟨longer_eq, ?_⟩
    rw [longer_eq, ← Composite.appendAllBy_fingerprint, Composite.toNat_hashcode_appendAllBy,
      count_key]

/-- A key of three parts, made in three calls: the last two parts go on counting at two, and the
hash code passes the end of the words. -/
theorem key_closed_form_resumed :
    let first := append empty "user"
    let longer := appendAll (append first (none : Option Int64)) [(-3 : Int64)]
    longer.parts = first.parts ++ [.null, .int (-3)] ∧
      longer.key.hashcode.toNat =
        (37 ^ 2 * first.key.hashcode.toNat + (37 * 2 * Part.null.fingerprint.toNat +
          3 * (Part.int (-3)).fingerprint.toNat)) % 2 ^ 64 ∧
      2 ^ 64 ≤ 37 ^ 2 * first.key.hashcode.toNat := by
  intro first longer
  have ⟨_, _, _, resume⟩ := key_closed_form first
  have ⟨_, hashcode⟩ := resume longer [.null, .int (-3)] rfl
  refine ⟨rfl, hashcode.trans ?_, by decide +kernel⟩
  show (_ + ∑ j : Fin 2, _) % 2 ^ 64 = _
  rw [Fin.sum_univ_two]
  rfl

end Making

end LayeredCache.Key
