/-
This file proves that the hash code of a composite key depends on the order of its parts.

A key is folded from its parts, so its hash code is a weighted sum of their fingerprints: the weight
of a part is its place, times 37 for every part behind it. All sums are taken in 64 bits, where
different numbers may meet. Exchanging the parts at the places `i < j` changes the sum by the
difference of their fingerprints times `37 ^ (j - i) * i - j`, and times 37 for every part behind
`j`. If `j - i` is odd, both factors are odd, and multiplying by an odd word loses nothing. The
checksum adds up the fingerprints without weights. It does not see the exchange, but it does see one
fingerprint that is replaced by another.

Two integers of one kind have different fingerprints for the same reason: the word that stands for
the integer is taken in last, by multiplying with an odd constant, and then the bits are rotated.
-/

import Mathlib.Algebra.BigOperators.Group.List.Basic
import Mathlib.Data.Nat.ModEq
import Mathlib.Data.Nat.Prime.Basic
import Mathlib.Data.UInt
import LayeredCache.Proofs.Making

namespace LayeredCache.Key

/-! ### Odd words -/

/-- The word is an odd number. -/
def IsOdd (word : UInt64) : Prop := word.toNat % 2 = 1

namespace IsOdd

variable {a b : UInt64}

/-- The product may pass the end of the words, but that takes away an even number. -/
theorem mul (first : IsOdd a) (second : IsOdd b) : IsOdd (a * b) := by
  unfold IsOdd at first second ⊢
  rw [UInt64.toNat_mul, Nat.mod_mod_of_dvd _ (by decide), Nat.mul_mod, first, second]

theorem pow (odd : IsOdd a) (exponent : Nat) : IsOdd (a ^ exponent) := by
  induction exponent with
  | zero =>
    rw [pow_zero]
    rfl
  | succ exponent inductionHypothesis =>
    rw [pow_succ]
    exact inductionHypothesis.mul odd

/-- An odd number times one number, less another number, is odd if just one of the two is. -/
theorem mul_ofNat_sub (odd : IsOdd a) {m n : Nat} (one : (m + n) % 2 = 1) :
    IsOdd (a * UInt64.ofNat m - UInt64.ofNat n) := by
  have product : (a * UInt64.ofNat m).toNat % 2 = m % 2 := by
    rw [UInt64.toNat_mul, UInt64.toNat_ofNat', Nat.mod_mod_of_dvd _ (by decide), Nat.mul_mod,
      show a.toNat % 2 = 1 from odd, Nat.mod_mod_of_dvd _ (by decide), Nat.one_mul, Nat.mod_mod]
  unfold IsOdd
  rw [UInt64.toNat_sub, UInt64.toNat_ofNat']
  omega

/-- An odd factor can be cancelled, because it has no divisor in common with the number of words. -/
theorem mul_left_cancel (odd : IsOdd a) {x y : UInt64} (same : a * x = a * y) : x = y := by
  have coprime : Nat.gcd (2 ^ 64) a.toNat = 1 :=
    Nat.Coprime.pow_left 64 (Nat.coprime_two_left.mpr (Nat.odd_iff.mpr odd))
  have products : a.toNat * x.toNat ≡ a.toNat * y.toNat [MOD 2 ^ 64] := by
    have numbers := congrArg UInt64.toNat same
    rwa [UInt64.toNat_mul, UInt64.toNat_mul] at numbers
  have factors := Nat.ModEq.cancel_left_of_coprime coprime products
  exact UInt64.toNat_inj.mp (Nat.ModEq.eq_of_lt_of_lt factors x.toNat_lt y.toNat_lt)

end IsOdd

/-! ### Fingerprints of integers -/

namespace Fingerprint

/-- The rotation exchanges the high 26 bits and the low 38 bits. -/
theorem toNat_finish (state : UInt64) :
    (finish state).toNat = state.toNat % 2 ^ 38 * 2 ^ 26 + state.toNat / 2 ^ 38 := by
  have high : state.toNat / 2 ^ 38 < 2 ^ 26 := by
    have := state.toNat_lt
    omega
  have low : state.toNat <<< 26 % 2 ^ 64 = (state.toNat % 2 ^ 38) <<< 26 := by
    rw [Nat.shiftLeft_eq, Nat.shiftLeft_eq]
    omega
  rw [finish, UInt64.toNat_or, UInt64.toNat_shiftLeft, UInt64.toNat_shiftRight]
  show state.toNat <<< 26 % 2 ^ 64 ||| state.toNat >>> 38 = _
  rw [low, Nat.shiftRight_eq_div_pow, ← Nat.shiftLeft_add_eq_or_of_lt high, Nat.shiftLeft_eq]

theorem finish_injective : Function.Injective finish := by
  intro a b same
  have numbers := congrArg UInt64.toNat same
  rw [toNat_finish, toNat_finish] at numbers
  have := a.toNat_lt
  have := b.toNat_lt
  refine UInt64.toNat_inj.mp ?_
  omega

/-- No two words take a state to the same state. -/
theorem absorb_injective (state : UInt64) : Function.Injective (absorb state) := by
  intro a b same
  have odd : IsOdd multiplier := rfl
  rw [absorb, absorb, mul_comm, mul_comm (state + b)] at same
  exact add_left_cancel (odd.mul_left_cancel same)

end Fingerprint

theorem fingerprint_int_injective : Function.Injective fun n => (Part.int n).fingerprint := by
  intro m n same
  have words : m.toUInt64 = n.toUInt64 :=
    Fingerprint.absorb_injective _ (Fingerprint.finish_injective same)
  rw [← m.toInt64_toUInt64, words, n.toInt64_toUInt64]

theorem fingerprint_word_injective : Function.Injective fun n => (Part.word n).fingerprint := by
  intro m n same
  exact Fingerprint.absorb_injective _ (Fingerprint.finish_injective same)

namespace Composite

variable {fingerprint : Part → UInt64}

/-! ### Weighted sums -/

/-- The sum of the fingerprints of the parts, each times its place behind `count` other parts and
times 37 for every part behind it. -/
def weigh (fingerprint : Part → UInt64) (count : Nat) (parts : List Part) : UInt64 :=
  (parts.mapIdx fun index part =>
    multiplier ^ (parts.length - (index + 1)) *
      (UInt64.ofNat (count + (index + 1)) * fingerprint part)).sum

/-- The first part has all others behind it, and each of these has one more part before it. -/
theorem weigh_cons (count : Nat) (part : Part) (rest : List Part) :
    weigh fingerprint count (part :: rest) =
      multiplier ^ rest.length * (UInt64.ofNat (count + 1) * fingerprint part) +
        weigh fingerprint (count + 1) rest := by
  have later : (fun index part => multiplier ^ (rest.length + 1 - (index + 1 + 1)) *
        (UInt64.ofNat (count + (index + 1 + 1)) * fingerprint part)) =
      fun index part => multiplier ^ (rest.length - (index + 1)) *
        (UInt64.ofNat (count + 1 + (index + 1)) * fingerprint part) := by
    funext index part
    rw [Nat.add_sub_add_right, Nat.add_assoc count 1, Nat.add_comm 1]
  rw [weigh, weigh, List.mapIdx_cons, List.sum_cons, List.length_cons, Nat.zero_add,
    Nat.add_sub_cancel, later]

theorem count_appendAllBy (key : Composite) (parts : List Part) :
    (key.appendAllBy fingerprint parts).count = key.count + parts.length := by
  induction parts generalizing key with
  | nil => rfl
  | cons part rest inductionHypothesis =>
    show ((key.appendBy fingerprint part).appendAllBy fingerprint rest).count = _
    rw [inductionHypothesis, List.length_cons, Nat.add_comm rest.length, ← Nat.add_assoc]
    rfl

/-- The checksum grows by the fingerprints, whatever their order. -/
theorem checksum_appendAllBy (key : Composite) (parts : List Part) :
    (key.appendAllBy fingerprint parts).checksum =
      key.checksum + (parts.map fingerprint).sum := by
  induction parts generalizing key with
  | nil => exact (add_zero key.checksum).symm
  | cons part rest inductionHypothesis =>
    show ((key.appendBy fingerprint part).appendAllBy fingerprint rest).checksum = _
    rw [inductionHypothesis, List.map_cons, List.sum_cons, ← add_assoc]
    rfl

/-- Appending parts multiplies the hash code by 37 for each of them and adds their weighted sum. -/
theorem hashcode_appendAllBy (key : Composite) (parts : List Part) :
    (key.appendAllBy fingerprint parts).hashcode =
      multiplier ^ parts.length * key.hashcode + weigh fingerprint key.count parts := by
  induction parts generalizing key with
  | nil =>
    show key.hashcode = multiplier ^ 0 * key.hashcode + 0
    rw [pow_zero, one_mul, add_zero]
  | cons part rest inductionHypothesis =>
    show ((key.appendBy fingerprint part).appendAllBy fingerprint rest).hashcode = _
    rw [inductionHypothesis, weigh_cons, List.length_cons, pow_succ, mul_assoc, ← add_assoc,
      ← mul_add, mul_comm multiplier, mul_comm (UInt64.ofNat _)]
    rfl

/-! ### Exchanged parts -/

section Difference

variable {a b : Composite} (counts : a.count = b.count)

include counts

/-- What is appended to two keys of one length keeps their difference, up to an odd factor. -/
theorem hashcode_appendAllBy_sub (parts : List Part) :
    (a.appendAllBy fingerprint parts).hashcode - (b.appendAllBy fingerprint parts).hashcode =
      multiplier ^ parts.length * (a.hashcode - b.hashcode) := by
  rw [hashcode_appendAllBy, hashcode_appendAllBy, counts, add_sub_add_right_eq_sub, mul_sub]

theorem hashcode_appendBy_sub (first second : Part) :
    (a.appendBy fingerprint first).hashcode - (b.appendBy fingerprint second).hashcode =
      multiplier * (a.hashcode - b.hashcode) +
        UInt64.ofNat (b.count + 1) * (fingerprint first - fingerprint second) := by
  show a.hashcode * multiplier + fingerprint first * UInt64.ofNat (a.count + 1) -
      (b.hashcode * multiplier + fingerprint second * UInt64.ofNat (b.count + 1)) = _
  rw [counts, add_sub_add_comm, ← sub_mul, ← sub_mul, mul_comm multiplier,
    mul_comm (UInt64.ofNat _)]

end Difference

/-- What the exchange of two parts changes the hash code by, right behind the second one. -/
theorem hashcode_crossed_sub (key : Composite) (between : List Part) (first second : Part) :
    (((key.appendBy fingerprint first).appendAllBy fingerprint between).appendBy fingerprint
          second).hashcode -
        (((key.appendBy fingerprint second).appendAllBy fingerprint between).appendBy fingerprint
          first).hashcode =
      (multiplier ^ (between.length + 1) * UInt64.ofNat (key.count + 1) -
          UInt64.ofNat (key.count + 1 + between.length + 1)) *
        (fingerprint first - fingerprint second) := by
  have counts : ∀ part, ((key.appendBy fingerprint part).appendAllBy fingerprint between).count =
      key.count + 1 + between.length := fun part => count_appendAllBy _ between
  have level : (key.appendBy fingerprint first).count = (key.appendBy fingerprint second).count :=
    rfl
  rw [hashcode_appendBy_sub ((counts first).trans (counts second).symm), counts,
    hashcode_appendAllBy_sub level, hashcode_appendBy_sub rfl, sub_self, mul_zero, zero_add,
    ← neg_sub (fingerprint first), mul_neg, ← sub_eq_add_neg, ← mul_assoc, ← mul_assoc, ← sub_mul,
    pow_succ']

/-- Exchanging two parts at an odd distance changes the hash code, if their fingerprints differ. -/
theorem hashcode_exchanged (before after : List Part) {between : List Part} {first second : Part}
    (even : between.length % 2 = 0) (different : fingerprint first ≠ fingerprint second) :
    (empty.appendAllBy fingerprint (before ++ second :: (between ++ first :: after))).hashcode ≠
      (empty.appendAllBy fingerprint
        (before ++ first :: (between ++ second :: after))).hashcode := by
  let start := empty.appendAllBy fingerprint before
  let crossed := fun one other =>
    ((start.appendBy fingerprint one).appendAllBy fingerprint between).appendBy fingerprint other
  have split : ∀ one other,
      empty.appendAllBy fingerprint (before ++ one :: (between ++ other :: after)) =
        (crossed one other).appendAllBy fingerprint after := by
    intro one other
    rw [← appendAllBy_append]
    exact (appendAllBy_append (start.appendBy fingerprint one) between (other :: after)).symm
  have counts : (crossed first second).count = (crossed second first).count := by
    show (appendAllBy fingerprint _ between).count + 1 =
      (appendAllBy fingerprint _ between).count + 1
    rw [count_appendAllBy, count_appendAllBy]
    rfl
  have odd : IsOdd multiplier := rfl
  have weight : IsOdd (multiplier ^ (between.length + 1) * UInt64.ofNat (start.count + 1) -
      UInt64.ofNat (start.count + 1 + between.length + 1)) :=
    (odd.pow _).mul_ofNat_sub (by omega)
  intro same
  rw [split, split] at same
  -- Both factors of the difference are odd, so equal hash codes leave only equal fingerprints.
  have nothing : multiplier ^ after.length *
      ((crossed first second).hashcode - (crossed second first).hashcode) =
        multiplier ^ after.length * 0 := by
    rw [← hashcode_appendAllBy_sub counts, same, sub_self, mul_zero]
  have nothing := (odd.pow _).mul_left_cancel nothing
  rw [hashcode_crossed_sub, ← mul_zero (_ - _)] at nothing
  exact different (sub_eq_zero.mp (weight.mul_left_cancel nothing))

/-- The checksum does not see which part stands where. -/
theorem checksum_exchanged (before between after : List Part) (first second : Part) :
    (empty.appendAllBy fingerprint (before ++ second :: (between ++ first :: after))).checksum =
      (empty.appendAllBy fingerprint
        (before ++ first :: (between ++ second :: after))).checksum := by
  have exchanged : (before ++ second :: (between ++ first :: after)).Perm
      (before ++ first :: (between ++ second :: after)) := by
    refine List.Perm.append_left before ?_
    refine (List.perm_middle.cons second).trans ((List.Perm.swap first second _).trans ?_)
    exact (List.perm_middle.symm.cons first)
  rw [checksum_appendAllBy, checksum_appendAllBy, (exchanged.map fingerprint).sum_eq]

/-- One part of another fingerprint makes another checksum. -/
theorem checksum_replaced (before after : List Part) {first second : Part}
    (different : fingerprint first ≠ fingerprint second) :
    (empty.appendAllBy fingerprint (before ++ second :: after)).checksum ≠
      (empty.appendAllBy fingerprint (before ++ first :: after)).checksum := by
  intro same
  simp only [checksum_appendAllBy, List.map_append, List.map_cons, List.sum_append,
    List.sum_cons] at same
  exact different (add_right_cancel (add_left_cancel (add_left_cancel same))).symm

/-! ### Places -/

/-- A place of a list cuts it into two, and what stands there can be replaced. -/
theorem exists_replaced {X : Type} {list : List X} {i : Nat} {first : X}
    (found : list[i]? = some first) (second : X) :
    ∃ before after, list = before ++ first :: after ∧ before.length = i ∧
      list.set i second = before ++ second :: after := by
  obtain ⟨within, found⟩ := List.getElem?_eq_some_iff.mp found
  rw [← found]
  exact List.exists_of_set within

/-- Two places of a list cut it into three, and what stands there can be exchanged. -/
theorem exists_exchanged {X : Type} {list : List X} {i j : Nat} {first second : X}
    (earlier : list[i]? = some first) (later : list[j]? = some second) (less : i < j) :
    ∃ before between after, list = before ++ first :: (between ++ second :: after) ∧
      (list.set i second).set j first = before ++ second :: (between ++ first :: after) ∧
      j - i = between.length + 1 := by
  obtain ⟨before, rest, same, length, changed⟩ := exists_replaced earlier second
  have place : j - i = j - (i + 1) + 1 := by omega
  have behind : rest[j - (i + 1)]? = some second := by
    rw [same, List.getElem?_append_right (by omega), length, place,
      List.getElem?_cons_succ] at later
    exact later
  obtain ⟨between, after, same', length', changed'⟩ := exists_replaced behind first
  refine ⟨before, between, after, same.trans (same' ▸ rfl), ?_, length' ▸ place⟩
  rw [changed, List.set_append_right _ _ (by omega), length, place, List.set_cons_succ, changed']

/-- A key whose parts at two places of odd distance are exchanged has another hash code, if the
fingerprints of these parts differ, and still the same checksum and count. Different integers of one
kind have different fingerprints. A key with another fingerprint at one of its places has another
checksum. -/
theorem exchange_changes_hashcode (parts : List Part) :
    (∀ i j first second, parts[i]? = some first → parts[j]? = some second → i < j →
      (j - i) % 2 = 1 → first.fingerprint ≠ second.fingerprint →
        let key := ofParts parts
        let exchanged := ofParts ((parts.set i second).set j first)
        exchanged.hashcode ≠ key.hashcode ∧ exchanged.checksum = key.checksum ∧
          exchanged.count = key.count) ∧
      (∀ m n : Int64, m ≠ n → (Part.int m).fingerprint ≠ (Part.int n).fingerprint) ∧
      (∀ m n : UInt64, m ≠ n → (Part.word m).fingerprint ≠ (Part.word n).fingerprint) ∧
      ∀ i first second, parts[i]? = some first → first.fingerprint ≠ second.fingerprint →
        (ofParts (parts.set i second)).checksum ≠ (ofParts parts).checksum := by
  refine ⟨fun i j first second earlier later less odd different => ?_,
    fun m n different => fingerprint_int_injective.ne different,
    fun m n different => fingerprint_word_injective.ne different,
    fun i first second found different => ?_⟩
  · obtain ⟨before, between, after, same, exchanged, distance⟩ :=
      exists_exchanged earlier later less
    have even : between.length % 2 = 0 := by omega
    intro key other
    refine ⟨?_, ?_, ?_⟩
    · show (ofParts _).hashcode ≠ (ofParts parts).hashcode
      rw [exchanged, same]
      exact hashcode_exchanged before after even different
    · show (ofParts _).checksum = (ofParts parts).checksum
      rw [exchanged, same]
      exact checksum_exchanged before between after first second
    · show (empty.appendAllBy Part.fingerprint _).count = (empty.appendAllBy _ parts).count
      rw [count_appendAllBy, count_appendAllBy, List.length_set, List.length_set]
  · obtain ⟨before, after, same, -, changed⟩ := exists_replaced found second
    rw [changed, same]
    exact checksum_replaced before after different

/-- The first and the last of four parts, which are three places apart. -/
theorem exchange_changes_hashcode_ends :
    let parts := [.int 5, .flag true, .null, .int (-1)]
    let exchanged := ofParts ((parts.set 0 (.int (-1))).set 3 (.int 5))
    exchanged.hashcode ≠ (ofParts parts).hashcode ∧
      exchanged.checksum = (ofParts parts).checksum ∧
      (ofParts (parts.set 3 (.int 5))).checksum ≠ (ofParts parts).checksum := by
  intro parts exchanged
  have ⟨exchange, integers, _, replace⟩ := exchange_changes_hashcode parts
  have ⟨hashcode, checksum, _⟩ := exchange 0 3 (.int 5) (.int (-1)) rfl rfl (by decide) (by decide)
    (integers 5 (-1) (by decide))
  exact ⟨hashcode, checksum, replace 3 (.int (-1)) (.int 5) rfl (integers (-1) 5 (by decide))⟩

end Composite

end LayeredCache.Key
