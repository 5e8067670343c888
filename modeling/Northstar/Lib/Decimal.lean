import Mathlib.Algebra.GroupWithZero.Nat
import Mathlib.Data.List.TakeWhile

/-!
# Decimal — numerals as bytes

A number is written with the digits of `Nat.toDigits`, in ASCII.  Numerals differ when the numbers do, also
when they stand between a separator that is no digit.
-/

namespace Decimal

def digit (d : Nat) : UInt8 := UInt8.ofNat (48 + d)

def IsDigit (b : UInt8) : Prop := 48 ≤ b.toNat ∧ b.toNat ≤ 57

def format (n : Nat) : List UInt8 := (Nat.toDigits 10 n).map fun c => UInt8.ofNat c.toNat

def formatInt (i : Int) : List UInt8 := if i < 0 then 45 :: format i.natAbs else format i.natAbs

theorem toNat_digit {d : Nat} (h : d < 10) : (digit d).toNat = 48 + d := by
  show (48 + d) % 256 = 48 + d
  omega

theorem format_eq (n : Nat) :
    format n = if n < 10 then [digit n] else format (n / 10) ++ [digit (n % 10)] := by
  unfold format
  rw [Nat.toDigits_eq_if (by decide)]
  have hdigit : ∀ d, d < 10 → UInt8.ofNat d.digitChar.toNat = digit d := by decide
  split
  next h =>
    rw [List.map_singleton, hdigit n h]
  next =>
    rw [List.map_append, List.map_singleton, hdigit _ (Nat.mod_lt _ (by decide))]

variable {n : Nat}

theorem isDigit_of_mem_format {b : UInt8} (h : b ∈ format n) : IsDigit b := by
  induction n using Nat.strong_induction_on with
  | _ n ih =>
    have hdigit : ∀ d, d < 10 → IsDigit (digit d) := by
      intro d hd
      unfold IsDigit
      rw [toNat_digit hd]
      omega
    rw [format_eq] at h
    split at h
    next hlt =>
      rw [List.mem_singleton.mp h]
      exact hdigit n hlt
    next hge =>
      rcases List.mem_append.mp h with h | h
      · exact ih (n / 10) (by omega) h
      · rw [List.mem_singleton.mp h]
        exact hdigit _ (Nat.mod_lt _ (by decide))

theorem format_ne_nil (n : Nat) : format n ≠ [] := by
  rw [format_eq]
  split
  · exact List.cons_ne_nil _ _
  · exact List.append_ne_nil_of_right_ne_nil _ (List.cons_ne_nil _ _)

theorem length_format_le_iff {k : Nat} (hk : 0 < k) : (format n).length ≤ k ↔ n < 10 ^ k := by
  unfold format
  rw [List.length_map]
  exact Nat.length_toDigits_le_iff (by decide) hk

theorem length_format_le {k : Nat} (hk : 0 < k) (h : n < 10 ^ k) : (format n).length ≤ k :=
  (length_format_le_iff hk).mpr h

theorem format_injective {m : Nat} (h : format m = format n) : m = n := by
  induction m using Nat.strong_induction_on generalizing n with
  | _ m ih =>
    have hvalue : ∀ {a b : Nat}, a < 10 → b < 10 → digit a = digit b → a = b := by
      intro a b ha hb heq
      have htoNat := congrArg UInt8.toNat heq
      rw [toNat_digit ha, toNat_digit hb] at htoNat
      omega
    rw [format_eq m, format_eq n] at h
    split at h <;> split at h
    next hm hn => exact hvalue hm hn (List.cons.inj h).1
    next =>
      have hlength := congrArg List.length h
      have hpos := List.length_pos_iff.mpr (format_ne_nil (n / 10))
      rw [List.length_append, List.length_singleton, List.length_singleton] at hlength
      omega
    next =>
      have hlength := congrArg List.length h
      have hpos := List.length_pos_iff.mpr (format_ne_nil (m / 10))
      rw [List.length_append, List.length_singleton, List.length_singleton] at hlength
      omega
    next hm hn =>
      rcases List.append_inj' h rfl with ⟨hfront, hlast⟩
      have hdiv := ih (m / 10) (by omega) hfront
      have hmod := hvalue (Nat.mod_lt m (by decide)) (Nat.mod_lt n (by decide)) (List.cons.inj hlast).1
      omega

theorem append_cons_inj {α : Type} [DecidableEq α] {separator : α} {xs xs' ys ys' : List α}
    (hxs : separator ∉ xs) (hxs' : separator ∉ xs')
    (h : xs ++ separator :: ys = xs' ++ separator :: ys') : xs = xs' ∧ ys = ys' := by
  have htake : ∀ (xs ys : List α), separator ∉ xs →
      (xs ++ separator :: ys).takeWhile (· ≠ separator) = xs := by
    intro xs ys hxs
    rw [List.takeWhile_append_of_pos, List.takeWhile_cons_of_neg (by simp), List.append_nil]
    intro x hx
    simp only [decide_eq_true_eq]
    exact fun heq => hxs (heq ▸ hx)
  have hfront : xs = xs' := by
    rw [← htake xs ys hxs, h, htake xs' ys' hxs']
  subst hfront
  exact ⟨rfl, (List.cons.inj (List.append_cancel_left h)).2⟩

theorem notMem_format {separator : UInt8} (h : ¬ IsDigit separator) (n : Nat) : separator ∉ format n :=
  fun hmem => h (isDigit_of_mem_format hmem)

end Decimal
