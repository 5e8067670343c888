import Mathlib.Data.List.Forall2

/-!
# Aead — authenticated encryption

A cipher seals a text under a key and a nonce, and opens what it sealed.  An ideal one opens nothing else.
-/

namespace Northstar

structure Aead (κ ν α : Type*) where
  encrypt : κ → ν → List α → Option (List α)
  decrypt : κ → ν → List α → Option (List α)

/-- Texts of this length are taken; without a limit all are. -/
def Within : Option Nat → Nat → Prop
  | none, _ => True
  | some limit, n => n ≤ limit

theorem Within.mono {limit : Option Nat} {m n : Nat} (h : Within limit n) (hle : m ≤ n) : Within limit m := by
  cases limit with
  | none => trivial
  | some limit => exact Nat.le_trans hle h

namespace Aead

variable {κ ν α : Type*} {cipher : Aead κ ν α} {k : κ} {n : ν} {p x : List α} {overhead : Nat}
  {limit : Option Nat}

/-- What is sealed is longer by the tag, opens under its key and nonce, and nothing else opens. -/
structure Ideal (cipher : Aead κ ν α) (overhead : Nat) (limit : Option Nat) : Prop where
  seals : ∀ k n p, (cipher.encrypt k n p).isSome ↔ Within limit p.length
  length : ∀ k n p x, cipher.encrypt k n p = some x → x.length = p.length + overhead
  opens : ∀ k n p x, cipher.encrypt k n p = some x → cipher.decrypt k n x = some p
  authentic : ∀ k n p x, cipher.decrypt k n x = some p → cipher.encrypt k n p = some x

namespace Ideal

theorem decrypt_eq_some_iff (h : cipher.Ideal overhead limit) :
    cipher.decrypt k n x = some p ↔ cipher.encrypt k n p = some x :=
  ⟨h.authentic k n p x, h.opens k n p x⟩

theorem within_of_encrypt (h : cipher.Ideal overhead limit) (hx : cipher.encrypt k n p = some x) :
    Within limit p.length :=
  (h.seals k n p).mp (Option.isSome_of_eq_some hx)

theorem exists_encrypt (h : cipher.Ideal overhead limit) (k : κ) (n : ν) (hp : Within limit p.length) :
    ∃ x, cipher.encrypt k n p = some x ∧ x.length = p.length + overhead := by
  obtain ⟨x, hx⟩ := Option.isSome_iff_exists.mp ((h.seals k n p).mpr hp)
  exact ⟨x, hx, h.length k n p x hx⟩

theorem forall₂_decrypt_iff (h : cipher.Ideal overhead limit) {xs ps : List (List α)} :
    List.Forall₂ (fun x p => cipher.decrypt k n x = some p) xs ps ↔
      List.Forall₂ (fun p x => cipher.encrypt k n p = some x) ps xs := by
  constructor
  · intro hopen
    apply List.Forall₂.flip
    exact hopen.imp fun x p hx => h.authentic k n p x hx
  · intro hseal
    apply List.Forall₂.flip
    exact hseal.imp fun p x hx => h.opens k n p x hx

end Ideal

end Aead

end Northstar
