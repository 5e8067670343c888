import Mathlib.Algebra.GroupWithZero.Nat
import Mathlib.Data.Finset.Card
import Mathlib.Data.List.AList

/-!
# HashMap — counting over a map

A hash map is a list of keys and values with no key twice; its order is the order of iteration, which no result
may depend on.  Here is what inserting, erasing and changing a value do to a sum over the entries, to their
number and to what is found.
-/

namespace Northstar.HashMap

variable {κ α : Type*}

/-- The sum of a weight over the entries. -/
def total (w : κ → α → Nat) (m : AList fun _ : κ => α) : Nat := (m.entries.map fun e => w e.1 e.2).sum

variable {m : AList fun _ : κ => α}

theorem total_congr {w w' : κ → α → Nat}
    (h : ∀ e ∈ m.entries, w e.1 e.2 = w' e.1 e.2) : total w m = total w' m :=
  congrArg List.sum (List.map_congr_left h)

theorem total_add (w w' : κ → α → Nat) (m : AList fun _ : κ => α) :
    total (fun k a => w k a + w' k a) m = total w m + total w' m := by
  unfold total
  induction m.entries with
  | nil => rfl
  | cons e entries ih =>
    rw [List.map_cons, List.map_cons, List.map_cons, List.sum_cons, List.sum_cons, List.sum_cons, ih]
    exact Nat.add_add_add_comm ..

theorem total_one (m : AList fun _ : κ => α) : total (fun _ _ => 1) m = m.entries.length := by
  unfold total
  rw [List.map_const', List.sum_replicate_nat, Nat.mul_one]

/-- The sum over the entries of a kind. -/
def totalWhere (w : α → Nat) (p : κ → α → Bool) (m : AList fun _ : κ => α) : Nat :=
  total (fun k a => if p k a then w a else 0) m

theorem totalWhere_congr {w : α → Nat} {p q : κ → α → Bool}
    (h : ∀ e ∈ m.entries, p e.1 e.2 = q e.1 e.2) : totalWhere w p m = totalWhere w q m := by
  apply total_congr
  intro e he
  rw [h e he]

theorem totalWhere_eq_zero {w : α → Nat} {p : κ → α → Bool}
    (h : ∀ e ∈ m.entries, p e.1 e.2 = false) : totalWhere w p m = 0 := by
  have hzero : totalWhere w p m = total (fun _ _ => 0) m := by
    apply total_congr
    intro e he
    rw [h e he]
    rfl
  rw [hzero]
  unfold total
  rw [List.map_const', List.sum_replicate_nat, Nat.mul_zero]

theorem totalWhere_add_not (w : α → Nat) (p : κ → α → Bool) (m : AList fun _ : κ => α) :
    totalWhere w p m + totalWhere w (fun k a => !p k a) m = total (fun _ => w) m := by
  unfold totalWhere
  rw [← total_add]
  apply total_congr
  intro e _
  show (if p e.1 e.2 then w e.2 else 0) + (if !p e.1 e.2 then w e.2 else 0) = w e.2
  cases p e.1 e.2 with
  | true => exact Nat.add_zero _
  | false => exact Nat.zero_add _

variable [DecidableEq κ] {k : κ} {a : α} {w : κ → α → Nat}

theorem mem_of_lookup (h : m.lookup k = some a) : ⟨k, a⟩ ∈ m.entries := AList.mem_lookup_iff.mp h

theorem lookup_of_mem (h : ⟨k, a⟩ ∈ m.entries) : m.lookup k = some a := AList.mem_lookup_iff.mpr h

theorem perm_erase (h : m.lookup k = some a) : m.entries.Perm (⟨k, a⟩ :: (m.erase k).entries) := by
  have hmem : (⟨k, a⟩ : Sigma fun _ : κ => α) ∈ m.entries := mem_of_lookup h
  have hkey : k ∈ m.entries.keys := List.mem_keys_of_mem hmem
  obtain ⟨b, l₁, l₂, -, hsplit, hrest⟩ := List.exists_of_kerase hkey
  have hin : (⟨k, b⟩ : Sigma fun _ : κ => α) ∈ m.entries := by
    rw [hsplit]
    exact List.mem_append_right _ (List.mem_cons_self ..)
  have hsame : b = a := m.nodupKeys.eq_of_mk_mem hin hmem
  subst hsame
  show m.entries.Perm (_ :: m.entries.kerase k)
  rw [hrest, hsplit]
  exact List.perm_middle

theorem total_erase (h : m.lookup k = some a) : total w (m.erase k) + w k a = total w m := by
  have hperm : total w m = w k a + total w (m.erase k) :=
    ((perm_erase h).map fun e : Sigma fun _ : κ => α => w e.1 e.2).sum_nat
  rw [hperm, Nat.add_comm]

theorem totalWhere_erase {w : α → Nat} {p : κ → α → Bool} (h : m.lookup k = some a) (hp : p k a = true) :
    totalWhere w p m = totalWhere w p (m.erase k) + w a := by
  have herase : totalWhere w p (m.erase k) + (if p k a then w a else 0) = totalWhere w p m := total_erase h
  rw [← herase, if_pos hp]

theorem le_total (h : m.lookup k = some a) : w k a ≤ total w m := by
  rw [← total_erase h]
  exact Nat.le_add_left ..

theorem length_erase (h : m.lookup k = some a) : (m.erase k).entries.length + 1 = m.entries.length :=
  (perm_erase h).length_eq.symm

theorem erase_eq_of_lookup (h : m.lookup k = none) : (m.erase k).entries = m.entries :=
  List.kerase_of_notMem_keys (AList.lookup_eq_none.mp h)

variable {e : Sigma fun _ : κ => α}

theorem mem_of_mem_erase (h : e ∈ (m.erase k).entries) : e ∈ m.entries :=
  (List.kerase_sublist k m.entries).subset h

theorem ne_of_mem_erase (h : e ∈ (m.erase k).entries) : e.1 ≠ k := by
  rintro rfl
  have hlookup := lookup_of_mem h
  rw [AList.lookup_erase] at hlookup
  cases hlookup

theorem total_insert : total w (m.insert k a) = w k a + total w (m.erase k) := rfl

theorem total_insert_new (h : m.lookup k = none) : total w (m.insert k a) = w k a + total w m := by
  rw [total_insert]
  unfold total
  rw [erase_eq_of_lookup h]

theorem total_insert_same (h : m.lookup k = some a) : total w (m.insert k a) = total w m := by
  rw [total_insert, Nat.add_comm]
  exact total_erase h

theorem length_insert : (m.insert k a).entries.length = (m.erase k).entries.length + 1 := rfl

theorem length_insert_new (h : m.lookup k = none) : (m.insert k a).entries.length = m.entries.length + 1 := by
  rw [length_insert, erase_eq_of_lookup h]

theorem mem_insert (h : e ∈ (m.insert k a).entries) : e = ⟨k, a⟩ ∨ e ∈ m.entries := by
  rcases List.mem_cons.mp h with rfl | h
  · exact .inl rfl
  · exact .inr (mem_of_mem_erase h)

/-- `get_mut`: the value of the key is changed where it is. -/
def modify (m : AList fun _ : κ => α) (k : κ) (f : α → α) : AList fun _ : κ => α :=
  ⟨m.entries.map fun e => ⟨e.1, if e.1 = k then f e.2 else e.2⟩,
    m.nodupKeys.map₂ (fun k' a => if k' = k then f a else a)⟩

theorem lookup_modify (m : AList fun _ : κ => α) (k other : κ) (f : α → α) :
    (modify m k f).lookup other = (m.lookup other).map fun a => if other = k then f a else a :=
  @List.dlookup_map₂ κ _ (fun _ => α) (fun _ => α) m.entries (fun k' a => if k' = k then f a else a) other

theorem length_modify (m : AList fun _ : κ => α) (k : κ) (f : α → α) :
    (modify m k f).entries.length = m.entries.length := List.length_map _

theorem total_modify (m : AList fun _ : κ => α) (k : κ) {f : α → α} (h : ∀ k a, w k (f a) = w k a) :
    total w (modify m k f) = total w m := by
  unfold total modify
  rw [List.map_map]
  apply congrArg
  apply List.map_congr_left
  intro e _
  show w e.1 (if e.1 = k then f e.2 else e.2) = w e.1 e.2
  split
  · exact h ..
  · rfl

/-- `retain`: the entries whose keys pass. -/
def retain (m : AList fun _ : κ => α) (p : κ → Bool) : AList fun _ : κ => α :=
  ⟨m.entries.filter fun e => p e.1, m.nodupKeys.sublist List.filter_sublist⟩

/-- `Iterator::collect`: the entries are inserted one after another. -/
def collect (entries : List (κ × α)) : AList fun _ : κ => α :=
  entries.foldl (fun m e => m.insert e.1 e.2) ∅

variable {entries : List (κ × α)}

theorem lookup_foldl_insert (hnodup : (entries.map Prod.fst).Nodup)
    (m : AList fun _ : κ => α) (k : κ) :
    (entries.foldl (fun m e => m.insert e.1 e.2) m).lookup k = ((entries.find? (·.1 = k)).map Prod.snd).or (m.lookup k) := by
  induction entries generalizing m with
  | nil => rfl
  | cons e entries ih =>
    rw [List.map_cons, List.nodup_cons] at hnodup
    rw [List.foldl_cons, ih hnodup.2, List.find?_cons]
    by_cases heq : e.1 = k
    · -- no later entry has the key
      have hnone : entries.find? (·.1 = k) = none := by
        apply List.find?_eq_none.mpr
        intro e' he' hkey
        exact hnodup.1 (List.mem_map.mpr ⟨e', he', (of_decide_eq_true hkey).trans heq.symm⟩)
      rw [hnone, decide_eq_true heq, ← heq, AList.lookup_insert]
      rfl
    · rw [decide_eq_false heq, AList.lookup_insert_ne (Ne.symm heq)]

theorem lookup_collect (hnodup : (entries.map Prod.fst).Nodup) (k : κ) :
    (collect entries).lookup k = (entries.find? (·.1 = k)).map Prod.snd := by
  unfold collect
  rw [lookup_foldl_insert hnodup, AList.lookup_empty, Option.or_none]

theorem lookup_collect_eq_some (hnodup : (entries.map Prod.fst).Nodup) :
    (collect entries).lookup k = some a ↔ (k, a) ∈ entries := by
  rw [lookup_collect hnodup, Option.map_eq_some_iff]
  constructor
  · intro h
    obtain ⟨e, he, rfl⟩ := h
    have hkey : e.1 = k := of_decide_eq_true (List.find?_some (p := fun x : κ × α => decide (x.1 = k)) he)
    rw [← hkey]
    exact List.mem_of_find?_eq_some he
  · intro h
    have hfound : (entries.find? (·.1 = k)).isSome = true := List.find?_isSome.mpr ⟨(k, a), h, decide_eq_true rfl⟩
    obtain ⟨e, he⟩ := Option.isSome_iff_exists.mp hfound
    have hkey : e.1 = k := of_decide_eq_true (List.find?_some (p := fun x : κ × α => decide (x.1 = k)) he)
    -- no other entry has the key
    have hsame : e = (k, a) := List.inj_on_of_nodup_map hnodup (List.mem_of_find?_eq_some he) h hkey
    exact ⟨e, he, congrArg Prod.snd hsame⟩

theorem length_foldl_insert (hnodup : (entries.map Prod.fst).Nodup)
    (m : AList fun _ : κ => α) (hnew : ∀ e ∈ entries, m.lookup e.1 = none) :
    (entries.foldl (fun m e => m.insert e.1 e.2) m).entries.length = m.entries.length + entries.length := by
  induction entries generalizing m with
  | nil => rfl
  | cons e entries ih =>
    rw [List.map_cons, List.nodup_cons] at hnodup
    rw [List.foldl_cons, ih hnodup.2, length_insert_new (hnew e (List.mem_cons_self ..)), List.length_cons]
    · omega
    · intro e' he'
      have hne : e'.1 ≠ e.1 := fun heq => hnodup.1 (List.mem_map.mpr ⟨e', he', heq⟩)
      rw [AList.lookup_insert_ne hne]
      exact hnew e' (List.mem_cons_of_mem _ he')

theorem length_collect (hnodup : (entries.map Prod.fst).Nodup) :
    (collect entries).entries.length = entries.length := by
  unfold collect
  rw [length_foldl_insert hnodup ∅ fun e _ => AList.lookup_empty e.1]
  exact Nat.zero_add _

/-- The order in which the entries of a map come out. -/
structure Iteration (κ α : Type*) where
  order : (AList fun _ : κ => α) → List (Sigma fun _ : κ => α)
  perm : ∀ m, (order m).Perm m.entries

end Northstar.HashMap
