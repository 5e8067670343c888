import Northstar.Refmodel.Compare

/-!
# Serialize — a tree in a file

`refmodel/serialize.rs`.  A file has the current value of every key that is not deleted, with LSN 1, and its
bytes as base64; strings and integers are themselves in JSON.
-/

namespace Northstar.Refmodel

open Bytes HashMap

structure SerializedVersionedValue where
  value : Bytes
  lsn : UInt64
  isTombstone : Bool
  deriving Repr, DecidableEq

structure SerializedVersionChain where
  versions : List SerializedVersionedValue
  deriving Repr, DecidableEq

structure SerializedEntry where
  key : Bytes
  chain : SerializedVersionChain
  deriving Repr, DecidableEq

structure SerializedRefTree where
  entries : List SerializedEntry
  deriving Repr, DecidableEq

/-- "Simplified - serialization doesn't preserve full version history". -/
def SerializedEntry.of (item : Bytes × Bytes) : SerializedEntry := ⟨item.1, ⟨[⟨item.2, 1, false⟩]⟩⟩

def SerializedRefTree.ofTree (tree : ListedTree) : SerializedRefTree := ⟨tree.iter.map .of⟩

section

variable (S : BinarySearch Nat)

/-- "Take the latest (last) version from the chain". -/
def putEntry (tree : ListedTree) (entry : SerializedEntry) : ListedTree :=
  match entry.chain.versions.getLast? with
  | some latest => if latest.isTombstone then tree else tree.put S entry.key latest.value latest.lsn
  | none => tree

def SerializedRefTree.toTree (st : SerializedRefTree) : ListedTree := st.entries.foldl (putEntry S) .new

end

def SerializedVersionedValue.serialize (v : SerializedVersionedValue) : SerializedVersionedValue :=
  { v with value := Base64.encode v.value }

def SerializedEntry.serialize (entry : SerializedEntry) : SerializedEntry :=
  ⟨Base64.encode entry.key, ⟨entry.chain.versions.map .serialize⟩⟩

/-- The JSON document, with a text where a value or a key is. -/
def SerializedRefTree.serialize (st : SerializedRefTree) : SerializedRefTree := ⟨st.entries.map .serialize⟩

def SerializedVersionedValue.deserialize (v : SerializedVersionedValue) : Except String SerializedVersionedValue := do
  let value ← Base64.decode v.value
  return { v with value := value }

def SerializedEntry.deserialize (entry : SerializedEntry) : Except String SerializedEntry := do
  let key ← Base64.decode entry.key
  let versions ← entry.chain.versions.mapM SerializedVersionedValue.deserialize
  return ⟨key, ⟨versions⟩⟩

def SerializedRefTree.deserialize (st : SerializedRefTree) : Except String SerializedRefTree := do
  let entries ← st.entries.mapM SerializedEntry.deserialize
  return ⟨entries⟩

def saveToFile (tree : ListedTree) : SerializedRefTree := (SerializedRefTree.ofTree tree).serialize

def loadFromFile (S : BinarySearch Nat) (file : SerializedRefTree) : Except String ListedTree := do
  let serialized ← file.deserialize
  return serialized.toTree S

theorem mapM_of_forall {α β : Type} {f : α → β} {g : β → Except String α} (h : ∀ a, g (f a) = .ok a) (l : List α) :
    (l.map f).mapM g = .ok l := by
  induction l with
  | nil => rfl
  | cons a l ih =>
    rw [List.map_cons, List.mapM_cons, h, ih]
    rfl

theorem SerializedVersionedValue.deserialize_serialize (v : SerializedVersionedValue) : v.serialize.deserialize = .ok v := by
  unfold deserialize serialize
  rw [Base64.decode_encode]
  rfl

theorem SerializedEntry.deserialize_serialize (entry : SerializedEntry) : entry.serialize.deserialize = .ok entry := by
  unfold deserialize serialize
  rw [Base64.decode_encode, Except.ok_bind, mapM_of_forall SerializedVersionedValue.deserialize_serialize]
  rfl

theorem SerializedRefTree.deserialize_serialize (st : SerializedRefTree) : st.serialize.deserialize = .ok st := by
  unfold deserialize serialize
  rw [mapM_of_forall SerializedEntry.deserialize_serialize]
  rfl

section

variable {S : BinarySearch Nat}

theorem get_put_new {t : ListedTree} (h : t.tree.Sound) {key : Bytes} (hnew : t.tree.latest key = none)
    (value : Bytes) (lsn : Lsn) (other : Bytes) :
    (t.put S key value lsn).get other = if other = key then some value else t.get other := by
  show (RefTree.put S t.tree key value lsn).get other = _
  rw [RefTree.get_eq, (RefTree.sound_put S h key value lsn).2, hnew]
  split <;> rfl

theorem foldl_putEntry {items : List (Bytes × Bytes)} (hnodup : (items.map Prod.fst).Nodup) {t : ListedTree}
    (hsound : t.tree.Sound) (hnew : ∀ item ∈ items, t.tree.latest item.1 = none) (key : Bytes) :
    ((items.map SerializedEntry.of).foldl (putEntry S) t).get key =
      ((items.find? (·.1 = key)).map Prod.snd).or (t.get key) := by
  induction items generalizing t with
  | nil => rfl
  | cons item items ih =>
    rw [List.map_cons, List.nodup_cons] at hnodup
    have hput := RefTree.sound_put S hsound item.1 item.2 1
    show ((items.map SerializedEntry.of).foldl (putEntry S) (t.put S item.1 item.2 1)).get key = _
    rw [ih hnodup.2 hput.1, get_put_new hsound (hnew item (List.mem_cons_self ..)), List.find?_cons]
    · by_cases heq : item.1 = key
      · have hnone : items.find? (·.1 = key) = none := by
          apply List.find?_eq_none.mpr
          intro item' hmem hkey
          exact hnodup.1 (List.mem_map.mpr ⟨item', hmem, (of_decide_eq_true hkey).trans heq.symm⟩)
        rw [hnone, decide_eq_true heq, if_pos heq.symm]
        rfl
      · rw [decide_eq_false heq, if_neg (Ne.symm heq)]
    · intro item' hmem
      have hne : item'.1 ≠ item.1 := fun heq => hnodup.1 (List.mem_map.mpr ⟨item', hmem, heq⟩)
      show (RefTree.put S t.tree item.1 item.2 1).latest item'.1 = none
      rw [hput.2, if_neg hne]
      exact hnew item' (List.mem_cons_of_mem _ hmem)

theorem get_toTree (t : ListedTree) (key : Bytes) : ((SerializedRefTree.ofTree t).toTree S).get key = t.get key := by
  show ((t.iter.map SerializedEntry.of).foldl (putEntry S) .new).get key = _
  rw [foldl_putEntry t.nodup_iter RefTree.sound_new fun _ _ => rfl, ← lookup_collect t.nodup_iter]
  show ((items t).lookup key).or none = _
  rw [Option.or_none, lookup_items]

theorem loadFromFile_saveToFile (t : ListedTree) :
    loadFromFile S (saveToFile t) = .ok ((SerializedRefTree.ofTree t).toTree S) := by
  unfold loadFromFile saveToFile
  rw [SerializedRefTree.deserialize_serialize]
  rfl

end

/-- Two trees compare as equivalent when every key has the same value in both, else the differences name each key
whose values differ once, with its two values; the counts are those of the differences, also when they are
counted on their own; and a tree that went through a file is equivalent to the one before. -/
theorem comparison_exact (S : BinarySearch Nat) (leftOrder rightOrder leftOrder' rightOrder' : Iteration Bytes Bytes) :
    (∀ left right : ListedTree,
      (compareTrees leftOrder rightOrder left right = .equivalent ↔ ∀ key, left.get key = right.get key) ∧
      ((compareTrees leftOrder rightOrder left right).differences.map Difference.key).Nodup ∧
      (∀ d, d ∈ (compareTrees leftOrder rightOrder left right).differences ↔
        DiffType.between (left.get d.key) (right.get d.key) = some d.diffType) ∧
      compareStats leftOrder' rightOrder' left right =
        { leftKeys := left.iter.length
          rightKeys := right.iter.length
          onlyInLeft := count DiffType.isOnlyInLeft (compareTrees leftOrder rightOrder left right).differences
          onlyInRight := count DiffType.isOnlyInRight (compareTrees leftOrder rightOrder left right).differences
          mismatches := count DiffType.isMismatch (compareTrees leftOrder rightOrder left right).differences
          totalDifferences := (compareTrees leftOrder rightOrder left right).differences.length }) ∧
    ∀ t : ListedTree, ∃ u, loadFromFile S (saveToFile t) = .ok u ∧
      compareTrees leftOrder rightOrder t u = .equivalent := by
  constructor
  · intro left right
    exact ⟨compareTrees_eq_equivalent .., nodup_differences .., fun d => mem_differences .., compareStats_eq ..⟩
  · intro t
    refine ⟨_, loadFromFile_saveToFile t, (compareTrees_eq_equivalent ..).mpr ?_⟩
    intro key
    exact (get_toTree t key).symm

/-- The tombstone of a deleted key is in no item. -/
example : (((ListedTree.new.put (.linear Nat) [1] [7] 1).put (.linear Nat) [0] [8] 2).delete (.linear Nat) [1]).iter =
    [([0], [8])] := by decide

end Northstar.Refmodel
