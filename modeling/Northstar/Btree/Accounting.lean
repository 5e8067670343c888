import Mathlib.Data.List.Chain
import Northstar.Btree.Leaf
import Northstar.Lib.Runs

/-!
# Accounting — the free space a leaf claims

`LeafNode::insert`, `remove` and `validate` of `btree/node.rs`, called in any order on a new leaf.  The
header keeps the free space as a running total.  What the entries take and what the header claims add
up to the capacity until an update shrinks a value: the difference, cast to an unsigned number, then
takes all the space the header has, and nothing gives it back.
-/

namespace Northstar.Btree

open SortedEntries

namespace LeafNode

def validate (node : LeafNode) : Except Error Unit :=
  if ¬ (node.entries.map Entry.key).IsChain (· < ·) then
    .error (.validation (.generic "Keys not sorted"))
  else if node.entries.length ≠ node.header.numKeys.toNat then
    .error (.validation (.generic ("Entry count mismatch: " ++ toString node.entries.length ++
      " != " ++ toString node.header.numKeys)))
  else
    let calculatedFree := node.calculateFreeSpace
    let headerFreeSpace := node.header.freeSpace
    if ((headerFreeSpace.toNat : Int) - calculatedFree.toNat).natAbs > 10 then
      .error (.validation (.generic ("Free space mismatch: header=" ++ toString headerFreeSpace ++
        ", calculated=" ++ toString calculatedFree)))
    else .ok ()

end LeafNode

inductive LeafCall where
  | insert (entry : Entry)
  | remove (key : Bytes)
  deriving Repr, DecidableEq

def LeafCall.step (node : LeafNode) : LeafCall → Option LeafNode
  | .insert entry =>
    match node.insert entry with
    | .ok (_, node) => some node
    | .error _ => none
  | .remove key => some (node.remove key).2

/-- Not an update by an entry that is smaller than the one it replaces. -/
def LeafCall.Covers (node : LeafNode) : LeafCall → Prop
  | .insert entry => ∀ old ∈ node.entries, old.key = entry.key →
      old.serializedSize ≤ entry.serializedSize
  | .remove _ => True

instance LeafCall.decidableCovers (node : LeafNode) :
    (call : LeafCall) → Decidable (call.Covers node)
  | .insert _ => inferInstanceAs (Decidable (∀ _ ∈ _, _))
  | .remove _ => .isTrue trivial

/-- The books of a leaf are right: order, count, free space, and what follows from them. -/
structure Accounted (node : LeafNode) : Prop where
  sorted : Sorted Entry.key node.entries
  count : node.header.numKeys.toNat = node.entries.length
  free : node.header.freeSpace = node.calculateFreeSpace
  fits : LeafNode.used node.entries ≤ leafCapacity
  valid : node.validate = .ok ()

variable {node : LeafNode}

theorem toNat_calculateFreeSpace {node : LeafNode} (h : LeafNode.used node.entries ≤ leafCapacity) :
    node.calculateFreeSpace.toNat = leafCapacity - LeafNode.used node.entries := by
  show (UInt16.ofNat leafCapacity - UInt16.ofNat (LeafNode.used node.entries)).toNat = _
  have hle : UInt16.ofNat (LeafNode.used node.entries) ≤ UInt16.ofNat leafCapacity := by
    apply UInt16.le_iff_toNat_le.mpr
    rw [toNat_ofNat_of_le_capacity h, toNat_ofNat_of_le_capacity (Nat.le_refl _)]
    exact h
  rw [UInt16.toNat_sub_of_le _ _ hle, toNat_ofNat_of_le_capacity h,
    toNat_ofNat_of_le_capacity (Nat.le_refl _)]

theorem Weighed.free_iff (h : Weighed node) :
    node.header.freeSpace = node.calculateFreeSpace ↔ node.claimed = leafCapacity := by
  have hclaimed := h.claimed
  unfold LeafNode.claimed at hclaimed ⊢
  have hcalc := @toNat_calculateFreeSpace node (by omega)
  constructor
  · intro heq
    rw [heq, hcalc]
    omega
  · intro heq
    apply UInt16.toNat_inj.mp
    rw [hcalc]
    omega

theorem Weighed.accounted_iff_free (h : Weighed node) :
    Accounted node ↔ node.claimed = leafCapacity := by
  constructor
  · exact fun hacc => h.free_iff.mp hacc.free
  · intro heq
    have hfree := h.free_iff.mpr heq
    have hchain : (node.entries.map Entry.key).IsChain (· < ·) :=
      (List.isChain_map _).mpr h.sorted.isChain
    refine ⟨h.sorted, h.count, hfree, ?_, ?_⟩
    · have hclaimed := h.claimed
      unfold LeafNode.claimed at hclaimed
      omega
    · unfold LeafNode.validate
      rw [if_neg (not_not.mpr hchain), if_neg (not_not.mpr h.count.symm)]
      have hdiff : ((node.header.freeSpace.toNat : Int) - node.calculateFreeSpace.toNat).natAbs = 0 := by
        rw [hfree, Int.sub_self, Int.natAbs_zero]
      dsimp only
      rw [hdiff, if_neg (Nat.not_lt_zero 10)]

theorem Weighed.insert {node node' : LeafNode} {entry : Entry} {isUpdate : Bool} (h : Weighed node)
    (hinsert : node.insert entry = .ok (isUpdate, node')) :
    Booked node node' ((LeafCall.insert entry).Covers node) := by
  have hnew : Weighed node' ∧ node'.claimed = node.claimed →
      (∀ old ∈ node.entries, old.key ≠ entry.key) →
      Booked node node' ((LeafCall.insert entry).Covers node) := by
    intro hbooked habsent
    refine ⟨hbooked.1, fun _ => hbooked.2, fun hnot => absurd ?_ hnot⟩
    exact fun old hold hkey => absurd hkey (habsent old hold)
  unfold LeafNode.insert at hinsert
  by_cases hspace : node.header.hasSpace entry.serializedSize = true
  · have hfree : entry.serializedSize ≤ node.header.freeSpace.toNat := by
      simpa [NodeHeader.hasSpace] using hspace
    rw [if_neg (not_not.mpr hspace)] at hinsert
    unfold position at hinsert
    rcases binarySearch_cases h.sorted entry.key with
      ⟨pre, old, suf, hentries, hkey, hsearch⟩ | ⟨pre, suf, hentries, hpre, hsuf, hsearch⟩
    · have hget : node.entries[pre.length]? = some old := by rw [hentries, getElem?_middle]
      simp only [hsearch, hget, if_pos hkey] at hinsert
      cases hinsert
      have hbooked := h.replaceAt hentries hkey.symm hfree
      have hcovers : (LeafCall.insert entry).Covers node ↔
          old.serializedSize ≤ entry.serializedSize := by
        have hold : old ∈ node.entries := by
          rw [hentries]
          exact List.mem_append_right _ (List.mem_cons_self ..)
        constructor
        · exact fun hcov => hcov old hold hkey
        · intro hle other hother hkey'
          -- a sorted leaf binds the key once
          have hsame := (lookup_eq_some h.sorted hother hkey').symm.trans
            (lookup_eq_some h.sorted hold hkey)
          rw [Option.some.inj hsame]
          exact hle
      exact ⟨hbooked.weighed, fun hc => hbooked.kept (hcovers.mp hc),
        fun hn => hbooked.short (fun hle => hn (hcovers.mpr hle))⟩
    · have hinserted := h.insertNew hentries hpre hsuf hfree
      have habsent : ∀ old ∈ node.entries, old.key ≠ entry.key := by
        intro old hold
        rw [hentries] at hold
        rcases List.mem_append.mp hold with hold | hold
        · exact (hpre old hold).ne
        · exact (hsuf old hold).ne'
      cases hget : node.entries[pre.length]? with
      | none =>
        simp only [hsearch, hget] at hinsert
        cases hinsert
        exact hnew hinserted habsent
      | some s =>
        have hne : s.key ≠ entry.key := habsent s (List.mem_of_getElem? hget)
        simp only [hsearch, hget, if_neg hne] at hinsert
        cases hinsert
        exact hnew hinserted habsent
  · rw [if_pos hspace] at hinsert
    cases hinsert

theorem Weighed.remove {node : LeafNode} (h : Weighed node) (key : Bytes) :
    Weighed (node.remove key).2 ∧ (node.remove key).2.claimed = node.claimed := by
  unfold LeafNode.remove
  rcases binarySearch_cases h.sorted key with
    ⟨pre, old, suf, hentries, -, hsearch⟩ | ⟨pre, suf, -, -, -, hsearch⟩
  · have hget : node.entries[pre.length]? = some old := by rw [hentries, getElem?_middle]
    have hrest : node.entries.eraseIdx pre.length = pre ++ suf := by
      rw [hentries, eraseIdx_middle]
    have hclaimed := h.claimed
    unfold LeafNode.claimed at hclaimed
    have hused : LeafNode.used (pre ++ suf) + old.serializedSize = LeafNode.used node.entries := by
      rw [hentries, LeafNode.used_append, LeafNode.used_append, LeafNode.used_cons]
      omega
    have hsize : (UInt16.ofNat old.serializedSize).toNat = old.serializedSize :=
      toNat_ofNat_of_le_capacity (by omega)
    have hfree : (node.header.freeSpace + UInt16.ofNat old.serializedSize).toNat =
        node.header.freeSpace.toNat + old.serializedSize := by
      simp only [leafCapacity, bodySize, pageSize, headerSize] at hclaimed
      rw [UInt16.toNat_add, hsize]
      omega
    have hlength : (UInt16.ofNat (pre ++ suf).length).toNat = (pre ++ suf).length :=
      toNat_ofNat_length (by omega)
    have hbooks : ∀ header : NodeHeader, header.numKeys = UInt16.ofNat (pre ++ suf).length →
        header.freeSpace = node.header.freeSpace + UInt16.ofNat old.serializedSize →
        Weighed { node with entries := pre ++ suf, header } ∧
          LeafNode.claimed { node with entries := pre ++ suf, header } = node.claimed := by
      intro header hnum hspace
      have htotal : LeafNode.claimed { node with entries := pre ++ suf, header } = node.claimed := by
        show LeafNode.used (pre ++ suf) + header.freeSpace.toNat =
          LeafNode.used node.entries + node.header.freeSpace.toNat
        rw [hspace, hfree]
        omega
      refine ⟨⟨?_, ?_, htotal.trans_le h.claimed⟩, htotal⟩
      · have hsorted := h.sorted
        rw [hentries] at hsorted
        exact sorted_erase hsorted
      · show header.numKeys.toNat = (pre ++ suf).length
        rw [hnum, hlength]
    simp only [hsearch, hget, hrest]
    split
    · exact hbooks _ rfl rfl
    · exact hbooks _ rfl rfl
  · simp only [hsearch]
    exact ⟨h, trivial⟩

theorem weighed_new (pageId : PageId) : Weighed (LeafNode.new pageId) where
  sorted := List.Pairwise.nil
  count := rfl
  claimed := (leafOk_new pageId).fits

theorem claimed_new (pageId : PageId) : (LeafNode.new pageId).claimed = leafCapacity := by
  unfold LeafNode.claimed
  rw [freeSpace_new]
  exact Nat.zero_add _

theorem Weighed.step {node node' : LeafNode} {call : LeafCall} (h : Weighed node)
    (hstep : call.step node = some node') : Booked node node' (call.Covers node) := by
  cases call with
  | insert entry =>
    simp only [LeafCall.step] at hstep
    cases hinsert : node.insert entry with
    | error e => simp [hinsert] at hstep
    | ok result =>
      rcases result with ⟨isUpdate, leaf⟩
      rw [hinsert] at hstep
      cases hstep
      exact h.insert hinsert
  | remove key =>
    cases hstep
    exact ⟨(h.remove key).1, fun _ => (h.remove key).2, fun hnot => absurd trivial hnot⟩

/-- The books of a leaf are right exactly when no update on the way shrank a value. -/
theorem accounted_iff {pageId : PageId} {calls : List LeafCall} {node : LeafNode}
    (hrun : Runs.run LeafCall.step (LeafNode.new pageId) calls = some node) :
    Accounted node ↔ Runs.Meets LeafCall.step
      LeafCall.Covers (LeafNode.new pageId) calls := by
  have hweighed : Weighed node :=
    Runs.invariant_of_forall (fun s call t hs hstep => (Weighed.step hs hstep).weighed)
      (weighed_new pageId) hrun
  rw [hweighed.accounted_iff_free]
  constructor
  · intro hfull
    apply Runs.meets_of_not (I := Weighed) (B := fun node => node.claimed < leafCapacity)
      (fun s call t hs hstep => (Weighed.step hs hstep).weighed)
      (fun s call t hs hstep hnot => (Weighed.step hs hstep).short hnot)
      ?_ (weighed_new pageId) hrun hfull.ge.not_gt
    intro s call t hs hshort hstep
    by_cases hcovers : call.Covers s
    · exact ((Weighed.step hs hstep).kept hcovers).trans_lt hshort
    · exact (Weighed.step hs hstep).short hcovers
  · intro hmeets
    have hfull : Weighed node ∧ node.claimed = leafCapacity := by
      apply Runs.invariant (I := fun node => Weighed node ∧ node.claimed = leafCapacity) ?_
        ⟨weighed_new pageId, claimed_new pageId⟩ hmeets hrun
      intro s call t hs hcovers hstep
      have hbooked := Weighed.step hs.1 hstep
      exact ⟨hbooked.weighed, (hbooked.kept hcovers).trans hs.2⟩
    exact hfull.2

/-- A key, then the same key with a value of the same size, then nothing. -/
theorem accounted_same_size : ∃ node, Runs.run LeafCall.step (LeafNode.new 3)
      [.insert ⟨[1], [2, 3], 1⟩, .insert ⟨[1], [4, 5], 2⟩, .remove [1]] = some node ∧
      Accounted node := by
  refine ⟨_, rfl, (@accounted_iff 3 [.insert ⟨[1], [2, 3], 1⟩, .insert ⟨[1], [4, 5], 2⟩,
    .remove [1]] _ rfl).mpr ?_⟩
  decide

/-- A value of two bytes replaced by one of one byte. -/
theorem shrinking_update_not_accounted :
    ¬ ∀ (pageId : PageId) (calls : List LeafCall) (node : LeafNode),
      Runs.run LeafCall.step (LeafNode.new pageId) calls = some node → Accounted node := by
  intro h
  have hfree := (h 3 [.insert ⟨[1], [2, 3], 1⟩, .insert ⟨[1], [2], 2⟩] _ rfl).free
  exact absurd hfree (by decide)

end Northstar.Btree
