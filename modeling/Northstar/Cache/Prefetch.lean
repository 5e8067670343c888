import Mathlib.Data.List.Basic
import Mathlib.Data.UInt

/-!
# Cache.Prefetch — the queue of prefetch requests

A full queue gives up its first low request for any new one, and refuses the new one where it holds no low request.
-/

namespace Northstar.Cache

inductive PrefetchPriority
  | low
  | normal
  | high
  deriving Repr, DecidableEq

def PrefetchPriority.toNat : PrefetchPriority → Nat
  | low => 0
  | normal => 1
  | high => 2

structure PrefetchRequest where
  pageId : UInt64
  priority : PrefetchPriority
  timestamp : Nat
  expectedAccess : Option Nat
  deriving Repr, DecidableEq

structure PrefetchStats where
  totalRequests : UInt64
  droppedRequests : UInt64
  currentQueueSize : Nat
  deriving Repr, DecidableEq

structure PrefetchQueue where
  queue : List PrefetchRequest
  maxSize : Nat
  stats : PrefetchStats
  deriving Repr, DecidableEq

namespace PrefetchQueue

def withMaxSize (maxSize : Nat) : PrefetchQueue := ⟨[], maxSize, ⟨0, 0, 0⟩⟩

/-- Behind the requests of the same priority. -/
def insertInOrder (queue : List PrefetchRequest) (request : PrefetchRequest) : List PrefetchRequest :=
  let insertPos := queue.findIdx fun r => r.priority.toNat < request.priority.toNat
  queue.insertIdx insertPos request

def dropFirst (stats : PrefetchStats) : PrefetchStats :=
  { stats with droppedRequests := stats.droppedRequests + 1 }

def enqueue (q : PrefetchQueue) (request : PrefetchRequest) : Bool × PrefetchQueue :=
  let stats := { q.stats with totalRequests := q.stats.totalRequests + 1 }
  let add := fun queue (stats : PrefetchStats) =>
    let queue := insertInOrder queue request
    (true, { q with queue := queue, stats := { stats with currentQueueSize := queue.length } })
  if q.queue.length ≥ q.maxSize then
    match q.queue.findIdx? fun r => r.priority = .low with
    | some pos => add (q.queue.eraseIdx pos) (dropFirst stats)
    | none => (false, { q with stats := dropFirst stats })
  else add q.queue stats

def dequeue (q : PrefetchQueue) : Option PrefetchRequest × PrefetchQueue :=
  match q.queue with
  | [] => (none, q)
  | request :: queue =>
    (some request, { q with queue := queue, stats := { q.stats with currentQueueSize := queue.length } })

def clear (q : PrefetchQueue) : PrefetchQueue :=
  { q with queue := [], stats := { q.stats with currentQueueSize := 0 } }

end PrefetchQueue

def ofPriority (p : PrefetchPriority) (requests : List PrefetchRequest) : List PrefetchRequest :=
  requests.filter fun r => r.priority = p

def Ordered (queue : List PrefetchRequest) : Prop :=
  queue.Pairwise fun a b => b.priority.toNat ≤ a.priority.toNat

variable {p : PrefetchPriority} {queue : List PrefetchRequest} {request r : PrefetchRequest}

theorem ofPriority_append (requests more : List PrefetchRequest) :
    ofPriority p (requests ++ more) = ofPriority p requests ++ ofPriority p more :=
  List.filter_append ..

theorem ofPriority_cons_self (rest : List PrefetchRequest) :
    ofPriority r.priority (r :: rest) = r :: ofPriority r.priority rest :=
  List.filter_cons_of_pos (decide_eq_true rfl)

theorem ofPriority_cons_of_ne (h : r.priority ≠ p) (rest : List PrefetchRequest) :
    ofPriority p (r :: rest) = ofPriority p rest :=
  List.filter_cons_of_neg (by simp [h])

namespace PrefetchQueue

theorem insertInOrder_cons_of_lt (h : r.priority.toNat < request.priority.toNat) (rest : List PrefetchRequest) :
    insertInOrder (r :: rest) request = request :: r :: rest := by
  unfold insertInOrder
  simp [List.findIdx_cons, h]

theorem insertInOrder_cons_of_not_lt (h : ¬ r.priority.toNat < request.priority.toNat) (rest : List PrefetchRequest) :
    insertInOrder (r :: rest) request = r :: insertInOrder rest request := by
  unfold insertInOrder
  simp [List.findIdx_cons, h]

theorem mem_insertInOrder : r ∈ insertInOrder queue request ↔ r = request ∨ r ∈ queue :=
  List.mem_insertIdx List.findIdx_le_length

theorem length_insertInOrder (queue : List PrefetchRequest) (request : PrefetchRequest) :
    (insertInOrder queue request).length = queue.length + 1 :=
  List.length_insertIdx_of_le_length List.findIdx_le_length ..

theorem ordered_insertInOrder (h : Ordered queue) : Ordered (insertInOrder queue request) := by
  induction queue with
  | nil => exact List.pairwise_singleton ..
  | cons r rest ih =>
    have hrest := List.pairwise_cons.mp h
    by_cases hlt : r.priority.toNat < request.priority.toNat
    · rw [insertInOrder_cons_of_lt hlt]
      apply List.pairwise_cons.mpr
      refine ⟨?_, h⟩
      intro other hmem
      rcases List.mem_cons.mp hmem with rfl | hmem
      · exact hlt.le
      · exact (hrest.1 other hmem).trans hlt.le
    · rw [insertInOrder_cons_of_not_lt hlt]
      apply List.pairwise_cons.mpr
      refine ⟨?_, ih hrest.2⟩
      intro other hmem
      rcases mem_insertInOrder.mp hmem with rfl | hmem
      · exact not_lt.mp hlt
      · exact hrest.1 other hmem

/-- Of the same priority the request comes last, since what follows its place is of a lower one. -/
theorem ofPriority_insertInOrder (h : Ordered queue) :
    ofPriority p (insertInOrder queue request) = ofPriority p queue ++ ofPriority p [request] := by
  induction queue with
  | nil => rfl
  | cons r rest ih =>
    have hrest := List.pairwise_cons.mp h
    by_cases hlt : r.priority.toNat < request.priority.toNat
    · rw [insertInOrder_cons_of_lt hlt]
      by_cases hp : request.priority = p
      · have hnone : ofPriority p (r :: rest) = [] := by
          apply List.filter_eq_nil_iff.mpr
          intro other hmem
          have hle : other.priority.toNat ≤ r.priority.toNat := by
            rcases List.mem_cons.mp hmem with rfl | hmem
            · exact le_rfl
            · exact hrest.1 other hmem
          intro heq
          rw [of_decide_eq_true heq, ← hp] at hle
          omega
        subst hp
        rw [ofPriority_cons_self, hnone]
        exact (ofPriority_cons_self []).symm
      · rw [ofPriority_cons_of_ne hp, ofPriority_cons_of_ne hp]
        exact (List.append_nil _).symm
    · rw [insertInOrder_cons_of_not_lt hlt]
      by_cases hp : r.priority = p
      · subst hp
        rw [ofPriority_cons_self, ofPriority_cons_self, ih hrest.2]
        rfl
      · rw [ofPriority_cons_of_ne hp, ofPriority_cons_of_ne hp, ih hrest.2]

end PrefetchQueue

theorem ofPriority_eraseP (p : PrefetchPriority) (queue : List PrefetchRequest) :
    ofPriority p (queue.eraseP fun r => r.priority = .low) =
      if p = .low then (ofPriority p queue).tail else ofPriority p queue := by
  induction queue with
  | nil => exact (ite_self _).symm
  | cons r rest ih =>
    by_cases hr : r.priority = .low
    · rw [List.eraseP_cons_of_pos (by simp [hr])]
      split
      next hp =>
        subst hp
        rw [← hr, ofPriority_cons_self]
        rfl
      next hp => exact (ofPriority_cons_of_ne (by rw [hr]; exact Ne.symm hp) rest).symm
    · rw [List.eraseP_cons_of_neg (by simp [hr])]
      by_cases hp : r.priority = p
      · subst hp
        rw [if_neg hr] at ih ⊢
        rw [ofPriority_cons_self, ofPriority_cons_self, ih]
      · rw [ofPriority_cons_of_ne hp, ofPriority_cons_of_ne hp, ih]

/-- Beside the queue: the requests that `enqueue` took, and those that `dequeue` returned or `clear` removed. -/
structure PrefetchHistory where
  q : PrefetchQueue
  accepted : List PrefetchRequest
  gone : List PrefetchRequest
  deriving Repr, DecidableEq

namespace PrefetchHistory

inductive Call
  | enqueue (request : PrefetchRequest)
  | dequeue
  | clear
  deriving Repr, DecidableEq

def step (s : PrefetchHistory) : Call → PrefetchHistory
  | .enqueue request =>
    let (added, q) := s.q.enqueue request
    { s with q := q, accepted := if added then s.accepted ++ [request] else s.accepted }
  | .dequeue =>
    let (request, q) := s.q.dequeue
    { s with q := q, gone := s.gone ++ request.toList }
  | .clear => { s with q := s.q.clear, gone := s.gone ++ s.q.queue }

def run (maxSize : Nat) (calls : List Call) : PrefetchHistory :=
  calls.foldl step ⟨.withMaxSize maxSize, [], []⟩

/-- The counts of requests are those of the source, which are modulo 2 ^ 64. -/
structure Orderly (maxSize : Nat) (s : PrefetchHistory) : Prop where
  limit : s.q.maxSize = maxSize
  ordered : Ordered s.q.queue
  arrival : ∀ p, ofPriority p s.q.queue <:+ ofPriority p s.accepted
  bounded : s.q.queue.length ≤ maxSize
  size : s.q.stats.currentQueueSize = s.q.queue.length
  total : s.q.stats.totalRequests = s.q.stats.droppedRequests + UInt64.ofNat (s.gone.length + s.q.queue.length)
  kept : ∀ p, p ≠ .low → ofPriority p s.gone ++ ofPriority p s.q.queue = ofPriority p s.accepted

variable {maxSize : Nat} {s : PrefetchHistory}

/-- The request takes its place in a queue that has room, from which a low request may have been given up. -/
theorem Orderly.insert {rest : List PrefetchRequest} (dropped : UInt64) (h : s.Orderly maxSize)
    (hsub : rest.Sublist s.q.queue) (hroom : rest.length < maxSize)
    (harrival : ∀ p, ofPriority p rest <:+ ofPriority p s.q.queue)
    (hkept : ∀ p, p ≠ .low → ofPriority p rest = ofPriority p s.q.queue)
    (htotal : s.q.stats.totalRequests = dropped + UInt64.ofNat (s.gone.length + rest.length))
    (request : PrefetchRequest) :
    Orderly maxSize { s with
      q := { s.q with
        queue := PrefetchQueue.insertInOrder rest request
        stats := ⟨s.q.stats.totalRequests + 1, dropped, (PrefetchQueue.insertInOrder rest request).length⟩ }
      accepted := s.accepted ++ [request] } where
  limit := h.limit
  ordered := PrefetchQueue.ordered_insertInOrder (h.ordered.sublist hsub)
  arrival p := by
    show ofPriority p (PrefetchQueue.insertInOrder rest request) <:+ ofPriority p (s.accepted ++ [request])
    rw [PrefetchQueue.ofPriority_insertInOrder (h.ordered.sublist hsub), ofPriority_append]
    rcases (harrival p).trans (h.arrival p) with ⟨before, hbefore⟩
    exact ⟨before, by rw [← hbefore, List.append_assoc]⟩
  bounded := by
    show (PrefetchQueue.insertInOrder rest request).length ≤ maxSize
    rw [PrefetchQueue.length_insertInOrder]
    exact hroom
  size := rfl
  total := by
    show s.q.stats.totalRequests + 1 =
      dropped + UInt64.ofNat (s.gone.length + (PrefetchQueue.insertInOrder rest request).length)
    rw [PrefetchQueue.length_insertInOrder, ← Nat.add_assoc, UInt64.ofNat_add, ← UInt64.add_assoc, ← htotal]
    rfl
  kept p hp := by
    show ofPriority p s.gone ++ ofPriority p (PrefetchQueue.insertInOrder rest request) =
      ofPriority p (s.accepted ++ [request])
    rw [PrefetchQueue.ofPriority_insertInOrder (h.ordered.sublist hsub), ofPriority_append, hkept p hp,
      ← List.append_assoc, h.kept p hp]

theorem Orderly.enqueue (h : s.Orderly maxSize) (request : PrefetchRequest) :
    (s.step (.enqueue request)).Orderly maxSize := by
  unfold step PrefetchQueue.enqueue
  dsimp only
  split
  next hfull =>
    split
    next pos hpos =>
      have hlt : pos < s.q.queue.length := (List.findIdx?_eq_some_iff_getElem.mp hpos).1
      have hlength : (s.q.queue.eraseIdx pos).length + 1 = s.q.queue.length := List.length_eraseIdx_add_one hlt
      have herase : ∀ p, ofPriority p (s.q.queue.eraseIdx pos) =
          if p = .low then (ofPriority p s.q.queue).tail else ofPriority p s.q.queue := by
        intro p
        rw [← ofPriority_eraseP, List.eraseP_eq_eraseIdx, hpos]
      apply h.insert (s.q.stats.droppedRequests + 1) (List.eraseIdx_sublist ..)
      · have hbounded := h.bounded
        omega
      · intro p
        rw [herase p]
        split
        · exact List.tail_suffix _
        · exact List.suffix_refl _
      · intro p hp
        rw [herase p, if_neg hp]
      · rw [h.total, ← hlength, ← Nat.add_assoc, UInt64.ofNat_add, UInt64.add_assoc, UInt64.add_comm 1]
        rfl
    next hnone =>
      refine ⟨h.limit, h.ordered, h.arrival, h.bounded, h.size, ?_, h.kept⟩
      show s.q.stats.totalRequests + 1 = s.q.stats.droppedRequests + 1 + _
      rw [h.total, UInt64.add_assoc, UInt64.add_comm _ 1, ← UInt64.add_assoc]
  next hroom =>
    exact h.insert _ (List.Sublist.refl _) (h.limit ▸ not_le.mp hroom) (fun _ => List.suffix_refl _) (fun _ _ => rfl)
      h.total request

theorem Orderly.dequeue (h : s.Orderly maxSize) : (s.step .dequeue).Orderly maxSize := by
  unfold step PrefetchQueue.dequeue
  cases hqueue : s.q.queue with
  | nil =>
    dsimp only
    rw [Option.toList_none, List.append_nil]
    exact h
  | cons request rest =>
    have hsuffix : ∀ p, ofPriority p rest <:+ ofPriority p s.q.queue := by
      intro p
      rw [hqueue]
      exact (List.suffix_cons request rest).filter _
    have hlength : s.gone.length + (request :: rest).length = (s.gone ++ [request]).length + rest.length := by
      rw [List.length_append, List.length_cons, List.length_singleton]
      omega
    have hbounded : rest.length + 1 ≤ maxSize := by
      have hqueued := h.bounded
      rwa [hqueue] at hqueued
    refine ⟨h.limit, ?_, ?_, ?_, rfl, ?_, ?_⟩
    · exact List.Pairwise.of_cons (hqueue ▸ h.ordered)
    · exact fun p => (hsuffix p).trans (h.arrival p)
    · exact (Nat.le_succ _).trans hbounded
    · show s.q.stats.totalRequests =
        s.q.stats.droppedRequests + UInt64.ofNat ((s.gone ++ [request]).length + rest.length)
      rw [← hlength, ← hqueue, h.total]
    · intro p hp
      show ofPriority p (s.gone ++ [request]) ++ ofPriority p rest = ofPriority p s.accepted
      rw [ofPriority_append, List.append_assoc, ← ofPriority_append, List.singleton_append, ← hqueue, h.kept p hp]

theorem Orderly.clear (h : s.Orderly maxSize) : (s.step .clear).Orderly maxSize where
  limit := h.limit
  ordered := List.Pairwise.nil
  arrival _ := List.nil_suffix
  bounded := Nat.zero_le _
  size := rfl
  total := by
    show s.q.stats.totalRequests = s.q.stats.droppedRequests + UInt64.ofNat ((s.gone ++ s.q.queue).length + 0)
    rw [List.length_append, Nat.add_zero, h.total]
  kept p hp := by
    show ofPriority p (s.gone ++ s.q.queue) ++ [] = ofPriority p s.accepted
    rw [List.append_nil, ofPriority_append, h.kept p hp]

/-- In every run the queue is in order, fair within a priority and within its bound, and its counts add up. -/
theorem orderly_run (maxSize : Nat) (calls : List Call) : (run maxSize calls).Orderly maxSize := by
  unfold run
  induction calls using List.reverseRecOn with
  | nil => exact ⟨rfl, List.Pairwise.nil, fun _ => List.suffix_refl _, Nat.zero_le _, rfl, rfl, fun _ _ => rfl⟩
  | append_singleton calls call ih =>
    rw [List.foldl_concat]
    cases call with
    | enqueue request => exact ih.enqueue request
    | dequeue => exact ih.dequeue
    | clear => exact ih.clear

end PrefetchHistory

end Northstar.Cache
