import Mathlib.Data.Finset.Card
import Mathlib.Data.Finset.Basic
import Mathlib.Data.Set.Insert
import Mathlib.Data.List.Basic
import Mathlib.Logic.Function.Basic

/-!
# Quorum — how much of a set a large subset must contain

Two subsets of a set meet when together they have more members than it (`Finset.inter_nonempty_of_card_lt_card_add_card`).
A subset that is only known to be large contains at least what is left when it has taken everything
else.
-/

namespace Quorum

variable {α : Type} [DecidableEq α]

/-- Every subset of `U` with at least `q` members has at least `k` of them in `A`. -/
def Forces (U : Finset α) (q : Nat) (A : Finset α) (k : Nat) : Prop :=
  ∀ S, S ⊆ U → q ≤ S.card → k ≤ (S ∩ A).card

theorem card_inter_add_card_sdiff_le {U S : Finset α} (h : S ⊆ U) (A : Finset α) :
    S.card ≤ (S ∩ A).card + (U \ A).card := by
  have hsplit : (S ∩ A).card + (S \ A).card = S.card := Finset.card_inter_add_card_sdiff S A
  have hle : (S \ A).card ≤ (U \ A).card := Finset.card_le_card (Finset.sdiff_subset_sdiff h (le_refl A))
  omega

/-- The exact count: a subset can take all of `U \ A` first. -/
theorem forces_iff {U A : Finset α} {q k : Nat} (hk : 0 < k) :
    Forces U q A k ↔ U.card < q ∨ (U \ A).card + k ≤ q := by
  constructor
  · intro h
    by_cases hq : q ≤ U.card
    · right
      by_cases hout : (U \ A).card ≤ q
      · -- all of `U \ A`, filled up to `q` members
        have hfill := Finset.exists_subsuperset_card_eq (Finset.sdiff_subset (s := U) (t := A)) hout hq
        rcases hfill with ⟨S, hlow, hhigh, hcard⟩
        have hforced := h S hhigh (le_of_eq hcard.symm)
        have hrest : S \ A = U \ A :=
          Finset.Subset.antisymm (Finset.sdiff_subset_sdiff hhigh (le_refl A))
            (fun x hx => Finset.mem_sdiff.mpr ⟨hlow hx, (Finset.mem_sdiff.mp hx).2⟩)
        have hsplit : (S ∩ A).card + (S \ A).card = S.card := Finset.card_inter_add_card_sdiff S A
        rw [hrest] at hsplit
        omega
      · -- `U \ A` alone has `q` members, none of them in `A`
        rcases Finset.exists_subset_card_eq (le_of_lt (not_le.mp hout)) with ⟨S, hsub, hcard⟩
        have hforced := h S (hsub.trans Finset.sdiff_subset) (le_of_eq hcard.symm)
        have hnone : S ∩ A = ∅ := by
          apply Finset.disjoint_iff_inter_eq_empty.mp
          exact Finset.disjoint_of_subset_left hsub Finset.sdiff_disjoint
        rw [hnone, Finset.card_empty] at hforced
        omega
    · left
      omega
  · intro h S hsub hcard
    have hle := Finset.card_le_card hsub
    have hcount := card_inter_add_card_sdiff_le hsub A
    omega

end Quorum

/-!
# ReplicatedLog — leaders that replicate append-only logs

The core of leader-based replication, apart from messages and machines.  Nodes hold logs that only
grow; each term has at most one leader, whose log other nodes copy; a leader is elected by a quorum of
voters whose logs are not ahead of its own.  What a quorum holds of a leader's log, with an entry of
the leader's own term at the end, every later leader holds (`Ok.complete`).

The history of a run is a value: the logs and terms now, the log each term's leader has written, the
ballots with the voters' logs, and what nodes have acknowledged.  Its events are `observe`,
`vote`, `elect`, `extend` and `accept`.
-/

namespace ReplicatedLog

/-- A vote cast in a term, with the log of the voter. -/
structure Ballot (ι E : Type) where
  voter : ι
  term : Nat
  log : List E

/-- In this term the node held so much of the leader's log. -/
structure Ack (ι : Type) where
  node : ι
  term : Nat
  length : Nat

structure History (ι E : Type) where
  log : ι → List E
  term : ι → Nat
  leaderLog : Nat → List E
  elected : Set Nat
  ballots : Set (Ballot ι E)
  acks : Set (Ack ι)

def History.initial (ι E : Type) : History ι E where
  log _ := []
  term _ := 0
  leaderLog _ := []
  elected := ∅
  ballots := ∅
  acks := ∅

variable {ι E : Type} (termOf : E → Nat) (IsQuorum : Finset ι → Prop)

def lastTerm (l : List E) : Nat :=
  match l.getLast? with
  | none => 0
  | some e => termOf e

/-- A candidate with log `la` may have the vote of a node with log `l`. -/
def UpToDate (la l : List E) : Prop :=
  lastTerm termOf l < lastTerm termOf la ∨
    lastTerm termOf la = lastTerm termOf l ∧ l.length ≤ la.length

/-- A log whose entries come from the leaders of their terms, with everything in front of them. -/
structure Founded (H : History ι E) (bound : Nat) (l : List E) : Prop where
  sorted : l.Pairwise fun a b => termOf a ≤ termOf b
  bounded : ∀ e ∈ l, 1 ≤ termOf e ∧ termOf e ≤ bound
  founded : ∀ k e, l[k]? = some e → l.take (k + 1) <+: H.leaderLog (termOf e)

/-- The invariant of histories. -/
structure Ok (H : History ι E) : Prop where
  log : ∀ i, Founded termOf H (H.term i) (H.log i)
  leaderLog : ∀ t, Founded termOf H t (H.leaderLog t)
  vacant : ∀ t, t ∉ H.elected → H.leaderLog t = []
  acks : ∀ a ∈ H.acks, a.term ≤ H.term a.node ∧ a.length ≤ (H.leaderLog a.term).length ∧
    (H.leaderLog a.term).take a.length <+: H.log a.node
  ballots : ∀ b ∈ H.ballots, b.term ≤ H.term b.voter ∧ Founded termOf H b.term b.log
  -- what a node had acknowledged, it held when it voted later
  voted : ∀ a ∈ H.acks, ∀ b ∈ H.ballots, b.voter = a.node → a.term < b.term →
    (H.leaderLog a.term).take a.length <+: b.log
  elected : ∀ t ∈ H.elected, ∃ A, IsQuorum A ∧ ∀ v ∈ A, ∃ b ∈ H.ballots, b.voter = v ∧ b.term = t ∧
    ∃ la, la <+: H.leaderLog t ∧ UpToDate termOf la b.log ∧ ∀ e ∈ la, termOf e < t

/-- A quorum holds the leader's log up to its entry `k`, which is of the leader's own term.  The
acknowledgement may be one of an earlier term whose leader had the same log. -/
def Chosen (H : History ι E) (t k : Nat) : Prop :=
  (∃ e, (H.leaderLog t)[k]? = some e ∧ termOf e = t) ∧
    ∃ A, IsQuorum A ∧ ∀ v ∈ A, ∃ a ∈ H.acks, a.node = v ∧ a.term ≤ t ∧
      (H.leaderLog t).take (k + 1) <+: (H.leaderLog a.term).take a.length

variable {termOf IsQuorum}

variable {l' : List E} {k t : Nat} {e : E} {l : List E}

theorem take_prefix_of_getElem? (h : l.take (k + 1) <+: l') (hk : l[k]? = some e) : l'[k]? = some e := by
  rcases h with ⟨rest, rfl⟩
  have hlt : k < l.length := (List.getElem?_eq_some_iff.mp hk).1
  have hlen : k < (l.take (k + 1)).length := by
    rw [List.length_take]
    omega
  rw [List.getElem?_append_left hlen, List.getElem?_take, if_pos (Nat.lt_succ_self k)]
  exact hk

theorem prefix_getElem? (h : l <+: l') (hk : l[k]? = some e) : l'[k]? = some e :=
  take_prefix_of_getElem? ((List.take_prefix _ _).trans h) hk

theorem take_of_isPrefix (h : l <+: l') {n : Nat} (hn : n ≤ l.length) : l'.take n = l.take n := by
  rcases h with ⟨rest, rfl⟩
  rw [List.take_append_of_le_length hn]

theorem lastTerm_of_getLast? {l : List E} {e : E} (h : l.getLast? = some e) :
    lastTerm termOf l = termOf e := by
  unfold lastTerm
  rw [h]

theorem getLast?_getElem? (h : l.getLast? = some e) : l[l.length - 1]? = some e := by
  rw [← List.getLast?_eq_getElem?]
  exact h

variable {bound' : Nat} {H' : History ι E}

namespace Founded

variable {H : History ι E} {bound : Nat}

theorem nil : Founded termOf H bound [] where
  sorted := List.Pairwise.nil
  bounded _ he := absurd he List.not_mem_nil
  founded _ _ hk := by
    rw [List.getElem?_nil] at hk
    cases hk

theorem of_isPrefix (h : Founded termOf H bound l) (hpre : l' <+: l) :
    Founded termOf H bound l' where
  sorted := h.sorted.sublist hpre.sublist
  bounded e he := h.bounded e (hpre.subset he)
  founded k e hk := by
    have hfounded := h.founded k e (prefix_getElem? hpre hk)
    have hlt : k < l'.length := (List.getElem?_eq_some_iff.mp hk).1
    rw [take_of_isPrefix hpre hlt] at hfounded
    exact hfounded

theorem mono (h : Founded termOf H bound l) (hle : bound ≤ bound') : Founded termOf H bound' l where
  sorted := h.sorted
  bounded e he := ⟨(h.bounded e he).1, (h.bounded e he).2.trans hle⟩
  founded := h.founded

theorem grow (h : Founded termOf H bound l)
    (hgrow : ∀ t, H.leaderLog t <+: H'.leaderLog t) : Founded termOf H' bound l where
  sorted := h.sorted
  bounded := h.bounded
  founded k e hk := (h.founded k e hk).trans (hgrow (termOf e))

theorem prefix_last (h : Founded termOf H bound l) (hlast : l.getLast? = some e) :
    l <+: H.leaderLog (termOf e) := by
  have hfounded := h.founded _ e (getLast?_getElem? hlast)
  have hlt := (List.getElem?_eq_some_iff.mp (getLast?_getElem? hlast)).1
  rw [List.take_of_length_le (by omega)] at hfounded
  exact hfounded

theorem le_lastTerm (h : Founded termOf H bound l) (he : e ∈ l) : termOf e ≤ lastTerm termOf l := by
  cases hlast : l.getLast? with
  | none =>
    rw [List.getLast?_eq_none_iff.mp hlast] at he
    exact absurd he List.not_mem_nil
  | some last =>
    rw [lastTerm_of_getLast? hlast]
    rcases List.getLast?_eq_some_iff.mp hlast with ⟨front, rfl⟩
    rcases List.mem_append.mp he with hfront | hself
    · exact (List.pairwise_append.mp h.sorted).2.2 e hfront last (List.mem_singleton_self _)
    · rw [List.mem_singleton.mp hself]

theorem matching (h : Founded termOf H bound l)
    (h' : Founded termOf H bound' l') {e' : E} (hk : l[k]? = some e)
    (hk' : l'[k]? = some e') (hterm : termOf e = termOf e') : l.take (k + 1) = l'.take (k + 1) := by
  have hfounded := h.founded k e hk
  have hfounded' := h'.founded k e' hk'
  rw [← hterm] at hfounded'
  have hlt := (List.getElem?_eq_some_iff.mp hk).1
  have hlt' := (List.getElem?_eq_some_iff.mp hk').1
  apply (List.prefix_of_prefix_length_le hfounded hfounded' _).eq_of_length
  · rw [List.length_take, List.length_take]
    omega
  · rw [List.length_take, List.length_take]
    omega

end Founded

section complete

variable {H : History ι E} (h : Ok termOf IsQuorum H)

include h

theorem Ok.elected_of_ne_nil (hne : H.leaderLog t ≠ []) : t ∈ H.elected := by
  by_contra hvacant
  exact hne (h.vacant t hvacant)

/-- A log that may win against a log with a chosen prefix holds it too, if the leaders of the terms
before do. -/
theorem Ok.carries (hk : (H.leaderLog t)[k]? = some e) (hterm : termOf e = t)
    {bound : Nat} {l la : List E} (hl : Founded termOf H bound l)
    (hla : Founded termOf H bound' la) (hholds : (H.leaderLog t).take (k + 1) <+: l)
    (hdate : UpToDate termOf la l)
    (hlater : ∀ s, t < s → s ≤ lastTerm termOf la → s ∈ H.elected →
      (H.leaderLog t).take (k + 1) <+: H.leaderLog s) :
    (H.leaderLog t).take (k + 1) <+: la := by
  have hkl : l[k]? = some e := take_prefix_of_getElem? hholds hk
  have hmem : e ∈ l := List.mem_of_getElem? hkl
  have hpos : 1 ≤ t := by
    rw [← hterm]
    exact (hl.bounded e hmem).1
  have hge : t ≤ lastTerm termOf l := by
    rw [← hterm]
    exact hl.le_lastTerm hmem
  have hle : t ≤ lastTerm termOf la := by
    rcases hdate with hlt | ⟨heq, -⟩
    · omega
    · omega
  cases hlast : la.getLast? with
  | none =>
    unfold lastTerm at hle
    rw [hlast] at hle
    have hle : t ≤ 0 := hle
    omega
  | some last =>
    have hlastTerm := @lastTerm_of_getLast? _ termOf la last hlast
    have hpre := hla.prefix_last hlast
    by_cases hsame : termOf last = t
    · -- both logs end in the term of the chosen entry, and this one is not shorter
      rw [hsame] at hpre
      have hlen : l.length ≤ la.length := by
        rcases hdate with hlt | ⟨-, hlen⟩
        · omega
        · exact hlen
      cases hlastl : l.getLast? with
      | none =>
        rw [List.getLast?_eq_none_iff.mp hlastl] at hmem
        exact absurd hmem List.not_mem_nil
      | some lastl =>
        have hlastlTerm := @lastTerm_of_getLast? _ termOf l lastl hlastl
        have hprel := hl.prefix_last hlastl
        have heq : termOf lastl = t := by
          rcases hdate with hlt | ⟨heq, -⟩
          · omega
          · omega
        rw [heq] at hprel
        exact hholds.trans (List.prefix_of_prefix_length_le hprel hpre hlen)
    · -- the last entry is of a later leader, who holds the chosen entries already
      have hlt : t < termOf last := by omega
      have helected : termOf last ∈ H.elected := by
        apply h.elected_of_ne_nil
        intro hnil
        rw [hnil, List.prefix_nil] at hpre
        rw [hpre] at hlast
        cases hlast
      have hlead := hlater _ hlt (le_of_eq hlastTerm.symm) helected
      rcases List.prefix_or_prefix_of_prefix hpre hlead with hshort | hlong
      · exfalso
        have hin : last ∈ (H.leaderLog t).take (k + 1) :=
          hshort.subset (List.mem_of_getLast? hlast)
        have hbound := ((h.leaderLog t).bounded last (List.mem_of_mem_take hin)).2
        omega
      · exact hlong

/-- **Leader completeness.** -/
theorem Ok.complete (hmeet : ∀ A B, IsQuorum A → IsQuorum B → ∃ v ∈ A, v ∈ B)
    (hchosen : Chosen termOf IsQuorum H t k) {t' : Nat} (hlt : t < t') (helected : t' ∈ H.elected) :
    (H.leaderLog t).take (k + 1) <+: H.leaderLog t' := by
  induction t' using Nat.strongRecOn with
  | ind t' ih =>
    rcases hchosen with ⟨⟨e, hk, hterm⟩, A, hA, hacks⟩
    rcases h.elected t' helected with ⟨B, hB, hballots⟩
    rcases hmeet A B hA hB with ⟨v, hvA, hvB⟩
    rcases hacks v hvA with ⟨a, ha, hnode, haterm, hacked⟩
    rcases hballots v hvB with ⟨b, hb, hvoter, hbterm, la, hla, hdate, hbefore⟩
    have hvoted := h.voted a ha b hb (hvoter.trans hnode.symm) (by omega)
    have hholds : (H.leaderLog t).take (k + 1) <+: b.log := hacked.trans hvoted
    have hfounded : Founded termOf H t' la := (h.leaderLog t').of_isPrefix hla
    have hcarries := h.carries hk hterm (h.ballots b hb).2 hfounded hholds hdate (by
      intro s hts hle hs
      apply ih s _ hts hs
      -- the entries the candidate asked with are older than its term
      cases hlast : la.getLast? with
      | none =>
        unfold lastTerm at hle
        rw [hlast] at hle
        have hle : s ≤ 0 := hle
        omega
      | some last =>
        rw [lastTerm_of_getLast? hlast] at hle
        have hlt' := hbefore last (List.mem_of_getLast? hlast)
        omega)
    exact hcarries.trans hla

/-- What is chosen is one line of logs. -/
theorem Ok.comparable (hmeet : ∀ A B, IsQuorum A → IsQuorum B → ∃ v ∈ A, v ∈ B) {t' k' : Nat}
    (hchosen : Chosen termOf IsQuorum H t k) (hchosen' : Chosen termOf IsQuorum H t' k') :
    (H.leaderLog t).take (k + 1) <+: (H.leaderLog t').take (k' + 1) ∨
      (H.leaderLog t').take (k' + 1) <+: (H.leaderLog t).take (k + 1) := by
  have hne : ∀ {s n : Nat}, Chosen termOf IsQuorum H s n → s ∈ H.elected := by
    rintro s n ⟨⟨e, hn, -⟩, -⟩
    apply h.elected_of_ne_nil
    intro hnil
    rw [hnil, List.getElem?_nil] at hn
    cases hn
  rcases Nat.lt_trichotomy t t' with hlt | heq | hgt
  · exact List.prefix_or_prefix_of_prefix (h.complete hmeet hchosen hlt (hne hchosen'))
      (List.take_prefix _ _)
  · subst heq
    exact List.prefix_or_prefix_of_prefix (List.take_prefix _ _) (List.take_prefix _ _)
  · exact List.prefix_or_prefix_of_prefix (List.take_prefix _ _)
      (h.complete hmeet hchosen' hgt (hne hchosen))

end complete

/-- Nothing is taken back. -/
structure Grows (H H' : History ι E) : Prop where
  log : ∀ i, H.log i <+: H'.log i
  term : ∀ i, H.term i ≤ H'.term i
  leaderLog : ∀ t, H.leaderLog t <+: H'.leaderLog t
  elected : H.elected ⊆ H'.elected
  ballots : H.ballots ⊆ H'.ballots
  acks : H.acks ⊆ H'.acks

theorem Grows.trans {H H'' : History ι E} (h : Grows H H') (h' : Grows H' H'') : Grows H H'' where
  log i := (h.log i).trans (h'.log i)
  term i := (h.term i).trans (h'.term i)
  leaderLog t := (h.leaderLog t).trans (h'.leaderLog t)
  elected := h.elected.trans h'.elected
  ballots := h.ballots.trans h'.ballots
  acks := h.acks.trans h'.acks

theorem Grows.refl (H : History ι E) : Grows H H where
  log _ := List.prefix_refl _
  term _ := le_refl _
  leaderLog _ := List.prefix_refl _
  elected := le_refl _
  ballots := le_refl _
  acks := le_refl _

theorem Chosen.grow {H : History ι E} (hgrows : Grows H H')
    (h : Chosen termOf IsQuorum H t k) : Chosen termOf IsQuorum H' t k := by
  rcases h with ⟨⟨e, hk, hterm⟩, A, hA, hacks⟩
  refine ⟨⟨e, prefix_getElem? (hgrows.leaderLog t) hk, hterm⟩, A, hA, ?_⟩
  intro v hv
  rcases hacks v hv with ⟨a, ha, hnode, haterm, hacked⟩
  refine ⟨a, hgrows.acks ha, hnode, haterm, ?_⟩
  have hlt : k < (H.leaderLog t).length := (List.getElem?_eq_some_iff.mp hk).1
  rw [take_of_isPrefix (hgrows.leaderLog t) hlt]
  exact hacked.trans ((hgrows.leaderLog a.term).take a.length)

/-- The rule for events: only what is new has to be checked.  A node acknowledges in its present term,
and votes with its present log. -/
theorem Ok.step {H H' : History ι E} (h : Ok termOf IsQuorum H) (hgrows : Grows H H')
    (hlog : ∀ i, Founded termOf H' (H'.term i) (H'.log i))
    (hleaderLog : ∀ t, Founded termOf H' t (H'.leaderLog t))
    (hvacant : ∀ t, t ∉ H'.elected → H'.leaderLog t = [])
    (hacks : ∀ a ∈ H'.acks, a ∉ H.acks → a.term = H'.term a.node ∧
      a.length ≤ (H'.leaderLog a.term).length ∧
      (H'.leaderLog a.term).take a.length <+: H'.log a.node)
    (hballots : ∀ b ∈ H'.ballots, b ∉ H.ballots → b.term = H'.term b.voter ∧
      b.log = H'.log b.voter)
    (helected : ∀ t ∈ H'.elected, t ∉ H.elected → ∃ A, IsQuorum A ∧ ∀ v ∈ A, ∃ b ∈ H'.ballots,
      b.voter = v ∧ b.term = t ∧
        ∃ la, la <+: H'.leaderLog t ∧ UpToDate termOf la b.log ∧ ∀ e ∈ la, termOf e < t) :
    Ok termOf IsQuorum H' := by
  have hballotTerm : ∀ b ∈ H'.ballots, b.term ≤ H'.term b.voter := by
    intro b hb
    by_cases hold : b ∈ H.ballots
    · exact (h.ballots b hold).1.trans (hgrows.term b.voter)
    · exact le_of_eq (hballots b hb hold).1
  have htake : ∀ a ∈ H.acks,
      (H'.leaderLog a.term).take a.length = (H.leaderLog a.term).take a.length :=
    fun a ha => take_of_isPrefix (hgrows.leaderLog a.term) (h.acks a ha).2.1
  refine ⟨hlog, hleaderLog, hvacant, ?_, ?_, ?_, ?_⟩
  · intro a ha
    by_cases hold : a ∈ H.acks
    · have hack := h.acks a hold
      refine ⟨hack.1.trans (hgrows.term _), ?_, ?_⟩
      · exact hack.2.1.trans (hgrows.leaderLog _).length_le
      · rw [htake a hold]
        exact hack.2.2.trans (hgrows.log _)
    · have hack := hacks a ha hold
      exact ⟨le_of_eq hack.1, hack.2⟩
  · intro b hb
    refine ⟨hballotTerm b hb, ?_⟩
    by_cases hold : b ∈ H.ballots
    · exact (h.ballots b hold).2.grow hgrows.leaderLog
    · rw [(hballots b hb hold).1, (hballots b hb hold).2]
      exact hlog b.voter
  · intro a ha b hb hnode hlt
    by_cases holda : a ∈ H.acks
    · rw [htake a holda]
      by_cases holdb : b ∈ H.ballots
      · exact h.voted a holda b holdb hnode hlt
      · rw [(hballots b hb holdb).2, hnode]
        exact (h.acks a holda).2.2.trans (hgrows.log _)
    · exfalso
      have hterm := (hacks a ha holda).1
      have hle := hballotTerm b hb
      rw [hnode] at hle
      omega
  · intro t ht
    by_cases hold : t ∈ H.elected
    · rcases h.elected t hold with ⟨A, hA, hvotes⟩
      refine ⟨A, hA, ?_⟩
      intro v hv
      rcases hvotes v hv with ⟨b, hb, hvoter, hterm, la, hla, hrest⟩
      exact ⟨b, hgrows.ballots hb, hvoter, hterm, la, hla.trans (hgrows.leaderLog t), hrest⟩
    · exact helected t ht hold

section events

variable [DecidableEq ι]

namespace History

/-- A node learns of a later term. -/
def observe (H : History ι E) (i : ι) (t : Nat) : History ι E :=
  { H with term := Function.update H.term i t }

def vote (H : History ι E) (i : ι) : History ι E :=
  { H with ballots := insert ⟨i, H.term i, H.log i⟩ H.ballots }

/-- A node becomes the leader of its term. -/
def elect (H : History ι E) (i : ι) : History ι E :=
  { H with
    leaderLog := Function.update H.leaderLog (H.term i) (H.log i)
    elected := insert (H.term i) H.elected }

/-- The leader of a term appends an entry. -/
def extend (H : History ι E) (i : ι) (e : E) : History ι E :=
  { H with
    log := Function.update H.log i (H.log i ++ [e])
    leaderLog := Function.update H.leaderLog (H.term i) (H.leaderLog (H.term i) ++ [e]) }

/-- A node takes over a log and acknowledges it in its term, up to a length. -/
def accept (H : History ι E) (i : ι) (l : List E) (n : Nat) : History ι E :=
  { H with
    log := Function.update H.log i l
    acks := insert ⟨i, H.term i, n⟩ H.acks }

end History

variable {H : History ι E} {i : ι}

theorem grows_observe (ht : H.term i ≤ t) : Grows H (H.observe i t) :=
  { Grows.refl H with
    term := by
      intro j
      show H.term j ≤ Function.update H.term i t j
      by_cases hij : j = i
      · rw [hij, Function.update_self]
        exact ht
      · rw [Function.update_of_ne hij] }

theorem Ok.observe (h : Ok termOf IsQuorum H) (ht : H.term i ≤ t) :
    Ok termOf IsQuorum (H.observe i t) := by
  have hgrows := grows_observe ht
  apply h.step hgrows
  · exact fun j => ((h.log j).grow hgrows.leaderLog).mono (hgrows.term j)
  · exact fun s => (h.leaderLog s).grow hgrows.leaderLog
  · exact h.vacant
  · exact fun a ha hnew => absurd ha hnew
  · exact fun b hb hnew => absurd hb hnew
  · exact fun s hs hnew => absurd hs hnew

omit [DecidableEq ι] in
theorem grows_vote (H : History ι E) (i : ι) : Grows H (H.vote i) :=
  { Grows.refl H with ballots := Set.subset_insert _ _ }

omit [DecidableEq ι] in
theorem Ok.vote (h : Ok termOf IsQuorum H) (i : ι) : Ok termOf IsQuorum (H.vote i) := by
  have hgrows := grows_vote H i
  apply h.step hgrows
  · exact fun j => (h.log j).grow hgrows.leaderLog
  · exact fun s => (h.leaderLog s).grow hgrows.leaderLog
  · exact h.vacant
  · exact fun a ha hnew => absurd ha hnew
  · intro b hb hnew
    rcases Set.mem_insert_iff.mp hb with rfl | hb
    · exact ⟨rfl, rfl⟩
    · exact absurd hb hnew
  · exact fun s hs hnew => absurd hs hnew

omit [DecidableEq ι] in
theorem grows_elect (h : Ok termOf IsQuorum H) (hvacant : H.term i ∉ H.elected) :
    Grows H (H.elect i) :=
  { Grows.refl H with
    leaderLog := by
      intro t
      show H.leaderLog t <+: Function.update H.leaderLog (H.term i) (H.log i) t
      by_cases ht : t = H.term i
      · rw [ht, h.vacant _ hvacant]
        exact List.nil_prefix
      · rw [Function.update_of_ne ht]
    elected := Set.subset_insert _ _ }

omit [DecidableEq ι] in
/-- The leader's log has no entry of its term yet, so the logs it asked with have none. -/
theorem Ok.elect (h : Ok termOf IsQuorum H) (hvacant : H.term i ∉ H.elected)
    {A : Finset ι} (hA : IsQuorum A)
    (hvotes : ∀ v ∈ A, ∃ b ∈ H.ballots, b.voter = v ∧ b.term = H.term i ∧
      ∃ la, la <+: H.log i ∧ UpToDate termOf la b.log) :
    Ok termOf IsQuorum (H.elect i) := by
  have hgrows := grows_elect h hvacant
  have hself : (H.elect i).leaderLog (H.term i) = H.log i := Function.update_self ..
  have hother : ∀ t, t ≠ H.term i → (H.elect i).leaderLog t = H.leaderLog t :=
    fun t ht => Function.update_of_ne ht ..
  have hlog : ∀ j, Founded termOf (H.elect i) (H.term j) (H.log j) :=
    fun j => (h.log j).grow hgrows.leaderLog
  have holder : ∀ e ∈ H.log i, termOf e < H.term i := by
    intro e he
    rcases List.mem_iff_getElem?.mp he with ⟨k, hk⟩
    have hfounded := (h.log i).founded k e hk
    have hle := ((h.log i).bounded e he).2
    by_contra hnot
    have heq : termOf e = H.term i := by omega
    have hlead := take_prefix_of_getElem? hfounded hk
    rw [heq, h.vacant _ hvacant, List.getElem?_nil] at hlead
    cases hlead
  apply h.step hgrows hlog
  · intro t
    by_cases ht : t = H.term i
    · rw [ht, hself]
      exact hlog i
    · rw [hother t ht]
      exact (h.leaderLog t).grow hgrows.leaderLog
  · intro t ht
    have hne : t ≠ H.term i := fun heq => ht (heq ▸ Set.mem_insert _ _)
    rw [hother t hne]
    exact h.vacant t fun hmem => ht (Set.mem_insert_of_mem _ hmem)
  · exact fun a ha hnew => absurd ha hnew
  · exact fun b hb hnew => absurd hb hnew
  · intro t ht hnew
    rcases Set.mem_insert_iff.mp ht with rfl | ht
    · refine ⟨A, hA, ?_⟩
      intro v hv
      rcases hvotes v hv with ⟨b, hb, hvoter, hterm, la, hla, hdate⟩
      refine ⟨b, hb, hvoter, hterm, la, ?_, hdate, fun e he => holder e (hla.subset he)⟩
      rw [hself]
      exact hla
    · exact absurd ht hnew

theorem grows_extend (H : History ι E) (i : ι) (e : E) : Grows H (H.extend i e) :=
  { Grows.refl H with
    log := by
      intro j
      show H.log j <+: Function.update H.log i (H.log i ++ [e]) j
      by_cases hij : j = i
      · rw [hij, Function.update_self]
        exact List.prefix_append _ _
      · rw [Function.update_of_ne hij]
    leaderLog := by
      intro t
      show H.leaderLog t <+:
        Function.update H.leaderLog (H.term i) (H.leaderLog (H.term i) ++ [e]) t
      by_cases ht : t = H.term i
      · rw [ht, Function.update_self]
        exact List.prefix_append _ _
      · rw [Function.update_of_ne ht] }

theorem Ok.extend (h : Ok termOf IsQuorum H) (helected : H.term i ∈ H.elected)
    (hleads : H.leaderLog (H.term i) = H.log i) {e : E} (hterm : termOf e = H.term i)
    (hpos : 1 ≤ H.term i) : Ok termOf IsQuorum (H.extend i e) := by
  have hgrows := grows_extend H i e
  have hself : (H.extend i e).leaderLog (H.term i) = H.log i ++ [e] := by
    show Function.update H.leaderLog (H.term i) _ (H.term i) = _
    rw [Function.update_self, hleads]
  have hnew : Founded termOf (H.extend i e) (H.term i) (H.log i ++ [e]) := by
    have hold := (h.log i).grow hgrows.leaderLog
    refine ⟨?_, ?_, ?_⟩
    · apply List.pairwise_append.mpr
      refine ⟨hold.sorted, List.pairwise_singleton _ _, ?_⟩
      intro a ha b hb
      rw [List.mem_singleton.mp hb, hterm]
      exact (hold.bounded a ha).2
    · intro a ha
      rcases List.mem_append.mp ha with ha | ha
      · exact hold.bounded a ha
      · rw [List.mem_singleton.mp ha, hterm]
        exact ⟨hpos, le_refl _⟩
    · intro k a hk
      by_cases hlt : k < (H.log i).length
      · rw [List.getElem?_append_left hlt] at hk
        rw [List.take_append_of_le_length hlt]
        exact hold.founded k a hk
      · have hend : k < (H.log i ++ [e]).length := (List.getElem?_eq_some_iff.mp hk).1
        rw [List.length_append, List.length_singleton] at hend
        have hlast : k = (H.log i).length := by omega
        have ha : a = e := by
          rw [hlast, List.getElem?_append_right (le_refl _), Nat.sub_self] at hk
          exact (Option.some.inj hk).symm
        rw [ha, hterm, hself]
        exact List.take_prefix _ _
  apply h.step hgrows
  · intro j
    by_cases hij : j = i
    · rw [hij]
      show Founded termOf (H.extend i e) (H.term i) (Function.update H.log i _ i)
      rw [Function.update_self]
      exact hnew
    · show Founded termOf (H.extend i e) (H.term j) (Function.update H.log i _ j)
      rw [Function.update_of_ne hij]
      exact (h.log j).grow hgrows.leaderLog
  · intro t
    by_cases ht : t = H.term i
    · rw [ht, hself]
      exact hnew
    · show Founded termOf (H.extend i e) t (Function.update H.leaderLog (H.term i) _ t)
      rw [Function.update_of_ne ht]
      exact (h.leaderLog t).grow hgrows.leaderLog
  · intro t ht
    have hne : t ≠ H.term i := fun heq => ht (heq ▸ helected)
    show Function.update H.leaderLog (H.term i) _ t = []
    rw [Function.update_of_ne hne]
    exact h.vacant t ht
  · exact fun a ha hnew => absurd ha hnew
  · exact fun b hb hnew => absurd hb hnew
  · exact fun s hs hnew => absurd hs hnew

theorem grows_accept (hpre : H.log i <+: l) (n : Nat) : Grows H (H.accept i l n) :=
  { Grows.refl H with
    log := by
      intro j
      show H.log j <+: Function.update H.log i l j
      by_cases hij : j = i
      · rw [hij, Function.update_self]
        exact hpre
      · rw [Function.update_of_ne hij]
    acks := Set.subset_insert _ _ }

theorem Ok.accept (h : Ok termOf IsQuorum H) (hpre : H.log i <+: l) {n : Nat}
    (hfounded : Founded termOf H (H.term i) l) (hn : n ≤ (H.leaderLog (H.term i)).length)
    (hholds : (H.leaderLog (H.term i)).take n <+: l) : Ok termOf IsQuorum (H.accept i l n) := by
  have hgrows := grows_accept hpre n
  have hself : (H.accept i l n).log i = l := Function.update_self ..
  apply h.step hgrows
  · intro j
    by_cases hij : j = i
    · rw [hij, hself]
      exact hfounded.grow hgrows.leaderLog
    · show Founded termOf (H.accept i l n) (H.term j) (Function.update H.log i l j)
      rw [Function.update_of_ne hij]
      exact (h.log j).grow hgrows.leaderLog
  · exact fun s => (h.leaderLog s).grow hgrows.leaderLog
  · exact h.vacant
  · intro a ha hnew
    rcases Set.mem_insert_iff.mp ha with rfl | ha
    · refine ⟨rfl, hn, ?_⟩
      rw [hself]
      exact hholds
    · exact absurd ha hnew
  · exact fun b hb hnew => absurd hb hnew
  · exact fun s hs hnew => absurd hs hnew

end events

theorem ok_initial : Ok termOf IsQuorum (History.initial ι E) where
  log _ := .nil
  leaderLog _ := .nil
  vacant _ _ := rfl
  acks _ ha := absurd ha (Set.notMem_empty _)
  ballots _ hb := absurd hb (Set.notMem_empty _)
  voted _ ha := absurd ha (Set.notMem_empty _)
  elected _ ht := absurd ht (Set.notMem_empty _)

end ReplicatedLog
