import Northstar.Zig.Slots

/-!
# LeafEdits — adding to and removing from an accepted leaf

What `validate` accepts is a sorted list of entries, wherever they lie.  `addEntry` puts an entry in
front of all others and does not look for its key, and the first entry of a leaf may reach into the slot
array.  `removeEntry` lays the remaining entries out anew from the end, and reads them from the area it
has zeroed before.
-/

namespace Northstar.Zig

open Bytes SortedEntries

variable {out : Bytes}

variable {key : Bytes} {len : Nat}

namespace BtreeLeafPayload

def contents (payload : Bytes) : Except PagerError (List BtreeLeafEntry) := do
  let node ← BtreeNodeHeader.read payload
  (List.range node.keyCount).mapM (getEntry payload)

theorem Lays.contents_eq {payload : Bytes} {es : List (Nat × BtreeLeafEntry)} (h : Lays payload es) :
    contents payload = .ok (es.map Prod.snd) := by
  rcases h.read with ⟨rightSibling, hread⟩
  unfold contents
  rw [hread, Except.ok_bind, Except.mapM_eq_ok_iff, List.forall₂_iff_get]
  refine ⟨by rw [List.length_range, List.length_map], ?_⟩
  intro i hi hi'
  rw [List.length_range] at hi
  rw [List.get_eq_getElem, List.get_eq_getElem, List.getElem_range, List.getElem_map]
  exact h.getEntry_eq (List.getElem?_eq_getElem hi)

/-- The key is mapped to the value, among entries that are sorted by key. -/
def put (key value : Bytes) (entries : List BtreeLeafEntry) : List BtreeLeafEntry :=
  entries.filter (fun e => e.key < key) ++ ⟨key, value⟩ :: entries.filter (fun e => key < e.key)

def Full (payload : Bytes) (entry : BtreeLeafEntry) : Prop :=
  ∃ node, BtreeNodeHeader.read payload = .ok node ∧
    (maxKeysPerLeaf ≤ node.keyCount ∨
      newEntryOffset payload node.keyCount entry.getSize = .error .leafFull)

/-- What is expected of `addEntry`. -/
def AddsEntry (payload key value : Bytes) : Prop :=
  (addEntry payload key value = .error .leafFull ∧ Full payload ⟨key, value⟩) ∨
    ∃ out entries, addEntry payload key value = .ok out ∧ validate out = .ok () ∧
      contents payload = .ok entries ∧ contents out = .ok (put key value entries)

/-- The leaf has its 200 entries; or it has some, and there is no room for one more, or the key is new;
or it has none, and the entry does not fit at all, or stays clear of the slot array and is put where `validate`
can add up its end. -/
def Addable (payloadLen : Nat) (es : List (Nat × BtreeLeafEntry)) (entry : BtreeLeafEntry) : Prop :=
  maxKeysPerLeaf ≤ es.length ∨
    (es ≠ [] ∧ payloadLen < 2 ^ 16 ∧
      (firstOffset payloadLen es < 48 + (es.length + 1) * 2 + entry.getSize ∨
        ∀ e ∈ es, e.2.key ≠ entry.key)) ∨
    (es = [] ∧ (payloadLen < entry.getSize ∨
      (48 + 2 + entry.getSize ≤ payloadLen ∧ payloadLen - entry.getSize + 6 < 2 ^ 16 ∧ entry.Fits)))

theorem put_of_split {key value : Bytes} {pre suf : List BtreeLeafEntry}
    (hpre : ∀ e ∈ pre, e.key < key) (hsuf : ∀ e ∈ suf, key < e.key) :
    put key value (pre ++ suf) = pre ++ ⟨key, value⟩ :: suf := by
  unfold put
  rw [List.filter_append, List.filter_append,
    List.filter_eq_self.mpr fun e he => decide_eq_true (hpre e he),
    List.filter_eq_nil_iff.mpr fun e he => by
      rw [decide_eq_true_eq]
      exact (hsuf e he).asymm,
    List.filter_eq_nil_iff.mpr fun e he => by
      rw [decide_eq_true_eq]
      exact (hpre e he).asymm,
    List.filter_eq_self.mpr fun e he => decide_eq_true (hsuf e he), List.append_nil, List.nil_append]

theorem length_filter_add_le (key : Bytes) (entries : List BtreeLeafEntry) :
    (entries.filter (fun e => e.key < key)).length + (entries.filter (fun e => key < e.key)).length ≤
      entries.length := by
  induction entries with
  | nil => exact Nat.le_refl _
  | cons e entries ih =>
    rw [List.filter_cons, List.filter_cons, List.length_cons]
    by_cases hlt : e.key < key
    · rw [if_pos (decide_eq_true hlt), if_neg (by rw [decide_eq_true_eq]; exact hlt.asymm),
        List.length_cons]
      omega
    · rw [if_neg (by rw [decide_eq_true_eq]; exact hlt)]
      split
      · rw [List.length_cons]
        omega
      · omega

theorem length_put_le {x : BtreeLeafEntry} {entries : List BtreeLeafEntry} (hx : x ∈ entries)
    (value : Bytes) : (put x.key value entries).length ≤ entries.length := by
  rcases List.append_of_mem hx with ⟨pre, suf, rfl⟩
  have hpre := length_filter_add_le x.key pre
  have hsuf := length_filter_add_le x.key suf
  have hself : decide (x.key < x.key) = false := decide_eq_false (lt_irrefl _)
  unfold put
  rw [List.filter_append, List.filter_append, List.filter_cons, List.filter_cons, hself,
    if_neg Bool.false_ne_true, if_neg Bool.false_ne_true]
  simp only [List.length_append, List.length_cons]
  omega

variable {data : Bytes}

theorem store_inv {bytes : Bytes} {offset : Nat} (h : store data offset bytes = .ok out) :
    out.length = data.length ∧ window out offset bytes.length = bytes := by
  unfold store at h
  cases hwrite : writeAt data offset bytes with
  | none =>
    rw [hwrite] at h
    cases h
  | some written =>
    rw [hwrite] at h
    cases h
    exact ⟨writeAt_length hwrite, window_writeAt hwrite⟩

theorem addEntry_inv {payload value : Bytes} (h : addEntry payload key value = .ok out) :
    ∃ node offset stored node', BtreeNodeHeader.read payload = .ok node ∧
      node.keyCount < maxKeysPerLeaf ∧
      newEntryOffset payload node.keyCount (BtreeLeafEntry.getSize ⟨key, value⟩) = .ok offset ∧
      store payload offset (BtreeLeafEntry.bytes ⟨key, value⟩) = .ok stored ∧
      BtreeNodeHeader.read stored = .ok node' ∧ out.length = payload.length ∧
      window out 14 2 = le 2 (node'.keyCount + 1) := by
  unfold addEntry at h
  rcases Except.bind_eq_ok_iff.mp h with ⟨node, hread, h⟩
  rcases Except.guard_eq_ok_iff.mp h with ⟨hfew, h⟩
  rcases Except.bind_eq_ok_iff.mp h with ⟨offset, hoffset, h⟩
  rcases Except.bind_eq_ok_iff.mp h with ⟨_, _, h⟩
  rcases Except.bind_eq_ok_iff.mp h with ⟨_, _, h⟩
  rcases Except.bind_eq_ok_iff.mp h with ⟨stored, hstore, h⟩
  rcases Except.bind_eq_ok_iff.mp h with ⟨node', hread', h⟩
  rcases Except.bind_eq_ok_iff.mp h with ⟨insertPos, _, h⟩
  -- the number of keys is written last, whether or not the slot area has been cleared
  have hlast : ∀ cleared : Bytes, (do
      let slots ← getSlotArrayMut cleared (maxKeysPerLeaf + 1)
      let payload ← writeSlotArray cleared (slots.insertIdx insertPos offset)
      BtreeNodeHeader.setKeyCount payload (node'.keyCount + 1)) = .ok out →
      out.length = cleared.length ∧ window out 14 2 = le 2 (node'.keyCount + 1) := by
    intro cleared h
    rcases Except.bind_eq_ok_iff.mp h with ⟨slots, _, h⟩
    rcases Except.bind_eq_ok_iff.mp h with ⟨linked, hlink, h⟩
    have hcount := store_inv h
    rw [length_le] at hcount
    exact ⟨hcount.1.trans (store_inv hlink).1, hcount.2⟩
  refine ⟨node, offset, stored, node', hread, Nat.lt_of_not_le hfew, hoffset, hstore, hread', ?_⟩
  dsimp only at h
  split at h
  · rcases Except.bind_eq_ok_iff.mp h with ⟨cleared, hclear, h⟩
    rcases hlast cleared h with ⟨hlen, hcount⟩
    exact ⟨(hlen.trans (store_inv hclear).1).trans (store_inv hstore).1, hcount⟩
  · rcases Except.bind_eq_ok_iff.mp h with ⟨cleared, hclear, h⟩
    cases hclear
    rcases hlast stored h with ⟨hlen, hcount⟩
    exact ⟨hlen.trans (store_inv hstore).1, hcount⟩

theorem addEntry_of_full {payload value : Bytes} (h : Full payload ⟨key, value⟩) :
    addEntry payload key value = .error .leafFull := by
  rcases h with ⟨node, hread, hfull⟩
  unfold addEntry
  rw [hread, Except.ok_bind]
  by_cases hmany : node.keyCount ≥ maxKeysPerLeaf
  · rw [if_pos hmany]
  · rw [if_neg hmany]
    dsimp only
    rw [hfull.resolve_left hmany]
    rfl

variable {entry : BtreeLeafEntry}

theorem first_entry_inside {payload : Bytes} (hlength : out.length = payload.length)
    (hvalid : validate out = .ok ()) (hcontents : contents out = .ok [entry]) :
    48 + 2 + entry.getSize ≤ payload.length ∧ entry.Fits := by
  rcases exists_lays hvalid with ⟨es', hlays, -⟩
  rw [hlays.contents_eq] at hcontents
  match es', hlays, hcontents with
  | [], _, hcontents => cases hcontents
  | [(offset, entry')], hlays, hcontents =>
    cases hcontents
    have hinside := hlays.inside (offset, entry') (List.mem_singleton_self _)
    rw [List.length_singleton, hlength] at hinside
    have hend : offset + entry'.getSize ≤ payload.length := hinside.2
    exact ⟨by omega, (hlays.fits (offset, entry') (List.mem_singleton_self _)).2⟩
  | _ :: _ :: _, _, hcontents => cases hcontents

theorem eq_of_maps {es es' : List (Nat × BtreeLeafEntry)} (hfst : es.map Prod.fst = es'.map Prod.fst)
    (hsnd : es.map Prod.snd = es'.map Prod.snd) : es = es' := by
  rw [← List.zip_unzip es, ← List.zip_unzip es', List.unzip_fst, List.unzip_fst, List.unzip_snd,
    List.unzip_snd, hfst, hsnd]

namespace Lays

variable {payload : Bytes} {es : List (Nat × BtreeLeafEntry)} (h : Lays payload es)

include h

theorem eq_of_slots {es' : List (Nat × BtreeLeafEntry)} (hsnd : es.map Prod.snd = es'.map Prod.snd)
    (hsmall : ∀ x ∈ es', x.1 < 2 ^ 16)
    (hslots : ∀ i slot, (es'.map Prod.fst)[i]? = some slot → window payload (48 + i * 2) 2 = le 2 slot) :
    es = es' := by
  have hcount := congrArg List.length hsnd
  rw [List.length_map, List.length_map] at hcount
  apply eq_of_maps ?_ hsnd
  apply List.ext_getElem
  · rw [List.length_map, List.length_map, hcount]
  · intro i hi hi'
    have hslot := hslots i _ (List.getElem?_eq_getElem hi')
    rw [List.length_map] at hi
    have hslot' := h.slots i _ (List.getElem?_eq_getElem hi)
    rw [List.length_map] at hi'
    have hbound := hsmall _ (List.getElem_mem hi')
    have hfits := (h.fits _ (List.getElem_mem hi)).1
    rw [List.getElem_map] at hslot ⊢
    rw [List.getElem_map]
    exact le_inj (w := 2) hfits (by omega) (hslot'.symm.trans hslot)

theorem sums_of_validate (hvalid : validate payload = .ok ()) : ∀ e ∈ es, e.1 + 6 < 2 ^ 16 := by
  rcases exists_lays hvalid with ⟨es', hlays, hsums⟩
  have hcontents := h.contents_eq.symm.trans hlays.contents_eq
  have hsame : es = es' := by
    apply h.eq_of_slots (Except.ok.inj hcontents) fun x hx => (hlays.fits x hx).1
    intro i slot hslot
    rw [List.getElem?_map] at hslot
    rcases Option.map_eq_some_iff.mp hslot with ⟨x, hx, rfl⟩
    exact hlays.slots i x hx
  rw [hsame]
  exact hsums

theorem newEntryOffset_cases (size : Nat) :
    (newEntryOffset payload es.length size = .error .leafFull ∧
      (es ≠ [] ∧ payload.length < 2 ^ 16 ∧
          firstOffset payload.length es < 48 + (es.length + 1) * 2 + size ∨
        es = [] ∧ payload.length < size)) ∨
    (newEntryOffset payload es.length size = .ok (firstOffset payload.length es - size) ∧
      firstOffset payload.length es - size < 2 ^ 16 ∧
      (es ≠ [] ∧ payload.length < 2 ^ 16 ∧
          48 + (es.length + 1) * 2 + size ≤ firstOffset payload.length es ∨
        es = [] ∧ size ≤ payload.length)) ∨
    (newEntryOffset payload es.length size = .error .panic ∧
      (es ≠ [] ∧ 2 ^ 16 ≤ payload.length ∨
        es = [] ∧ size ≤ payload.length ∧ 2 ^ 16 ≤ payload.length - size)) := by
  have hmin := (firstOffset_le payload.length es).1
  unfold newEntryOffset intCast
  by_cases hnil : es = []
  · have hall : firstOffset payload.length es = payload.length := by
      rw [hnil]
      rfl
    rw [hall, if_neg (by rw [hnil]; exact Nat.lt_irrefl 0)]
    by_cases hshort : payload.length < size
    · rw [if_pos hshort]
      exact Or.inl ⟨rfl, Or.inr ⟨hnil, hshort⟩⟩
    · rw [if_neg hshort]
      by_cases hsmall : payload.length - size < 2 ^ 16
      · rw [if_pos hsmall]
        exact Or.inr (Or.inl ⟨rfl, hsmall, Or.inr ⟨hnil, by omega⟩⟩)
      · rw [if_neg hsmall]
        exact Or.inr (Or.inr ⟨rfl, Or.inr ⟨hnil, by omega, by omega⟩⟩)
  · rw [if_pos (List.length_pos_iff.mpr hnil), h.getSlotArray_eq h.few, Except.ok_bind]
    by_cases hsmall : payload.length < 2 ^ 16
    · rw [if_pos hsmall, Except.ok_bind]
      by_cases hroom : firstOffset payload.length es < 48 + (es.length + 1) * 2 + size
      · exact Or.inl ⟨if_pos hroom, Or.inl ⟨hnil, hsmall, hroom⟩⟩
      · exact Or.inr (Or.inl ⟨if_neg hroom, by omega, Or.inl ⟨hnil, hsmall, by omega⟩⟩)
    · rw [if_neg hsmall]
      exact Or.inr (Or.inr ⟨rfl, Or.inl ⟨hnil, by omega⟩⟩)

theorem full_iff (entry : BtreeLeafEntry) : Full payload entry ↔ maxKeysPerLeaf ≤ es.length ∨
      newEntryOffset payload es.length entry.getSize = .error .leafFull := by
  rcases h.read with ⟨rightSibling, hread⟩
  constructor
  · rintro ⟨node, hnode, hfull⟩
    rw [hread] at hnode
    cases hnode
    exact hfull
  · exact fun hfull => ⟨_, hread, hfull⟩

theorem addsEntry_of_room (hfew : es.length < maxKeysPerLeaf)
    (hroom : 48 + (es.length + 1) * 2 + entry.getSize ≤ firstOffset payload.length es)
    (hshort : 0 < es.length → payload.length < 2 ^ 16)
    (hsums : ∀ e ∈ es, e.1 + 6 < 2 ^ 16)
    (hoffset : firstOffset payload.length es - entry.getSize + 6 < 2 ^ 16) (hfits : entry.Fits)
    (habsent : ∀ e ∈ es, e.2.key ≠ entry.key) : AddsEntry payload entry.key entry.value := by
  have hsmall : firstOffset payload.length es - entry.getSize < 2 ^ 16 := by omega
  rcases h.addEntry_eq hfew hroom hshort hsmall hfits habsent with
    ⟨pre, suf, out, hes, hpre, hsuf, hadd, _, hout⟩
  have hvalid : validate out = .ok () := by
    apply hout.validate_eq
    have hold : ∀ e ∈ pre ++ suf, e.1 + 6 < 2 ^ 16 := hes ▸ hsums
    rw [List.forall_mem_append] at hold
    rw [List.forall_mem_append, List.forall_mem_cons]
    exact ⟨hold.1, hoffset, hold.2⟩
  refine Or.inr ⟨out, es.map Prod.snd, hadd, hvalid, h.contents_eq, ?_⟩
  have hput := @put_of_split entry.key entry.value (pre.map Prod.snd) (suf.map Prod.snd)
    (by
      intro e he
      rcases List.mem_map.mp he with ⟨x, hx, rfl⟩
      exact hpre x hx)
    (by
      intro e he
      rcases List.mem_map.mp he with ⟨x, hx, rfl⟩
      exact hsuf x hx)
  rw [hout.contents_eq, hes, List.map_append, List.map_append, List.map_cons, hput]

/-- An entry that was put in front of the others, with the contents a map would have, is one of a new key. -/
theorem absent_of_added
    (hroom : 48 + (es.length + 1) * 2 + entry.getSize ≤ firstOffset payload.length es)
    (hok : newEntryOffset payload es.length entry.getSize =
      .ok (firstOffset payload.length es - entry.getSize))
    (hadd : addEntry payload entry.key entry.value = .ok out) (hvalid : validate out = .ok ())
    (hcontents : contents out = .ok (put entry.key entry.value (es.map Prod.snd))) :
    ∀ e ∈ es, e.2.key ≠ entry.key := by
  intro e he hkey
  rcases addEntry_inv hadd with
    ⟨node, offset, stored, node', hread, hfew, hoffset, hstore, hread', -, hcount⟩
  rcases h.read with ⟨rightSibling, hnode⟩
  rw [hnode] at hread
  cases hread
  have hsame : offset = firstOffset payload.length es - entry.getSize := by
    have heq := hok.symm.trans hoffset
    cases heq
    rfl
  rcases h.store_entry hroom with ⟨stored', hstore', -, hstored, -⟩
  rw [hsame] at hstore
  have heq := hstore'.symm.trans hstore
  cases heq
  rcases hstored.read with ⟨rightSibling', hstoredRead⟩
  rw [hstoredRead] at hread'
  cases hread'
  -- the leaf has one entry more than before, and the map has not
  rcases exists_lays hvalid with ⟨es', hlays, -⟩
  have hlen : es'.length = es.length + 1 := by
    have hfew' := hlays.few'
    have hcount' := congrArg toNat (hlays.count.symm.trans hcount)
    have hsmallCount : es.length < 200 := hfew
    rw [toNat_le_of_lt (by omega), toNat_le_of_lt (by dsimp only; omega)] at hcount'
    exact hcount'
  rw [hlays.contents_eq] at hcontents
  have hlens := congrArg List.length (Except.ok.inj hcontents)
  rw [List.length_map, hlen] at hlens
  have hmem : e.2 ∈ es.map Prod.snd := List.mem_map_of_mem he
  have hle := length_put_le hmem entry.value
  rw [hkey, List.length_map] at hle
  omega

theorem addable_of_full (hfull : Full payload entry) : Addable payload.length es entry := by
  rcases (h.full_iff entry).mp hfull with hmany | hnone
  · exact Or.inl hmany
  · rcases h.newEntryOffset_cases entry.getSize with
      ⟨-, ⟨hne, hsmall, hroom⟩ | ⟨hnil, hshort⟩⟩ | ⟨hok, -⟩ | ⟨hpanic, -⟩
    · exact Or.inr (Or.inl ⟨hne, hsmall, Or.inl hroom⟩)
    · exact Or.inr (Or.inr ⟨hnil, Or.inl hshort⟩)
    · rw [hok] at hnone
      cases hnone
    · rw [hpanic] at hnone
      cases hnone

theorem addable_of_added
    (hadd : addEntry payload entry.key entry.value = .ok out) (hvalid : validate out = .ok ())
    (hcontents : contents out = .ok (put entry.key entry.value (es.map Prod.snd))) :
    Addable payload.length es entry := by
  rcases addEntry_inv hadd with ⟨node, offset, _, _, hread, -, hoffset, -, -, hlength, -⟩
  rcases h.read with ⟨rightSibling, hnode⟩
  rw [hnode] at hread
  cases hread
  rcases h.newEntryOffset_cases entry.getSize with ⟨hnone, -⟩ | ⟨hok, hsmall, hcase⟩ | ⟨hpanic, -⟩
  · exact absurd (hnone.symm.trans hoffset) (by intro heq; cases heq)
  · rcases hcase with ⟨hne, hshort, hroom⟩ | ⟨hnil, hfits⟩
    · exact Or.inr (Or.inl ⟨hne, hshort, Or.inr (h.absent_of_added hroom hok hadd hvalid hcontents)⟩)
    · -- the first entry was checked against the payload only, and has to be clear of the slot all the same
      have hput : put entry.key entry.value (es.map Prod.snd) = [entry] := by
        rw [hnil]
        rfl
      have hall : firstOffset payload.length es = payload.length := by
        rw [hnil]
        rfl
      rw [hput] at hcontents
      have hinside := first_entry_inside hlength hvalid hcontents
      have hroom : 48 + (es.length + 1) * 2 + entry.getSize ≤ firstOffset payload.length es := by
        rw [hall, hnil]
        exact hinside.1
      have habsent : ∀ e ∈ es, e.2.key ≠ entry.key := by
        rw [hnil]
        exact fun e he => absurd he List.not_mem_nil
      rcases h.addEntry_eq (by rw [hnil]; exact Nat.succ_pos _) hroom
        (fun hpos => absurd hnil (List.length_pos_iff.mp hpos)) hsmall hinside.2 habsent with
        ⟨pre, suf, out', -, -, -, hadd', -, hout⟩
      cases hadd.symm.trans hadd'
      have hsum := hout.sums_of_validate hvalid _ (List.mem_append_right _ (List.mem_cons_self ..))
      rw [hall] at hsum
      exact Or.inr (Or.inr ⟨hnil, Or.inr ⟨hinside.1, hsum, hinside.2⟩⟩)
  · exact absurd (hpanic.symm.trans hoffset) (by intro heq; cases heq)

theorem addsEntry_of_addable (hsums : ∀ e ∈ es, e.1 + 6 < 2 ^ 16)
    (hcond : Addable payload.length es entry) : AddsEntry payload entry.key entry.value := by
  have hfull := h.full_iff entry
  by_cases hmany : maxKeysPerLeaf ≤ es.length
  · exact Or.inl ⟨addEntry_of_full (hfull.mpr (Or.inl hmany)), hfull.mpr (Or.inl hmany)⟩
  · have hcond := hcond.resolve_left hmany
    rcases h.newEntryOffset_cases entry.getSize with
      ⟨hnone, -⟩ | ⟨-, hsmall, hcase⟩ | ⟨-, hcase⟩
    · exact Or.inl ⟨addEntry_of_full (hfull.mpr (Or.inr hnone)), hfull.mpr (Or.inr hnone)⟩
    · rcases hcase with ⟨hne, hshort, hroom⟩ | ⟨hnil, hle⟩
      · rcases hcond with ⟨-, -, hfirst | habsent⟩ | ⟨hnil, -⟩
        · omega
        · have hmin := (firstOffset_le payload.length es).1
          have hsix := entry.six_le_getSize
          exact h.addsEntry_of_room (Nat.lt_of_not_le hmany) hroom (fun _ => hshort) hsums (by omega)
            (BtreeLeafEntry.fits_of_getSize_lt (by omega)) habsent
        · exact absurd hnil hne
      · rcases hcond with ⟨hne, -⟩ | ⟨-, hshort | ⟨hroom, hsum, hfits⟩⟩
        · exact absurd hnil hne
        · omega
        · subst hnil
          exact h.addsEntry_of_room (Nat.lt_of_not_le hmany) hroom
            (fun hpos => absurd hpos (Nat.lt_irrefl 0)) hsums hsum hfits
            (fun e he => absurd he List.not_mem_nil)
    · -- the casts panic only where the payload or the offset is too large, which the condition excludes
      rcases hcond with ⟨hne, hshort, -⟩ | ⟨hnil, hshort | ⟨hroom, hsmall, -⟩⟩
      · rcases hcase with ⟨-, hlong⟩ | ⟨hnil, -⟩
        · omega
        · exact absurd hnil hne
      · rcases hcase with ⟨hne, -⟩ | ⟨-, hle, -⟩
        · exact absurd hnil hne
        · omega
      · rcases hcase with ⟨hne, -⟩ | ⟨-, -, hlong⟩
        · exact absurd hnil hne
        · omega

theorem addsEntry_iff (hvalid : validate payload = .ok ()) (entry : BtreeLeafEntry) :
    AddsEntry payload entry.key entry.value ↔ Addable payload.length es entry := by
  constructor
  · rintro (⟨-, hfull⟩ | ⟨out, entries, hadd, hout, hentries, hcontents⟩)
    · exact h.addable_of_full hfull
    · rw [h.contents_eq] at hentries
      cases hentries
      exact h.addable_of_added hadd hout hcontents
  · exact h.addsEntry_of_addable (h.sums_of_validate hvalid)

end Lays

theorem store_eq {data bytes : Bytes} {off : Nat} (hfits : off + bytes.length ≤ data.length) :
    store data off bytes = .ok (overwrite data off bytes) := by
  unfold store
  rw [writeAt_overwrite hfits]

/-- The ranges of a copy do not overlap. -/
def Apart (dest src len : Nat) : Prop := len = 0 ∨ src + len ≤ dest ∨ dest + len ≤ src

instance (dest src len : Nat) : Decidable (Apart dest src len) := by
  unfold Apart
  infer_instance

theorem memcpy_eq {dest src : Nat} (hapart : Apart dest src len)
    (hsrc : src + len ≤ data.length) (hdest : dest + len ≤ data.length) :
    memcpy data dest src len = .ok (overwrite data dest (window data src len)) := by
  have hlen : (window data src len).length = len := length_window_of_le hsrc
  unfold Apart at hapart
  unfold memcpy
  rw [if_neg (by omega), slice_of_le (Nat.le_add_right _ _) hsrc, Except.ok_bind,
    Nat.add_sub_cancel_left]
  exact store_eq (by omega)

theorem memcpy_inv {dest src : Nat} (h : memcpy data dest src len = .ok out) :
    Apart dest src len ∧ src + len ≤ data.length ∧
      out = overwrite data dest (window data src len) := by
  unfold memcpy at h
  rcases Except.guard_eq_ok_iff.mp h with ⟨hapart, h⟩
  rcases Except.bind_eq_ok_iff.mp h with ⟨bytes, hslice, hstore⟩
  rcases slice_inv hslice with ⟨hsrc, rfl⟩
  rw [Nat.add_sub_cancel_left] at hstore
  refine ⟨by unfold Apart; omega, hsrc, ?_⟩
  unfold store writeAt at hstore
  by_cases hfits : dest + (window data src len).length ≤ data.length
  · rw [if_pos hfits] at hstore
    cases hstore
    rfl
  · rw [if_neg hfits] at hstore
    cases hstore

end BtreeLeafPayload

namespace BtreeLeafEntry

/-- The two lengths in front of an entry. -/
def lens (e : BtreeLeafEntry) : Bytes := le 2 e.key.length ++ le 4 e.value.length

theorem length_lens (e : BtreeLeafEntry) : e.lens.length = 6 := by
  unfold lens
  rw [List.length_append, length_le, length_le]

theorem bytes_eq (e : BtreeLeafEntry) : e.bytes = e.lens ++ e.key ++ e.value := rfl

theorem getSize_eq (e : BtreeLeafEntry) : e.getSize = 6 + e.key.length + e.value.length := rfl

end BtreeLeafEntry

namespace BtreeLeafPayload

/-- The entries one in front of the other, the first of which ends at `stop`. -/
def placed : Nat → List (Nat × BtreeLeafEntry) → List (Nat × BtreeLeafEntry)
  | _, [] => []
  | stop, (_, e) :: rest => (stop - e.getSize, e) :: placed (stop - e.getSize) rest

def totalSize (es : List (Nat × BtreeLeafEntry)) : Nat := (es.map fun e => e.2.getSize).sum

/-- The header counts this many entries. -/
def Counts (payload : Bytes) (count : Nat) : Prop :=
  ∃ node, BtreeNodeHeader.read payload = .ok node ∧ node.keyCount = count

theorem Counts.congr {payload : Bytes} {count : Nat} (h : Counts payload count)
    (hlength : out.length = payload.length) (hfront : window out 0 48 = window payload 0 48) :
    Counts out count := by
  have hslice : slice out 0 BtreeNodeHeader.size = slice payload 0 BtreeNodeHeader.size := by
    unfold slice
    rw [hlength]
    show (if _ then Except.ok (window out 0 48) else _) = _
    rw [hfront]
    rfl
  unfold Counts BtreeNodeHeader.read at h ⊢
  rw [hslice]
  exact h

/-- What a copy puts behind the lengths at `new`: the key that is read at the old place, and then the
value. -/
def copiedKey (area : Bytes) (new old : Nat) (e : BtreeLeafEntry) : Bytes :=
  window (overwrite area new e.lens) (old + 6) e.key.length

def copiedValue (area : Bytes) (new old : Nat) (e : BtreeLeafEntry) : Bytes :=
  window (overwrite area new (e.lens ++ copiedKey area new old e)) (old + 6 + e.key.length)
    e.value.length

def copiedEntry (area : Bytes) (new old : Nat) (e : BtreeLeafEntry) : Bytes :=
  e.lens ++ copiedKey area new old e ++ copiedValue area new old e

/-- The ranges of the two copies do not overlap. -/
def CopiesApart (new old : Nat) (e : BtreeLeafEntry) : Prop :=
  Apart (new + 6) (old + 6) e.key.length ∧
    Apart (new + 6 + e.key.length) (old + 6 + e.key.length) e.value.length

instance (new old : Nat) (e : BtreeLeafEntry) : Decidable (CopiesApart new old e) := by
  unfold CopiesApart
  infer_instance

/-- The entries are laid out in `area`, one in front of the other, and each of them is read right: at its
turn its old place holds its key and its value. -/
def CopiesRight : Nat → Bytes → List (Nat × BtreeLeafEntry) → Prop
  | _, _, [] => True
  | stop, area, (old, e) :: rest =>
    CopiesApart (stop - e.getSize) old e ∧ copiedKey area (stop - e.getSize) old e = e.key ∧
      copiedValue area (stop - e.getSize) old e = e.value ∧
      CopiesRight (stop - e.getSize) (overwrite area (stop - e.getSize) e.bytes) rest

section

variable {i count stop old : Nat} {e : BtreeLeafEntry} {rest : List (Nat × BtreeLeafEntry)} {area : Bytes}

theorem totalSize_cons : totalSize ((old, e) :: rest) = e.getSize + totalSize rest := by
  unfold totalSize
  rw [List.map_cons, List.sum_cons]

theorem map_snd_placed : (placed stop rest).map Prod.snd = rest.map Prod.snd := by
  induction rest generalizing stop with
  | nil => rfl
  | cons x rest ih =>
    rcases x with ⟨old, e⟩
    unfold placed
    rw [List.map_cons, List.map_cons, ih]

theorem length_placed : (placed stop rest).length = rest.length := by
  have h := congrArg List.length (@map_snd_placed stop rest)
  rwa [List.length_map, List.length_map] at h

theorem placed_bounds (htotal : totalSize rest ≤ stop) :
    ∀ x ∈ placed stop rest, stop - totalSize rest ≤ x.1 ∧ x.1 + x.2.getSize ≤ stop := by
  induction rest generalizing stop with
  | nil => exact fun x hx => absurd hx List.not_mem_nil
  | cons y rest ih =>
    rcases y with ⟨old, e⟩
    rw [totalSize_cons] at htotal ⊢
    intro x hx
    unfold placed at hx
    rcases List.mem_cons.mp hx with rfl | hx
    · dsimp only
      omega
    · have hbounds := ih (show totalSize rest ≤ stop - e.getSize by omega) x hx
      omega

section

variable (hsize : e.getSize ≤ stop) (hstop : stop ≤ area.length) (hold : old + e.getSize ≤ area.length)

include hsize hstop hold

theorem length_copiedKey : (copiedKey area (stop - e.getSize) old e).length = e.key.length := by
  have hgetSize := e.getSize_eq
  have hlens := e.length_lens
  apply length_window_of_le
  rw [length_overwrite (by omega)]
  omega

theorem length_copiedValue : (copiedValue area (stop - e.getSize) old e).length = e.value.length := by
  have hgetSize := e.getSize_eq
  have hlens := e.length_lens
  have hkey := length_copiedKey hsize hstop hold
  apply length_window_of_le
  rw [length_overwrite (by rw [List.length_append]; omega)]
  omega

theorem overwrite_copiedKey :
    overwrite (overwrite area (stop - e.getSize) e.lens) (stop - e.getSize + 6)
        (copiedKey area (stop - e.getSize) old e) =
      overwrite area (stop - e.getSize) (e.lens ++ copiedKey area (stop - e.getSize) old e) := by
  have hgetSize := e.getSize_eq
  have hlens := e.length_lens
  have hkey := length_copiedKey hsize hstop hold
  have happend := @overwrite_append area e.lens (copiedKey area (stop - e.getSize) old e)
    (stop - e.getSize) (by omega)
  rwa [hlens] at happend

theorem overwrite_copied :
    overwrite (overwrite area (stop - e.getSize) (e.lens ++ copiedKey area (stop - e.getSize) old e))
        (stop - e.getSize + 6 + e.key.length) (copiedValue area (stop - e.getSize) old e) =
      overwrite area (stop - e.getSize) (copiedEntry area (stop - e.getSize) old e) := by
  have hgetSize := e.getSize_eq
  have hlens := e.length_lens
  have hkey := length_copiedKey hsize hstop hold
  have hvalue := length_copiedValue hsize hstop hold
  have happend := @overwrite_append area (e.lens ++ copiedKey area (stop - e.getSize) old e)
    (copiedValue area (stop - e.getSize) old e) (stop - e.getSize)
    (by rw [List.length_append]; omega)
  rwa [List.length_append, hlens, hkey, ← Nat.add_assoc] at happend

theorem rewriteEntries_cons (hcount : Counts area count) (hlt : i < count)
    (hapart : CopiesApart (stop - e.getSize) old e) :
    rewriteEntries i stop ((old, e) :: rest) area = do
      let r ← rewriteEntries (i + 1) (stop - e.getSize) rest
        (overwrite area (stop - e.getSize) (copiedEntry area (stop - e.getSize) old e))
      return (r.1, (stop - e.getSize) :: r.2) := by
  have hgetSize := e.getSize_eq
  have hlens := e.length_lens
  have hkey := length_copiedKey hsize hstop hold
  have hsub : checkedSub stop e.getSize = .ok (stop - e.getSize) := if_pos hsize
  have hstore : store area (stop - e.getSize) (le 2 e.key.length ++ le 4 e.value.length) =
      .ok (overwrite area (stop - e.getSize) e.lens) := @store_eq area e.lens _ (by omega)
  have hlength : (overwrite area (stop - e.getSize) e.lens).length = area.length :=
    length_overwrite (by omega)
  have hlength' : (overwrite area (stop - e.getSize)
      (e.lens ++ copiedKey area (stop - e.getSize) old e)).length = area.length :=
    length_overwrite (by rw [List.length_append]; omega)
  have hcopyKey : memcpy (overwrite area (stop - e.getSize) e.lens) (stop - e.getSize + 6) (old + 6)
      e.key.length = .ok (overwrite area (stop - e.getSize)
        (e.lens ++ copiedKey area (stop - e.getSize) old e)) := by
    rw [memcpy_eq hapart.1 (by omega) (by omega)]
    exact congrArg Except.ok (overwrite_copiedKey hsize hstop hold)
  have hcopyValue : memcpy (overwrite area (stop - e.getSize)
        (e.lens ++ copiedKey area (stop - e.getSize) old e)) (stop - e.getSize + 6 + e.key.length)
      (old + 6 + e.key.length) e.value.length =
        .ok (overwrite area (stop - e.getSize) (copiedEntry area (stop - e.getSize) old e)) := by
    rw [memcpy_eq hapart.2 (by omega) (by omega)]
    exact congrArg Except.ok (overwrite_copied hsize hstop hold)
  rcases hcount with ⟨node, hread, rfl⟩
  rw [rewriteEntries.eq_2, hread, Except.ok_bind, if_pos hlt, hsub, Except.ok_bind, hstore, Except.ok_bind,
    hcopyKey, Except.ok_bind, hcopyValue, Except.ok_bind]

omit hsize in
/-- The loop has come to its end, or it takes a turn. -/
theorem rewriteEntries_cons_inv {slots : List Nat}
    (h : rewriteEntries i stop ((old, e) :: rest) area = .ok (out, slots)) :
    (slots = [] ∧ out = area ∧ ∃ count ≤ i, Counts area count) ∨
      (e.getSize ≤ stop ∧ CopiesApart (stop - e.getSize) old e ∧
        ∃ slots', slots = (stop - e.getSize) :: slots' ∧ rewriteEntries (i + 1) (stop - e.getSize) rest
          (overwrite area (stop - e.getSize) (copiedEntry area (stop - e.getSize) old e)) = .ok (out, slots')) := by
  have hturn := h
  rw [rewriteEntries.eq_2] at hturn
  rcases Except.bind_eq_ok_iff.mp hturn with ⟨node, hread, hturn⟩
  by_cases hlt : i < node.keyCount
  · rw [if_pos hlt] at hturn
    rcases Except.bind_eq_ok_iff.mp hturn with ⟨offset, hsub, hturn⟩
    rcases Except.bind_eq_ok_iff.mp hturn with ⟨_, _, hturn⟩
    rcases Except.bind_eq_ok_iff.mp hturn with ⟨_, hcopyKey, hturn⟩
    rcases Except.bind_eq_ok_iff.mp hturn with ⟨_, hcopyValue, _⟩
    unfold checkedSub at hsub
    by_cases hsize : e.getSize ≤ stop
    · rw [if_pos hsize] at hsub
      cases hsub
      have hapart : CopiesApart (stop - e.getSize) old e :=
        ⟨(memcpy_inv hcopyKey).1, (memcpy_inv hcopyValue).1⟩
      rw [rewriteEntries_cons hsize hstop hold ⟨node, hread, rfl⟩ hlt hapart] at h
      rcases Except.bind_eq_ok_iff.mp h with ⟨⟨out', slots'⟩, hrest, heq⟩
      cases heq
      exact .inr ⟨hsize, hapart, slots', rfl, hrest⟩
    · rw [if_neg hsize] at hsub
      cases hsub
  · rw [if_neg hlt] at hturn
    cases hturn
    exact .inl ⟨rfl, rfl, node.keyCount, Nat.le_of_not_lt hlt, node, hread, rfl⟩

theorem length_copiedEntry : (copiedEntry area (stop - e.getSize) old e).length = e.getSize := by
  unfold copiedEntry
  rw [List.length_append, List.length_append, e.length_lens, length_copiedKey hsize hstop hold,
    length_copiedValue hsize hstop hold, e.getSize_eq]

theorem length_copied :
    (overwrite area (stop - e.getSize) (copiedEntry area (stop - e.getSize) old e)).length = area.length :=
  length_overwrite (by rw [length_copiedEntry hsize hstop hold]; omega)

end

/-- The loop ends with a count that it has reached, and writes the entries when it takes a turn for each. -/
theorem rewriteEntries_spec {slots : List Nat} (hstop : stop ≤ area.length)
    (hold : ∀ x ∈ rest, x.1 + x.2.getSize ≤ area.length)
    (h : rewriteEntries i stop rest area = .ok (out, slots)) :
    out.length = area.length ∧ slots.length ≤ rest.length ∧ (∃ count ≤ i + slots.length, Counts out count) ∧
      (slots.length = rest.length → totalSize rest ≤ stop ∧ slots = (placed stop rest).map Prod.fst ∧
        ∀ off len, off + len ≤ stop - totalSize rest ∨ stop ≤ off → window out off len = window area off len) := by
  induction rest generalizing i stop area slots with
  | nil =>
    rw [rewriteEntries.eq_1] at h
    rcases Except.bind_eq_ok_iff.mp h with ⟨node, hread, h⟩
    rcases Except.guard_eq_ok_iff.mp h with ⟨hend, h⟩
    cases h
    exact ⟨rfl, Nat.le_refl _, ⟨node.keyCount, Nat.le_of_not_lt hend, node, hread, rfl⟩,
      fun _ => ⟨Nat.zero_le _, rfl, fun _ _ _ => rfl⟩⟩
  | cons x rest ih =>
    rcases x with ⟨old, e⟩
    have hx : old + e.getSize ≤ area.length := hold (old, e) (List.mem_cons_self ..)
    rcases rewriteEntries_cons_inv hstop hx h with ⟨rfl, rfl, hcount⟩ | ⟨hsize, -, slots', rfl, hrest⟩
    · exact ⟨rfl, Nat.zero_le _, hcount, fun hall => nomatch hall⟩
    have hwidth := length_copiedEntry hsize hstop hx
    have hlength := length_copied hsize hstop hx
    rcases ih (by omega) (fun y hy => by rw [hlength]; exact hold y (List.mem_cons_of_mem _ hy)) hrest
      with ⟨hout, hle, ⟨count, hcountLe, hcount⟩, hwritten⟩
    rw [List.length_cons, List.length_cons, totalSize_cons]
    refine ⟨hout.trans hlength, by omega, ⟨count, by omega, hcount⟩, fun hall => ?_⟩
    rcases hwritten (Nat.succ.inj hall) with ⟨htotal, hslots, hframe⟩
    refine ⟨by omega, ?_, ?_⟩
    · unfold placed
      rw [List.map_cons, hslots]
    · intro off len hoff
      rw [hframe off len (by omega)]
      exact window_overwrite_apart (by omega) (by omega)

theorem rewriteEntries_of_copiesRight (hcount : Counts area count) (hcovers : i + rest.length = count)
    (hstop : stop ≤ area.length) (htotal : 48 + totalSize rest ≤ stop)
    (hold : ∀ x ∈ rest, x.1 + x.2.getSize ≤ area.length) (h : CopiesRight stop area rest) :
    ∃ out, rewriteEntries i stop rest area = .ok (out, (placed stop rest).map Prod.fst) ∧
      ∀ x ∈ placed stop rest, window out x.1 x.2.getSize = x.2.bytes := by
  induction rest generalizing i stop area with
  | nil =>
    rcases hcount with ⟨node, hread, rfl⟩
    rw [List.length_nil] at hcovers
    refine ⟨area, ?_, fun x hx => absurd hx List.not_mem_nil⟩
    rw [rewriteEntries.eq_1, hread, Except.ok_bind, if_neg (by omega)]
    rfl
  | cons x rest ih =>
    rcases x with ⟨old, e⟩
    have hx : old + e.getSize ≤ area.length := hold (old, e) (List.mem_cons_self ..)
    rw [totalSize_cons] at htotal
    rw [List.length_cons] at hcovers
    have hsize : e.getSize ≤ stop := by omega
    rcases h with ⟨hapart, hkey, hvalue, hright⟩
    have hbytes := e.length_bytes
    have hfits : stop - e.getSize + e.bytes.length ≤ area.length := by omega
    have hlength : (overwrite area (stop - e.getSize) e.bytes).length = area.length :=
      length_overwrite hfits
    have hold' : ∀ y ∈ rest, y.1 + y.2.getSize ≤ (overwrite area (stop - e.getSize) e.bytes).length := by
      intro y hy
      rw [hlength]
      exact hold y (List.mem_cons_of_mem _ hy)
    -- the entries stay clear of the header, which the loop reads at every turn
    have hcount' := hcount.congr hlength (window_overwrite_apart hfits (by omega))
    have hcovers' : i + 1 + rest.length = count := by omega
    rcases ih hcount' hcovers' (by omega) (by omega) hold' hright with ⟨out, hrest, hall⟩
    refine ⟨out, ?_, ?_⟩
    · rw [rewriteEntries_cons hsize hstop hx hcount (by omega) hapart, copiedEntry, hkey, hvalue, ← e.bytes_eq, hrest]
      rfl
    · intro y hy
      unfold placed at hy
      rcases List.mem_cons.mp hy with rfl | hy
      · -- the entries behind it in the list are written in front of it
        rcases (rewriteEntries_spec (by omega) hold' hrest).2.2.2 (by rw [List.length_map, length_placed])
          with ⟨-, -, hframe⟩
        have hwritten := window_overwrite hfits
        rw [hbytes] at hwritten
        exact (hframe _ _ (Or.inr (le_refl _))).trans hwritten
      · exact hall y hy

theorem copiesRight_of_rewriteEntries {out : Bytes} {slots : List Nat} (hstop : stop ≤ area.length)
    (hold : ∀ x ∈ rest, x.1 + x.2.getSize ≤ area.length)
    (h : rewriteEntries i stop rest area = .ok (out, slots)) (hcovers : slots.length = rest.length)
    (hall : ∀ x ∈ placed stop rest, window out x.1 x.2.getSize = x.2.bytes) :
    CopiesRight stop area rest := by
  induction rest generalizing i stop area slots with
  | nil => exact trivial
  | cons x rest ih =>
    rcases x with ⟨old, e⟩
    have hx : old + e.getSize ≤ area.length := hold (old, e) (List.mem_cons_self ..)
    rcases rewriteEntries_cons_inv hstop hx h with ⟨rfl, -⟩ | ⟨hsize, hapart, slots', rfl, hrest⟩
    · cases hcovers
    have hcovers' : slots'.length = rest.length := Nat.succ.inj hcovers
    have hkey := length_copiedKey hsize hstop hx
    have hwidth := length_copiedEntry hsize hstop hx
    have hlength := length_copied hsize hstop hx
    have hold' : ∀ y ∈ rest, y.1 + y.2.getSize ≤
        (overwrite area (stop - e.getSize) (copiedEntry area (stop - e.getSize) old e)).length := by
      intro y hy
      rw [hlength]
      exact hold y (List.mem_cons_of_mem _ hy)
    -- later turns write in front of the entry
    rcases (rewriteEntries_spec (by omega) hold' hrest).2.2.2 hcovers' with ⟨-, -, hframe⟩
    have hwritten := @window_overwrite area (copiedEntry area (stop - e.getSize) old e) (stop - e.getSize) (by omega)
    rw [hwidth] at hwritten
    have hhead : window out (stop - e.getSize) e.getSize = e.bytes :=
      hall (stop - e.getSize, e) (List.mem_cons_self ..)
    rw [hframe _ _ (Or.inr (le_refl _)), hwritten, copiedEntry, e.bytes_eq] at hhead
    rcases List.append_inj hhead (by rw [List.length_append, List.length_append, hkey]) with
      ⟨hfront, hvalueEq⟩
    have hkeyEq := List.append_cancel_left hfront
    rw [copiedEntry, hkeyEq, hvalueEq, ← e.bytes_eq] at hrest hold' hlength
    refine ⟨hapart, hkeyEq, hvalueEq, ?_⟩
    exact ih (by omega) hold' hrest hcovers' fun y hy => hall y (List.mem_cons_of_mem _ hy)

theorem CopiesRight.congr {start : Nat} {area area' : Bytes} (hagree : AgreeFrom start area area')
    (hstop : stop ≤ area.length) (htotal : start + totalSize rest ≤ stop)
    (hold : ∀ x ∈ rest, start ≤ x.1 ∧ x.1 + x.2.getSize ≤ area.length)
    (h : CopiesRight stop area rest) : CopiesRight stop area' rest := by
  induction rest generalizing stop area area' with
  | nil => exact trivial
  | cons x rest ih =>
    rcases x with ⟨old, e⟩
    rcases hold (old, e) (List.mem_cons_self ..) with ⟨hstart, hx⟩
    dsimp only at hstart hx
    rw [totalSize_cons] at htotal
    have hsize : e.getSize ≤ stop := by omega
    have hgetSize := e.getSize_eq
    have hlens := e.length_lens
    have hbytes := e.length_bytes
    have hkeyLen := length_copiedKey hsize hstop hx
    -- the key is read behind the lengths, and the value behind the key, in both areas
    have hlensAgree := @AgreeFrom.overwrite start area area' hagree (stop - e.getSize) e.lens (by omega)
      (by omega)
    have hkeySame : copiedKey area' (stop - e.getSize) old e = copiedKey area (stop - e.getSize) old e :=
      (hlensAgree.window (by omega)).symm
    have hkeyAgree := @AgreeFrom.overwrite start area area' hagree (stop - e.getSize)
      (e.lens ++ copiedKey area (stop - e.getSize) old e) (by omega)
      (by rw [List.length_append]; omega)
    have hvalueSame : copiedValue area' (stop - e.getSize) old e =
        copiedValue area (stop - e.getSize) old e := by
      unfold copiedValue
      rw [hkeySame]
      exact (hkeyAgree.window (by omega)).symm
    have hfits : stop - e.getSize + e.bytes.length ≤ area.length := by omega
    have hlength : (overwrite area (stop - e.getSize) e.bytes).length = area.length :=
      length_overwrite hfits
    rcases h with ⟨hapart, hkey, hvalue, hright⟩
    refine ⟨hapart, hkeySame.trans hkey, hvalueSame.trans hvalue, ?_⟩
    apply ih (hagree.overwrite (by omega) hfits) (by omega) (by omega) _ hright
    intro y hy
    rw [hlength]
    exact hold y (List.mem_cons_of_mem _ hy)

end

/-- What is expected of `removeEntry`; without a result the payload is as it was. -/
def RemovesEntry (payload key : Bytes) : Prop :=
  ∃ result entries, removeEntry payload key = .ok result ∧ validate (result.getD payload) = .ok () ∧
    contents payload = .ok entries ∧
    contents (result.getD payload) = .ok (entries.filter fun e => e.key ≠ key)

def others (key : Bytes) (es : List (Nat × BtreeLeafEntry)) : List (Nat × BtreeLeafEntry) :=
  es.filter fun e => e.2.key ≠ key

/-- The key is not there; or nothing else is; or the entries that remain can be laid out behind the slot
array, and each of them is read right from an area of zeros and of the entries before it. -/
def Removable (payloadLen : Nat) (es : List (Nat × BtreeLeafEntry)) (key : Bytes) : Prop :=
  (∀ e ∈ es, e.2.key ≠ key) ∨ others key es = [] ∨
    (payloadLen < 2 ^ 16 ∧
      48 + (others key es).length * 2 + totalSize (others key es) ≤ payloadLen ∧
      CopiesRight payloadLen (List.replicate payloadLen 0) (others key es))

theorem filter_contents (key : Bytes) (es : List (Nat × BtreeLeafEntry)) :
    (es.map Prod.snd).filter (fun e => e.key ≠ key) = (others key es).map Prod.snd := by
  unfold others
  rw [List.filter_map]
  rfl

theorem others_of_absent {es : List (Nat × BtreeLeafEntry)}
    (habsent : ∀ e ∈ es, e.2.key ≠ key) : others key es = es :=
  List.filter_eq_self.mpr fun e he => decide_eq_true (habsent e he)

/-- The payload with zeros from `start` on. -/
def cleared (payload : Bytes) (start : Nat) : Bytes :=
  payload.take start ++ List.replicate (payload.length - start) 0

theorem exists_placed {stop : Nat} {rest : List (Nat × BtreeLeafEntry)} (hne : rest ≠ []) :
    ∃ x ∈ placed stop rest, x.1 = stop - totalSize rest := by
  induction rest generalizing stop with
  | nil => exact absurd rfl hne
  | cons y rest ih =>
    rcases y with ⟨old, e⟩
    rw [totalSize_cons]
    by_cases hlast : rest = []
    · refine ⟨(stop - e.getSize, e), List.mem_cons_self .., ?_⟩
      rw [hlast]
      rfl
    · rcases @ih (stop - e.getSize) hlast with ⟨x, hx, heq⟩
      refine ⟨x, List.mem_cons_of_mem _ hx, ?_⟩
      omega

namespace Lays

variable {payload : Bytes} {es : List (Nat × BtreeLeafEntry)} (h : Lays payload es)

include h

theorem others_eq {x : Nat × BtreeLeafEntry} {pre suf : List (Nat × BtreeLeafEntry)}
    (hes : es = pre ++ x :: suf) : others x.2.key es = pre ++ suf := by
  have hsorted := h.sorted
  rw [hes] at hsorted
  rcases sorted_around hsorted with ⟨hpre, hsuf⟩
  unfold others
  rw [hes, List.filter_append, List.filter_cons,
    List.filter_eq_self.mpr fun e he => decide_eq_true (hpre e he).ne,
    List.filter_eq_self.mpr fun e he => decide_eq_true (hsuf e he).ne',
    if_neg (by rw [decide_eq_true_eq]; exact fun hne => hne rfl)]

theorem length_cleared : (cleared payload (48 + es.length * 2)).length = payload.length := by
  have hroom := h.room
  unfold cleared
  rw [List.length_append, List.length_take, List.length_replicate]
  omega

theorem window_cleared {off : Nat} (hoff : off + len ≤ 48 + es.length * 2) :
    window (cleared payload (48 + es.length * 2)) off len = window payload off len := by
  have hroom := h.room
  have hfront : (payload.take (48 + es.length * 2)).length = 48 + es.length * 2 := by
    rw [List.length_take]
    omega
  have hsplit := @window_append_left (payload.take (48 + es.length * 2))
    (payload.drop (48 + es.length * 2)) off len (by omega)
  unfold cleared
  rw [window_append_left (by omega), ← hsplit, List.take_append_drop]

theorem agreeFrom_cleared : AgreeFrom (48 + es.length * 2) (List.replicate payload.length 0)
      (cleared payload (48 + es.length * 2)) := by
  have hroom := h.room
  constructor
  · rw [h.length_cleared, List.length_replicate]
  · have hfront : (payload.take (48 + es.length * 2)).length = 48 + es.length * 2 := by
      rw [List.length_take]
      omega
    unfold cleared
    rw [List.drop_replicate, List.drop_left' hfront]

theorem compactEntryDataArea_eq (hne : es ≠ []) :
    compactEntryDataArea payload = (do
      let stop ← intCast 16 payload.length
      let r ← rewriteEntries 0 stop es (cleared payload (48 + es.length * 2))
      let node ← BtreeNodeHeader.read r.1
      writeSlotArray r.1 (r.2.take node.keyCount)) := by
  rcases h.read with ⟨rightSibling, hread⟩
  have hpos := List.length_pos_iff.mpr hne
  have hlast := h.inside _ (List.getElem_mem (by omega : es.length - 1 < es.length))
  have hsix := (es[es.length - 1]).2.six_le_getSize
  have hcollect : ∀ f : Nat × Nat → Except PagerError (Nat × BtreeLeafEntry),
      (∀ i e, es[i]? = some e → f (e.1, i) = .ok e) → (es.map Prod.fst).zipIdx.mapM f = .ok es := by
    intro f hf
    rw [Except.mapM_eq_ok_iff, List.forall₂_iff_get]
    refine ⟨by rw [List.length_zipIdx, List.length_map], ?_⟩
    intro i hi hi'
    rw [List.get_eq_getElem, List.get_eq_getElem, List.getElem_zipIdx, List.getElem_map, Nat.zero_add]
    exact hf i _ (List.getElem?_eq_getElem hi')
  have hlength := h.length_cleared
  unfold cleared at hlength ⊢
  unfold compactEntryDataArea BtreeNodeHeader.size getSlotArraySize
  rw [hread, Except.ok_bind]
  dsimp only
  rw [if_neg (by omega), h.getSlotArrayMut_eq h.few (by omega), Except.ok_bind,
    hcollect _ fun i e he => by rw [h.getEntry_eq he], Except.ok_bind, hlength]

theorem sorted_placed (stop : Nat) : Sorted slotKey (placed stop es) := by
  have hkeys : (placed stop es).map slotKey = es.map slotKey := by
    have hsnd := congrArg (List.map BtreeLeafEntry.key) (@map_snd_placed stop es)
    rwa [List.map_map, List.map_map] at hsnd
  have hsorted : (es.map slotKey).Pairwise (· < ·) := List.pairwise_map.mpr h.sorted
  rw [← hkeys] at hsorted
  exact List.pairwise_map.mp hsorted

theorem fits_placed {stop : Nat} {x : Nat × BtreeLeafEntry} (hx : x ∈ placed stop es) : x.2.Fits := by
  have hmem : x.2 ∈ es.map Prod.snd := by
    rw [← @map_snd_placed stop es]
    exact List.mem_map_of_mem hx
  rcases List.mem_map.mp hmem with ⟨y, hy, heq⟩
  rw [← heq]
  exact (h.fits y hy).2

/-- A compaction that keeps the entries has taken a turn for each of them. -/
theorem lays_of_compact (hne : es ≠ []) (h' : compactEntryDataArea payload = .ok out)
    (hvalid : validate out = .ok ()) (hcontents : contents out = .ok (es.map Prod.snd)) :
    payload.length < 2 ^ 16 ∧ ∃ written, Lays out (placed payload.length es) ∧
      rewriteEntries 0 payload.length es (cleared payload (48 + es.length * 2)) =
        .ok (written, (placed payload.length es).map Prod.fst) ∧
      out.length = payload.length ∧ totalSize es ≤ payload.length ∧
      ∀ off len, 48 + es.length * 2 ≤ off → window out off len = window written off len := by
  rw [h.compactEntryDataArea_eq hne] at h'
  rcases Except.bind_eq_ok_iff.mp h' with ⟨stop, hcast, h'⟩
  rcases Except.bind_eq_ok_iff.mp h' with ⟨⟨written, slots⟩, hrewrite, h'⟩
  rcases Except.bind_eq_ok_iff.mp h' with ⟨node, hread, hwrite⟩
  unfold intCast at hcast
  by_cases hsmall : payload.length < 2 ^ 16
  · rw [if_pos hsmall] at hcast
    cases hcast
    have hlength := h.length_cleared
    have hroom := h.room
    have hold : ∀ x ∈ es, x.1 + x.2.getSize ≤ (cleared payload (48 + es.length * 2)).length := by
      rw [hlength]
      exact fun x hx => (h.inside x hx).2
    rcases exists_lays hvalid with ⟨es', hlays, -⟩
    have hsnd : es'.map Prod.snd = es.map Prod.snd := by
      rw [hlays.contents_eq] at hcontents
      exact Except.ok.inj hcontents
    have hcount : es'.length = es.length := by
      rw [← List.length_map (f := Prod.snd), hsnd, List.length_map]
    rcases rewriteEntries_spec (by omega) hold hrewrite with ⟨hwrittenLen, hslotsLe, ⟨count, hcountLe, hends⟩, hspec⟩
    rcases hends with ⟨node', hread', rfl⟩
    have hsameNode := hread.symm.trans hread'
    cases hsameNode
    have htake := List.length_take_le node.keyCount slots
    have hslotRoom : 48 + (slots.take node.keyCount).length * 2 ≤ written.length := by omega
    rcases writeSlotArray_spec hslotRoom with ⟨out', hwrite', houtLen, hslots, hapart⟩
    have hsame := hwrite'.symm.trans hwrite
    cases hsame
    -- the count is in front of the slots, and is the number of the entries
    have hnode : node.keyCount = es'.length := by
      rcases hlays.read with ⟨rightSibling, hreadOut⟩
      have hcounts := Counts.congr ⟨node, hread, rfl⟩ houtLen (hapart 0 48 (.inl (Nat.le_refl _)))
      rcases hcounts with ⟨nodeOut, hreadOut', heq⟩
      cases hreadOut.symm.trans hreadOut'
      exact heq.symm
    have hcovers : slots.length = es.length := by omega
    rcases hspec hcovers with ⟨htotal, rfl, -⟩
    rw [List.take_of_length_le (by omega)] at hslots hapart
    rw [hcovers] at hapart
    have hplaced : es' = placed payload.length es := by
      apply hlays.eq_of_slots (hsnd.trans map_snd_placed.symm) (fun x hx => ?_) hslots
      have hbound := placed_bounds htotal x hx
      have hsix := x.2.six_le_getSize
      omega
    rw [hplaced] at hlays
    exact ⟨hsmall, written, hlays, hrewrite, by omega, htotal, fun off len hoff =>
      hapart off len (Or.inr hoff)⟩
  · rw [if_neg hsmall] at hcast
    cases hcast

theorem fits_of_compact (hne : es ≠ []) (h' : compactEntryDataArea payload = .ok out)
    (hvalid : validate out = .ok ()) (hcontents : contents out = .ok (es.map Prod.snd)) :
    payload.length < 2 ^ 16 ∧ 48 + es.length * 2 + totalSize es ≤ payload.length ∧
      CopiesRight payload.length (List.replicate payload.length 0) es := by
  rcases h.lays_of_compact hne h' hvalid hcontents with
    ⟨hsmall, written, hlays, hrewrite, hlength, htotal, hsame⟩
  have hcleared := h.length_cleared
  have hinside : ∀ x ∈ placed payload.length es, 48 + es.length * 2 ≤ x.1 := by
    intro x hx
    have hx' := (hlays.inside x hx).1
    rwa [length_placed] at hx'
  have hroom : 48 + es.length * 2 + totalSize es ≤ payload.length := by
    rcases @exists_placed payload.length es hne with ⟨x, hx, hfirst⟩
    have hx' := hinside x hx
    omega
  have hright := @copiesRight_of_rewriteEntries 0 payload.length es
    (cleared payload (48 + es.length * 2)) written _ (by omega)
    (fun x hx => by rw [hcleared]; exact (h.inside x hx).2) hrewrite (by rw [List.length_map, length_placed])
    (fun x hx => by
      rw [← hsame _ _ (hinside x hx)]
      exact hlays.entries x hx)
  have hagree := h.agreeFrom_cleared
  refine ⟨hsmall, hroom, ?_⟩
  apply hright.congr ⟨hagree.1.symm, hagree.2.symm⟩ (by omega) hroom
  rw [hcleared]
  exact h.inside

theorem compact_of_copiesRight (hsmall : payload.length < 2 ^ 16)
    (hroom : 48 + es.length * 2 + totalSize es ≤ payload.length)
    (hright : CopiesRight payload.length (List.replicate payload.length 0) es) (hne : es ≠ []) :
    ∃ out, compactEntryDataArea payload = .ok out ∧ Lays out (placed payload.length es) := by
  have hcleared := h.length_cleared
  have hold : ∀ x ∈ es, x.1 + x.2.getSize ≤ (cleared payload (48 + es.length * 2)).length := by
    rw [hcleared]
    exact fun x hx => (h.inside x hx).2
  have hright' : CopiesRight payload.length (cleared payload (48 + es.length * 2)) es := by
    apply hright.congr h.agreeFrom_cleared (by rw [List.length_replicate]) hroom
    rw [List.length_replicate]
    exact h.inside
  have hcounts : Counts (cleared payload (48 + es.length * 2)) es.length := by
    rcases h.read with ⟨rightSibling, hread⟩
    exact Counts.congr ⟨_, hread, rfl⟩ hcleared (h.window_cleared (by omega))
  rcases rewriteEntries_of_copiesRight hcounts (Nat.zero_add _) (by omega) (by omega) hold hright' with
    ⟨written, hrewrite, hentries⟩
  rcases rewriteEntries_spec (by omega) hold hrewrite with ⟨hwrittenLen, -, -, hspec⟩
  rcases hspec (by rw [List.length_map, length_placed]) with ⟨-, -, hframe⟩
  rcases hcounts.congr hwrittenLen (hframe 0 48 (.inl (by omega))) with ⟨node, hread, hnode⟩
  have hcount : ((placed payload.length es).map Prod.fst).length = es.length := by
    rw [List.length_map, length_placed]
  rcases @writeSlotArray_spec written ((placed payload.length es).map Prod.fst) (by omega) with
    ⟨out, hwrite, houtLen, hslots, hapart⟩
  have hbounds := placed_bounds (show totalSize es ≤ payload.length by omega)
  rw [hcount] at hapart
  -- neither the entries nor the slots reach into the header
  have hfront : ∀ off len, off + len ≤ 48 → window out off len = window payload off len := by
    intro off len hoff
    rw [hapart off len (Or.inl hoff), hframe off len (Or.inl (by omega)),
      h.window_cleared (by omega)]
  refine ⟨out, ?_, ?_⟩
  · have hcast : intCast 16 payload.length = .ok payload.length := if_pos hsmall
    rw [h.compactEntryDataArea_eq hne, hcast, Except.ok_bind, hrewrite, Except.ok_bind]
    dsimp only
    rw [hread, Except.ok_bind, List.take_of_length_le (by omega)]
    exact hwrite
  · exact {
      room := by
        rw [length_placed]
        omega
      magic := (hfront 8 4 (by decide)).trans h.magic
      level := (hfront 12 2 (by decide)).trans h.level
      count := by
        rw [length_placed]
        exact (hfront 14 2 (by decide)).trans h.count
      few := by
        rw [length_placed]
        exact h.few
      slots := by
        intro i x hx
        apply hslots
        rw [List.getElem?_map, hx]
        rfl
      entries := by
        intro x hx
        have hx' := (hbounds x hx).1
        rw [hapart _ _ (Or.inr (by omega))]
        exact hentries x hx
      inside := by
        intro x hx
        have hx' := hbounds x hx
        rw [length_placed]
        omega
      fits := by
        intro x hx
        have hx' := hbounds x hx
        have hsix := x.2.six_le_getSize
        exact ⟨by omega, h.fits_placed hx⟩
      sorted := h.sorted_placed payload.length }

theorem removesEntry_iff (hvalid : validate payload = .ok ()) (key : Bytes) :
    RemovesEntry payload key ↔ Removable payload.length es key := by
  by_cases habsent : ∀ e ∈ es, e.2.key ≠ key
  · have hnone := h.removeEntry_eq_none habsent
    constructor
    · exact fun _ => Or.inl habsent
    · intro _
      refine ⟨none, es.map Prod.snd, hnone, hvalid, h.contents_eq, ?_⟩
      rw [filter_contents, others_of_absent habsent]
      exact h.contents_eq
  · have hpresent : ∃ x ∈ es, x.2.key = key := by
      by_contra hnot
      exact habsent fun e he hkey => hnot ⟨e, he, hkey⟩
    rcases hpresent with ⟨x, hx, rfl⟩
    rcases List.append_of_mem hx with ⟨pre, suf, hes⟩
    have hothers := h.others_eq hes
    -- without its slot the leaf lays out the others, and is then compacted
    rcases h.removeEntry_eq_compact hes with ⟨unlinked, hlength, hlays, hremove⟩
    rw [← hothers] at hlays
    constructor
    · rintro ⟨result, entries, hresult, hout, hentries, hcontents⟩
      by_cases hnil : others x.2.key es = []
      · exact Or.inr (Or.inl hnil)
      · rw [h.contents_eq] at hentries
        cases hentries
        rw [filter_contents] at hcontents
        rw [hremove] at hresult
        cases hcompact : compactEntryDataArea unlinked with
        | error e =>
          rw [hcompact] at hresult
          cases hresult
        | ok out =>
          rw [hcompact] at hresult
          cases hresult
          have hfits := hlays.fits_of_compact hnil hcompact hout hcontents
          rw [hlength] at hfits
          exact Or.inr (Or.inr hfits)
    · intro hcond
      have hdone : ∀ out es', compactEntryDataArea unlinked = .ok out → Lays out es' →
          (∀ e ∈ es', e.1 + 6 < 2 ^ 16) → es'.map Prod.snd = (others x.2.key es).map Prod.snd →
            RemovesEntry payload x.2.key := by
        intro out es' hcompact hout hsums hsame
        refine ⟨some out, es.map Prod.snd, ?_, hout.validate_eq hsums, h.contents_eq, ?_⟩
        · rw [hremove, hcompact]
          rfl
        · rw [filter_contents, ← hsame]
          exact hout.contents_eq
      by_cases hnil : others x.2.key es = []
      · apply hdone unlinked _ (hlays.compactEntryDataArea_nil hnil) hlays ?_ rfl
        rw [hnil]
        exact fun e he => absurd he List.not_mem_nil
      · rcases hcond with habsent' | hnil' | ⟨hsmall, hroom, hright⟩
        · exact absurd habsent' habsent
        · exact absurd hnil' hnil
        · rw [← hlength] at hsmall hroom hright
          rcases hlays.compact_of_copiesRight hsmall hroom hright hnil with ⟨out, hcompact, hout⟩
          apply hdone out _ hcompact hout ?_ map_snd_placed
          intro e he
          have hbound := placed_bounds (by omega) e he
          have hsix := e.2.six_le_getSize
          omega

end Lays

/-- **Edits of a leaf.**  In a leaf that `validate` accepts, an addition and a removal do what they are
for exactly if the entry is addable, and the key removable. -/
theorem leaf_edits_iff {payload : Bytes} (hvalid : validate payload = .ok ()) :
    ∃ es, Lays payload es ∧ ∀ key value,
      (AddsEntry payload key value ↔ Addable payload.length es ⟨key, value⟩) ∧
        (RemovesEntry payload key ↔ Removable payload.length es key) := by
  rcases exists_lays hvalid with ⟨es, hlays, -⟩
  exact ⟨es, hlays, fun key value =>
    ⟨hlays.addsEntry_iff hvalid ⟨key, value⟩, hlays.removesEntry_iff hvalid key⟩⟩

/-- A leaf to which key 1 has been added. -/
def oneEntry : Bytes := leafWith [72] (List.replicate 22 0 ++ BtreeLeafEntry.bytes ⟨[1], [9]⟩)

/-- The leaf after key 2 has been added to it. -/
def twoEntries : Bytes :=
  leafWith [72, 64] (List.replicate 12 0 ++ BtreeLeafEntry.bytes ⟨[2], [8]⟩ ++
    BtreeLeafEntry.bytes ⟨[1], [9]⟩)

/-- Key 2 is added, and without key 1 only zeros have to be copied. -/
theorem leaf_edits_of_three_entries : AddsEntry threeEntries [2] [7] ∧ RemovesEntry threeEntries [1] := by
  rcases leaf_edits_iff (show validate threeEntries = .ok () by decide) with ⟨es, hlays, hiff⟩
  have hcontents : contents threeEntries = .ok [⟨[], []⟩, ⟨[0], [0]⟩, ⟨[1], [9]⟩] := by decide
  rw [hlays.contents_eq] at hcontents
  have hes : es = [(74, ⟨[], []⟩), (80, ⟨[0], [0]⟩), (88, ⟨[1], [9]⟩)] := by
    apply hlays.eq_of_slots (Except.ok.inj hcontents) (by decide)
    intro i slot hslot
    rcases i with _ | _ | _ | i <;> cases hslot <;> decide
  subst hes
  rcases hiff [2] [7] with ⟨hadd, -⟩
  rcases hiff [1] [7] with ⟨-, hremove⟩
  constructor
  · exact hadd.mpr (Or.inr (Or.inl ⟨by decide, by decide, Or.inr (by decide)⟩))
  · exact hremove.mpr (Or.inr (Or.inr ⟨by decide, by decide, by decide, by decide, by decide, by decide,
      by decide, by decide, trivial⟩))

/-- Key 1 is added a second time, and then the leaf is not accepted.  With key 1 removed, the entry of
key 2 has a key and a value of zeros. -/
theorem edits_break_leaf : validate oneEntry = .ok () ∧ contents oneEntry = .ok [⟨[1], [9]⟩] ∧
      (addEntry oneEntry [1] [7]).bind validate = .error .keysNotSorted ∧
      ¬ AddsEntry oneEntry [1] [7] ∧
      addEntry oneEntry [2] [8] = .ok twoEntries ∧ validate twoEntries = .ok () ∧
      contents twoEntries = .ok [⟨[1], [9]⟩, ⟨[2], [8]⟩] ∧
      ((removeEntry twoEntries [1]).bind fun result => contents (result.getD twoEntries)) =
        .ok [⟨[0], [0]⟩] ∧
      ¬ RemovesEntry twoEntries [1] := by
  have hadd : (addEntry oneEntry [1] [7]).bind validate = .error .keysNotSorted := by decide
  have hremove : ((removeEntry twoEntries [1]).bind fun result => contents (result.getD twoEntries)) =
      .ok [⟨[0], [0]⟩] := by decide
  refine ⟨by decide, by decide, hadd, ?_, by decide, by decide, by decide, hremove, ?_⟩
  · rintro (⟨hfull, -⟩ | ⟨out, entries, hout, hvalid, -⟩)
    · rw [hfull] at hadd
      cases hadd
    · rw [hout] at hadd
      exact absurd (hadd.symm.trans hvalid) (by decide)
  · rintro ⟨result, entries, hresult, -, hentries, hcontents⟩
    rw [hresult] at hremove
    have hbefore : contents twoEntries = .ok [⟨[1], [9]⟩, ⟨[2], [8]⟩] := by decide
    rw [hbefore] at hentries
    cases hentries
    exact absurd (hremove.symm.trans hcontents) (by decide)

end BtreeLeafPayload

end Northstar.Zig
