import Northstar.Lib.SortedEntries
import Northstar.Zig.Node

/-!
# Slots — the entries of a leaf payload

A leaf payload stands for its entries, each with the offset at which its bytes lie, in the order of the
slots.  The entries are sorted by key and the keys differ; then the bisection finds what is there, and
adding an entry that fits adds it to the list.  Payloads may have any length here.
-/

namespace Northstar.Zig

open Bytes SortedEntries

variable {offset start : Nat}

variable {data bytes : Bytes} {bufferLen : Nat} {slots : List Nat}

theorem store_spec (h : offset + bytes.length ≤ data.length) :
    ∃ out, store data offset bytes = .ok out ∧ out.length = data.length ∧
      window out offset bytes.length = bytes ∧
      ∀ off len, off + len ≤ offset ∨ offset + bytes.length ≤ off →
        window out off len = window data off len := by
  have hwrite : writeAt data offset bytes =
      some (data.take offset ++ bytes ++ data.drop (offset + bytes.length)) := by
    unfold writeAt
    rw [if_pos h]
  refine ⟨_, ?_, writeAt_length hwrite, window_writeAt hwrite,
    fun off len => window_writeAt_apart hwrite⟩
  unfold store
  rw [hwrite]

theorem slice_of_le {stop : Nat} (h : start ≤ stop) (h' : stop ≤ data.length) :
    slice data start stop = .ok (window data start (stop - start)) := by
  unfold slice
  rw [if_pos ⟨h, h'⟩]

theorem slice_inv {stop : Nat} (h : slice data start stop = .ok bytes) :
    stop ≤ data.length ∧ bytes = window data start (stop - start) := by
  unfold slice at h
  by_cases hbounds : start ≤ stop ∧ stop ≤ data.length
  · rw [if_pos hbounds] at h
    cases h
    exact ⟨hbounds.2, rfl⟩
  · rw [if_neg hbounds] at h
    cases h

theorem slice_whole (data : Bytes) : slice data 0 data.length = .ok data := by
  rw [slice_of_le (Nat.zero_le _) (Nat.le_refl _), Nat.sub_zero, window_zero_length rfl]

namespace BtreeLeafEntry

/-- The lengths can be added up in the widths of `fromBytes`. -/
def Fits (e : BtreeLeafEntry) : Prop := 2 + 4 + e.key.length < 2 ^ 16 ∧ e.getSize < 2 ^ 32

instance (e : BtreeLeafEntry) : Decidable e.Fits := by
  unfold Fits
  infer_instance

theorem fits_of_getSize_lt {e : BtreeLeafEntry} (h : e.getSize < 2 ^ 16) : e.Fits := by
  unfold getSize at h
  unfold Fits getSize
  omega

theorem length_bytes (e : BtreeLeafEntry) : e.bytes.length = e.getSize := by
  unfold bytes getSize
  simp only [List.length_append, length_le]

theorem six_le_getSize (e : BtreeLeafEntry) : 6 ≤ e.getSize := by
  unfold getSize
  omega

end BtreeLeafEntry

namespace BtreeLeafPayload

abbrev slotKey (e : Nat × BtreeLeafEntry) : Bytes := e.2.key

/-- A payload of any length with the given entries. -/
structure Lays (payload : Bytes) (es : List (Nat × BtreeLeafEntry)) : Prop where
  room : 48 + es.length * 2 ≤ payload.length
  magic : window payload 8 4 = u32 0x42545245
  level : window payload 12 2 = le 2 0
  count : window payload 14 2 = le 2 es.length
  few : es.length ≤ maxKeysPerLeaf
  slots : ∀ i e, es[i]? = some e → window payload (48 + i * 2) 2 = le 2 e.1
  entries : ∀ e ∈ es, window payload e.1 e.2.getSize = e.2.bytes
  inside : ∀ e ∈ es, 48 + es.length * 2 ≤ e.1 ∧ e.1 + e.2.getSize ≤ payload.length
  fits : ∀ e ∈ es, e.1 < 2 ^ 16 ∧ e.2.Fits
  sorted : Sorted slotKey es

/-- Where the entries start, in a payload of the given length. -/
def firstOffset (payloadLen : Nat) (es : List (Nat × BtreeLeafEntry)) : Nat :=
  (es.map Prod.fst).foldl min payloadLen

variable {entry : BtreeLeafEntry} {i : Nat} {key : Bytes}

namespace Lays

variable {payload : Bytes} {es : List (Nat × BtreeLeafEntry)} (h : Lays payload es)

include h

theorem few' : es.length ≤ 200 := h.few

theorem read : ∃ rightSibling, BtreeNodeHeader.read payload =
    .ok { level := 0, keyCount := es.length, rightSibling } := by
  have hroom := h.room
  have hslice : slice payload 0 BtreeNodeHeader.size = .ok (window payload 0 48) := by
    apply slice_of_le (Nat.zero_le _)
    show 48 ≤ payload.length
    omega
  have hfew := h.few'
  unfold BtreeNodeHeader.read
  rw [hslice, Except.ok_bind, window_window (by decide), window_window (by decide),
    window_window (by decide), Nat.zero_add, Nat.zero_add, Nat.zero_add, h.magic, h.level, h.count,
    readU32_u32, readU16_le (by decide), readU16_le (by omega)]
  exact ⟨_, rfl⟩

theorem readSlots_eq {len : Nat} (hlen : es.length * 2 ≤ len) :
    readSlots (window payload 48 len) es.length = es.map Prod.fst := by
  unfold readSlots
  apply List.ext_getElem
  · rw [List.length_map, List.length_range, List.length_map]
  · intro i hi hi'
    rw [List.length_map] at hi'
    have hget : es[i]? = some es[i] := List.getElem?_eq_getElem hi'
    have hfits := (h.fits _ (List.getElem_mem hi')).1
    rw [List.getElem_map, List.getElem_map, List.getElem_range, window_window (by omega),
      h.slots i _ hget, readU16_le (by omega)]

theorem getSlotArray_eq (hbuffer : es.length ≤ bufferLen) :
    getSlotArray payload bufferLen = .ok (es.map Prod.fst) := by
  rcases h.read with ⟨rightSibling, hread⟩
  have hroom := h.room
  have hslice : slice payload BtreeNodeHeader.size (BtreeNodeHeader.size + getSlotArraySize es.length) =
      .ok (window payload 48 (es.length * 2)) := by
    unfold BtreeNodeHeader.size getSlotArraySize
    rw [slice_of_le (by omega) (by omega), Nat.add_sub_cancel_left]
  unfold getSlotArray
  rw [hread, Except.ok_bind, hslice, Except.ok_bind, Nat.min_eq_left hbuffer,
    h.readSlots_eq (Nat.le_refl _)]
  rfl

theorem getSlotArrayMut_eq (hbuffer : es.length ≤ bufferLen)
    (hmore : 48 + (es.length + 1) * 2 ≤ payload.length) :
    getSlotArrayMut payload bufferLen = .ok (es.map Prod.fst) := by
  rcases h.read with ⟨rightSibling, hread⟩
  have hslice : slice payload BtreeNodeHeader.size
      (BtreeNodeHeader.size + getSlotArraySize (es.length + 1)) =
      .ok (window payload 48 ((es.length + 1) * 2)) := by
    unfold BtreeNodeHeader.size getSlotArraySize
    rw [slice_of_le (by omega) (by omega), Nat.add_sub_cancel_left]
  unfold getSlotArrayMut
  rw [hread, Except.ok_bind, hslice, Except.ok_bind]
  dsimp only
  rw [if_neg (by omega), h.readSlots_eq (by omega)]
  rfl

omit h in
theorem fromBytes_of_window
    (hbytes : window payload offset entry.getSize = entry.bytes)
    (hroom : offset + entry.getSize ≤ payload.length) (hfits : entry.Fits) :
    BtreeLeafEntry.fromBytes (payload.drop offset) = .ok entry := by
  rcases hfits with ⟨hkeyFits, hsizeFits⟩
  have hsize : entry.getSize = 2 + (4 + (entry.key.length + entry.value.length)) := by
    unfold BtreeLeafEntry.getSize
    omega
  have hread : ∀ a b, a + b ≤ entry.getSize →
      window (payload.drop offset) a b = window entry.bytes a b := by
    intro a b hab
    rw [window_drop, ← hbytes, window_window hab]
  have hkeyLen : window entry.bytes 0 2 = le 2 entry.key.length := by
    unfold BtreeLeafEntry.bytes
    rw [List.append_assoc, List.append_assoc, window_head (length_le _ _)]
  have hvalLen : window entry.bytes 2 4 = le 4 entry.value.length := by
    unfold BtreeLeafEntry.bytes
    rw [List.append_assoc, List.append_assoc, window_append_middle (length_le _ _) (length_le _ _)]
  have hkey : window entry.bytes 6 entry.key.length = entry.key := by
    unfold BtreeLeafEntry.bytes
    rw [List.append_assoc, window_append_middle _ rfl]
    rw [List.length_append, length_le, length_le]
  have hvalue : window entry.bytes (6 + entry.key.length) entry.value.length = entry.value := by
    have hfront : (le 2 entry.key.length ++ le 4 entry.value.length ++ entry.key).length =
        6 + entry.key.length := by
      rw [List.length_append, List.length_append, length_le, length_le]
    unfold BtreeLeafEntry.bytes
    rw [window_append_right (by omega), hfront, Nat.sub_self, window_zero_length rfl]
  have hdrop : (payload.drop offset).length = payload.length - offset := List.length_drop
  unfold BtreeLeafEntry.fromBytes
  rw [if_neg (by omega), hread 0 2 (by omega), hread 2 4 (by omega), hkeyLen, hvalLen,
    readU16_le (by omega), readU32_le (by omega)]
  dsimp only
  rw [if_neg (by omega), if_neg (by omega), hread 6 _ (by omega), hread (6 + entry.key.length) _ (by omega),
    hkey, hvalue]

variable {e : Nat × BtreeLeafEntry}

theorem fromBytes_eq (he : e ∈ es) : BtreeLeafEntry.fromBytes (payload.drop e.1) = .ok e.2 := by
  have hinside := h.inside e he
  exact fromBytes_of_window (h.entries e he) hinside.2 (h.fits e he).2

theorem getEntryWithSlots_eq (he : es[i]? = some e) :
    getEntryWithSlots payload i (es.map Prod.fst) = .ok e.2 := by
  rcases h.read with ⟨rightSibling, hread⟩
  have hi : i < es.length := (List.getElem?_eq_some_iff.mp he).1
  have hmem : e ∈ es := List.mem_of_getElem? he
  have hinside := h.inside e hmem
  have hsize : 0 < e.2.getSize := by
    unfold BtreeLeafEntry.getSize
    omega
  unfold getEntryWithSlots
  rw [hread, Except.ok_bind]
  dsimp only
  rw [if_neg (by omega), List.getElem?_map, he, Option.map_some]
  dsimp only
  unfold BtreeNodeHeader.size getSlotArraySize
  rw [if_neg (by omega), h.fromBytes_eq hmem]

theorem getEntry_eq (he : es[i]? = some e) : getEntry payload i = .ok e.2 := by
  rcases h.read with ⟨rightSibling, hread⟩
  have hi : i < es.length := (List.getElem?_eq_some_iff.mp he).1
  unfold getEntry
  rw [hread, Except.ok_bind]
  dsimp only
  rw [if_neg (by omega), h.getSlotArray_eq (Nat.le_succ_of_le h.few), Except.ok_bind,
    h.getEntryWithSlots_eq he]

theorem key_lt {j : Nat} {e' : Nat × BtreeLeafEntry} (he : es[i]? = some e) (he' : es[j]? = some e')
    (hij : i < j) : e.2.key < e'.2.key := by
  rcases List.getElem?_eq_some_iff.mp he with ⟨hi, rfl⟩
  rcases List.getElem?_eq_some_iff.mp he' with ⟨hj, rfl⟩
  exact List.pairwise_iff_getElem.mp h.sorted i j hi hj hij

omit h in
theorem absent_of_bounds {left right : Nat} (hempty : right ≤ left)
    (hsmaller : ∀ i e, es[i]? = some e → i < left → e.2.key < key)
    (hlarger : ∀ i e, es[i]? = some e → right ≤ i → key < e.2.key) : ∀ e ∈ es, e.2.key ≠ key := by
  intro e he
  rcases List.getElem?_of_mem he with ⟨i, hi⟩
  by_cases hlt : i < left
  · exact (hsmaller i e hi hlt).ne
  · exact (hlarger i e hi (by omega)).ne'

/-- The bisection between `left` and `right`: entries in front of `left` are smaller, entries from
`right` on are larger. -/
theorem searchKey_cases {key : Bytes} {fuel left right : Nat} (hright : right ≤ es.length)
    (hfuel : right - left ≤ fuel) (hsmaller : ∀ i e, es[i]? = some e → i < left → e.2.key < key)
    (hlarger : ∀ i e, es[i]? = some e → right ≤ i → key < e.2.key) :
    (∃ i e, es[i]? = some e ∧ e.2.key = key ∧
      searchKey payload (es.map Prod.fst) key fuel left right = .ok (some i)) ∨
    ((∀ e ∈ es, e.2.key ≠ key) ∧
      searchKey payload (es.map Prod.fst) key fuel left right = .ok none) := by
  -- the slots in front of `left` are smaller, those from `right` on are larger
  induction fuel generalizing left right with
  | zero => exact .inr ⟨absent_of_bounds (by omega) hsmaller hlarger, rfl⟩
  | succ fuel ih =>
    unfold searchKey
    by_cases hopen : left < right
    · rw [if_pos hopen]
      dsimp only
      generalize hmid : left + (right - left) / 2 = mid
      have hget : es[mid]? = some es[mid] := List.getElem?_eq_getElem (by omega)
      rw [h.getEntryWithSlots_eq hget]
      dsimp only
      generalize es[mid] = e at hget
      by_cases heq : key = e.2.key
      · rw [if_pos heq]
        exact .inl ⟨mid, e, hget, heq.symm, rfl⟩
      · rw [if_neg heq]
        by_cases hlt : key < e.2.key
        · rw [if_pos hlt]
          have hlarger' : ∀ i e, es[i]? = some e → mid ≤ i → key < e.2.key := by
            intro i e' he' hi
            rcases Nat.eq_or_lt_of_le hi with rfl | hi
            · rw [hget] at he'
              cases he'
              exact hlt
            · exact hlt.trans (h.key_lt hget he' hi)
          exact ih (by omega) (by omega) hsmaller hlarger'
        · rw [if_neg hlt]
          have hgt : e.2.key < key := lt_of_le_of_ne (not_lt.mp hlt) (Ne.symm heq)
          have hsmaller' : ∀ i e, es[i]? = some e → i < mid + 1 → e.2.key < key := by
            intro i e' he' hi
            rcases Nat.eq_or_lt_of_le (Nat.lt_succ_iff.mp hi) with rfl | hi
            · rw [hget] at he'
              cases he'
              exact hgt
            · exact (h.key_lt he' hget hi).trans hgt
          exact ih hright (by omega) hsmaller' hlarger
    · rw [if_neg hopen]
      exact .inr ⟨absent_of_bounds (by omega) hsmaller hlarger, rfl⟩

theorem getValue_eq (key : Bytes) :
    getValue payload key = .ok ((lookup slotKey key es).map (·.2.value)) := by
  rcases h.read with ⟨rightSibling, hread⟩
  have hfind : findKey payload key = searchKey payload (es.map Prod.fst) key es.length 0 es.length := by
    unfold findKey
    rw [hread, Except.ok_bind, h.getSlotArray_eq (Nat.le_succ_of_le h.few), Except.ok_bind]
  have hsearch := @searchKey_cases payload es h key es.length 0 es.length (Nat.le_refl _) (Nat.sub_le _ _)
    (fun _ _ _ hi => absurd hi (Nat.not_lt_zero _))
    (fun i e he hi => absurd (List.getElem?_eq_some_iff.mp he).1 (Nat.not_lt.mpr hi))
  unfold getValue
  rw [hfind]
  rcases hsearch with ⟨i, e, he, hkey, hfound⟩ | ⟨habsent, hfound⟩
  · rw [hfound, Except.ok_bind]
    dsimp only
    rw [h.getEntry_eq he, lookup_eq_some h.sorted (List.mem_of_getElem? he) hkey]
    rfl
  · rw [hfound, Except.ok_bind, lookup_eq_none habsent]
    rfl

theorem transport {out : Bytes} (hlength : out.length = payload.length)
    (hfront : ∀ off len, off + len ≤ 48 + es.length * 2 → window out off len = window payload off len)
    (hentries : ∀ e ∈ es, window out e.1 e.2.getSize = window payload e.1 e.2.getSize) :
    Lays out es where
  room := by
    rw [hlength]
    exact h.room
  magic := (hfront 8 4 (by omega)).trans h.magic
  level := (hfront 12 2 (by omega)).trans h.level
  count := (hfront 14 2 (by omega)).trans h.count
  few := h.few
  slots i e he := by
    have hi : i < es.length := (List.getElem?_eq_some_iff.mp he).1
    exact (hfront _ 2 (by omega)).trans (h.slots i e he)
  entries e he := (hentries e he).trans (h.entries e he)
  inside e he := by
    rw [hlength]
    exact h.inside e he
  fits := h.fits
  sorted := h.sorted

omit h in
theorem flatten_slots_length (slots : List Nat) : (slots.map (le 2)).flatten.length = slots.length * 2 := by
  induction slots with
  | nil => rfl
  | cons slot slots ih =>
    rw [List.map_cons, List.flatten_cons, List.length_append, length_le, ih, List.length_cons]
    omega

omit h in
theorem window_flatten_slots {slot : Nat} (hi : slots[i]? = some slot) :
    window (slots.map (le 2)).flatten (i * 2) 2 = le 2 slot := by
  induction slots generalizing i with
  | nil => cases hi
  | cons head slots ih =>
    rw [List.map_cons, List.flatten_cons]
    cases i with
    | zero =>
      cases hi
      exact window_head (length_le _ _)
    | succ i =>
      rw [window_append_right (by rw [length_le]; omega), length_le,
        (by omega : (i + 1) * 2 - 2 = i * 2)]
      exact ih hi

omit h in
theorem foldl_min_le (xs : List Nat) (a : Nat) :
    xs.foldl min a ≤ a ∧ ∀ x ∈ xs, xs.foldl min a ≤ x := by
  induction xs generalizing a with
  | nil => exact ⟨Nat.le_refl _, fun _ hx => absurd hx List.not_mem_nil⟩
  | cons head xs ih =>
    rcases ih (min a head) with ⟨ha, hxs⟩
    rw [List.foldl_cons]
    refine ⟨ha.trans (Nat.min_le_left _ _), fun x hx => ?_⟩
    rcases List.mem_cons.mp hx with rfl | hx
    · exact ha.trans (Nat.min_le_right _ _)
    · exact hxs x hx

omit h in
theorem le_foldl_min {xs : List Nat} {a m : Nat} (ha : m ≤ a) (hxs : ∀ x ∈ xs, m ≤ x) :
    m ≤ xs.foldl min a :=
  List.foldlRecOn xs min ha fun _ hb x hx => Nat.le_min.mpr ⟨hb, hxs x hx⟩

omit h in
theorem firstOffset_le (payloadLen : Nat) (es : List (Nat × BtreeLeafEntry)) :
    firstOffset payloadLen es ≤ payloadLen ∧ ∀ e ∈ es, firstOffset payloadLen es ≤ e.1 := by
  have hfold := foldl_min_le (es.map Prod.fst) payloadLen
  exact ⟨hfold.1, fun e he => hfold.2 e.1 (List.mem_map_of_mem he)⟩

theorem newEntryOffset_eq (hroom : 48 + (es.length + 1) * 2 + entry.getSize ≤ firstOffset payload.length es)
    (hshort : 0 < es.length → payload.length < 2 ^ 16)
    (hoffset : firstOffset payload.length es - entry.getSize < 2 ^ 16) :
    newEntryOffset payload es.length entry.getSize =
      .ok (firstOffset payload.length es - entry.getSize) := by
  unfold newEntryOffset
  by_cases hcount : es.length > 0
  · have hlen : intCast 16 payload.length = .ok payload.length := if_pos (hshort hcount)
    rw [if_pos hcount, h.getSlotArray_eq h.few, Except.ok_bind, hlen, Except.ok_bind]
    have hmin : ¬ firstOffset payload.length es <
        BtreeNodeHeader.size + getSlotArraySize (es.length + 1) + entry.getSize := Nat.not_lt.mpr hroom
    exact if_neg hmin
  · have hnil : es = [] := List.eq_nil_of_length_eq_zero (by omega)
    subst hnil
    have hall : firstOffset payload.length [] = payload.length := rfl
    rw [hall] at hroom hoffset ⊢
    rw [if_neg hcount, if_neg (by omega)]
    exact if_pos hoffset

variable {pre suf : List (Nat × BtreeLeafEntry)} {remaining pos : Nat}

theorem insertPosition_eq (hes : es = pre ++ suf)
    (hpre : ∀ e ∈ pre, e.2.key < key) (hsuf : ∀ e ∈ suf, key < e.2.key)
    (hpos : pos ≤ pre.length) (hall : pos + remaining = es.length) :
    insertPosition payload key remaining pos = .ok pre.length := by
  have htotal : es.length = pre.length + suf.length := by rw [hes, List.length_append]
  induction remaining generalizing pos with
  | zero =>
    have hend : pos = pre.length := by omega
    rw [hend]
    rfl
  | succ remaining ih =>
    have hget : es[pos]? = some es[pos] := List.getElem?_eq_getElem (by omega)
    generalize es[pos] = e at hget
    unfold insertPosition
    rw [h.getEntry_eq hget]
    dsimp only
    by_cases hin : pos < pre.length
    · have hmem : e ∈ pre := by
        rw [hes, List.getElem?_append_left hin] at hget
        exact List.mem_of_getElem? hget
      rw [if_neg (not_lt.mpr (hpre e hmem).le)]
      exact ih (by omega) (by omega)
    · have hend : pos = pre.length := by omega
      have hmem : e ∈ suf := by
        rw [hes, List.getElem?_append_right (by omega)] at hget
        exact List.mem_of_getElem? hget
      rw [if_pos (hsuf e hmem), hend]

/-- The payload with the bytes of a new entry in front of the others, and no slot for it yet. -/
theorem store_entry (hroom : 48 + (es.length + 1) * 2 + entry.getSize ≤ firstOffset payload.length es) :
    ∃ out, store payload (firstOffset payload.length es - entry.getSize) entry.bytes = .ok out ∧
      out.length = payload.length ∧ Lays out es ∧
      window out (firstOffset payload.length es - entry.getSize) entry.getSize = entry.bytes := by
  have hbytes := entry.length_bytes
  rcases firstOffset_le payload.length es with ⟨hmin, hbefore⟩
  have hinside : firstOffset payload.length es - entry.getSize + entry.bytes.length ≤
      payload.length := by
    omega
  rcases store_spec hinside with ⟨out, hstore, hout, hwritten, hapart⟩
  rw [hbytes] at hwritten hapart
  refine ⟨out, hstore, hout, h.transport hout ?_ ?_, hwritten⟩
  · intro off len hfront
    exact hapart off len (.inl (by omega))
  · intro e he
    have hbehind := hbefore e he
    exact hapart _ _ (.inr (by omega))

omit h in
theorem writeSlotArray_spec {payload : Bytes} {slots : List Nat}
    (hroom : 48 + slots.length * 2 ≤ payload.length) :
    ∃ out, writeSlotArray payload slots = .ok out ∧ out.length = payload.length ∧
      (∀ i slot, slots[i]? = some slot → window out (48 + i * 2) 2 = le 2 slot) ∧
      ∀ off len, off + len ≤ 48 ∨ 48 + slots.length * 2 ≤ off →
        window out off len = window payload off len := by
  let bytes := (slots.map (le 2)).flatten
  have hwidth : bytes.length = slots.length * 2 := flatten_slots_length slots
  have hfits : 48 + bytes.length ≤ payload.length := by omega
  rcases store_spec hfits with ⟨out, hstore, hout, hwritten, hapart⟩
  refine ⟨out, ?_, hout, ?_, fun off len hoff => hapart off len (by omega)⟩
  · unfold writeSlotArray
    rw [List.take_of_length_le]
    · exact hstore
    · show bytes.length ≤ (payload.length - 48) / 2 * 2
      omega
  · intro i slot hi
    have hlt : i < slots.length := (List.getElem?_eq_some_iff.mp hi).1
    rw [← window_window (by omega : i * 2 + 2 ≤ bytes.length), hwritten]
    exact window_flatten_slots hi

theorem relink {es' : List (Nat × BtreeLeafEntry)} (hfew : es'.length ≤ maxKeysPerLeaf)
    (hroom : 48 + es'.length * 2 ≤ payload.length)
    (hentries : ∀ e ∈ es', window payload e.1 e.2.getSize = e.2.bytes)
    (hinside : ∀ e ∈ es', 48 + es'.length * 2 ≤ e.1 ∧ e.1 + e.2.getSize ≤ payload.length)
    (hfits : ∀ e ∈ es', e.1 < 2 ^ 16 ∧ e.2.Fits) (hsorted : Sorted slotKey es') :
    ∃ linked out, writeSlotArray payload (es'.map Prod.fst) = .ok linked ∧
      BtreeNodeHeader.setKeyCount linked es'.length = .ok out ∧
      out.length = payload.length ∧ Lays out es' := by
  have hslotRoom : 48 + (es'.map Prod.fst).length * 2 ≤ payload.length := by
    rw [List.length_map]
    exact hroom
  rcases writeSlotArray_spec hslotRoom with ⟨linked, hlinked, hlinkedLen, hslots, hslotApart⟩
  have hcountFits : 14 + (le 2 es'.length).length ≤ linked.length := by
    rw [length_le]
    omega
  rcases store_spec hcountFits with ⟨out, hout, houtLen, hcountBytes, hcountApart⟩
  rw [length_le] at hcountBytes hcountApart
  rw [List.length_map] at hslotApart
  -- the slots and the count are the only bytes in front of the entries that differ
  have hkept : ∀ off len, off + len ≤ 14 ∨ 48 + es'.length * 2 ≤ off →
      window out off len = window payload off len := by
    intro off len hoff
    rw [hcountApart off len (by omega), hslotApart off len (by omega)]
  refine ⟨linked, out, hlinked, hout, houtLen.trans hlinkedLen, ?_⟩
  exact {
    room := by
      rw [houtLen, hlinkedLen]
      exact hroom
    magic := (hkept 8 4 (.inl (by decide))).trans h.magic
    level := (hkept 12 2 (.inl (by decide))).trans h.level
    count := hcountBytes
    few := hfew
    slots := by
      intro i e he
      rw [hcountApart _ 2 (.inr (by omega))]
      apply hslots
      rw [List.getElem?_map, he]
      rfl
    entries := fun e he => (hkept _ _ (.inr (hinside e he).1)).trans (hentries e he)
    inside := by
      rw [houtLen, hlinkedLen]
      exact hinside
    fits := hfits
    sorted := hsorted }

theorem link_entry (hes : es = pre ++ suf) (hpre : ∀ e ∈ pre, e.2.key < entry.key)
    (hsuf : ∀ e ∈ suf, entry.key < e.2.key) (hfew : es.length < 200)
    (hsmall : offset < 2 ^ 16 ∧ entry.Fits)
    (hbytes : window payload offset entry.getSize = entry.bytes)
    (hstart : 48 + (es.length + 1) * 2 ≤ offset) (hend : offset + entry.getSize ≤ payload.length)
    (hroom : ∀ e ∈ es, 48 + (es.length + 1) * 2 ≤ e.1) :
    ∃ linked out, writeSlotArray payload ((es.map Prod.fst).insertIdx pre.length offset) = .ok linked ∧
      BtreeNodeHeader.setKeyCount linked (es.length + 1) = .ok out ∧
      out.length = payload.length ∧ Lays out (pre ++ (offset, entry) :: suf) := by
  let es' := pre ++ (offset, entry) :: suf
  have hcount : es'.length = es.length + 1 := by
    rw [hes, List.length_append, List.length_append, List.length_cons]
    omega
  have hmem : ∀ e ∈ es', e = (offset, entry) ∨ e ∈ es := by
    intro e he
    rw [hes]
    rcases List.mem_append.mp he with he | he
    · exact .inr (List.mem_append_left _ he)
    · rcases List.mem_cons.mp he with he | he
      · exact .inl he
      · exact .inr (List.mem_append_right _ he)
  have hslots : (es.map Prod.fst).insertIdx pre.length offset = es'.map Prod.fst := by
    rw [hes, List.map_append, List.map_append, List.map_cons]
    have hmiddle := insertIdx_middle (pre.map Prod.fst) (suf.map Prod.fst) offset
    rwa [List.length_map] at hmiddle
  have hsorted : Sorted slotKey es' := by
    have hsorted := h.sorted
    rw [hes] at hsorted
    exact sorted_insert hsorted hpre hsuf
  rw [hslots, ← hcount]
  rw [← hcount] at hstart hroom
  -- every entry, old or new, lies behind the longer slot array
  apply h.relink
  · rw [hcount]
    exact hfew
  · omega
  · intro e he
    rcases hmem e he with rfl | he
    · exact hbytes
    · exact h.entries e he
  · intro e he
    rcases hmem e he with rfl | he
    · exact ⟨hstart, hend⟩
    · exact ⟨hroom e he, (h.inside e he).2⟩
  · intro e he
    rcases hmem e he with rfl | he
    · exact hsmall
    · exact h.fits e he
  · exact hsorted

theorem clear_slot (hbytes : window payload offset entry.getSize = entry.bytes)
    (hstart : 48 + (es.length + 1) * 2 ≤ offset) :
    ∃ out, (if es.length = 0 ∧ BtreeNodeHeader.size + 2 ≤ payload.length then
        store payload BtreeNodeHeader.size [0, 0] else .ok payload) = .ok out ∧
      out.length = payload.length ∧ Lays out es ∧ window out offset entry.getSize = entry.bytes := by
  by_cases hfirst : es.length = 0 ∧ BtreeNodeHeader.size + 2 ≤ payload.length
  · rw [if_pos hfirst]
    have hnil : es = [] := List.eq_nil_of_length_eq_zero hfirst.1
    have hfits : 48 + ([0, 0] : Bytes).length ≤ payload.length := hfirst.2
    rcases store_spec hfits with ⟨out, hstore, hout, _, hapart⟩
    refine ⟨out, hstore, hout, h.transport hout ?_ ?_, ?_⟩
    · intro off len hoff
      rw [hfirst.1] at hoff
      exact hapart off len (.inl hoff)
    · intro e he
      rw [hnil] at he
      cases he
    · rw [hapart offset _ (.inr (by rw [hfirst.1] at hstart; exact hstart))]
      exact hbytes
  · rw [if_neg hfirst]
    exact ⟨payload, rfl, rfl, h, hbytes⟩

theorem addEntry_eq {value : Bytes} (hfew : es.length < maxKeysPerLeaf)
    (hroom : 48 + (es.length + 1) * 2 + BtreeLeafEntry.getSize ⟨key, value⟩ ≤
      firstOffset payload.length es)
    (hshort : 0 < es.length → payload.length < 2 ^ 16)
    (hoffset : firstOffset payload.length es - BtreeLeafEntry.getSize ⟨key, value⟩ < 2 ^ 16)
    (hfits : BtreeLeafEntry.Fits ⟨key, value⟩) (habsent : ∀ e ∈ es, e.2.key ≠ key) :
    ∃ pre suf out, es = pre ++ suf ∧ (∀ e ∈ pre, e.2.key < key) ∧ (∀ e ∈ suf, key < e.2.key) ∧
      addEntry payload key value = .ok out ∧ out.length = payload.length ∧
      Lays out (pre ++ (firstOffset payload.length es - BtreeLeafEntry.getSize ⟨key, value⟩,
        ⟨key, value⟩) :: suf) := by
  rcases binarySearch_cases h.sorted key with ⟨pre, e, suf, hes, hkey, _⟩ | ⟨pre, suf, hes, hpre, hsuf, _⟩
  · exact absurd hkey (habsent e (hes ▸ List.mem_append_right _ (List.mem_cons_self ..)))
  · let entry : BtreeLeafEntry := ⟨key, value⟩
    have hroom' : 48 + (es.length + 1) * 2 + entry.getSize ≤ firstOffset payload.length es := hroom
    rcases firstOffset_le payload.length es with ⟨hmin, hbefore⟩
    rcases h.read with ⟨rightSibling, hread⟩
    rcases h.store_entry hroom with ⟨stored, hstore, hstoredLen, hstored, hbytes⟩
    rcases hstored.read with ⟨rightSibling', hread'⟩
    -- the new entry is behind the slots, so that the old ones are still found
    have hpos : insertPosition stored key es.length 0 = .ok pre.length :=
      hstored.insertPosition_eq hes hpre hsuf (Nat.zero_le _) (Nat.zero_add _)
    have hstart : 48 + (es.length + 1) * 2 ≤ firstOffset payload.length es - entry.getSize := by omega
    rcases hstored.clear_slot hbytes hstart with ⟨cleared, hclear, hclearedLen, hcleared, hbytes'⟩
    have hend : firstOffset payload.length es - entry.getSize + entry.getSize ≤ cleared.length := by
      omega
    have hbehind : ∀ e ∈ es, 48 + (es.length + 1) * 2 ≤ e.1 := by
      intro e he
      have := hbefore e he
      omega
    rcases hcleared.link_entry hes hpre hsuf hfew ⟨hoffset, hfits⟩ hbytes' hstart hend hbehind with
      ⟨linked, out, hlink, hcount, houtLen, hout⟩
    refine ⟨pre, suf, out, hes, hpre, hsuf, ?_, by omega, hout⟩
    have hlast : (do
        let slots ← getSlotArrayMut cleared (maxKeysPerLeaf + 1)
        let payload ← writeSlotArray cleared
          (slots.insertIdx pre.length (firstOffset payload.length es - entry.getSize))
        BtreeNodeHeader.setKeyCount payload (es.length + 1)) = .ok out := by
      rw [hcleared.getSlotArrayMut_eq (Nat.le_succ_of_le h.few) (by omega), Except.ok_bind, hlink,
        Except.ok_bind]
      exact hcount
    have hnotFull : ¬ es.length ≥ maxKeysPerLeaf := Nat.not_le.mpr hfew
    have hkeyFits : 2 + 4 + key.length < 2 ^ 16 := hfits.1
    have hvalueFits : 2 + 4 + key.length + value.length < 2 ^ 32 := hfits.2
    have hkeyLen : intCast 16 key.length = .ok key.length := if_pos (by omega)
    have hvalueLen : intCast 32 value.length = .ok value.length := if_pos (by omega)
    unfold addEntry
    rw [hread, Except.ok_bind]
    dsimp only
    rw [if_neg hnotFull, h.newEntryOffset_eq hroom hshort hoffset, Except.ok_bind, hkeyLen,
      Except.ok_bind, hvalueLen, Except.ok_bind, hstore, Except.ok_bind, hread', Except.ok_bind]
    dsimp only
    rw [hpos, Except.ok_bind]
    -- the slot area of a leaf without entries is cleared before
    by_cases hfirst : es.length = 0 ∧ BtreeNodeHeader.size + 2 ≤ stored.length
    · rw [if_pos hfirst] at hclear ⊢
      rw [hclear, Except.ok_bind]
      exact hlast
    · rw [if_neg hfirst] at hclear ⊢
      rw [hclear, Except.ok_bind]
      exact hlast

theorem validateSlots_eq (hsums : ∀ e ∈ es, e.1 + 6 < 2 ^ 16) {part : List (Nat × BtreeLeafEntry)}
    (hpart : ∀ e ∈ part, e ∈ es) (hsorted : Sorted slotKey part) {prevKey : Option Bytes}
    (hprev : ∀ key, prevKey = some key → ∀ e ∈ part, key < e.2.key) :
    ∃ last, (part.map Prod.fst).foldlM (validateSlot payload (48 + es.length * 2)) prevKey = .ok last := by
  induction part generalizing prevKey with
  | nil => exact ⟨prevKey, rfl⟩
  | cons e part ih =>
    have he : e ∈ es := hpart e (List.mem_cons_self ..)
    have hinside := h.inside e he
    have hsum := hsums e he
    have hsize : 0 < e.2.getSize := by
      unfold BtreeLeafEntry.getSize
      omega
    have hslot : validateSlot payload (48 + es.length * 2) prevKey e.1 = .ok (some e.2.key) := by
      unfold validateSlot
      rw [if_neg (by omega), h.fromBytes_eq he]
      dsimp only
      rw [if_neg (by omega), if_neg (by omega)]
      cases prevKey with
      | none => rfl
      | some key => exact if_pos (hprev key rfl e (List.mem_cons_self ..))
    rcases List.pairwise_cons.mp hsorted with ⟨hhead, htail⟩
    rw [List.map_cons, List.foldlM_cons, hslot]
    apply ih (fun e' he' => hpart e' (List.mem_cons_of_mem _ he')) htail
    intro key hkey e' he'
    cases hkey
    exact hhead e' he'

/-- The sums of `validate` do not overflow. -/
theorem validate_eq (hsums : ∀ e ∈ es, e.1 + 6 < 2 ^ 16) : validate payload = .ok () := by
  rcases h.read with ⟨rightSibling, hread⟩
  have hfirst : ∀ key, (none : Option Bytes) = some key → ∀ e ∈ es, key < e.2.key := by
    intro key hkey
    cases hkey
  rcases h.validateSlots_eq hsums (fun _ he => he) h.sorted hfirst with ⟨last, hslots⟩
  have hroom := h.room
  unfold validate
  rw [hread, Except.ok_bind]
  dsimp only
  rw [if_neg (fun hne => hne rfl), if_neg (fun hne => hne rfl), if_neg (Nat.not_lt.mpr h.few)]
  unfold BtreeNodeHeader.size getSlotArraySize
  rw [if_neg (by omega), h.getSlotArray_eq (Nat.le_succ_of_le h.few), Except.ok_bind, hslots]
  rfl

theorem slotOf_eq {x : Nat × BtreeLeafEntry} (hes : es = pre ++ x :: suf) (hpos : pos ≤ pre.length)
    (hall : pos + remaining = es.length) : slotOf payload x.2.key remaining pos = .ok (some pre.length) := by
  have htotal : es.length = pre.length + (suf.length + 1) := by
    rw [hes, List.length_append, List.length_cons]
  have hx : es[pre.length]? = some x := by
    rw [hes]
    exact getElem?_middle pre x suf
  induction remaining generalizing pos with
  | zero => omega
  | succ remaining ih =>
    have hget : es[pos]? = some es[pos] := List.getElem?_eq_getElem (by omega)
    generalize es[pos] = e at hget
    unfold slotOf
    rw [h.getEntry_eq hget]
    dsimp only
    by_cases hend : pos = pre.length
    · rw [hend, hx] at hget
      cases hget
      rw [if_pos rfl, hend]
    · have hlt := h.key_lt hget hx (by omega)
      rw [if_neg hlt.ne']
      exact ih (by omega) (by omega)

theorem slotOf_eq_none (habsent : ∀ e ∈ es, e.2.key ≠ key)
    (hall : pos + remaining = es.length) : slotOf payload key remaining pos = .ok none := by
  induction remaining generalizing pos with
  | zero => rfl
  | succ remaining ih =>
    have hget : es[pos]? = some es[pos] := List.getElem?_eq_getElem (by omega)
    have hne := habsent es[pos] (List.getElem_mem (by omega))
    unfold slotOf
    rw [h.getEntry_eq hget]
    dsimp only
    rw [if_neg hne.symm]
    exact ih (by omega)

theorem removeEntry_eq_none (habsent : ∀ e ∈ es, e.2.key ≠ key) :
    removeEntry payload key = .ok none := by
  rcases h.read with ⟨rightSibling, hread⟩
  unfold removeEntry
  rw [hread, Except.ok_bind]
  dsimp only
  by_cases hcount : es.length = 0
  · rw [if_pos hcount]
    rfl
  · rw [if_neg hcount, h.slotOf_eq_none habsent (Nat.zero_add _), Except.ok_bind]
    rfl

/-- The payload without the slot of an entry, as `removeEntry` hands it to the compaction. -/
theorem removeEntry_eq_compact {x : Nat × BtreeLeafEntry} {pre suf : List (Nat × BtreeLeafEntry)}
    (hes : es = pre ++ x :: suf) :
    ∃ unlinked, unlinked.length = payload.length ∧ Lays unlinked (pre ++ suf) ∧
      removeEntry payload x.2.key = (compactEntryDataArea unlinked).map some := by
  have hcount : es.length = (pre ++ suf).length + 1 := by
    rw [hes, List.length_append, List.length_append, List.length_cons]
    omega
  have hfew : es.length ≤ maxKeysPerLeaf := h.few
  have hxmem : x ∈ es := hes ▸ List.mem_append_right _ (List.mem_cons_self ..)
  have hsix := x.2.six_le_getSize
  have hxInside := h.inside x hxmem
  have hsub : (pre ++ suf).Sublist es := by
    rw [hes]
    exact (List.sublist_cons_self x suf).append_left pre
  have hslots : (es.map Prod.fst).eraseIdx pre.length = (pre ++ suf).map Prod.fst := by
    rw [hes, List.map_append, List.map_append, List.map_cons]
    have hmiddle := eraseIdx_middle (pre.map Prod.fst) x.1 (suf.map Prod.fst)
    rwa [List.length_map] at hmiddle
  have hrelink := h.relink (by omega) (by omega) (fun e he => h.entries e (hsub.subset he))
    (fun e he => ⟨by have := (h.inside e (hsub.subset he)).1; omega, (h.inside e (hsub.subset he)).2⟩)
    (fun e he => h.fits e (hsub.subset he)) (h.sorted.sublist hsub)
  rcases hrelink with ⟨linked, unlinked, hwrite, hset, hlength, hlays⟩
  refine ⟨unlinked, hlength, hlays, ?_⟩
  rcases h.read with ⟨rightSibling, hread⟩
  have hset' : BtreeNodeHeader.setKeyCount linked (es.length - 1) = .ok unlinked := by
    rw [hcount]
    exact hset
  unfold removeEntry
  rw [hread, Except.ok_bind]
  dsimp only
  rw [if_neg (by omega), h.slotOf_eq hes (Nat.zero_le _) (Nat.zero_add _), Except.ok_bind]
  dsimp only
  rw [h.getSlotArrayMut_eq h.few (by omega), Except.ok_bind, hslots, hwrite, Except.ok_bind, hset',
    Except.ok_bind]
  rfl

theorem compactEntryDataArea_nil (hes : es = []) : compactEntryDataArea payload = .ok payload := by
  subst hes
  rcases h.read with ⟨rightSibling, hread⟩
  unfold compactEntryDataArea
  rw [hread, Except.ok_bind]
  rfl

theorem removeEntry_only (hes : es = [(offset, entry)]) :
    ∃ out, removeEntry payload entry.key = .ok (some out) ∧ out.length = payload.length ∧
      Lays out [] := by
  rcases @removeEntry_eq_compact payload es h (offset, entry) [] [] hes with ⟨unlinked, hlength, hlays, hremove⟩
  refine ⟨unlinked, ?_, hlength, hlays⟩
  rw [hremove, hlays.compactEntryDataArea_nil rfl]
  rfl

end Lays

end BtreeLeafPayload

namespace BtreeLeafEntry

theorem window_of_fromBytes {entry : BtreeLeafEntry} (h : fromBytes bytes = .ok entry) :
    entry.Fits ∧ entry.getSize ≤ bytes.length ∧ window bytes 0 entry.getSize = entry.bytes := by
  unfold fromBytes at h
  by_cases hshort : bytes.length < 2 + 4
  · rw [if_pos hshort] at h
    cases h
  · rw [if_neg hshort] at h
    dsimp only at h
    generalize hkeyLen : (readU16 (window bytes 0 2)).toNat = keyLen at h
    generalize hvalLen : (readU32 (window bytes 2 4)).toNat = valLen at h
    by_cases hwide : 2 + 4 + keyLen ≥ 2 ^ 16 ∨ 2 + 4 + keyLen + valLen ≥ 2 ^ 32
    · rw [if_pos hwide] at h
      cases h
    · rw [if_neg hwide] at h
      by_cases hcut : bytes.length < 2 + 4 + keyLen + valLen
      · rw [if_pos hcut] at h
        cases h
      · rw [if_neg hcut] at h
        cases h
        have hkey : (window bytes 6 keyLen).length = keyLen := length_window_of_le (by omega)
        have hvalue : (window bytes (6 + keyLen) valLen).length = valLen :=
          length_window_of_le (by omega)
        have hkeyBytes : le 2 keyLen = window bytes 0 2 := by
          rw [← hkeyLen]
          exact u16_readU16 (length_window_of_le (by omega))
        have hvalBytes : le 4 valLen = window bytes 2 4 := by
          rw [← hvalLen]
          exact u32_readU32 (length_window_of_le (by omega))
        unfold Fits getSize BtreeLeafEntry.bytes
        dsimp only
        rw [hkey, hvalue, hkeyBytes, hvalBytes]
        refine ⟨by omega, by omega, ?_⟩
        rw [window_split bytes 0 (2 + 4 + keyLen) valLen, window_split bytes 0 (2 + 4) keyLen,
          window_split bytes 0 2 4]
        simp only [Nat.zero_add]

end BtreeLeafEntry

namespace BtreeLeafPayload

variable {payload : Bytes}

theorem exists_of_validateSlots
    {prevKey last : Option Bytes} (h : slots.foldlM (validateSlot payload start) prevKey = .ok last) :
    ∃ es : List (Nat × BtreeLeafEntry), es.map Prod.fst = slots ∧
      (∀ e ∈ es, start ≤ e.1 ∧ e.1 + e.2.getSize ≤ payload.length ∧
        BtreeLeafEntry.fromBytes (payload.drop e.1) = .ok e.2 ∧ e.1 + 6 < 2 ^ 16) ∧
      Sorted slotKey es ∧ ∀ key, prevKey = some key → ∀ e ∈ es, key < e.2.key := by
  induction slots generalizing prevKey with
  | nil =>
    exact ⟨[], rfl, fun e he => absurd he List.not_mem_nil, List.Pairwise.nil,
      fun _ _ e he => absurd he List.not_mem_nil⟩
  | cons offset slots ih =>
    rw [List.foldlM_cons] at h
    rcases Except.bind_eq_ok_iff.mp h with ⟨next, hslot, hrest⟩
    unfold validateSlot at hslot
    by_cases hbounds : offset < start ∨ offset ≥ payload.length
    · rw [if_pos hbounds] at hslot
      cases hslot
    · rw [if_neg hbounds] at hslot
      cases hentry : BtreeLeafEntry.fromBytes (payload.drop offset) with
      | error e =>
        rw [hentry] at hslot
        cases e <;> cases hslot
      | ok entry =>
        rw [hentry] at hslot
        dsimp only at hslot
        rcases Except.guard_eq_ok_iff.mp hslot with ⟨hsum, hslot⟩
        by_cases hexceeds : offset + entry.getSize > payload.length
        · rw [if_pos hexceeds] at hslot
          cases hslot
        · rw [if_neg hexceeds] at hslot
          -- the slot passes its key on, and has found it behind the one before
          have hkeys : next = some entry.key ∧ ∀ key, prevKey = some key → key < entry.key := by
            cases prevKey with
            | none =>
              cases hslot
              exact ⟨rfl, fun key hkey => by cases hkey⟩
            | some prev =>
              dsimp only at hslot
              by_cases hlt : prev < entry.key
              · rw [if_pos hlt] at hslot
                cases hslot
                refine ⟨rfl, fun key hkey => ?_⟩
                cases hkey
                exact hlt
              · rw [if_neg hlt] at hslot
                cases hslot
          rcases ih hrest with ⟨es, hslots, hall, hsorted, hprev⟩
          have hlater := hprev entry.key hkeys.1
          refine ⟨(offset, entry) :: es, by rw [List.map_cons, hslots], ?_,
            List.pairwise_cons.mpr ⟨hlater, hsorted⟩, ?_⟩
          · intro e he
            rcases List.mem_cons.mp he with rfl | he
            · exact ⟨Nat.le_of_not_lt fun hlt => hbounds (Or.inl hlt), Nat.le_of_not_lt hexceeds, hentry,
                Nat.lt_of_not_le hsum⟩
            · exact hall e he
          · intro key hkey e he
            rcases List.mem_cons.mp he with rfl | he
            · exact hkeys.2 key hkey
            · exact (hkeys.2 key hkey).trans (hlater e he)

theorem readSlots_length (bytes : Bytes) (count : Nat) : (readSlots bytes count).length = count := by
  unfold readSlots
  rw [List.length_map, List.length_range]

theorem readSlots_lt (bytes : Bytes) (count : Nat) : ∀ slot ∈ readSlots bytes count, slot < 2 ^ 16 := by
  intro slot hslot
  rcases List.mem_map.mp hslot with ⟨i, _, rfl⟩
  exact UInt16.toNat_lt _

theorem read_inv {node : BtreeNodeHeader} (h : BtreeNodeHeader.read payload = .ok node) :
    48 ≤ payload.length ∧ u32 node.nodeMagic = window payload 8 4 ∧
      le 2 node.level = window payload 12 2 ∧ le 2 node.keyCount = window payload 14 2 := by
  unfold BtreeNodeHeader.read at h
  rcases Except.bind_eq_ok_iff.mp h with ⟨bytes, hslice, hnode⟩
  rcases slice_inv hslice with ⟨hlen, rfl⟩
  have hroom : 48 ≤ payload.length := hlen
  cases hnode
  refine ⟨hroom, ?_, ?_, ?_⟩
  · rw [window_window (by decide)]
    exact u32_readU32 (length_window_of_le (by omega))
  · show u16 (readU16 (window (window payload 0 48) 12 2)) = _
    rw [window_window (by decide)]
    exact u16_readU16 (length_window_of_le (by omega))
  · show u16 (readU16 (window (window payload 0 48) 14 2)) = _
    rw [window_window (by decide)]
    exact u16_readU16 (length_window_of_le (by omega))

theorem getSlotArray_inv {node : BtreeNodeHeader} (hread : BtreeNodeHeader.read payload = .ok node)
    (hbuffer : node.keyCount ≤ bufferLen)
    (h : getSlotArray payload bufferLen = .ok slots) :
    slots.length = node.keyCount ∧ ∀ i slot, slots[i]? = some slot →
      slot < 2 ^ 16 ∧ window payload (48 + i * 2) 2 = le 2 slot := by
  unfold getSlotArray at h
  rw [hread, Except.ok_bind, Nat.min_eq_left hbuffer] at h
  rcases Except.bind_eq_ok_iff.mp h with ⟨bytes, hslice, hslots⟩
  rcases slice_inv hslice with ⟨hlen, rfl⟩
  have hroom : 48 + node.keyCount * 2 ≤ payload.length := hlen
  cases hslots
  refine ⟨readSlots_length .., fun i slot hi => ⟨readSlots_lt _ _ slot (List.mem_of_getElem? hi), ?_⟩⟩
  have hlt : i < node.keyCount := by
    have := (List.getElem?_eq_some_iff.mp hi).1
    rwa [readSlots_length] at this
  unfold readSlots at hi
  rw [List.getElem?_map, List.getElem?_range hlt] at hi
  cases hi
  have hwide : i * 2 + 2 ≤ 48 + node.keyCount * 2 - 48 := by omega
  show _ = u16 (readU16 (window (window payload 48 (48 + node.keyCount * 2 - 48)) (i * 2) 2))
  rw [window_window hwide]
  exact (u16_readU16 (length_window_of_le (by omega))).symm

theorem exists_lays (h : validate payload = .ok ()) :
    ∃ es, Lays payload es ∧ ∀ e ∈ es, e.1 + 6 < 2 ^ 16 := by
  unfold validate at h
  rcases Except.bind_eq_ok_iff.mp h with ⟨node, hread, h⟩
  rcases read_inv hread with ⟨hlen, hmagic, hlevel, hcount⟩
  rcases Except.guard_eq_ok_iff.mp h with ⟨hgoodMagic, h⟩
  rcases Except.guard_eq_ok_iff.mp h with ⟨hgoodLevel, h⟩
  rcases Except.guard_eq_ok_iff.mp h with ⟨hfew, h⟩
  rcases Except.guard_eq_ok_iff.mp h with ⟨hroom, h⟩
  rcases Except.bind_eq_ok_iff.mp h with ⟨slots, hslots, h⟩
  rw [not_not] at hgoodMagic hgoodLevel
  rw [Nat.not_lt] at hfew hroom
  rcases getSlotArray_inv hread (Nat.le_succ_of_le hfew) hslots with ⟨hslotCount, hslotBytes⟩
  cases hfold : slots.foldlM (validateSlot payload
      (BtreeNodeHeader.size + getSlotArraySize node.keyCount)) none with
  | error e =>
    rw [hfold] at h
    cases h
  | ok last =>
    rcases exists_of_validateSlots hfold with ⟨es, hes, hall, hsorted, -⟩
    have hlength : es.length = node.keyCount := by
      rw [← hslotCount, ← hes, List.length_map]
    have hparsed : ∀ e ∈ es, e.2.Fits ∧ window payload e.1 e.2.getSize = e.2.bytes := by
      intro e he
      rcases BtreeLeafEntry.window_of_fromBytes (hall e he).2.2.1 with ⟨hfits, -, hbytes⟩
      rw [window_drop] at hbytes
      exact ⟨hfits, hbytes⟩
    have hslot : ∀ (i : Nat) (e : Nat × BtreeLeafEntry), es[i]? = some e → slots[i]? = some e.1 := by
      intro i e he
      rw [← hes, List.getElem?_map, he]
      rfl
    refine ⟨es, ?_, fun e he => (hall e he).2.2.2⟩
    exact {
      room := by
        rw [hlength]
        exact hroom
      magic := by rw [← hmagic, hgoodMagic]
      level := by rw [← hlevel, hgoodLevel]
      count := by rw [← hcount, hlength]
      few := hlength ▸ hfew
      slots := fun i e he => (hslotBytes i e.1 (hslot i e he)).2
      entries := fun e he => (hparsed e he).2
      inside := by
        rw [hlength]
        exact fun (e : Nat × BtreeLeafEntry) he => ⟨(hall e he).1, (hall e he).2.1⟩
      fits := by
        intro e he
        rcases List.getElem?_of_mem he with ⟨i, hi⟩
        exact ⟨(hslotBytes i e.1 (hslot i e hi)).1, (hparsed e he).1⟩
      sorted := hsorted }

/-- The binary search with its sums in 16 bits; a turn beyond the fuel is `running`. -/
def searchKeyU16 (payload : Bytes) (slots : List Nat) (key : Bytes) :
    Nat → Nat → Nat → Except PagerError (Option Nat)
  | 0, left, right => if left < right then .error .running else .ok none
  | fuel + 1, left, right =>
    if left < right then do
      let mid ← intCast 16 (left + (right - left) / 2)
      match getEntryWithSlots payload mid slots with
      | .error .panic => .error .panic
      | .error _ => .ok none
      | .ok entry =>
        if key = entry.key then .ok (some mid)
        else if key < entry.key then searchKeyU16 payload slots key fuel left mid
        else do
          let next ← intCast 16 (mid + 1)
          searchKeyU16 payload slots key fuel next right
    else .ok none

def findKeyU16 (payload key : Bytes) : Except PagerError (Option Nat) := do
  let node ← BtreeNodeHeader.read payload
  let slots ← getSlotArray payload (maxKeysPerLeaf + 1)
  searchKeyU16 payload slots key node.keyCount 0 node.keyCount

/-- The value of the first entry with the key, from the front. -/
def linearValue (payload key : Bytes) : Except PagerError (Option Bytes) := do
  let node ← BtreeNodeHeader.read payload
  match ← slotOf payload key node.keyCount 0 with
  | none => return none
  | some slotIdx => (getEntry payload slotIdx).map fun entry => some entry.value

namespace Lays

variable {entry : BtreeLeafEntry} {i : Nat} {key : Bytes} {es : List (Nat × BtreeLeafEntry)} (h : Lays payload es)

include h

theorem searchKeyU16_eq {fuel left right : Nat} (hright : right ≤ es.length) (hfuel : right - left ≤ fuel) :
    searchKeyU16 payload (es.map Prod.fst) key fuel left right =
      searchKey payload (es.map Prod.fst) key fuel left right := by
  have hfew := h.few'
  induction fuel generalizing left right with
  | zero => exact if_neg (by omega)
  | succ fuel ih =>
    unfold searchKeyU16 searchKey
    by_cases hopen : left < right
    · rw [if_pos hopen, if_pos hopen]
      dsimp only
      generalize hmid : left + (right - left) / 2 = mid
      have hcast : intCast 16 mid = .ok mid := if_pos (by omega)
      have hnext : intCast 16 (mid + 1) = .ok (mid + 1) := if_pos (by omega)
      have hget : es[mid]? = some es[mid] := List.getElem?_eq_getElem (by omega)
      rw [hcast, Except.ok_bind, h.getEntryWithSlots_eq hget, hnext, Except.ok_bind]
      dsimp only
      rw [ih (by omega) (by omega), ih hright (by omega)]
    · rw [if_neg hopen, if_neg hopen]

theorem getEntry_eq_ok_iff :
    getEntry payload i = .ok entry ↔ ∃ e, es[i]? = some e ∧ e.2 = entry := by
  constructor
  · intro hentry
    cases hget : es[i]? with
    | some e =>
      rw [h.getEntry_eq hget] at hentry
      exact ⟨e, rfl, Except.ok.inj hentry⟩
    | none =>
      rcases h.read with ⟨rightSibling, hread⟩
      unfold getEntry at hentry
      rw [hread, Except.ok_bind] at hentry
      dsimp only at hentry
      rw [if_pos (List.getElem?_eq_none_iff.mp hget)] at hentry
      cases hentry
  · intro ⟨e, hget, hentry⟩
    rw [h.getEntry_eq hget, hentry]

theorem findKey_spec (key : Bytes) : ∃ found, findKey payload key = .ok found ∧ findKeyU16 payload key = .ok found ∧
    ∀ i, found = some i ↔ ∃ e, es[i]? = some e ∧ e.2.key = key := by
  rcases h.read with ⟨rightSibling, hread⟩
  have hslots := h.getSlotArray_eq (Nat.le_succ_of_le h.few)
  have hfind : findKey payload key = searchKey payload (es.map Prod.fst) key es.length 0 es.length := by
    unfold findKey
    rw [hread, Except.ok_bind, hslots, Except.ok_bind]
  have hfindU16 : findKeyU16 payload key = findKey payload key := by
    unfold findKeyU16
    rw [hread, Except.ok_bind, hslots, Except.ok_bind, hfind]
    exact h.searchKeyU16_eq (Nat.le_refl _) (Nat.sub_le _ _)
  rw [hfindU16, hfind]
  have hsearch := @searchKey_cases payload es h key es.length 0 es.length (Nat.le_refl _) (Nat.sub_le _ _)
    (fun _ _ _ hi => absurd hi (Nat.not_lt_zero _))
    (fun i e he hi => absurd (List.getElem?_eq_some_iff.mp he).1 (Nat.not_lt.mpr hi))
  rcases hsearch with ⟨i, e, he, hkey, hfound⟩ | ⟨habsent, hfound⟩
  · refine ⟨some i, hfound, hfound, fun j => ?_⟩
    constructor
    · intro hj
      cases hj
      exact ⟨e, he, hkey⟩
    · intro ⟨e', he', hkey'⟩
      -- two places with one key would be out of order
      rcases Nat.lt_trichotomy i j with hlt | heq | hgt
      · exact absurd (hkey.trans hkey'.symm) (h.key_lt he he' hlt).ne
      · rw [heq]
      · exact absurd (hkey'.trans hkey.symm) (h.key_lt he' he hgt).ne
  · refine ⟨none, hfound, hfound, fun j => ?_⟩
    constructor
    · intro hj
      cases hj
    · intro ⟨e, he, hkey⟩
      exact absurd hkey (habsent e (List.mem_of_getElem? he))

theorem getValue_eq_linearValue (key : Bytes) : getValue payload key = linearValue payload key := by
  rcases h.read with ⟨rightSibling, hread⟩
  unfold linearValue
  rw [h.getValue_eq, hread, Except.ok_bind]
  by_cases hfound : ∃ e ∈ es, e.2.key = key
  · rcases hfound with ⟨e, he, rfl⟩
    rcases List.append_of_mem he with ⟨pre, suf, hes⟩
    have hget : es[pre.length]? = some e := by
      rw [hes]
      exact getElem?_middle pre e suf
    dsimp only
    rw [h.slotOf_eq hes (Nat.zero_le _) (Nat.zero_add _), Except.ok_bind, lookup_eq_some h.sorted he rfl]
    dsimp only
    rw [h.getEntry_eq hget]
    rfl
  · have habsent : ∀ e ∈ es, e.2.key ≠ key := fun e he hkey => hfound ⟨e, he, hkey⟩
    dsimp only
    rw [h.slotOf_eq_none habsent (Nat.zero_add _), Except.ok_bind, lookup_eq_none habsent]
    rfl

end Lays

/-- In a leaf that `validate` accepts the lookup ends, with no sum beyond 16 bits, at the one entry that has the
key, or finds that there is none. -/
theorem findKey_of_validate (payload key : Bytes) (h : validate payload = .ok ()) :
    ∃ found, findKeyU16 payload key = .ok found ∧ findKey payload key = .ok found ∧
      (∀ i, found = some i ↔ ∃ entry, getEntry payload i = .ok entry ∧ entry.key = key) ∧
      getValue payload key = linearValue payload key := by
  rcases exists_lays h with ⟨es, hlays, -⟩
  rcases hlays.findKey_spec key with ⟨found, hfind, hfindU16, hiff⟩
  refine ⟨found, hfindU16, hfind, fun i => ?_, hlays.getValue_eq_linearValue key⟩
  rw [hiff]
  constructor
  · intro ⟨e, he, hkey⟩
    exact ⟨e.2, hlays.getEntry_eq he, hkey⟩
  · intro ⟨entry, hentry, hkey⟩
    rcases hlays.getEntry_eq_ok_iff.mp hentry with ⟨e, he, rfl⟩
    exact ⟨e, he, hkey⟩

/-- A leaf with the given slots, and the bytes behind them. -/
def leafWith (slots : List Nat) (area : Bytes) : Bytes :=
  BtreeNodeHeader.encode { level := 0, keyCount := slots.length, rightSibling := 0 } ++
    (slots.map (le 2)).flatten ++ area

/-- Two entries of zeros, and key 1. -/
def threeEntries : Bytes :=
  leafWith [74, 80, 88] (List.replicate 20 0 ++ BtreeLeafEntry.bytes ⟨[], []⟩ ++
    BtreeLeafEntry.bytes ⟨[0], [0]⟩ ++ BtreeLeafEntry.bytes ⟨[1], [9]⟩)

theorem findKey_threeEntries : ∃ found, findKeyU16 threeEntries [1] = .ok found ∧ findKey threeEntries [1] = .ok found ∧
    (∀ i, found = some i ↔ ∃ entry, getEntry threeEntries i = .ok entry ∧ entry.key = [1]) ∧
    getValue threeEntries [1] = linearValue threeEntries [1] :=
  findKey_of_validate threeEntries [1] (by decide)

end BtreeLeafPayload

end Northstar.Zig
