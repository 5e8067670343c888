import Northstar.Lib.Pieces
import Northstar.Zig.InternalNode
import Mathlib.Data.Nat.Prime.Basic
import Mathlib.Tactic.NormNum.Prime

/-!
# FirstSeparator — the bytes of a new node, and of its first separator

The first child is written behind a second node header, and a separator goes to the end of the page while it is
read from the end of the payload.
-/

namespace Northstar.Zig

open Bytes

variable {payload : Bytes}

theorem BtreeNodeHeader.read_of_windows {node : BtreeNodeHeader} (hroom : 48 ≤ payload.length)
    (hfits : node.rightSibling < 2 ^ 64 ∧ node.level < 2 ^ 16 ∧ node.keyCount < 2 ^ 16)
    (hright : window payload 0 8 = le 8 node.rightSibling) (hmagic : window payload 8 4 = u32 node.nodeMagic)
    (hlevel : window payload 12 2 = le 2 node.level) (hcount : window payload 14 2 = le 2 node.keyCount) :
    BtreeNodeHeader.read payload = .ok node := by
  have hslice : slice payload 0 BtreeNodeHeader.size = .ok (window payload 0 48) :=
    slice_of_le (Nat.zero_le _) hroom
  unfold BtreeNodeHeader.read
  rw [hslice, Except.ok_bind, window_window (by decide), window_window (by decide), window_window (by decide),
    window_window (by decide), hright, hmagic, hlevel, hcount, readU32_u32, readU16_le hfits.2.1,
    readU16_le hfits.2.2, readU64_le hfits.1]
  rfl

theorem BtreeInternalPayload.childCount_eq {keyCount : Nat} (hroom : 48 ≤ payload.length)
    (hfits : keyCount + 1 < 2 ^ 16) (hcount : window payload 14 2 = le 2 keyCount) :
    childCount payload = .ok (keyCount + 1) := by
  have hslice : slice payload 0 BtreeNodeHeader.size = .ok (window payload 0 48) :=
    slice_of_le (Nat.zero_le _) hroom
  have hkeyCount : (readU16 (window (window payload 0 48) 14 2)).toNat = keyCount := by
    rw [window_window (by decide), Nat.zero_add, hcount, readU16_le (by omega)]
  unfold childCount BtreeNodeHeader.read
  rw [hslice, Except.ok_bind]
  show (if (readU16 (window (window payload 0 48) 14 2)).toNat + 1 ≥ 2 ^ 16 then _ else _) = _
  rw [hkeyCount, if_neg (Nat.not_le.mpr hfits)]
  rfl

theorem BtreeNodeHeader.length_encode (node : BtreeNodeHeader) : node.encode.length = 48 := by
  unfold encode
  simp only [List.length_append, length_le, length_u32, List.length_replicate]

section

variable {args : InternalArgs} {firstChildId : Nat}

/-- The header of a new node, which its payload holds twice. -/
def InternalArgs.node (args : InternalArgs) : BtreeNodeHeader :=
  { level := args.level, keyCount := 0, rightSibling := args.rightSibling }

def InternalArgs.body (args : InternalArgs) (firstChildId : Nat) : Bytes :=
  args.node.encode ++ (args.node.encode ++ le 8 firstChildId) ++ List.replicate (Page.bodySize - 104) 0

theorem length_body (args : InternalArgs) (firstChildId : Nat) : (args.body firstChildId).length = 16344 := by
  unfold InternalArgs.body
  simp only [List.length_append, BtreeNodeHeader.length_encode, length_le, List.length_replicate]
  rfl

def InternalArgs.header (args : InternalArgs) : PageHeader :=
  { pageType := if args.level = 0 then .btreeLeaf else .btreeInternal, pageId := args.pageId,
    txnId := args.txnId, payloadLen := 104, headerCrc32c := 0, pageCrc32c := 0 }

theorem createEmptyBtreeInternal_eq :
    createEmptyBtreeInternal args.pageId args.level args.txnId args.rightSibling firstChildId =
      .ok (Page.rehash ⟨args.header, args.body firstChildId⟩) := by
  have hlength : (args.node.encode ++ le 8 firstChildId).length = 56 := by
    rw [List.length_append, BtreeNodeHeader.length_encode, length_le]
  have hpayload : (args.node.encode ++ (args.node.encode ++ le 8 firstChildId)).length = 104 := by
    rw [List.length_append, BtreeNodeHeader.length_encode, hlength]
  have hsmall : ¬ BtreeNodeHeader.size + (args.node.encode ++ le 8 firstChildId).length > Page.bodySize := by
    rw [hlength]
    decide
  have hsmall' : ¬ (args.node.encode ++ (args.node.encode ++ le 8 firstChildId)).length > Page.bodySize := by
    rw [hpayload]
    decide
  show (if BtreeNodeHeader.size + (args.node.encode ++ le 8 firstChildId).length > Page.bodySize then
      .error .payloadTooLarge
    else createPage args.pageId (if args.level = 0 then .btreeLeaf else .btreeInternal) args.txnId
      (args.node.encode ++ (args.node.encode ++ le 8 firstChildId))) = _
  rw [if_neg hsmall]
  unfold createPage
  rw [if_neg hsmall', hpayload]
  rfl

end

theorem store_eq {data bytes : Bytes} {off : Nat} (h : off + bytes.length ≤ data.length) :
    store data off bytes = .ok (overwrite data off bytes) := by
  unfold store
  rw [writeAt_overwrite h]

namespace BtreeInternalPayload

theorem setKeyCount_eq {keyCount : Nat} (hroom : 48 ≤ payload.length) :
    BtreeNodeHeader.setKeyCount payload keyCount = .ok (overwrite payload 14 (le 2 keyCount)) :=
  store_eq (by rw [length_le]; omega)

theorem setChildPageId_second (hroom : 64 ≤ payload.length) (childPageId : Nat) :
    setChildPageId (overwrite payload 14 (le 2 1)) 1 childPageId =
      .ok (overwrite (overwrite payload 14 (le 2 1)) 56 (le 8 childPageId)) := by
  have hfits : 14 + (le 2 1).length ≤ payload.length := by
    rw [length_le]
    omega
  have hlength := length_overwrite hfits
  have htwo : childCount (overwrite payload 14 (le 2 1)) = .ok 2 :=
    childCount_eq (by omega) (by decide) (window_overwrite hfits)
  have hinside : ¬ 56 + 8 > (overwrite payload 14 (le 2 1)).length := by omega
  unfold setChildPageId
  rw [htwo, Except.ok_bind, if_neg (by decide)]
  refine (if_neg hinside).trans (store_eq ?_)
  show 56 + (le 8 childPageId).length ≤ _
  rw [length_le]
  omega

/-- The buffer behind the first separator: the count, the child and, at the very end, the separator. -/
def withFirst (buffer separatorKey : Bytes) (childPageId : Nat) : Bytes :=
  overwrite (overwrite (overwrite buffer 14 (le 2 1)) 56 (le 8 childPageId))
    (buffer.length - (2 + separatorKey.length)) (le 2 separatorKey.length ++ separatorKey)

theorem addChildExpand_first {buffer separatorKey : Bytes} {oldPayloadLen : Nat} {node : BtreeNodeHeader}
    (hread : BtreeNodeHeader.read (buffer.take oldPayloadLen) = .ok node) (hcount : node.keyCount = 0)
    (hold : 56 ≤ oldPayloadLen) (hroom : oldPayloadLen + (8 + 2 + separatorKey.length) ≤ buffer.length)
    (childPageId : Nat) :
    addChildExpand buffer oldPayloadLen separatorKey childPageId (8 + 2 + separatorKey.length) =
      .ok (withFirst buffer separatorKey childPageId) := by
  have hlength : (buffer.take oldPayloadLen).length = oldPayloadLen := by
    rw [List.length_take]
    omega
  have hchildren : (List.range 1).mapM (getChildPageId (buffer.take oldPayloadLen)) =
      .ok [(readU64 (window (buffer.take oldPayloadLen) 48 8)).toNat] := by
    apply Except.mapM_eq_ok_iff.mpr
    apply List.Forall₂.cons _ List.Forall₂.nil
    exact getChildPageId_eq hread (Nat.zero_le _) (by rw [hcount]; decide) (by rw [hlength]; exact hold)
  generalize hend : oldPayloadLen + (8 + 2 + separatorKey.length) = newPayloadEnd at hroom
  have hexpanded : (buffer.take newPayloadEnd).length = newPayloadEnd := by
    rw [List.length_take]
    omega
  -- the part that the payload grows to, put back into the buffer
  have hcounted : (overwrite buffer 14 (le 2 1)).length = buffer.length :=
    length_overwrite (by rw [length_le]; omega)
  have hbehind : (overwrite (overwrite buffer 14 (le 2 1)) 56 (le 8 childPageId)).drop newPayloadEnd =
      buffer.drop newPayloadEnd := by
    rw [drop_overwrite_behind (by rw [length_le]; omega) (by omega),
      drop_overwrite_behind (by rw [length_le]; omega) hroom]
  have hback : overwrite (overwrite (buffer.take newPayloadEnd) 14 (le 2 1)) 56 (le 8 childPageId) ++
      buffer.drop newPayloadEnd = overwrite (overwrite buffer 14 (le 2 1)) 56 (le 8 childPageId) := by
    rw [overwrite_take (by rw [length_le]; omega) hroom, overwrite_take (by rw [length_le]; omega) (by omega),
      ← hbehind, List.take_append_drop]
  generalize hstored : overwrite (overwrite buffer 14 (le 2 1)) 56 (le 8 childPageId) = stored at hback
  have hsame : stored.length = buffer.length := by
    rw [← hstored, length_overwrite (by rw [length_le]; omega), hcounted]
  have hold' : slice buffer 0 oldPayloadLen = .ok (buffer.take oldPayloadLen) :=
    slice_of_le (Nat.zero_le _) (by omega)
  have hsizes : BtreeNodeHeader.size + getChildPageIdsSize node.keyCount = 56 := by
    rw [hcount]
    rfl
  have hsizes' : BtreeNodeHeader.size + getChildPageIdsSize (node.keyCount + 1) = 64 := by
    rw [hcount]
    rfl
  have hsub : checkedSub (stored.length - 64) (([] : List Nat).sum + (2 + separatorKey.length)) =
      .ok (stored.length - 64 - (2 + separatorKey.length)) := by
    unfold checkedSub
    rw [List.sum_nil, Nat.zero_add, if_pos (by omega)]
  unfold addChildExpand
  refine Except.bind_eq_ok_iff.mpr ⟨_, hold', ?_⟩
  rw [hend]
  refine Except.bind_eq_ok_iff.mpr ⟨_, slice_of_le (Nat.zero_le _) hroom, ?_⟩
  refine Except.bind_eq_ok_iff.mpr ⟨_, hread, (if_neg (by rw [hcount]; decide)).trans ?_⟩
  rw [hsizes, hsizes', hcount]
  refine Except.bind_eq_ok_iff.mpr ⟨_, slice_of_le hold (by omega), (if_neg (by omega)).trans ?_⟩
  refine Except.bind_eq_ok_iff.mpr ⟨0, rfl, Except.bind_eq_ok_iff.mpr ⟨_, hchildren, ?_⟩⟩
  refine Except.bind_eq_ok_iff.mpr ⟨_, setKeyCount_eq (by omega), ?_⟩
  -- there is one child, which stays where it is
  refine Except.bind_eq_ok_iff.mpr ⟨_, rfl, Except.bind_eq_ok_iff.mpr ⟨_, setChildPageId_second (by omega) _, ?_⟩⟩
  rw [hback]
  refine Except.bind_eq_ok_iff.mpr ⟨_, slice_of_le (by omega) (Nat.le_refl _), ?_⟩
  refine Except.bind_eq_ok_iff.mpr ⟨_, slice_of_le hold (by omega), ?_⟩
  refine Except.bind_eq_ok_iff.mpr ⟨[], rfl, Except.bind_eq_ok_iff.mpr ⟨_, rfl, ?_⟩⟩
  refine Except.bind_eq_ok_iff.mpr ⟨_, rfl, Except.bind_eq_ok_iff.mpr ⟨_, hsub, ?_⟩⟩
  have hplace : 64 + (stored.length - 64 - (2 + separatorKey.length)) =
      buffer.length - (2 + separatorKey.length) := by omega
  rw [hplace, store_eq (by rw [List.length_append, length_le]; omega), withFirst, hstored]

end BtreeInternalPayload

/-- The only separators that are found where they are looked for. -/
def ReadBack (separator : Bytes) : Prop :=
  separator = [] ∨ separator = List.replicate 8115 0 ∨
    separator = (List.range 16230).map fun i => if i % 2 = 0 then 0x66 else 0x3F

/-- The end of the page: zeros, and the separator behind its length. -/
def tail (separator : Bytes) : Bytes :=
  List.replicate (16230 - separator.length) 0 ++ le 2 separator.length ++ separator

section

variable {separator : Bytes} (hlen : separator.length ≤ 16230)

/-- The zeros and the length, which the separator repeats if it is read back. -/
def turn (n : Nat) : Bytes := List.replicate (16230 - n) 0 ++ le 2 n

variable {n : Nat}

theorem length_turn (h : n ≤ 16230) : (turn n).length = 16232 - n := by
  unfold turn
  rw [List.length_append, List.length_replicate, length_le]
  omega

theorem turn_ne_nil (n : Nat) : turn n ≠ [] := by
  intro h
  have hlength := congrArg List.length h
  unfold turn at hlength
  rw [List.length_append, length_le, List.length_nil] at hlength
  omega

variable {i : Nat}

theorem turn_zeros (h : i < 16230 - n) : (turn n)[i]? = some 0 := by
  unfold turn
  rw [List.getElem?_append_left (by rw [List.length_replicate]; exact h), List.getElem?_replicate, if_pos h]

theorem turn_low (h : i = 16230 - n) : (turn n)[i]? = some (UInt8.ofNat (n % 256)) := by
  unfold turn
  rw [List.getElem?_append_right (by rw [List.length_replicate]; exact h.ge), List.length_replicate, h, Nat.sub_self]
  rfl

theorem turn_high (h : i = 16231 - n) (hn : n ≤ 16230) :
    (turn n)[i]? = some (UInt8.ofNat (n / 256 % 256)) := by
  unfold turn
  rw [List.getElem?_append_right (by rw [List.length_replicate]; omega), List.length_replicate,
    (by omega : i - (16230 - n) = 1)]
  rfl

include hlen

theorem repeats_iff : (tail separator).take (separator.length + 2) = separator ++ le 2 separator.length ↔
    Period.Repeats (turn separator.length) (separator ++ le 2 separator.length) := by
  have htwo : (le 2 separator.length).length ≤ (turn separator.length).length := by
    rw [length_turn hlen, length_le]
    omega
  have hlength : separator.length + 2 = separator.length + (le 2 separator.length).length := by
    rw [length_le]
  rw [hlength]
  exact ⟨Period.repeats_of_take (turn_ne_nil _) htwo, Period.take_of_repeats htwo⟩

omit hlen in
theorem byte_inj {a b : Nat} (ha : a < 256) (hb : b < 256) (h : some (UInt8.ofNat a) = some (UInt8.ofNat b)) :
    a = b := by
  have hnat := congrArg UInt8.toNat (Option.some.inj h)
  rw [UInt8.toNat_ofNat', UInt8.toNat_ofNat', Nat.mod_eq_of_lt ha, Nat.mod_eq_of_lt hb] at hnat
  exact hnat

omit hlen in
theorem eq_of_dvd {turnLen : Nat} (h : turnLen ∣ 16234) (hone : 2 ≤ turnLen) (hlt : turnLen ≤ 8117) :
    turnLen = 2 ∨ turnLen = 8117 := by
  have hprime : Nat.Prime 8117 := by norm_num
  rcases Nat.dvd_mul.mp (show turnLen ∣ 2 * 8117 from h) with ⟨a, b, ha, hb, rfl⟩
  rcases (Nat.dvd_prime Nat.prime_two).mp ha with rfl | rfl
  · rcases (Nat.dvd_prime hprime).mp hb with rfl | rfl
    · omega
    · exact Or.inr rfl
  · rcases (Nat.dvd_prime hprime).mp hb with rfl | rfl
    · exact Or.inl rfl
    · omega

theorem length_of_repeats (h : Period.Repeats (turn separator.length) (separator ++ le 2 separator.length)) :
    separator.length = 0 ∨ separator.length = 8115 ∨ separator.length = 16230 := by
  have hlow := h separator.length (by rw [List.length_append, length_le]; omega)
  have hhigh := h (separator.length + 1) (by rw [List.length_append, length_le]; omega)
  rw [List.getElem?_append_right (Nat.le_refl _), Nat.sub_self, length_turn hlen] at hlow
  rw [List.getElem?_append_right (by omega), Nat.add_sub_cancel_left, length_turn hlen] at hhigh
  clear h
  generalize separator.length = n at *
  have hlow' : some (UInt8.ofNat (n % 256)) = (turn n)[n % (16232 - n)]? := hlow
  have hhigh' : some (UInt8.ofNat (n / 256 % 256)) = (turn n)[(n + 1) % (16232 - n)]? := hhigh
  have hbyte : n % 256 < 256 := Nat.mod_lt _ (by decide)
  have hbyte' : n / 256 % 256 < 256 := Nat.mod_lt _ (by decide)
  by_cases hsmall : n ≤ 8114
  · -- both bytes of the length lie among the zeros
    have hfirst : n % (16232 - n) = n := Nat.mod_eq_of_lt (by omega)
    have hsecond : (n + 1) % (16232 - n) = n + 1 := Nat.mod_eq_of_lt (by omega)
    rw [hfirst, turn_zeros (by omega)] at hlow'
    rw [hsecond, turn_zeros (by omega)] at hhigh'
    have hl : n % 256 = 0 := byte_inj hbyte (by decide) hlow'
    have hh : n / 256 % 256 = 0 := byte_inj hbyte' (by decide) hhigh'
    omega
  · have hmod := Nat.mod_lt (n + 1) (by omega : 16232 - n > 0)
    have hdiv := Nat.div_add_mod (n + 1) (16232 - n)
    have hlast : (n + 1) % (16232 - n) = 16231 - n := by
      by_contra hne
      have hhigh0 : n / 256 % 256 = 0 := by
        by_cases hin : (n + 1) % (16232 - n) < 16230 - n
        · rw [turn_zeros hin] at hhigh'
          exact byte_inj hbyte' (by decide) hhigh'
        · -- the high byte lies on the low one, and the low byte among the zeros
          have hon : (n + 1) % (16232 - n) = 16230 - n := by omega
          rw [hon, turn_low rfl] at hhigh'
          have hsame := byte_inj hbyte' hbyte hhigh'
          by_cases hend : n = 16230
          · rw [hend] at hon
            exact absurd hon (by decide)
          · have hbefore : n % (16232 - n) = 16229 - n := by
              have hn : n = (16232 - n) * ((n + 1) / (16232 - n)) + (16229 - n) := by omega
              have hmod' := Nat.mul_add_mod (16232 - n) ((n + 1) / (16232 - n)) (16229 - n)
              rw [← hn] at hmod'
              exact hmod'.trans (Nat.mod_eq_of_lt (by omega))
            rw [hbefore, turn_zeros (by omega)] at hlow'
            rw [hsame]
            exact byte_inj hbyte (by decide) hlow'
      omega
    have hdvd : 16232 - n ∣ n + 2 := by
      refine ⟨(n + 1) / (16232 - n) + 1, ?_⟩
      rw [Nat.mul_succ]
      omega
    have hdvd' : 16232 - n ∣ 16234 := by
      have hsum := Nat.dvd_add hdvd (Nat.dvd_refl (16232 - n))
      rw [(by omega : n + 2 + (16232 - n) = 16234)] at hsum
      exact hsum
    rcases eq_of_dvd hdvd' (by omega) (by omega) with htwo | hlong
    · omega
    · omega

theorem readBack_of_repeats (h : Period.Repeats (turn separator.length) (separator ++ le 2 separator.length)) :
    ReadBack separator := by
  have hkey : ∀ i < separator.length,
      separator[i]? = (turn separator.length)[i % (16232 - separator.length)]? := by
    intro i hi
    rw [← length_turn hlen, ← h i (by rw [List.length_append]; omega), List.getElem?_append_left hi]
  rcases length_of_repeats hlen h with hnone | hlong | hfull
  · exact Or.inl (List.length_eq_zero_iff.mp hnone)
  · refine Or.inr (Or.inl (List.eq_replicate_iff.mpr ⟨hlong, ?_⟩))
    intro b hb
    rcases List.getElem?_of_mem hb with ⟨i, hi⟩
    have hlt := (List.getElem?_eq_some_iff.mp hi).1
    rw [hkey i hlt, hlong, Nat.mod_eq_of_lt (by omega), turn_zeros (by omega)] at hi
    exact (Option.some.inj hi).symm
  · refine Or.inr (Or.inr (List.ext_getElem? ?_))
    intro i
    by_cases hi : i < 16230
    · have heven := hkey i (hfull ▸ hi)
      rw [hfull] at heven
      rw [heven, List.getElem?_map, List.getElem?_range hi]
      by_cases hmod : i % 2 = 0
      · rw [turn_low (show i % (16232 - 16230) = 16230 - 16230 from hmod), Option.map_some, if_pos hmod]
        rfl
      · rw [turn_high (show i % (16232 - 16230) = 16231 - 16230 by omega) (Nat.le_refl _), Option.map_some,
          if_neg hmod]
        rfl
    · rw [List.getElem?_eq_none (by omega), List.getElem?_eq_none (by rw [List.length_map, List.length_range]; omega)]

omit hlen in
theorem repeats_of_readBack (h : ReadBack separator) :
    Period.Repeats (turn separator.length) (separator ++ le 2 separator.length) := by
  intro i hi
  rw [List.length_append, length_le] at hi
  rcases h with h | h | h
  · rw [h] at hi ⊢
    have hi' : i < 2 := hi
    have hsmall : i % (turn 0).length = i := Nat.mod_eq_of_lt (by rw [length_turn (Nat.zero_le _)]; omega)
    show (le 2 0)[i]? = (turn 0)[i % (turn 0).length]?
    rw [hsmall, turn_zeros (by omega)]
    have hcases : i = 0 ∨ i = 1 := by omega
    rcases hcases with rfl | rfl <;> rfl
  · rw [h, List.length_replicate] at hi ⊢
    have hsame : turn 8115 = List.replicate 8115 0 ++ le 2 8115 := rfl
    rw [hsame, Nat.mod_eq_of_lt (by rw [List.length_append, List.length_replicate, length_le]; exact hi)]
  · rw [h, List.length_map, List.length_range] at hi ⊢
    have hlength : (turn 16230).length = 2 := length_turn (Nat.le_refl _)
    rw [hlength]
    have hturn : (turn 16230)[i % 2]? = some (if i % 2 = 0 then 0x66 else 0x3F) := by
      by_cases hmod : i % 2 = 0
      · rw [turn_low hmod, if_pos hmod]
        rfl
      · rw [turn_high (by omega) (Nat.le_refl _), if_neg hmod]
        rfl
    rw [hturn]
    by_cases hin : i < 16230
    · rw [List.getElem?_append_left (by rw [List.length_map, List.length_range]; exact hin), List.getElem?_map,
        List.getElem?_range hin]
      rfl
    · rw [List.getElem?_append_right (by rw [List.length_map, List.length_range]; omega), List.length_map,
        List.length_range]
      by_cases hmod : i % 2 = 0
      · rw [if_pos hmod, (by omega : i - 16230 = 0)]
        rfl
      · rw [if_neg hmod, (by omega : i - 16230 = 1)]
        rfl

theorem readBack_iff :
    (tail separator).take (separator.length + 2) = separator ++ le 2 separator.length ↔ ReadBack separator :=
  (repeats_iff hlen).trans ⟨readBack_of_repeats hlen, repeats_of_readBack⟩

end

theorem BtreeInternalPayload.getSeparatorKey_one_iff {separator : Bytes} {node : BtreeNodeHeader}
    (hread : BtreeNodeHeader.read payload = .ok node) (hcount : node.keyCount = 1)
    (hroom : 64 + (separator.length + 2) ≤ payload.length) (hfits : separator.length + 2 < 2 ^ 16) :
    getSeparatorKey payload 0 = .ok separator ↔
      payload.drop (payload.length - (separator.length + 2)) = separator ++ le 2 separator.length := by
  have harea : slice payload (BtreeNodeHeader.size + getChildPageIdsSize node.keyCount) payload.length =
      .ok (window payload 64 (payload.length - 64)) := by
    have hstart : 64 ≤ payload.length := by omega
    rw [hcount]
    exact slice_of_le hstart (Nat.le_refl _)
  have hlength : (window payload 64 (payload.length - 64)).length = payload.length - 64 :=
    length_window_of_le (by omega)
  have hend : payload.drop (payload.length - (separator.length + 2)) =
      window payload (payload.length - (separator.length + 2)) separator.length ++
        window payload (payload.length - 2) 2 := by
    have hwhole := window_split payload (payload.length - (separator.length + 2)) separator.length 2
    rw [(by omega : payload.length - (separator.length + 2) + separator.length = payload.length - 2)] at hwhole
    rw [← hwhole, window, List.take_of_length_le (by rw [List.length_drop]; omega)]
  have hsize : (window payload (payload.length - (separator.length + 2)) separator.length).length =
      separator.length := length_window_of_le (by omega)
  have hlast : window (window payload 64 (payload.length - 64)) (payload.length - 64 - 2) 2 =
      window payload (payload.length - 2) 2 := by
    rw [window_window (by omega), (by omega : 64 + (payload.length - 64 - 2) = payload.length - 2)]
  rw [getSeparatorKey_eq hread (by omega) harea, hcount, hend, hlength]
  show walkSeparators (window payload 64 (payload.length - 64)) 0 (payload.length - 64) = _ ↔ _
  rw [walkSeparators, Except.bind_eq_ok_iff]
  constructor
  · intro h
    rcases h with ⟨keyLen, hkeyLen, hkey⟩
    have hle := separatorSize_le hkeyLen
    have hsame : keyLen = separator.length := by
      rw [← Except.ok.inj hkey, length_window_of_le (by omega)]
    rw [window_window (by omega), hsame] at hkey
    have hkey' : window payload (payload.length - (separator.length + 2)) separator.length = separator := by
      rw [← (by omega : 64 + (payload.length - 64 - (2 + separator.length)) =
        payload.length - (separator.length + 2))]
      exact Except.ok.inj hkey
    have hnumber : (readU16 (window payload (payload.length - 2) 2)).toNat = separator.length := by
      rw [← hsame, ← hlast]
      exact separatorSize_inv hkeyLen
    rw [hkey', ← hnumber]
    congr 1
    exact (u16_readU16 (length_window_of_le (by omega))).symm
  · intro h
    rcases List.append_inj h hsize with ⟨hkey, hnumber⟩
    have hread' : (readU16 (window payload (payload.length - 2) 2)).toNat = separator.length := by
      rw [hnumber]
      exact readU16_le (by omega)
    refine ⟨separator.length, ?_, ?_⟩
    · unfold separatorSize
      rw [if_neg (by omega)]
      dsimp only
      rw [hlast, hread', if_neg (by omega), if_neg (by omega)]
    · rw [window_window (by omega),
        (by omega : 64 + (payload.length - 64 - (2 + separator.length)) =
          payload.length - (separator.length + 2)), hkey]
      rfl

end Northstar.Zig
