import Northstar.Zig.FirstSeparator

/-!
# Routing — which child of an internal node a key is sent to

A node that is built by the calls of the source sends keys to the right children in a few cases only, which are
listed here.
-/

namespace Northstar.Zig

open Bytes

theorem BtreeNodeHeader.encode_fields (node : BtreeNodeHeader) (rest : Bytes) :
    window (node.encode ++ rest) 0 8 = le 8 node.rightSibling ∧
      window (node.encode ++ rest) 8 4 = u32 node.nodeMagic ∧
      window (node.encode ++ rest) 12 2 = le 2 node.level ∧
      window (node.encode ++ rest) 14 2 = le 2 node.keyCount := by
  have hfields : node.encode ++ rest = le 8 node.rightSibling ++ (u32 node.nodeMagic ++ (le 2 node.level ++
      (le 2 node.keyCount ++ (List.replicate 32 0 ++ rest)))) := by
    unfold encode
    simp only [List.append_assoc]
  rw [hfields]
  refine ⟨window_head (length_le 8 _), window_append_middle (length_le 8 _) (length_u32 _), ?_, ?_⟩
  · rw [← List.append_assoc]
    exact window_append_middle (by rw [List.length_append, length_le, length_u32]) (length_le 2 _)
  · rw [← List.append_assoc, ← List.append_assoc]
    exact window_append_middle (by simp only [List.length_append, length_le, length_u32]) (length_le 2 _)

namespace BtreeInternalPayload

section

variable {buffer separatorKey : Bytes} (hbuffer : buffer.length = 16344) (hlen : separatorKey.length ≤ 16230)

include hbuffer hlen

omit hlen in
theorem withFirst_lengths (childPageId : Nat) : (overwrite buffer 14 (le 2 1)).length = 16344 ∧
      (overwrite (overwrite buffer 14 (le 2 1)) 56 (le 8 childPageId)).length = 16344 := by
  have hcounted : (overwrite buffer 14 (le 2 1)).length = 16344 := by
    rw [length_overwrite (by rw [length_le]; omega), hbuffer]
  exact ⟨hcounted, by rw [length_overwrite (by rw [length_le]; omega), hcounted]⟩

theorem length_withFirst (childPageId : Nat) : (withFirst buffer separatorKey childPageId).length = 16344 := by
  have hstored := (withFirst_lengths hbuffer childPageId).2
  unfold withFirst
  rw [length_overwrite (by rw [List.length_append, length_le]; omega), hstored]

theorem withFirst_fields (childPageId : Nat) :
    window (withFirst buffer separatorKey childPageId) 14 2 = le 2 1 ∧
      window (withFirst buffer separatorKey childPageId) 56 8 = le 8 childPageId ∧
      ∀ off len, off + len ≤ 14 ∨ 16 ≤ off ∧ off + len ≤ 56 →
        window (withFirst buffer separatorKey childPageId) off len = window buffer off len := by
  rcases withFirst_lengths hbuffer childPageId with ⟨hcounted, hstored⟩
  have hlast : ∀ off len, off + len ≤ 64 → window (withFirst buffer separatorKey childPageId) off len =
      window (overwrite (overwrite buffer 14 (le 2 1)) 56 (le 8 childPageId)) off len := by
    intro off len hoff
    exact window_overwrite_apart (by rw [List.length_append, length_le]; omega) (Or.inl (by omega))
  refine ⟨?_, ?_, ?_⟩
  · rw [hlast 14 2 (by omega), window_overwrite_apart (by rw [length_le]; omega) (Or.inl (by omega))]
    exact window_overwrite (by rw [length_le]; omega)
  · rw [hlast 56 8 (by omega)]
    exact window_overwrite (by rw [length_le]; omega)
  · intro off len hapart
    rw [hlast off len (by omega), window_overwrite_apart (by rw [length_le]; omega) (Or.inl (by omega)),
      window_overwrite_apart (by rw [length_le]; omega) (by rw [length_le]; omega)]

theorem drop_withFirst (hzeros : buffer.drop 104 = List.replicate 16240 0) (childPageId : Nat) :
    (withFirst buffer separatorKey childPageId).drop 112 = tail separatorKey := by
  rcases withFirst_lengths hbuffer childPageId with ⟨hcounted, hstored⟩
  have hrest : (overwrite (overwrite buffer 14 (le 2 1)) 56 (le 8 childPageId)).drop 112 =
      List.replicate 16232 0 := by
    rw [drop_overwrite_behind (by rw [length_le]; omega) (by omega),
      drop_overwrite_behind (by rw [length_le]; omega) (by omega), ← Nat.add_sub_of_le (show 104 ≤ 112 by decide),
      ← List.drop_drop, hzeros, List.drop_replicate]
  have hend : (le 2 separatorKey.length ++ separatorKey).length = 2 + separatorKey.length := by
    rw [List.length_append, length_le]
  unfold withFirst tail
  rw [drop_overwrite (by omega) (by omega), hrest, overwrite, List.take_replicate, List.drop_replicate, hend,
    (by omega : min (buffer.length - (2 + separatorKey.length) - 112) 16232 = 16230 - separatorKey.length),
    (by omega : 16232 - (buffer.length - (2 + separatorKey.length) - 112 + (2 + separatorKey.length)) = 0),
    List.replicate_zero, List.append_nil, List.append_assoc]

end

end BtreeInternalPayload

/-- When the node that is built does its work: there are no separators, or one of those that are read back.
The right sibling is taken for the first child. -/
def InternalArgs.Good (args : InternalArgs) (firstChildId : Nat) : List (Bytes × Nat) → Prop
  | [] => args.level ≠ 0 ∧ args.rightSibling ≠ 0 ∧ args.rightSibling = firstChildId
  | [(separator, child)] => args.rightSibling ≠ 0 ∧ child ≠ 0 ∧ ReadBack separator ∧
      (separator = [] ∨ args.rightSibling = firstChildId)
  | _ => False

/-- The numbers fit into their fields. -/
structure InternalArgs.Fits (args : InternalArgs) : Prop where
  level : args.level < 2 ^ 16
  rightSibling : args.rightSibling < 2 ^ 64

section

variable {args : InternalArgs} {firstChildId : Nat}

theorem body_fields (args : InternalArgs) (firstChildId : Nat) : window (args.body firstChildId) 0 8 = le 8 args.rightSibling ∧
    window (args.body firstChildId) 8 4 = u32 0x42545245 ∧
    window (args.body firstChildId) 12 2 = le 2 args.level ∧
    window (args.body firstChildId) 14 2 = le 2 0 ∧
    window (args.body firstChildId) 48 8 = le 8 args.rightSibling ∧
    (args.body firstChildId).drop 104 = List.replicate 16240 0 := by
  have hlength := BtreeNodeHeader.length_encode args.node
  have hsplit : args.body firstChildId = args.node.encode ++ (args.node.encode ++
      (le 8 firstChildId ++ List.replicate (Page.bodySize - 104) 0)) := by
    unfold InternalArgs.body
    simp only [List.append_assoc]
  have houter := args.node.encode_fields (args.node.encode ++
    (le 8 firstChildId ++ List.replicate (Page.bodySize - 104) 0))
  have hinner := args.node.encode_fields (le 8 firstChildId ++ List.replicate (Page.bodySize - 104) 0)
  rw [hsplit]
  refine ⟨houter.1, houter.2.1, houter.2.2.1, houter.2.2.2, ?_, ?_⟩
  · rw [window_append_right (by rw [hlength]), hlength]
    exact hinner.1
  · rw [← List.append_assoc, ← List.append_assoc]
    exact List.drop_left' (by simp only [List.length_append, hlength, length_le])

variable (hfits : args.Fits)

include hfits

theorem read_new (firstChildId : Nat) : BtreeNodeHeader.read ((args.body firstChildId).take 104) = .ok args.node := by
  rcases body_fields args firstChildId with ⟨hright, hmagic, hlevel, hcount, -, -⟩
  have hlength := length_body args firstChildId
  apply BtreeNodeHeader.read_of_windows _ ⟨hfits.rightSibling, hfits.level, Nat.two_pow_pos 16⟩
  · rw [window_take (by omega)]
    exact hright
  · rw [window_take (by omega)]
    exact hmagic
  · rw [window_take (by omega)]
    exact hlevel
  · rw [window_take (by omega)]
    exact hcount
  · rw [List.length_take]
    omega

omit hfits in
theorem not_accepted_of_leaf (hlevel : args.level = 0) :
    ¬ validateBtreeInternal (Page.rehash ⟨args.header, args.body firstChildId⟩) = .ok () := by
  intro h
  unfold validateBtreeInternal at h
  rcases Except.bind_eq_ok_iff.mp h with ⟨header, -, h⟩
  rcases Except.bind_eq_ok_iff.mp h with ⟨payload, -, h⟩
  rcases Except.bind_eq_ok_iff.mp h with ⟨header, hvalid, h⟩
  rw [Except.guard_eq_ok_iff, (validatePage_eq_ok hvalid).1, Page.rehash_pageType, InternalArgs.header,
    if_pos hlevel] at h
  exact h.1 (by intro heq; cases heq)

theorem routes_new_iff (hlevel : args.level ≠ 0) :
    Routes (Page.rehash ⟨args.header, args.body firstChildId⟩) firstChildId [] ↔
      args.Good firstChildId [] := by
  rcases body_fields args firstChildId with ⟨-, -, -, -, hchild, -⟩
  have hinternal : IsInternal (Page.rehash ⟨args.header, args.body firstChildId⟩) := by
    refine isInternal_rehash rfl rfl (if_neg hlevel) ?_
    show 104 ≤ (args.body firstChildId).length
    rw [length_body]
    decide
  have hlength : ((args.body firstChildId).take 104).length = 104 := by
    rw [List.length_take, length_body]
    rfl
  have hread := read_new hfits firstChildId
  have hfirst : BtreeInternalPayload.getChildPageId ((args.body firstChildId).take 104) 0 =
      .ok args.rightSibling := by
    rw [BtreeInternalPayload.getChildPageId_eq hread (Nat.zero_le _) (Nat.zero_le _) (by omega),
      window_take (by omega), hchild, readU64_le hfits.rightSibling]
  exact routes_nil_iff hinternal hread rfl rfl (show 56 ≤ ((args.body firstChildId).take 104).length by omega) hfirst

def InternalArgs.pageWithFirst (args : InternalArgs) (firstChildId : Nat) (separator : Bytes) (child : Nat) : Page :=
  Page.rehash ⟨{ (Page.rehash ⟨args.header, args.body firstChildId⟩).header with
      payloadLen := 104 + (8 + 2 + separator.length) },
    BtreeInternalPayload.withFirst (args.body firstChildId) separator child⟩

variable {separator : Bytes}

open BtreeInternalPayload in
theorem routes_first_iff {child : Nat} (hlevel : args.level ≠ 0)
    (hlen : separator.length ≤ 16230) (hchild : child < 2 ^ 64) :
    Routes (args.pageWithFirst firstChildId separator child) firstChildId [(separator, child)] ↔
      args.Good firstChildId [(separator, child)] := by
  rcases body_fields args firstChildId with ⟨hright, hmagic, hlevel', -, hinner, hzeros⟩
  have hbody := length_body args firstChildId
  have hout := length_withFirst hbody hlen child
  rcases withFirst_fields hbody hlen child with ⟨hcount, hsecond, hkept⟩
  have hinternal : IsInternal (args.pageWithFirst firstChildId separator child) := by
    refine isInternal_rehash rfl rfl (if_neg hlevel) ?_
    show 104 + (8 + 2 + separator.length) ≤ (withFirst (args.body firstChildId) separator child).length
    omega
  have htail := drop_withFirst hbody hlen hzeros child
  have hpayload : (args.pageWithFirst firstChildId separator child).payload =
      (withFirst (args.body firstChildId) separator child).take (104 + (8 + 2 + separator.length)) := rfl
  generalize withFirst (args.body firstChildId) separator child = out at *
  have hlength : (out.take (104 + (8 + 2 + separator.length))).length = 114 + separator.length := by
    rw [List.length_take]
    omega
  have hread : BtreeNodeHeader.read (out.take (104 + (8 + 2 + separator.length))) =
      .ok { args.node with keyCount := 1 } := by
    apply BtreeNodeHeader.read_of_windows (by omega) ⟨hfits.rightSibling, hfits.level, show 1 < 2 ^ 16 by decide⟩
    · rw [window_take (by omega), hkept 0 8 (by omega)]
      exact hright
    · rw [window_take (by omega), hkept 8 4 (by omega)]
      exact hmagic
    · rw [window_take (by omega), hkept 12 2 (by omega)]
      exact hlevel'
    · rw [window_take (by omega)]
      exact hcount
  have hleft : getChildPageId (out.take (104 + (8 + 2 + separator.length))) 0 = .ok args.rightSibling := by
    rw [getChildPageId_eq hread (Nat.zero_le _) (show 1 ≤ 200 by decide) (by omega), window_take (by omega),
      hkept 48 8 (by omega), hinner, readU64_le hfits.rightSibling]
  have hright' : getChildPageId (out.take (104 + (8 + 2 + separator.length))) 1 = .ok child := by
    rw [getChildPageId_eq (i := 1) hread (Nat.le_refl 1) (show 1 ≤ 200 by decide) (by omega), window_take (by omega), hsecond,
      readU64_le hchild]
  have hback : getSeparatorKey (out.take (104 + (8 + 2 + separator.length))) 0 = .ok separator ↔
      ReadBack separator := by
    rw [getSeparatorKey_one_iff hread rfl (by omega) (by omega), hlength,
      (by omega : 114 + separator.length - (separator.length + 2) = 112), List.drop_take, htail,
      (by omega : 104 + (8 + 2 + separator.length) - 112 = separator.length + 2)]
    exact readBack_iff hlen
  rw [← hpayload] at hread hlength hleft hright' hback
  rw [routes_one_iff hinternal hread rfl rfl (by omega) hleft hright', hback]
  exact ⟨fun h => h.2, fun h => ⟨hlevel, h⟩⟩

omit hfits in
theorem addChildToBtreeInternal_new (hlevel : args.level ≠ 0) (hlen : separator.length ≤ 16230)
    (hread : BtreeNodeHeader.read ((args.body firstChildId).take 104) = .ok args.node) (child : Nat) :
    addChildToBtreeInternal (Page.rehash ⟨args.header, args.body firstChildId⟩) separator child =
      .ok (args.pageWithFirst firstChildId separator child) := by
  have hbody := length_body args firstChildId
  have htype : (Page.rehash ⟨args.header, args.body firstChildId⟩).header.pageType = .btreeInternal :=
    if_neg hlevel
  have hinternal : IsInternal (Page.rehash ⟨args.header, args.body firstChildId⟩) := by
    refine isInternal_rehash rfl rfl htype ?_
    show 104 ≤ (args.body firstChildId).length
    omega
  have hroom : 104 + (8 + 2 + separator.length) ≤ (args.body firstChildId).length := by omega
  have hadd := BtreeInternalPayload.addChildExpand_first hread rfl (by omega) hroom child
  have hcast : intCast 32 (104 + (8 + 2 + separator.length)) = .ok (104 + (8 + 2 + separator.length)) := by
    unfold intCast
    rw [if_pos (by omega)]
  unfold addChildToBtreeInternal
  refine Except.bind_eq_ok_iff.mpr ⟨_, hinternal.decodes, (if_neg (not_not.mpr htype)).trans ?_⟩
  exact Except.bind_eq_ok_iff.mpr ⟨_, hadd, Except.bind_eq_ok_iff.mpr ⟨_, hcast, rfl⟩⟩

omit hfits in
theorem of_addChildToBtreeInternal {child : Nat} {page : Page}
    (h : addChildToBtreeInternal (Page.rehash ⟨args.header, args.body firstChildId⟩) separator child = .ok page) :
    args.level ≠ 0 ∧ separator.length ≤ 16230 := by
  have hbody := length_body args firstChildId
  unfold addChildToBtreeInternal at h
  rcases Except.bind_eq_ok_iff.mp h with ⟨header, hdecode, h⟩
  rw [(decode_eq_ok hdecode).1, Except.guard_eq_ok_iff] at h
  rcases Except.bind_eq_ok_iff.mp h.2 with ⟨body, hadd, -⟩
  unfold BtreeInternalPayload.addChildExpand at hadd
  rcases Except.bind_eq_ok_iff.mp hadd with ⟨_, -, hadd⟩
  rcases Except.bind_eq_ok_iff.mp hadd with ⟨_, hroom, -⟩
  constructor
  · intro hlevel
    have htype : (Page.rehash ⟨args.header, args.body firstChildId⟩).header.pageType = .btreeLeaf := if_pos hlevel
    rw [htype] at h
    exact h.1 (by intro heq; cases heq)
  · have hend := (slice_inv hroom).1
    have hend' : 104 + (8 + 2 + separator.length) ≤ (args.body firstChildId).length := hend
    omega

theorem buildInternal_one (hlevel : args.level ≠ 0) (hlen : separator.length ≤ 16230)
    (child : Nat) : buildInternal args firstChildId [(separator, child)] =
      .ok (args.pageWithFirst firstChildId separator child) := by
  unfold buildInternal
  rw [createEmptyBtreeInternal_eq, Except.ok_bind]
  exact Except.bind_eq_ok_iff.mpr ⟨_, addChildToBtreeInternal_new hlevel hlen (read_new hfits _) child, rfl⟩

/-- A node that a run of calls has built does its work only in the cases of `Good`, and in all of them. -/
theorem routes_iff_good {calls : List (Bytes × Nat)} {page : Page} (hchildren : ∀ call ∈ calls, call.2 < 2 ^ 64)
    (h : buildInternal args firstChildId calls = .ok page) :
    Routes page firstChildId calls ↔ args.Good firstChildId calls := by
  unfold buildInternal at h
  rw [createEmptyBtreeInternal_eq, Except.ok_bind] at h
  cases calls with
  | nil =>
    rw [← Except.ok.inj h]
    by_cases hlevel : args.level = 0
    · constructor
      · intro hroutes
        exact absurd hroutes.accepted (not_accepted_of_leaf hlevel)
      · intro hgood
        exact absurd hlevel hgood.1
    · exact routes_new_iff hfits hlevel
  | cons call rest =>
    cases rest with
    | nil =>
      rcases Except.bind_eq_ok_iff.mp h with ⟨page', hadd, hpage⟩
      have hfirst : addChildToBtreeInternal (Page.rehash ⟨args.header, args.body firstChildId⟩) call.1 call.2 =
          .ok page' := hadd
      rcases of_addChildToBtreeInternal hfirst with ⟨hlevel, hlen⟩
      rw [addChildToBtreeInternal_new hlevel hlen (read_new hfits _)] at hfirst
      rw [← Except.ok.inj hpage, ← Except.ok.inj hfirst]
      exact routes_first_iff hfits hlevel hlen (hchildren call (List.mem_singleton_self _))
    | cons other rest =>
      constructor
      · intro hroutes
        exact absurd hroutes (not_routes_of_two (by simp))
      · intro hgood
        cases hgood

end

/-- The empty separator is read back, and no key is sent to the child in front of it. -/
theorem routes_iff_good_empty_separator :
    ∃ page, buildInternal ⟨2, 1, 1, 10⟩ 10 [([], 20)] = .ok page ∧
      (Routes page 10 [([], 20)] ↔ InternalArgs.Good ⟨2, 1, 1, 10⟩ 10 [([], 20)]) := by
  have hfits : InternalArgs.Fits ⟨2, 1, 1, 10⟩ := ⟨by decide, by decide⟩
  have hbuild : buildInternal ⟨2, 1, 1, 10⟩ 10 [([], 20)] = _ :=
    buildInternal_one hfits Nat.one_ne_zero (Nat.zero_le _) 20
  exact ⟨_, hbuild, routes_iff_good hfits (by decide) hbuild⟩

/-- A root over the children 10 and 20, with the separator `m` and no right sibling. -/
theorem root_of_two_children_does_not_route :
    ∃ page, buildInternal ⟨2, 1, 1, 0⟩ 10 [([109], 20)] = .ok page ∧ ¬ Routes page 10 [([109], 20)] := by
  have hfits : InternalArgs.Fits ⟨2, 1, 1, 0⟩ := ⟨by decide, by decide⟩
  have hlen : ([109] : Bytes).length ≤ 16230 := by decide
  refine ⟨_, buildInternal_one hfits Nat.one_ne_zero hlen 20, ?_⟩
  intro hroutes
  have hgood := (routes_first_iff hfits Nat.one_ne_zero hlen (by decide)).mp hroutes
  exact hgood.1 rfl

end Northstar.Zig
