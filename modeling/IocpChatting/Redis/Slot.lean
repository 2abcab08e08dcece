import IocpChatting.Content.Packet
import IocpChatting.Lib.Crc

/-!
# Slots of a Redis cluster (Content/RedisClient.cpp)

* `crc16Table`, `crc16`     the table and the loop of `CRC16`;
* `hashSlot`                `HASH_SLOT`;
* `crc16_remainder`         `CRC16` is the remainder by `X^16 + X^12 + X^5 + 1`;
* `hashSlot_hashed`         which part of a key decides its slot.
-/

set_option linter.unusedSectionVars false
set_option autoImplicit false

namespace Iocp.Redis
open Polynomial

/-! ## `CRC16` -/

def crc16Table : List (BitVec 16) :=
  [0x0000, 0x1021, 0x2042, 0x3063, 0x4084, 0x50a5, 0x60c6, 0x70e7, 0x8108, 0x9129, 0xa14a, 0xb16b,
   0xc18c, 0xd1ad, 0xe1ce, 0xf1ef, 0x1231, 0x0210, 0x3273, 0x2252, 0x52b5, 0x4294, 0x72f7, 0x62d6,
   0x9339, 0x8318, 0xb37b, 0xa35a, 0xd3bd, 0xc39c, 0xf3ff, 0xe3de, 0x2462, 0x3443, 0x0420, 0x1401,
   0x64e6, 0x74c7, 0x44a4, 0x5485, 0xa56a, 0xb54b, 0x8528, 0x9509, 0xe5ee, 0xf5cf, 0xc5ac, 0xd58d,
   0x3653, 0x2672, 0x1611, 0x0630, 0x76d7, 0x66f6, 0x5695, 0x46b4, 0xb75b, 0xa77a, 0x9719, 0x8738,
   0xf7df, 0xe7fe, 0xd79d, 0xc7bc, 0x48c4, 0x58e5, 0x6886, 0x78a7, 0x0840, 0x1861, 0x2802, 0x3823,
   0xc9cc, 0xd9ed, 0xe98e, 0xf9af, 0x8948, 0x9969, 0xa90a, 0xb92b, 0x5af5, 0x4ad4, 0x7ab7, 0x6a96,
   0x1a71, 0x0a50, 0x3a33, 0x2a12, 0xdbfd, 0xcbdc, 0xfbbf, 0xeb9e, 0x9b79, 0x8b58, 0xbb3b, 0xab1a,
   0x6ca6, 0x7c87, 0x4ce4, 0x5cc5, 0x2c22, 0x3c03, 0x0c60, 0x1c41, 0xedae, 0xfd8f, 0xcdec, 0xddcd,
   0xad2a, 0xbd0b, 0x8d68, 0x9d49, 0x7e97, 0x6eb6, 0x5ed5, 0x4ef4, 0x3e13, 0x2e32, 0x1e51, 0x0e70,
   0xff9f, 0xefbe, 0xdfdd, 0xcffc, 0xbf1b, 0xaf3a, 0x9f59, 0x8f78, 0x9188, 0x81a9, 0xb1ca, 0xa1eb,
   0xd10c, 0xc12d, 0xf14e, 0xe16f, 0x1080, 0x00a1, 0x30c2, 0x20e3, 0x5004, 0x4025, 0x7046, 0x6067,
   0x83b9, 0x9398, 0xa3fb, 0xb3da, 0xc33d, 0xd31c, 0xe37f, 0xf35e, 0x02b1, 0x1290, 0x22f3, 0x32d2,
   0x4235, 0x5214, 0x6277, 0x7256, 0xb5ea, 0xa5cb, 0x95a8, 0x8589, 0xf56e, 0xe54f, 0xd52c, 0xc50d,
   0x34e2, 0x24c3, 0x14a0, 0x0481, 0x7466, 0x6447, 0x5424, 0x4405, 0xa7db, 0xb7fa, 0x8799, 0x97b8,
   0xe75f, 0xf77e, 0xc71d, 0xd73c, 0x26d3, 0x36f2, 0x0691, 0x16b0, 0x6657, 0x7676, 0x4615, 0x5634,
   0xd94c, 0xc96d, 0xf90e, 0xe92f, 0x99c8, 0x89e9, 0xb98a, 0xa9ab, 0x5844, 0x4865, 0x7806, 0x6827,
   0x18c0, 0x08e1, 0x3882, 0x28a3, 0xcb7d, 0xdb5c, 0xeb3f, 0xfb1e, 0x8bf9, 0x9bd8, 0xabbb, 0xbb9a,
   0x4a75, 0x5a54, 0x6a37, 0x7a16, 0x0af1, 0x1ad0, 0x2ab3, 0x3a92, 0xfd2e, 0xed0f, 0xdd6c, 0xcd4d,
   0xbdaa, 0xad8b, 0x9de8, 0x8dc9, 0x7c26, 0x6c07, 0x5c64, 0x4c45, 0x3ca2, 0x2c83, 0x1ce0, 0x0cc1,
   0xef1f, 0xff3e, 0xcf5d, 0xdf7c, 0xaf9b, 0xbfba, 0x8fd9, 0x9ff8, 0x6e17, 0x7e36, 0x4e55, 0x5e74,
   0x2e93, 0x3eb2, 0x0ed1, 0x1ef0]

/-- in `int`, of 32 bits; a `char` has a sign -/
def crc16Step (nCrc : BitVec 16) (c : UInt8) : BitVec 16 :=
  let i := ((nCrc.setWidth 32 >>> 8) ^^^ c.toBitVec.signExtend 32) &&& (0x00ff : BitVec 32)
  ((nCrc.setWidth 32 <<< 8) ^^^ (crc16Table.getD i.toNat 0).setWidth 32).setWidth 16

/-- the first `nLen` bytes at `pszData` -/
def crc16 (pszData : List UInt8) (nLen : Int) : BitVec 16 :=
  (pszData.take nLen.toNat).foldl crc16Step 0

/-! ## `HASH_SLOT` -/

/-- the character that opens a hash tag -/
def openBrace : UInt8 := 0x7b
/-- and the one that closes it -/
def closeBrace : UInt8 := 0x7d

/-- `size_t` lengths go to `CRC16` as `int` -/
def hashSlot (strKey : List UInt8) : Nat :=
  let nKeyLen := strKey.length
  let nStart := strKey.findIdx (· == openBrace)
  if nStart = nKeyLen then (crc16 strKey (int32 nKeyLen)).toNat &&& 16383
  else
    let nEnd := nStart + 1 + (strKey.drop (nStart + 1)).findIdx (· == closeBrace)
    if nEnd = nKeyLen ∨ nEnd = nStart + 1 then (crc16 strKey (int32 nKeyLen)).toNat &&& 16383
    else (crc16 (strKey.drop (nStart + 1)) (int32 (nEnd - nStart - 1))).toNat &&& 16383

/-! ## the remainder -/

def crcTable (b : BitVec 8) : BitVec 16 := crc16Table.getD b.toNat 0

/-- the generator without its highest power -/
def taps : BitVec 16 := 0x1021

theorem crcTable_ok : Crc.tableOk taps crcTable := by decide +kernel

/-- the sign of a character does not reach the table -/
theorem crc16_index (nCrc : BitVec 16) (c : UInt8) :
    ((nCrc.setWidth 32 >>> 8) ^^^ c.toBitVec.signExtend 32) &&& (0x00ff : BitVec 32)
      = ((nCrc >>> (16 - 8)).setWidth 8 ^^^ c.toBitVec).setWidth 32 := by
  apply BitVec.eq_of_getLsbD_eq
  intro i hi
  have hmask : (0x00ff : BitVec 32).getLsbD i = decide (i < 8) := by
    have h : ∀ k : Fin 32, (0x00ff : BitVec 32).getLsbD k = decide ((k : Nat) < 8) := by decide
    exact h ⟨i, hi⟩
  rw [BitVec.getLsbD_and, hmask, BitVec.getLsbD_xor, BitVec.getLsbD_setWidth, BitVec.getLsbD_xor,
    BitVec.getLsbD_setWidth, BitVec.getLsbD_ushiftRight, BitVec.getLsbD_ushiftRight,
    BitVec.getLsbD_setWidth, BitVec.getLsbD_signExtend]
  by_cases h8 : i < 8
  · have h1 : 8 + i < 32 := by omega
    simp [hi, h8, h1]
  · rw [BitVec.getLsbD_of_ge c.toBitVec _ (by omega : 8 ≤ i)]
    simp [h8]

theorem crc16Step_eq (nCrc : BitVec 16) (c : UInt8) :
    crc16Step nCrc c = Crc.tableStep crcTable nCrc c.toBitVec := by
  have hback : ∀ b : BitVec 8, (b.setWidth 32).toNat = b.toNat := by
    intro b
    rw [BitVec.toNat_setWidth, Nat.mod_eq_of_lt]
    have := b.isLt
    omega
  unfold crc16Step
  rw [crc16_index]
  show ((nCrc.setWidth 32 <<< 8) ^^^ (crc16Table.getD _ 0).setWidth 32).setWidth 16 = _
  rw [hback]
  show ((nCrc.setWidth 32 <<< 8) ^^^ (crcTable _).setWidth 32).setWidth 16 = _
  unfold Crc.tableStep
  apply BitVec.eq_of_getLsbD_eq
  intro i hi
  simp [hi]

/-- the bytes of a string -/
def bits (bs : List UInt8) : List (BitVec 8) := bs.map UInt8.toBitVec

theorem crc16_eq (pszData : List UInt8) (nLen : Int) :
    crc16 pszData nLen = Crc.crc crcTable (bits (pszData.take nLen.toNat)) := by
  unfold crc16 Crc.crc bits
  rw [List.foldl_map]
  congr 1
  funext nCrc c
  exact crc16Step_eq nCrc c

theorem generator_taps : Crc.generator taps = (X^16 + X^12 + X^5 + 1 : (ZMod 2)[X]) := by
  have h : Crc.toPoly taps = (X^12 + X^5 + 1 : (ZMod 2)[X]) := by
    simp [Crc.toPoly, Finset.sum_range_succ, taps]
    ring
  rw [Crc.generator, h]
  ring

/-- **`CRC16` of a string is the remainder of the string times `X^16`.** -/
theorem crc16_remainder (pszData : List UInt8) (nLen : Int) :
    Crc.toPoly (crc16 pszData nLen)
      = (X^16 * Crc.message (bits (pszData.take nLen.toNat))) %ₘ (X^16 + X^12 + X^5 + 1) := by
  rw [crc16_eq, Crc.toPoly_crc (by decide) crcTable_ok, generator_taps]

/-! ## the part of a key that is hashed -/

/-- `tag` is what stands between the first opening brace of `key` and the first closing brace after
it, if that is not empty -/
def TagOf (key tag : List UInt8) : Prop :=
  ∃ before after, key = before ++ openBrace :: (tag ++ closeBrace :: after) ∧ openBrace ∉ before ∧
    closeBrace ∉ tag ∧ tag ≠ []

/-- what the slot of `key` is made of: its tag, or all of it -/
def Hashed (key part : List UInt8) : Prop := TagOf key part ∨ part = key ∧ ∀ tag, ¬ TagOf key tag

/-- the slot of a string without braces -/
def slotOf (part : List UInt8) : Nat := (crc16 part (int32 part.length)).toNat % 16384

theorem findIdx_first {x : UInt8} {before : List UInt8} (h : x ∉ before) (after : List UInt8) :
    (before ++ x :: after).findIdx (· == x) = before.length := by
  induction before with
  | nil => rw [List.nil_append, List.findIdx_cons, beq_self_eq_true]; rfl
  | cons b before ih =>
    have hb : ¬ b = x := fun e => h (e ▸ List.mem_cons_self)
    have hrest := ih fun hx => h (List.mem_cons_of_mem _ hx)
    rw [List.cons_append, List.findIdx_cons, beq_false_of_ne hb, hrest]
    rfl

theorem findIdx_absent {x : UInt8} {l : List UInt8} (h : x ∉ l) : l.findIdx (· == x) = l.length :=
  List.findIdx_eq_length.mpr fun _ hy => beq_false_of_ne fun e => h (e ▸ hy)

theorem findIdx_split {x : UInt8} {l : List UInt8} (h : l.findIdx (· == x) ≠ l.length) :
    ∃ before after, l = before ++ x :: after ∧ x ∉ before ∧ l.findIdx (· == x) = before.length := by
  have hmem : x ∈ l := by
    by_contra hno
    exact h (findIdx_absent hno)
  obtain ⟨before, after, rfl, hno⟩ := List.eq_append_cons_of_mem hmem
  exact ⟨before, after, rfl, hno, findIdx_first hno after⟩

theorem TagOf.unique {key tag tag' : List UInt8} (h : TagOf key tag) (h' : TagOf key tag') : tag' = tag := by
  obtain ⟨before, after, rfl, hopen, hclose, _⟩ := h
  obtain ⟨before', after', e, hopen', hclose', _⟩ := h'
  -- both tags start after the first opening brace
  have hlen : before'.length = before.length := by
    rw [← findIdx_first hopen' (tag' ++ closeBrace :: after'), ← e, findIdx_first hopen]
  obtain ⟨_, e⟩ := List.append_inj e hlen.symm
  have e := (List.cons.inj e).2
  have hlen : tag'.length = tag.length := by
    rw [← findIdx_first hclose' after', ← e, findIdx_first hclose]
  exact (List.append_inj e hlen.symm).1.symm

theorem hashed_unique {key part part' : List UInt8} (h : Hashed key part) (h' : Hashed key part') :
    part' = part := by
  rcases h with h | ⟨rfl, hno⟩
  · rcases h' with h' | ⟨_, hno⟩
    · exact h.unique h'
    · exact absurd h (hno part)
  · rcases h' with h' | ⟨rfl, _⟩
    · exact absurd h' (hno part')
    · rfl

/-- `CRC16` reads no more than the length it is given, and that is not more than the length of the tag -/
theorem crc16_append (part after : List UInt8) :
    crc16 (part ++ after) (int32 part.length) = crc16 part (int32 part.length) := by
  have hle : (int32 part.length).toNat ≤ part.length := by
    unfold int32 signed
    split <;> omega
  unfold crc16
  rw [List.take_append_of_le_length hle]

theorem and_16383 (n : Nat) : n &&& 16383 = n % 16384 := Nat.and_two_pow_sub_one_eq_mod n 14

theorem drop_before (before rest : List UInt8) (x : UInt8) :
    (before ++ x :: rest).drop (before.length + 1) = rest := by
  rw [List.drop_length_add_append]
  rfl

theorem hashSlot_tag {key tag : List UInt8} (h : TagOf key tag) : hashSlot key = slotOf tag := by
  obtain ⟨before, after, rfl, hopen, hclose, hne⟩ := h
  have hpos := List.length_pos_iff.mpr hne
  have hlen : (before ++ openBrace :: (tag ++ closeBrace :: after)).length
      = before.length + 1 + (tag.length + (after.length + 1)) := by
    simp only [List.length_append, List.length_cons]
    omega
  unfold hashSlot
  simp only [findIdx_first hopen, drop_before, findIdx_first hclose, hlen]
  have hstart : ¬ before.length = before.length + 1 + (tag.length + (after.length + 1)) := by omega
  have hend : ¬ (before.length + 1 + tag.length = before.length + 1 + (tag.length + (after.length + 1)) ∨
      before.length + 1 + tag.length = before.length + 1) := by omega
  have hn : before.length + 1 + tag.length - before.length - 1 = tag.length := by omega
  rw [if_neg hstart, if_neg hend, hn, crc16_append, and_16383, slotOf]

theorem hashSlot_whole {key : List UInt8} (h : ∀ tag, ¬ TagOf key tag) : hashSlot key = slotOf key := by
  unfold hashSlot
  simp only
  split
  · rw [and_16383, slotOf]
  · next hstart =>
    split
    · rw [and_16383, slotOf]
    · next hend =>
      -- both braces are there, with something between them
      obtain ⟨before, rest, rfl, hopen, e⟩ := findIdx_split hstart
      rw [e, drop_before] at hend
      simp only [List.length_append, List.length_cons, not_or] at hend
      have hclose : rest.findIdx (· == closeBrace) ≠ rest.length := by omega
      obtain ⟨tag, after, rfl, hclose, e'⟩ := findIdx_split hclose
      refine absurd ⟨before, after, rfl, hopen, hclose, ?_⟩ (h tag)
      rintro rfl
      rw [e'] at hend
      exact hend.2 rfl

theorem hashed_exists (key : List UInt8) : ∃ part, Hashed key part := by
  by_cases h : ∃ tag, TagOf key tag
  · obtain ⟨tag, h⟩ := h
    exact ⟨tag, .inl h⟩
  · exact ⟨key, .inr ⟨rfl, fun tag ht => h ⟨tag, ht⟩⟩⟩

/-- **A key has exactly one part that is hashed: what is between its first opening brace and the first
closing brace after it, if they are there with something between, and else all of it.  The slot of
the key is the slot of that part.** -/
theorem hashSlot_hashed (key : List UInt8) :
    ∃ part, (∀ part', Hashed key part' ↔ part' = part) ∧ hashSlot key = slotOf part ∧
      hashSlot key < 16384 := by
  obtain ⟨part, hpart⟩ := hashed_exists key
  have e : hashSlot key = slotOf part := by
    rcases hpart with h | ⟨rfl, h⟩
    · exact hashSlot_tag h
    · exact hashSlot_whole h
  refine ⟨part, fun part' => ⟨hashed_unique hpart, ?_⟩, e, ?_⟩
  · rintro rfl
    exact hpart
  · rw [e]
    exact Nat.mod_lt _ (by decide)

/-- the tag `user1` decides the slot of both keys -/
example : hashSlot "\x7buser1\x7d.name".toUTF8.toList = hashSlot "\x7buser1\x7d.room".toUTF8.toList := by
  decide +kernel

end Iocp.Redis
