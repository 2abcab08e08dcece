import IocpChatting.Redis.Reply
import Mathlib.Data.List.Basic

/-!
# What the client learns from `INFO` (Content/RedisClient.cpp)

* `atoi`, `getlines`, `words`   of the C++ library: `atoi`, `std::getline`, `>>` into a string;
* `convertToMapInfo`            `CRedisClient::ConvertToMapInfo`;
* `loadSlaveInfo`               `CRedisClient::LoadSlaveInfo`: the hosts it adds;
* `InfoLine`                    a line of an `INFO` reply, as a Redis server writes it.

`info_roundtrip` reads back what a server writes, and `loadSlaveInfo_eq` says which hosts are found.
-/

set_option linter.unusedSectionVars false
set_option autoImplicit false

namespace Iocp.Redis

/-! ## the C++ library -/

def isSpace (b : UInt8) : Bool := b = 32 || (9 ≤ b && b ≤ 13)
def isDigit (b : UInt8) : Bool := 48 ≤ b && b ≤ 57

/-- the number at the start of `bs`, 0 if there is none -/
def digits (bs : Str) : Int :=
  (bs.takeWhile isDigit).foldl (fun n b => 10 * n + (b.toNat - 48 : Nat)) 0

/-- out of range it gives the nearest `int` -/
def atoi (bs : Str) : Int :=
  let n := match bs.dropWhile isSpace with
    | 45 :: ds => - digits ds
    | 43 :: ds => digits ds
    | ds => digits ds
  max (-2^31) (min (2^31 - 1) n)

/-- `std::getline` until the stream is at its end -/
def getlines : Str → List Str
  | [] => []
  | b :: bs =>
    if b = 10 then [] :: getlines bs
    else
      match getlines bs with
      | [] => [[b]]
      | line :: rest => (b :: line) :: rest

/-- what `>>` reads one after the other: the parts between whitespace -/
def words : Str → List Str
  | [] => []
  | b :: bs =>
    if isSpace b then words bs
    else
      match bs with
      | [] => [[b]]
      | b' :: _ =>
        if isSpace b' then [b] :: words bs
        else
          match words bs with
          | [] => [[b]]
          | word :: rest => (b :: word) :: rest

/-- a `std::map` of strings, as far as `insert` and `find` see it -/
abbrev InfoMap := List (Str × Str)

/-- `insert` keeps the entry that is there -/
def InfoMap.insert (m : InfoMap) (k v : Str) : InfoMap :=
  if (m.lookup k).isSome then m else m ++ [(k, v)]

/-! ## `ConvertToMapInfo` -/

/-- an empty line, a bare carriage return or a comment -/
def skipped (line : Str) : Bool :=
  line.isEmpty || line.head? = some 13 || line.head? = some 35

def convertLines : List Str → InfoMap → Bool × InfoMap
  | [], mapVal => (true, mapVal)
  | strLine :: rest, mapVal =>
    if skipped strLine then convertLines rest mapVal
    else
      let nPos := strLine.findIdx (· == 58)
      if nPos = strLine.length then (false, mapVal)
      else convertLines rest (mapVal.insert (strLine.take nPos) (strLine.drop (nPos + 1)))

def convertToMapInfo (strVal : Str) (mapVal : InfoMap) : Bool × InfoMap :=
  convertLines (getlines strVal) mapVal

/-! ## `LoadSlaveInfo` -/

/-- the `std::stringstream` of the loop: its text, and whether a read has failed -/
structure Stream where
  text : Str
  failed : Bool

/-- `ss << strVal`; nothing is written to a stream that has failed -/
def Stream.put (ss : Stream) (strVal : Str) : Stream :=
  if ss.failed then ss else { ss with text := ss.text ++ strVal }

/-- `while (ss >> strItem)` after `ss.str(strVal)`; the read that ends the loop fails -/
def Stream.items (ss : Stream) (strVal : Str) : List Str × Stream :=
  (if ss.failed then [] else words strVal, ⟨strVal, true⟩)

def decimal (n : Nat) : Str := (Nat.toDigits 10 n).map fun c => UInt8.ofNat c.toNat

/-- `slave` and the number -/
def slaveName (i : Nat) : Str := [115, 108, 97, 118, 101] ++ decimal i

abbrev Addr := Str × Int

/-- one item: `ip=` or `port=` -/
def slaveItem (a : Addr) (strItem : Str) : Addr :=
  if strItem.take 3 = [105, 112, 61] then (strItem.drop 3, a.2)
  else if strItem.take 5 = [112, 111, 114, 116, 61] then (a.1, atoi (strItem.drop 5))
  else a

/-- the host that the items name, if they name all of one -/
def slaveOf (items : List Str) : Option Addr :=
  let a := items.foldl slaveItem ([], -1)
  if a.1 ≠ [] ∧ a.2 ≠ -1 then some a else none

/-- the passes of the loop that are left, from the `i`-th on; `ss.str()` at the top of each only
returns a copy of the text -/
def loadSlaves (mapInfo : InfoMap) : Nat → Nat → Stream → List Addr → List Addr
  | 0, _, _, vecHosts => vecHosts
  | n + 1, i, ss, vecHosts =>
    let ss := ss.put (slaveName i)
    match mapInfo.lookup ss.text with
    | none => loadSlaves mapInfo n (i + 1) ss vecHosts
    | some strVal =>
      let (items, ss) := ss.items strVal
      loadSlaves mapInfo n (i + 1) ss (vecHosts ++ (slaveOf items).toList)

/-- `connected_slaves` -/
def connectedSlaves : Str :=
  [99, 111, 110, 110, 101, 99, 116, 101, 100, 95, 115, 108, 97, 118, 101, 115]

def loadSlaveInfo (mapInfo : InfoMap) (vecHosts : List Addr) : List Addr :=
  match mapInfo.lookup connectedSlaves with
  | none => vecHosts
  | some nSlave => loadSlaves mapInfo (atoi nSlave).toNat 0 ⟨[], false⟩ vecHosts

/-! ## the map -/

theorem InfoMap.lookup_insert (m : InfoMap) (k v k' : Str) :
    (m.insert k v).lookup k' = (m ++ [(k, v)]).lookup k' := by
  unfold InfoMap.insert
  split
  · rename_i h
    rw [List.lookup_append]
    cases hk : m.lookup k' with
    | some w => rfl
    | none =>
      -- then `k'` is not `k`, which is there
      have hne : k' ≠ k := by
        rintro rfl
        rw [hk] at h
        exact Bool.false_ne_true h
      simp [List.lookup_cons, beq_eq_false_iff_ne.mpr hne]
  · rfl

theorem lookup_congr {m m' : InfoMap} (h : ∀ k, m.lookup k = m'.lookup k) (l : InfoMap) (k : Str) :
    (m ++ l).lookup k = (m' ++ l).lookup k := by
  rw [List.lookup_append, List.lookup_append, h k]

/-! ## the lines -/

theorem getlines_append {line : Str} (h : 10 ∉ line) (bs : Str) :
    getlines (line ++ 10 :: bs) = line :: getlines bs := by
  induction line with
  | nil => simp [getlines]
  | cons b line ih =>
    have hb : b ≠ 10 := fun e => h (e ▸ List.mem_cons_self)
    rw [List.cons_append, getlines, if_neg hb, ih (fun hm => h (List.mem_cons_of_mem _ hm))]

theorem findIdx_colon {k : Str} (h : 58 ∉ k) (v : Str) :
    (k ++ 58 :: v).findIdx (· == 58) = k.length := by
  induction k with
  | nil => rfl
  | cons b k ih =>
    have hb : (b == 58) = false := by
      rw [beq_eq_false_iff_ne]
      exact fun e => h (e ▸ List.mem_cons_self)
    rw [List.cons_append, List.findIdx_cons, hb, cond_false,
      ih (fun hm => h (List.mem_cons_of_mem _ hm)), List.length_cons]

/-! ## a line as a server writes it -/

/-- a key can start its line, and ends at the colon -/
structure KeyOk (key : Str) : Prop where
  noBreak : 10 ∉ key
  noColon : 58 ∉ key
  noReturn : key.head? ≠ some 13
  noHash : key.head? ≠ some 35

inductive InfoLine where
  | blank
  | comment (text : Str) (h : 10 ∉ text)
  | field (key value : Str) (hk : KeyOk key) (hv : 10 ∉ value)

namespace InfoLine

/-- the line without its line break; it ends in a carriage return -/
def body : InfoLine → Str
  | blank => [13]
  | comment text _ => 35 :: text ++ [13]
  | field key value _ _ => key ++ 58 :: value ++ [13]

def text (x : InfoLine) : Str := x.body ++ [10]

/-- what the line says; the carriage return stays with the value -/
def entry : InfoLine → Option (Str × Str)
  | field key value _ _ => some (key, value ++ [13])
  | _ => none

theorem body_noBreak (x : InfoLine) : 10 ∉ x.body := by
  cases x with
  | blank => decide
  | comment text h => simp [body, h]
  | field key value hk hv => simp [body, hk.noBreak, hv]

theorem skipped_field {key value : Str} (hk : KeyOk key) : skipped (key ++ 58 :: value ++ [13]) = false := by
  have h13 := hk.noReturn
  have h35 := hk.noHash
  cases key with
  | nil => rfl
  | cons b key =>
    simp only [List.head?_cons, ne_eq, Option.some.injEq] at h13 h35
    simp [skipped, h13, h35]

end InfoLine

theorem getlines_text (xs : List InfoLine) : getlines (xs.flatMap InfoLine.text) = xs.map InfoLine.body := by
  induction xs with
  | nil => rfl
  | cons x xs ih =>
    rw [List.flatMap_cons, InfoLine.text, List.append_assoc, List.singleton_append,
      getlines_append x.body_noBreak, ih, List.map_cons]

theorem convertLines_bodies (xs : List InfoLine) (m : InfoMap) :
    (convertLines (xs.map InfoLine.body) m).1 = true ∧
      ∀ k, (convertLines (xs.map InfoLine.body) m).2.lookup k
        = (m ++ xs.filterMap InfoLine.entry).lookup k := by
  induction xs generalizing m with
  | nil => exact ⟨rfl, fun k => by simp [convertLines]⟩
  | cons x xs ih =>
    rw [List.map_cons]
    cases x with
    | blank => exact ih m
    | comment text h => exact ih m
    | field key value hk hv =>
      have hpos : (key ++ 58 :: value ++ [13]).findIdx (· == 58) = key.length := by
        rw [List.append_assoc]
        exact findIdx_colon hk.noColon _
      have hlen : key.length ≠ (key ++ 58 :: value ++ [13]).length := by
        simp only [List.length_append, List.length_cons]
        omega
      have htake : (key ++ 58 :: value ++ [13]).take key.length = key := by
        rw [List.append_assoc, List.take_left]
      have hdrop : (key ++ 58 :: value ++ [13]).drop (key.length + 1) = value ++ [13] := by
        rw [List.append_assoc, List.drop_append]
        simp
      have hline : convertLines ((InfoLine.field key value hk hv).body :: xs.map InfoLine.body) m
          = convertLines (xs.map InfoLine.body) (m.insert key (value ++ [13])) := by
        rw [InfoLine.body, convertLines, InfoLine.skipped_field hk]
        simp only [Bool.false_eq_true, if_false]
        rw [hpos, if_neg hlen, htake, hdrop]
      rw [hline]
      obtain ⟨h1, h2⟩ := ih (m.insert key (value ++ [13]))
      refine ⟨h1, fun k => ?_⟩
      rw [h2 k, lookup_congr (InfoMap.lookup_insert m key (value ++ [13])), List.append_assoc,
        List.filterMap_cons]
      rfl

/-- **What a Redis server writes is read back**: the conversion succeeds, and under each key it holds
the value of the first line with that key. -/
theorem info_roundtrip (xs : List InfoLine) :
    (convertToMapInfo (xs.flatMap InfoLine.text) []).1 = true ∧
      ∀ k, (convertToMapInfo (xs.flatMap InfoLine.text) []).2.lookup k
        = (xs.filterMap InfoLine.entry).lookup k := by
  unfold convertToMapInfo
  rw [getlines_text]
  exact convertLines_bodies xs []

/-! ## the slaves -/

/-- what the stream holds before the `i`-th pass, while nothing was found: it is never emptied -/
def slaveText : Nat → Str
  | 0 => []
  | i + 1 => slaveText i ++ slaveName i

theorem loadSlaves_failed (mapInfo : InfoMap) (n i : Nat) (text : Str) (vecHosts : List Addr) :
    loadSlaves mapInfo n i ⟨text, true⟩ vecHosts = vecHosts := by
  induction n generalizing i text with
  | zero => rfl
  | succ n ih =>
    rw [loadSlaves]
    simp only [Stream.put, if_true]
    cases mapInfo.lookup text with
    | none => exact ih (i + 1) text
    | some strVal =>
      show loadSlaves mapInfo n (i + 1) ⟨strVal, true⟩ (vecHosts ++ []) = vecHosts
      rw [List.append_nil]
      exact ih (i + 1) strVal

theorem loadSlaves_eq (mapInfo : InfoMap) (n i : Nat) (vecHosts : List Addr) :
    loadSlaves mapInfo n i ⟨slaveText i, false⟩ vecHosts
      = vecHosts ++ (((List.range' i n).findSome? fun j => mapInfo.lookup (slaveText (j + 1))).bind
          fun strVal => slaveOf (words strVal)).toList := by
  induction n generalizing i with
  | zero => simp [loadSlaves]
  | succ n ih =>
    have hput : Stream.put ⟨slaveText i, false⟩ (slaveName i) = ⟨slaveText (i + 1), false⟩ := rfl
    rw [loadSlaves, hput, List.range'_succ, List.findSome?_cons]
    simp only []
    cases mapInfo.lookup (slaveText (i + 1)) with
    | none => exact ih (i + 1)
    | some strVal =>
      show loadSlaves mapInfo n (i + 1) ⟨strVal, true⟩ _ = _
      rw [loadSlaves_failed]
      rfl

/-- the value of the only entry that is read -/
def firstSlave (mapInfo : InfoMap) : Option Str :=
  (mapInfo.lookup connectedSlaves).bind fun nSlave =>
    (List.range (atoi nSlave).toNat).findSome? fun i => mapInfo.lookup (slaveText (i + 1))

theorem loadSlaveInfo_eq (mapInfo : InfoMap) (vecHosts : List Addr) :
    loadSlaveInfo mapInfo vecHosts
      = vecHosts ++ ((firstSlave mapInfo).bind fun strVal => slaveOf (words strVal)).toList := by
  unfold loadSlaveInfo firstSlave
  cases mapInfo.lookup connectedSlaves with
  | none => exact (List.append_nil _).symm
  | some nSlave =>
    show loadSlaves mapInfo _ 0 ⟨slaveText 0, false⟩ vecHosts = _
    rw [loadSlaves_eq, ← List.range_eq_range']
    rfl

/-- one item names a host or a port, not both -/
theorem slaveOf_one {items : List Str} (h : items.length ≤ 1) : slaveOf items = none := by
  match items, h with
  | [], _ => rfl
  | [strItem], _ =>
    unfold slaveOf
    rw [List.foldl_cons, List.foldl_nil, slaveItem]
    split
    · simp
    · split <;> simp

/-- **However many slaves a server reports, at most one host is added**: that of the first entry whose
key is the text the stream has grown to; and none if the entry has no whitespace between its items. -/
theorem loadSlaveInfo_found (mapInfo : InfoMap) (vecHosts : List Addr) :
    loadSlaveInfo mapInfo vecHosts
        = vecHosts ++ ((firstSlave mapInfo).bind fun strVal => slaveOf (words strVal)).toList ∧
      ∀ strVal, firstSlave mapInfo = some strVal → (words strVal).length ≤ 1 →
        loadSlaveInfo mapInfo vecHosts = vecHosts := by
  refine ⟨loadSlaveInfo_eq mapInfo vecHosts, fun strVal hv hw => ?_⟩
  rw [loadSlaveInfo_eq, hv]
  show vecHosts ++ (slaveOf (words strVal)).toList = vecHosts
  rw [slaveOf_one hw]
  exact List.append_nil _

end Iocp.Redis
