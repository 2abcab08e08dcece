import IocpChatting.Content.Packet

/-!
# Replies of a Redis server (Content/RedisClient.hpp, RedisClient.cpp)

* `Rc`                                the result codes that a command of this program can have;
* `Reply`                             a `redisReply`, with what its fields hold for each type;
* `fetchString`, `fetchStringArray`   `FetchString` and `FetchStringArray`;
* `fetchSlot`                         `FetchSlot`, which follows pointers it does not check.
-/

set_option autoImplicit false

namespace Iocp.Redis

/-- a `std::string` -/
abbrev Str := List UInt8

inductive Rc where
  | partSuccess | success | paramErr | replyErr | rqstErr | noResource
deriving DecidableEq, Repr

inductive Reply where
  | string (str : Str)
  | array (element : List Reply)
  | integer (integer : Int)
  | nil
  | status (str : Str)
  | error (str : Str)

namespace Reply

/-- `pReply->integer`; hiredis zeroes a reply before it fills it in -/
def integerField : Reply → Int
  | .integer n => n
  | _ => 0

/-- `pReply->str`, a null pointer where the type has no string -/
def strField : Reply → Option Str
  | .string str => some str
  | .status str => some str
  | .error str => some str
  | _ => none

/-- `pReply->element`, `pReply->elements` entries long -/
def elements : Reply → List Reply
  | .array element => element
  | _ => []

end Reply

/-! ## strings -/

/-- the code, and what `*pstrVal` holds afterwards -/
def fetchString (pReply : Reply) (strVal : Str) : Rc × Str :=
  match pReply with
  | .string str => (.success, str)
  | .status str => (.success, str)
  -- a key that is not there is a success too
  | .nil => (.success, [])
  | _ => (.replyErr, strVal)

/-- the loop; `strVal` is left over from the element before -/
def fetchElements : List Reply → Str → Rc × List Str → Rc × List Str
  | [], _, out => out
  | pSub :: rest, strVal, (nRet, vec) =>
    match fetchString pSub strVal with
    | (.success, str) => fetchElements rest str (nRet, vec ++ [str])
    | (_, str) => fetchElements rest str (.partSuccess, vec)

def fetchStringArray (pReply : Reply) (vecStrVal : List Str) : Rc × List Str :=
  match pReply with
  | .array element => fetchElements element [] (.success, [])
  | .nil => (.success, [])
  | _ => (.replyErr, vecStrVal)

/-! ## slots of a cluster -/

/-- a `SlotRegion`; the server is a number of the client's heap, where there is one -/
structure SlotRegion where
  nStartSlot : Int
  nEndSlot : Int
  strHost : Str
  nPort : Int
  pRedisServ : Option Nat := none
deriving DecidableEq, Repr

inductive Fetched (α : Type) where
  | done (nRet : Rc) (out : α)
  /-- a null pointer is read -/
  | fault

/-- a `long long` assigned to an `int` -/
def toInt (n : Int) : Int := int32 (uint32 n)

/-- one region of the reply; only its own type and length are checked -/
def slotRegion (pSubReply : Reply) : Option SlotRegion :=
  match pSubReply.elements with
  | start :: last :: node :: _ =>
    match node.elements with
    | host :: port :: _ => host.strField.map fun str =>
      { nStartSlot := toInt start.integerField, nEndSlot := toInt last.integerField
        strHost := (CStr.ofBytes str).bytes, nPort := toInt port.integerField }
    | _ => none
  | _ => none

def fetchRegions : List Reply → List SlotRegion → Fetched (List SlotRegion)
  | [], vecSlot => .done .success vecSlot
  | pSub :: rest, vecSlot =>
    if pSub.elements.length < 3 then .done .replyErr vecSlot
    else
      match slotRegion pSub with
      | some slotReg => fetchRegions rest (vecSlot ++ [slotReg])
      | none => .fault

def fetchSlot (pReply : Reply) (vecSlot : List SlotRegion) : Fetched (List SlotRegion) :=
  match pReply with
  | .array element => fetchRegions element []
  | _ => .done .replyErr vecSlot

end Iocp.Redis
