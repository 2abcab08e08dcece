import IocpChatting.Content.PacketManager
import IocpChatting.Redis.Calls
import IocpChatting.Redis.Slot

/-!
# The login's question to Redis (Content/redis_manager.cpp, RedisClient.hpp)

`LoginHandler` calls `Get`, which is `ExecuteImpl` of `get`: it fetches a string from the reply of the command,
without a look at the pointer.

* `getCommand`, `fetchResult`, `loginGet`   of `Get`, `ExecuteImpl` and `LoginHandler`;
* `Backed`                                  a success on its way back has a reply behind it.

`login_run`: with a store behind the servers, which verdict a login gets after any run of the client.
-/

set_option linter.unusedSectionVars false
set_option autoImplicit false

namespace Iocp.Redis
open Runs

/-- `get` -/
def getCmd : Str := [103, 101, 116]

def getCommand (strKey : Str) : CRedisCommand where
  args := [getCmd, strKey]
  nSlot := hashSlot strKey

/-- `ExecuteImpl` after `Execute`; none if a null pointer is read -/
def fetchResult (nRet : Rc) (cmd : CRedisCommand) : Option (Rc × Str) :=
  if nRet = .success then cmd.reply.map fun pReply => fetchString pReply [] else some (nRet, [])

/-- the password that `LoginHandler` compares, if `Get` succeeds -/
def loginGet (nRet : Rc) (cmd : CRedisCommand) : Option Str :=
  match fetchResult nRet cmd with
  | some (.success, redisPw) => some redisPw
  | _ => none

/-- how a store answers `GET` -/
def stored : Option Str → Reply
  | some str => .string str
  | none => .nil

/-- `Get` takes a key that is not there for one that holds the empty string -/
theorem loginGet_stored {cmd : CRedisCommand} {value : Option Str} (h : cmd.reply = some (stored value)) :
    loginGet .success cmd = some (value.getD []) := by
  cases value <;> simp [loginGet, fetchResult, h, stored, fetchString]

theorem loginGet_error {cmd : CRedisCommand} {str : Str} (h : cmd.reply = some (.error str)) :
    loginGet .success cmd = none := by
  simp [loginGet, fetchResult, h, fetchString]

theorem loginGet_failed {nRet : Rc} (h : nRet ≠ .success) (cmd : CRedisCommand) : loginGet nRet cmd = none := by
  unfold loginGet fetchResult
  rw [if_neg h]
  cases nRet <;> first | rfl | exact absurd rfl h

namespace CRedisClient

variable {n : Nat}

/-- the call is on its way back with a success, or has come back with it -/
def succeeded : At → Bool
  | .giveBack _ _ .success => true
  | .unlock .success => true
  | .rest (some .success) => true
  | _ => false

/-- the reply behind a success -/
def Backed (W : World) (x : Caller) : Prop :=
  succeeded x.place = true → ∃ reply, x.cmd.reply = some reply ∧ ∃ k addr, W.answer k addr x.cmd.args = some reply

theorem Move.backed {W : World} {s : CRedisClient n} (hs : Sound s) {i : Fin n} {x : Caller} {h : Heap}
    (hm : Move W s (s.callers i) x h) (hc : Coded (s.callers i)) (hb : Backed W (s.callers i)) : Backed W x := by
  cases hm with
  | stay => exact hb
  | ask sv c cmd nRet h hp hr =>
    intro hsucc
    have hrep := hs.report W hp
    rw [hr] at hrep
    have hok : nRet = .success := by
      revert hsucc
      cases nRet <;> simp [succeeded]
    obtain ⟨reply, h1, k, addr, _, h2⟩ := hrep.reply hok
    exact ⟨reply, h1, k, addr, by rw [show cmd.args = _ from hrep.args]; exact h2⟩
  | giveBack sv c nRet hp =>
    intro hsucc
    refine hb ?_
    rw [hp]
    revert hsucc
    cases nRet <;> simp [succeeded]
  | finish nRet hp =>
    intro hsucc
    refine hb ?_
    rw [hp]
    revert hsucc
    cases nRet <;> simp [succeeded]
  | await nRet place _ hw =>
    intro hsucc
    revert hsucc hw
    cases place <;> simp [succeeded, At.waits]
  | fail nRet hw =>
    -- who has waited had no success
    obtain rfl := (Coded.waits_iff hw).mp hc
    exact fun hsucc => by cases hsucc
  | _ => exact fun hsucc => by cases hsucc

theorem step_backed {W : World} {s : CRedisClient n} (hs : Sound s) (hc : ∀ j, Coded (s.callers j))
    (hb : ∀ j, Backed W (s.callers j)) (a : Action n) (j : Fin n) : Backed W ((s.step W a).callers j) := by
  rcases step_caller W s a j with h | ⟨cmd, _, h⟩ | ⟨h, hm⟩
  · rw [h]
    exact hb j
  · rw [h]
    exact fun hsucc => by cases hsucc
  · exact hm.backed hs (hc j) (hb j)

/-- what `LoginHandler` makes of the result of `Execute`, in terms of the store -/
def Verdict (db : Str → Option Str) (nRet : Rc) (cmd : CRedisCommand) (mem : Mem) (task : RedisTask) : Prop :=
  (fetchResult nRet cmd).isSome ∧
    (redisAccepts (fun _ => loginGet nRet cmd) mem task = true ↔
      nRet = .success ∧ (∀ str, cmd.reply ≠ some (.error str)) ∧
        (db (redisKey mem task).bytes).getD [] = (redisPw mem task).bytes)

section
variable (W : World) (strHost : Str) (nPort nTimeout nConnNum : Int)

theorem run_backed (as : List (Action n)) (i : Fin n) :
    Backed W ((run (step W) (start W strHost nPort nTimeout nConnNum) as).callers i) := by
  have h := @run_keeps_all _ _ (step W)
    (fun s : CRedisClient n => (Sound s ∧ ∀ j, Coded (s.callers j)) ∧ ∀ j, Backed W (s.callers j))
    (fun s a h => ⟨⟨h.1.1.step W a, step_coded h.1.1 h.1.2 a⟩, step_backed h.1.1 h.1.2 h.2 a⟩)
    (start W strHost nPort nTimeout nConnNum)
    ⟨⟨start_sound W strHost nPort nTimeout nConnNum, run_coded W strHost nPort nTimeout nConnNum []⟩, fun j => ?_⟩ as
  · exact h.2 i
  · have hp := (start_begun W strHost nPort nTimeout nConnNum : Begun W (_ : CRedisClient n)).callers j
    intro hsucc
    rw [hp] at hsucc
    cases hsucc

/-- **The verdict of a login.**  Where the servers answer `GET` from a store or with an error, `LoginHandler`
never reads a null pointer, and it accepts exactly if `Execute` succeeded, the reply is no error and
the password is the one stored, or empty where none is stored. -/
theorem login_run (db : Str → Option Str)
    (hdb : ∀ k addr key reply, W.answer k addr [getCmd, key] = some reply →
      reply = stored (db key) ∨ ∃ str, reply = .error str)
    (as : List (Action n)) (i : Fin n) (nRet : Rc) (mem : Mem) (task : RedisTask)
    (hp : ((run (step W) (start W strHost nPort nTimeout nConnNum) as).callers i).place = .rest (some nRet))
    (ha : ((run (step W) (start W strHost nPort nTimeout nConnNum) as).callers i).cmd.args
      = (getCommand (redisKey mem task).bytes).args) :
    Verdict db nRet ((run (step W) (start W strHost nPort nTimeout nConnNum) as).callers i).cmd mem task := by
  have hb := run_backed W strHost nPort nTimeout nConnNum as i
  generalize (run (step W) (start W strHost nPort nTimeout nConnNum) as).callers i = x at hp ha hb
  unfold Verdict redisAccepts
  by_cases hok : nRet = .success
  · subst hok
    obtain ⟨reply, h1, k, addr, h2⟩ := hb (by rw [hp]; rfl)
    rw [ha] at h2
    refine ⟨by simp [fetchResult, h1], ?_⟩
    rcases hdb k addr _ reply h2 with rfl | ⟨str, rfl⟩
    · rw [loginGet_stored h1, h1]
      cases db (redisKey mem task).bytes <;> simp [stored]
    · rw [loginGet_error h1, h1]
      simp
  · rw [loginGet_failed hok]
    exact ⟨by simp [fetchResult, hok], by simp [hok]⟩

end

/-- the one account is `a`, with the password `p` -/
def accounts (key : Str) : Option Str := if key = [97] then some [112] else none

def loginServer : World where
  connect := fun _ _ => true
  answer := fun _ _ args =>
    if args = info.args then some (.string (clusterEnabled ++ [58, 48]))
    else match args with
      | [_, key] => some (stored (accounts key))
      | _ => some .nil
  time := fun _ => 0

/-- the task of a user `b` with no password -/
def nobody : RedisTask := ⟨0, .requestLogin, [98] ++ List.replicate 65 0⟩

theorem login_nobody :
    Verdict accounts .success ((run (step loginServer) (start loginServer [97] 7000 10 1 : CRedisClient 1)
      ([.call worker (getCommand [98])] ++ List.replicate 7 (.caller worker true))).callers worker).cmd Mem.zero nobody := by
  refine login_run loginServer [97] 7000 10 1 accounts (fun k addr key reply h => Or.inl ?_) _ worker .success Mem.zero
    nobody (by decide +kernel) (by decide +kernel)
  simp only [loginServer] at h
  rw [if_neg (by simp [info])] at h
  exact (Option.some.inj h).symm

/-- the login is accepted -/
example : redisAccepts (fun _ => loginGet .success
    ((run (step loginServer) (start loginServer [97] 7000 10 1 : CRedisClient 1)
      ([.call worker (getCommand [98])] ++ List.replicate 7 (.caller worker true))).callers worker).cmd) Mem.zero nobody = true := by
  decide +kernel

end CRedisClient

end Iocp.Redis
