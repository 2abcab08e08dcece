import IocpChatting.Lib.Runs
import IocpChatting.Lib.SharedLock
import IocpChatting.Redis.Cluster
import Mathlib.Data.Fintype.Basic

/-!
# The Redis client and its threads (Content/RedisClient.cpp)

`n` threads call `Execute`, each with one command at a time; the thread of `operator()` loads servers
and slots anew; another runs the destructor.  They share `m_rwLock`, `m_condAny`, `m_bValid` and `m_bExit`.

* `At`, `callerStep`            the statements of `Execute`, `SimpleExecute`, `ServRequest` and `WaitForRefresh`;
* `RefreshPc`, `refreshStep`    those of `operator()`;
* `DestroyPc`, `destroyStep`    those of the destructor;
* `initClient`, `start`         `Initialize`, before there are threads;
* `Action`, `step`              the next statement of one thread, in any order.

A step is one access to what the threads share.  A load is one step, since it runs under the exclusive lock.
So is a request to a server: nobody else has the connection.  `Reconnect` also writes `m_strHost` and
`m_nPort` of the server, which its connections share: the one step is exact for one connection per server,
as in this program (`RedisManager` passes `nConnNum` 1).
-/

set_option linter.unusedSectionVars false
set_option autoImplicit false

namespace Iocp.Redis

/-- who takes the lock for itself -/
inductive Thread where
  | refresh | destroy
deriving DecidableEq, Repr

/-- the next statement of a caller; the second time through `SimpleExecute` is told by `Caller.again` -/
inductive At where
  /-- not in a call; the result of the last one -/
  | rest (nRet : Option Rc)
  | check
  | lock
  | pick
  | fetch (s nTry : Nat)
  | request (s c : Nat)
  | giveBack (s c : Nat) (nRet : Rc)
  | unlock (nRet : Rc)
  | tryLock (nRet : Rc)
  | notify (nRet : Rc)
  | unlockNotify (nRet : Rc)
  | wait (nRet : Rc) (nRetry : Nat)
  | waited (nRet : Rc)
deriving DecidableEq, Repr

structure Caller where
  place : At
  cmd : CRedisCommand
  again : Bool

inductive RefreshPc where
  /-- there is no thread -/
  | none
  | check | lock | test | waiting | relock | reload
  | store (ok : Bool)
  | unlock | done
deriving DecidableEq, Repr

inductive DestroyPc where
  | alive | clearValid | setExit | lock | notify | unlock | join | clean | done
deriving DecidableEq, Repr

structure CRedisClient (n : Nat) where
  cluster : Cluster
  bCluster : Bool
  nConnNum : Int
  bValid : Bool
  bExit : Bool
  rwLock : SharedLock Thread (Fin n)
  refresh : RefreshPc
  destroy : DestroyPc
  callers : Fin n → Caller
  /-- a null pointer was read -/
  crashed : Bool

namespace CRedisClient

variable {n : Nat}

def setCaller (s : CRedisClient n) (i : Fin n) (x : Caller) : CRedisClient n :=
  { s with callers := Function.update s.callers i x }

def goto (s : CRedisClient n) (i : Fin n) (place : At) : CRedisClient n :=
  s.setCaller i { s.callers i with place := place }

def setHeap (s : CRedisClient n) (h : Heap) : CRedisClient n :=
  { s with cluster := { s.cluster with heap := h } }

def getMatchedServer (s : CRedisClient n) (cmd : CRedisCommand) : Option Nat :=
  if s.bCluster = false then s.cluster.vecRedisServ.head?
  else if cmd.nSlot ≠ -1 then findServer s.cluster.vecSlot cmd.nSlot
  else s.cluster.vecRedisServ.find? fun sv => isValid s.cluster.heap sv

/-- `IsMovedErr`: the error starts with `MOVED` -/
def isMovedErr (cmd : CRedisCommand) : Bool :=
  match cmd.reply with
  | some (.error str) => str.take 5 = [77, 79, 86, 69, 68]
  | _ => false

/-- whether `Execute` waits for a refresh and tries once more -/
def retries (bCluster : Bool) (cmd : CRedisCommand) (nRet : Rc) : Bool :=
  if bCluster then nRet = .replyErr && isMovedErr cmd || nRet = .rqstErr else nRet = .rqstErr

def waitRetryTimes : Nat := 60

/-- `notify_all` -/
def notifyAll (s : CRedisClient n) : CRedisClient n :=
  if s.refresh = .waiting then { s with refresh := .relock } else s

section
variable (W : World)

def callerStep (s : CRedisClient n) (i : Fin n) (tryLock : Bool) : CRedisClient n :=
  match (s.callers i).place with
  | .rest _ => s
  | .check => if s.bValid then s.goto i .lock else s.goto i (.rest (some .rqstErr))
  | .lock =>
    match s.rwLock.lockShared i with
    | some l => { s.goto i .pick with rwLock := l }
    | none => s
  | .pick =>
    if s.bValid then
      match s.getMatchedServer (s.callers i).cmd with
      | some sv => s.goto i (.fetch sv rqstRetryTimes)
      | none => s.goto i (.unlock .rqstErr)
    else s.goto i (.unlock .rqstErr)
  | .fetch _ 0 => s.goto i (.unlock .noResource)
  | .fetch sv (nTry + 1) =>
    match fetchConnection s.cluster.heap sv with
    | (h, some c) => (s.setHeap h).goto i (.request sv c)
    | (_, none) => s.goto i (.fetch sv nTry)
  | .request sv c =>
    let (h, cmd, nRet) := connRequest W s.cluster.heap c (s.callers i).cmd
    (s.setHeap h).setCaller i { s.callers i with place := .giveBack sv c nRet, cmd := cmd }
  | .giveBack sv c nRet =>
    (s.setHeap (returnConnection s.cluster.heap sv c)).goto i (.unlock nRet)
  | .unlock nRet =>
    let x := s.callers i
    let place := if x.again = false ∧ retries s.bCluster x.cmd nRet then At.tryLock nRet else .rest (some nRet)
    { s.goto i place with rwLock := s.rwLock.unlockShared i }
  -- `try_lock_shared` may also fail where the lock is free
  | .tryLock nRet =>
    match if tryLock then s.rwLock.lockShared i else none with
    | some l => { s.goto i (.notify nRet) with rwLock := l }
    | none => s.goto i (.wait nRet waitRetryTimes)
  | .notify nRet => s.notifyAll.goto i (.unlockNotify nRet)
  | .unlockNotify nRet => { s.goto i (.wait nRet waitRetryTimes) with rwLock := s.rwLock.unlockShared i }
  | .wait nRet nRetry =>
    if s.bValid then s.goto i (.waited nRet)
    else
      match nRetry with
      | 0 => s.goto i (.waited nRet)
      | k + 1 => s.goto i (.wait nRet k)
  | .waited nRet =>
    if s.bValid then s.setCaller i { s.callers i with place := .lock, again := true }
    else s.goto i (.rest (some nRet))

/-- `LoadClusterSlots`, or `Initialize` of the one server -/
def reload (s : CRedisClient n) : Option (Cluster × Bool) :=
  if s.bCluster then loadClusterSlots W s.nConnNum s.cluster
  else
    match s.cluster.vecRedisServ with
    | [] => none
    | sv :: _ =>
      let (h, ok) := initServer W s.cluster.heap sv
      some ({ s.cluster with heap := h }, ok)

def refreshStep (s : CRedisClient n) : CRedisClient n :=
  match s.refresh with
  | .none => s
  | .check => { s with refresh := if s.bExit then .done else .lock }
  | .lock =>
    match s.rwLock.lock .refresh with
    | some l => { s with rwLock := l, refresh := .test }
    | none => s
  -- to wait gives the lock up
  | .test =>
    if s.bValid then { s with rwLock := s.rwLock.unlock, refresh := .waiting } else { s with refresh := .reload }
  | .waiting => s
  | .relock =>
    match s.rwLock.lock .refresh with
    | some l => { s with rwLock := l, refresh := .reload }
    | none => s
  | .reload =>
    match s.reload W with
    | some (cl, ok) => { s with cluster := cl, refresh := .store ok }
    | none => { s with crashed := true }
  | .store ok => { s with bValid := ok, refresh := .unlock }
  -- the second of sleep after a load that failed is a time in which the thread takes no step
  | .unlock => { s with rwLock := s.rwLock.unlock, refresh := .check }
  | .done => s

end

def resting : At → Bool
  | .rest _ => true
  | _ => false

/-- the destructor; nobody is in a call when it starts -/
def destroyStep (s : CRedisClient n) : CRedisClient n :=
  match s.destroy with
  | .alive => if ∀ i, resting (s.callers i).place = true then { s with destroy := .clearValid } else s
  | .clearValid => { s with bValid := false, destroy := .setExit }
  | .setExit => { s with bExit := true, destroy := .lock }
  | .lock =>
    match s.rwLock.lock .destroy with
    | some l => { s with rwLock := l, destroy := .notify }
    | none => s
  | .notify => { s.notifyAll with destroy := .unlock }
  | .unlock => { s with rwLock := s.rwLock.unlock, destroy := .join }
  | .join => if s.refresh = .none ∨ s.refresh = .done then { s with destroy := .clean } else s
  | .clean =>
    { s with
      cluster := ⟨deleteServers s.cluster.heap s.cluster.vecRedisServ, [], []⟩
      destroy := .done }
  | .done => s

inductive Action (n : Nat) where
  | call (i : Fin n) (cmd : CRedisCommand)
  | caller (i : Fin n) (tryLock : Bool)
  | refresh
  /-- the wait ends without a notification -/
  | spurious
  | destroy

def step (W : World) (s : CRedisClient n) (a : Action n) : CRedisClient n :=
  if s.crashed then s
  else
    match a with
    | .call i cmd =>
      if s.destroy = .alive ∧ resting (s.callers i).place then s.setCaller i ⟨.check, cmd, false⟩ else s
    | .caller i tryLock => s.callerStep W i tryLock
    | .refresh => s.refreshStep W
    | .spurious => s.notifyAll
    | .destroy => s.destroyStep

/-! ## `Initialize` -/

def new : CRedisClient n where
  cluster := ⟨Heap.empty, [], []⟩
  bCluster := false
  nConnNum := -1
  bValid := true
  bExit := false
  rwLock := SharedLock.free
  refresh := .none
  destroy := .alive
  callers := fun _ => ⟨.rest none, ⟨[], -1, none⟩, false⟩
  crashed := false

/-- `info` -/
def info : CRedisCommand where
  args := [[105, 110, 102, 111]]

/-- `cluster_enabled` -/
def clusterEnabled : Str := [99, 108, 117, 115, 116, 101, 114, 95, 101, 110, 97, 98, 108, 101, 100]

/-- the host, and the port that follows it after a colon, if one does -/
def hostPort (strHost : Str) (nPort : Int) : Addr :=
  let nPos := strHost.findIdx (· == 58)
  if nPos = strHost.length then (strHost, nPort) else (strHost.take nPos, atoi (strHost.drop (nPos + 1)))

/-- the map that `INFO` gives, if it could be asked for and read -/
def readInfo (cmd : CRedisCommand) (nRet : Rc) : Option InfoMap :=
  match nRet, cmd.reply.map fun pReply => fetchString pReply [] with
  | .success, some (.success, strInfo) =>
    match convertToMapInfo strInfo [] with
    | (true, mapInfo) => some mapInfo
    | (false, _) => none
  | _, _ => none

/-- from the server on, whose number is 0; none if a null pointer is read -/
def initFrom (W : World) (s : CRedisClient n) (h : Heap) : Option (CRedisClient n) :=
  let (h, cmd, nRet) := servRequest W h 0 info
  match readInfo cmd nRet with
  | none => some (s.setHeap h)
  | some mapInfo =>
    match mapInfo.lookup clusterEnabled with
    | none => some (s.setHeap h)
    | some strVal =>
      let s := { s with cluster := ⟨h, [0], []⟩, bCluster := atoi strVal ≠ 0 }
      if s.bCluster then
        (loadClusterSlots W s.nConnNum s.cluster).map fun r =>
          { s with cluster := r.1, bValid := r.2, refresh := if r.2 then .check else .none }
      else
        let vecHosts := loadSlaveInfo mapInfo (h.servers 0).vecHosts
        some { s.setHeap (h.setServ 0 { h.servers 0 with vecHosts := vecHosts }) with
          bValid := true, refresh := .check }

def initClient (W : World) (strHost : Str) (nPort nTimeout nConnNum : Int) : Option (CRedisClient n) :=
  let (strHost, nPort) := hostPort strHost nPort
  let s : CRedisClient n := { new with nConnNum := nConnNum }
  if strHost = [] ∨ nPort ≤ 0 ∨ nTimeout ≤ 0 ∨ nConnNum ≤ 0 then some s
  else
    let h := newServer W Heap.empty strHost nPort nConnNum
    if isValid h 0 then initFrom W s h else some (s.setHeap h)

/-- the client when the threads may use it -/
def start (W : World) (strHost : Str) (nPort nTimeout nConnNum : Int) : CRedisClient n :=
  (initClient W strHost nPort nTimeout nConnNum).getD { new with crashed := true }

/-- the one worker of `RedisManager` -/
def worker : Fin 1 := ⟨0, Nat.one_pos⟩

end CRedisClient

end Iocp.Redis
