import IocpChatting.Redis.Info
import Mathlib.Logic.Function.Basic

/-!
# Connections and servers of the Redis client (Content/RedisClient.cpp)

* `World`                      hiredis, the servers it reaches and the clock, by the number of the call;
* `Heap`                       the `CRedisConnection`s and `CRedisServer`s, live and deleted;
* `connectToRedis`, `reconnect`, `connRequest`   of `CRedisConnection`;
* `fetchConnection`, `returnConnection`, `servRequest`, `initServer`   of `CRedisServer`.

A request changes contexts, times and the current host, and nothing that decides who owns a connection
(`Requested`); every context is open to a host of its server (`HostsOk`), so a reply comes from one of
them (`connRequest_report`).
-/

set_option linter.unusedSectionVars false
set_option autoImplicit false

namespace Iocp.Redis

/-- each call is told how many calls were made before it -/
structure World where
  /-- `redisConnectWithTimeout`: whether the connection comes up -/
  connect : Nat → Addr → Bool
  /-- `redisCommandArgv`; a null pointer if the connection fails -/
  answer : Nat → Addr → List Str → Option Reply
  /-- `time(nullptr)` -/
  time : Nat → Int

/-- a `CRedisCommand`: its argument vector (empty before `SetArgs`), its slot and its reply -/
structure CRedisCommand where
  args : List Str
  nSlot : Int := -1
  reply : Option Reply := none

structure CRedisConnection where
  /-- `m_pContext`: null, or open to this address -/
  context : Option Addr
  nUseTime : Int
  server : Nat

structure CRedisServer where
  strHost : Str
  nPort : Int
  nSerTimeout : Int
  nConnNum : Int
  queIdleConn : List Nat
  vecHosts : List Addr

/-- connections and servers go by number; one that is deleted keeps its number -/
structure Heap where
  conns : Nat → CRedisConnection
  servers : Nat → CRedisServer
  nextConn : Nat
  nextServ : Nat
  deletedConns : List Nat
  deletedServs : List Nat
  calls : Nat

namespace Heap

def empty : Heap where
  conns := fun _ => ⟨none, 0, 0⟩
  servers := fun _ => ⟨[], -1, 0, 0, [], []⟩
  nextConn := 0
  nextServ := 0
  deletedConns := []
  deletedServs := []
  calls := 0

def setConn (h : Heap) (c : Nat) (conn : CRedisConnection) : Heap :=
  { h with conns := Function.update h.conns c conn }

def setServ (h : Heap) (s : Nat) (serv : CRedisServer) : Heap :=
  { h with servers := Function.update h.servers s serv }

def idle (h : Heap) (s : Nat) : List Nat := (h.servers s).queIdleConn

def setIdle (h : Heap) (s : Nat) (queIdleConn : List Nat) : Heap :=
  h.setServ s { h.servers s with queIdleConn := queIdleConn }

def called (h : Heap) (n : Nat) : Heap := { h with calls := h.calls + n }

end Heap

/-- `CRedisServer::IsValid` -/
def isValid (h : Heap) (s : Nat) : Bool := !(h.idle s).isEmpty

section
variable (W : World)

/-! ## `CRedisConnection` -/

/-- the old context is freed first -/
def connectToRedis (h : Heap) (c : Nat) (addr : Addr) : Heap × Bool :=
  if W.connect h.calls addr then
    ((h.setConn c { h.conns c with context := some addr, nUseTime := W.time (h.calls + 1) }).called 2, true)
  else ((h.setConn c { h.conns c with context := none }).called 1, false)

/-- the loop over `m_vecHosts` -/
def tryHosts (c s : Nat) : List Addr → Heap → Heap × Bool
  | [], h => (h.setServ s { h.servers s with strHost := [] }, false)
  | addr :: rest, h =>
    match connectToRedis W h c addr with
    | (h, true) => (h.setServ s { h.servers s with strHost := addr.1, nPort := addr.2 }, true)
    | (h, false) => tryHosts c s rest h

def reconnect (h : Heap) (c : Nat) : Heap × Bool :=
  let s := (h.conns c).server
  let serv := h.servers s
  if serv.strHost = [] then tryHosts W c s serv.vecHosts h
  else
    match connectToRedis W h c (serv.strHost, serv.nPort) with
    | (h, true) => (h, true)
    | (h, false) => tryHosts W c s serv.vecHosts h

/-- `CRedisCommand::CmdRequest` -/
def cmdRequest (h : Heap) (cmd : CRedisCommand) (context : Option Addr) : Heap × CRedisCommand × Rc :=
  if cmd.args = [] then (h, cmd, .paramErr)
  else
    match context with
    | none => (h, cmd, .rqstErr)
    | some addr =>
      let reply := W.answer h.calls addr cmd.args
      (h.called 1, { cmd with reply := reply }, if reply.isSome then .success else .rqstErr)

/-- `m_nUseTime = tmNow` unless the request failed -/
def stamp (c : Nat) (tmNow : Int) : Heap × CRedisCommand × Rc → Heap × CRedisCommand × Rc
  | (h, cmd, nRet) =>
    if nRet = .rqstErr then (h, cmd, nRet)
    else (h.setConn c { h.conns c with nUseTime := tmNow }, cmd, nRet)

/-- the request on an open context; after a failure, once more on a new one if the old one may have
been timed out by the server -/
def request (h : Heap) (c : Nat) (cmd : CRedisCommand) (tmNow : Int) : Heap × CRedisCommand × Rc :=
  match cmdRequest W h cmd (h.conns c).context with
  | (h, cmd, .rqstErr) =>
    if tmNow - (h.conns c).nUseTime < (h.servers (h.conns c).server).nSerTimeout then (h, cmd, .rqstErr)
    else
      match reconnect W h c with
      | (h, false) => (h, cmd, .rqstErr)
      | (h, true) => stamp c tmNow (cmdRequest W h cmd (h.conns c).context)
  | r => stamp c tmNow r

def connRequest (h : Heap) (c : Nat) (cmd : CRedisCommand) : Heap × CRedisCommand × Rc :=
  let tmNow := W.time h.calls
  let h := h.called 1
  if (h.conns c).context = none ∨
      tmNow - (h.conns c).nUseTime ≥ (h.servers (h.conns c).server).nSerTimeout then
    match reconnect W h c with
    | (h, false) => (h, cmd, .rqstErr)
    | (h, true) => request W h c cmd tmNow
  else request W h c cmd tmNow

/-! ## `CRedisServer` -/

def fetchConnection (h : Heap) (s : Nat) : Heap × Option Nat :=
  match h.idle s with
  | [] => (h, none)
  | c :: rest => (h.setIdle s rest, some c)

def returnConnection (h : Heap) (s c : Nat) : Heap := h.setIdle s (h.idle s ++ [c])

def rqstRetryTimes : Nat := 3

/-- the tries of `ServRequest`, where nobody else has the server -/
def fetchTries : Nat → Heap → Nat → Heap × Option Nat
  | 0, h, _ => (h, none)
  | nTry + 1, h, s =>
    match fetchConnection h s with
    | (h, some c) => (h, some c)
    | (h, none) => fetchTries nTry h s

def servRequest (h : Heap) (s : Nat) (cmd : CRedisCommand) : Heap × CRedisCommand × Rc :=
  match fetchTries rqstRetryTimes h s with
  | (h, none) => (h, cmd, .noResource)
  | (h, some c) =>
    match connRequest W h c cmd with
    | (h, cmd, nRet) => (returnConnection h s c, cmd, nRet)

def cleanConn (h : Heap) (s : Nat) : Heap :=
  { h.setIdle s [] with deletedConns := h.deletedConns ++ h.idle s }

/-- `new CRedisConnection(this)` -/
def newConnection (h : Heap) (s : Nat) : Heap :=
  (reconnect W { h.setConn h.nextConn ⟨none, 0, s⟩ with nextConn := h.nextConn + 1 } h.nextConn).1

/-- the loop of `Initialize`; a connection that does not come up is left to leak -/
def newConns (s : Nat) : Nat → Heap → Heap
  | 0, h => h
  | n + 1, h =>
    let c := h.nextConn
    let h := newConnection W h s
    newConns s n (if (h.conns c).context.isSome then returnConnection h s c else h)

/-- `config get timeout` -/
def configTimeout : CRedisCommand where
  args := [[99, 111, 110, 102, 105, 103], [103, 101, 116], [116, 105, 109, 101, 111, 117, 116]]

/-- `m_nSerTimeout` is left alone unless the answer is a list of two -/
def readTimeout (h : Heap) (s : Nat) : Heap :=
  match servRequest W h s configTimeout with
  | (h, cmd, .success) =>
    match cmd.reply.map fun pReply => fetchStringArray pReply [] with
    | some (.success, [_, strVal]) => h.setServ s { h.servers s with nSerTimeout := atoi strVal }
    | _ => h
  | (h, _) => h

def initServer (h : Heap) (s : Nat) : Heap × Bool :=
  let h := newConns W s (h.servers s).nConnNum.toNat (cleanConn h s)
  let h := if isValid h s then readTimeout W h s else h
  (h, isValid h s)

/-- `new CRedisServer(strHost, nPort, nTimeout, nConnNum)`; the new server's number is `h.nextServ` -/
def newServer (h : Heap) (strHost : Str) (nPort nConnNum : Int) : Heap :=
  let serv : CRedisServer := ⟨strHost, nPort, 0, nConnNum, [], [(strHost, nPort)]⟩
  (initServer W { h.setServ h.nextServ serv with nextServ := h.nextServ + 1 } h.nextServ).1

/-- `delete pRedisServ` -/
def deleteServer (h : Heap) (s : Nat) : Heap :=
  { cleanConn h s with deletedServs := h.deletedServs ++ [s] }

/-- `delete` for each of a vector -/
def deleteServers (h : Heap) (vecRedisServ : List Nat) : Heap := vecRedisServ.foldl deleteServer h

end

/-! ## what a request does to the heap -/

/-- contexts are open to hosts of their server, and the current host is one of them -/
structure HostsOk (h : Heap) : Prop where
  context : ∀ c addr, (h.conns c).context = some addr →
    addr ∈ (h.servers (h.conns c).server).vecHosts ∧ (h.conns c).server < h.nextServ
  host : ∀ s, (h.servers s).strHost ≠ [] →
    ((h.servers s).strHost, (h.servers s).nPort) ∈ (h.servers s).vecHosts

/-- queues, owners and hosts are left alone -/
structure Requested (h h' : Heap) : Prop where
  idle : ∀ s, h'.idle s = h.idle s
  vecHosts : ∀ s, (h'.servers s).vecHosts = (h.servers s).vecHosts
  server : ∀ c, (h'.conns c).server = (h.conns c).server
  nextConn : h'.nextConn = h.nextConn
  nextServ : h'.nextServ = h.nextServ
  deletedConns : h'.deletedConns = h.deletedConns
  deletedServs : h'.deletedServs = h.deletedServs
  hostsOk : HostsOk h → HostsOk h'

namespace Requested

theorem refl (h : Heap) : Requested h h :=
  ⟨fun _ => rfl, fun _ => rfl, fun _ => rfl, rfl, rfl, rfl, rfl, id⟩

theorem trans {h h' h'' : Heap} (h1 : Requested h h') (h2 : Requested h' h'') : Requested h h'' where
  idle s := (h2.idle s).trans (h1.idle s)
  vecHosts s := (h2.vecHosts s).trans (h1.vecHosts s)
  server c := (h2.server c).trans (h1.server c)
  nextConn := h2.nextConn.trans h1.nextConn
  nextServ := h2.nextServ.trans h1.nextServ
  deletedConns := h2.deletedConns.trans h1.deletedConns
  deletedServs := h2.deletedServs.trans h1.deletedServs
  hostsOk h0 := h2.hostsOk (h1.hostsOk h0)

theorem called (h : Heap) (n : Nat) : Requested h (h.called n) :=
  ⟨fun _ => rfl, fun _ => rfl, fun _ => rfl, rfl, rfl, rfl, rfl, fun h0 => ⟨h0.context, h0.host⟩⟩

theorem setConn {h : Heap} {c : Nat} {conn : CRedisConnection} (hs : conn.server = (h.conns c).server)
    (hc : HostsOk h → ∀ addr, conn.context = some addr →
      addr ∈ (h.servers (h.conns c).server).vecHosts ∧ (h.conns c).server < h.nextServ) :
    Requested h (h.setConn c conn) where
  idle _ := rfl
  vecHosts _ := rfl
  server c' := by
    by_cases e : c' = c
    · subst e
      simp [Heap.setConn, hs]
    · simp [Heap.setConn, Function.update_of_ne e]
  nextConn := rfl
  nextServ := rfl
  deletedConns := rfl
  deletedServs := rfl
  hostsOk h0 := by
    refine ⟨fun c' addr ha => ?_, h0.host⟩
    by_cases e : c' = c
    · subst e
      simp only [Heap.setConn, Function.update_self] at ha ⊢
      rw [hs]
      exact hc h0 addr ha
    · simp only [Heap.setConn, Function.update_of_ne e] at ha ⊢
      exact h0.context c' addr ha

/-- a context is closed, or its time is set -/
theorem setConn_old {h : Heap} {c : Nat} {conn : CRedisConnection} (hs : conn.server = (h.conns c).server)
    (hc : conn.context = none ∨ conn.context = (h.conns c).context) : Requested h (h.setConn c conn) := by
  refine setConn hs fun h0 addr ha => ?_
  rcases hc with hc | hc
  · rw [hc] at ha
    cases ha
  · exact h0.context c addr (hc ▸ ha)

theorem setServ {h : Heap} {s : Nat} {serv : CRedisServer} (hq : serv.queIdleConn = h.idle s)
    (hv : serv.vecHosts = (h.servers s).vecHosts)
    (hh : HostsOk h → serv.strHost ≠ [] → (serv.strHost, serv.nPort) ∈ serv.vecHosts) :
    Requested h (h.setServ s serv) where
  idle s' := by
    by_cases e : s' = s
    · subst e
      simp [Heap.idle, Heap.setServ, hq]
    · simp [Heap.idle, Heap.setServ, Function.update_of_ne e]
  vecHosts s' := by
    by_cases e : s' = s
    · subst e
      simp [Heap.setServ, hv]
    · simp [Heap.setServ, Function.update_of_ne e]
  server _ := rfl
  nextConn := rfl
  nextServ := rfl
  deletedConns := rfl
  deletedServs := rfl
  hostsOk h0 := by
    constructor
    · intro c addr ha
      obtain ⟨h1, h2⟩ := h0.context c addr ha
      refine ⟨?_, h2⟩
      by_cases e : (h.conns c).server = s
      · show addr ∈ (Function.update h.servers s serv (h.conns c).server).vecHosts
        rw [e, Function.update_self, hv, ← e]
        exact h1
      · show addr ∈ (Function.update h.servers s serv (h.conns c).server).vecHosts
        rw [Function.update_of_ne e]
        exact h1
    · intro s' hs'
      by_cases e : s' = s
      · subst e
        simp only [Heap.setServ, Function.update_self] at hs' ⊢
        exact hh h0 hs'
      · simp only [Heap.setServ, Function.update_of_ne e] at hs' ⊢
        exact h0.host s' hs'

end Requested

section
variable (W : World)

theorem connectToRedis_requested (h : Heap) (c : Nat) (addr : Addr)
    (ha : HostsOk h → addr ∈ (h.servers (h.conns c).server).vecHosts)
    (hs : (h.conns c).server < h.nextServ) : Requested h (connectToRedis W h c addr).1 := by
  unfold connectToRedis
  split
  · have h1 : Requested h
        (h.setConn c { h.conns c with context := some addr, nUseTime := W.time (h.calls + 1) }) := by
      refine Requested.setConn rfl fun h0 addr' he => ?_
      obtain rfl : addr = addr' := by simpa using he
      exact ⟨ha h0, hs⟩
    exact h1.trans (Requested.called _ 2)
  · have h1 : Requested h (h.setConn c { h.conns c with context := none }) :=
      Requested.setConn_old rfl (Or.inl rfl)
    exact h1.trans (Requested.called _ 1)

theorem tryHosts_requested (c s : Nat) (hosts : List Addr) (h : Heap) (hc : (h.conns c).server = s)
    (hs : s < h.nextServ) (hh : ∀ addr ∈ hosts, addr ∈ (h.servers s).vecHosts) :
    Requested h (tryHosts W c s hosts h).1 := by
  induction hosts generalizing h with
  | nil => exact Requested.setServ rfl rfl fun _ hne => absurd rfl hne
  | cons addr rest ih =>
    have haddr := hh addr List.mem_cons_self
    have h1 := connectToRedis_requested W h c addr (fun _ => hc ▸ haddr) (hc ▸ hs)
    rw [tryHosts]
    generalize connectToRedis W h c addr = r at h1
    obtain ⟨h', ok⟩ := r
    cases ok with
    | true => exact h1.trans (Requested.setServ rfl rfl fun _ _ => (h1.vecHosts s).symm ▸ haddr)
    | false =>
      refine h1.trans (ih h' ((h1.server c).trans hc) (h1.nextServ ▸ hs) fun addr' ha' => ?_)
      rw [h1.vecHosts s]
      exact hh addr' (List.mem_cons_of_mem _ ha')

theorem reconnect_requested (h : Heap) (c : Nat) (hs : (h.conns c).server < h.nextServ) :
    Requested h (reconnect W h c).1 := by
  unfold reconnect
  simp only []
  split
  · exact tryHosts_requested W c _ _ h rfl hs fun _ ha => ha
  · rename_i hne
    have h1 := connectToRedis_requested W h c ((h.servers (h.conns c).server).strHost,
      (h.servers (h.conns c).server).nPort) (fun h0 => h0.host _ hne) hs
    generalize connectToRedis W h c _ = r at h1
    obtain ⟨h', ok⟩ := r
    cases ok with
    | true => exact h1
    | false =>
      refine h1.trans (tryHosts_requested W c _ _ h' (h1.server c) (h1.nextServ ▸ hs) fun addr ha => ?_)
      rw [h1.vecHosts]
      exact ha

theorem cmdRequest_requested (h : Heap) (cmd : CRedisCommand) (context : Option Addr) :
    Requested h (cmdRequest W h cmd context).1 := by
  unfold cmdRequest
  split
  · exact Requested.refl h
  · cases context with
    | none => exact Requested.refl h
    | some addr => exact Requested.called h 1

theorem stamp_requested (c : Nat) (tmNow : Int) (r : Heap × CRedisCommand × Rc) :
    Requested r.1 (stamp c tmNow r).1 := by
  unfold stamp
  split
  split
  · exact Requested.refl _
  · exact Requested.setConn_old rfl (Or.inr rfl)

theorem request_requested (h : Heap) (c : Nat) (cmd : CRedisCommand) (tmNow : Int)
    (hs : (h.conns c).server < h.nextServ) : Requested h (request W h c cmd tmNow).1 := by
  have h1 := cmdRequest_requested W h cmd (h.conns c).context
  unfold request
  generalize cmdRequest W h cmd (h.conns c).context = r at h1
  obtain ⟨h', cmd', nRet⟩ := r
  split
  · rename_i e
    obtain ⟨rfl, rfl, rfl⟩ := by simpa using e
    split
    · exact h1
    · have h2 := reconnect_requested W h' c (by rw [h1.server, h1.nextServ]; exact hs)
      generalize reconnect W h' c = r at h2
      obtain ⟨h'', ok⟩ := r
      cases ok with
      | false => exact h1.trans h2
      | true => exact (h1.trans h2).trans ((cmdRequest_requested W h'' _ _).trans (stamp_requested c tmNow _))
  · exact h1.trans (stamp_requested c tmNow _)

theorem connRequest_requested (h : Heap) (c : Nat) (cmd : CRedisCommand)
    (hs : (h.conns c).server < h.nextServ) : Requested h (connRequest W h c cmd).1 := by
  have h0 := Requested.called h 1
  unfold connRequest
  simp only []
  split
  · have h1 := reconnect_requested W (h.called 1) c hs
    generalize reconnect W (h.called 1) c = r at h1
    obtain ⟨h', ok⟩ := r
    cases ok with
    | false => exact h0.trans h1
    | true =>
      exact (h0.trans h1).trans (request_requested W h' c cmd _ (by rw [h1.server, h1.nextServ]; exact hs))
  · exact h0.trans (request_requested W _ c cmd _ hs)

/-! ## where a reply comes from -/

/-- one of `hosts` gave `reply` to `args` -/
def Answered (hosts : List Addr) (args : List Str) (reply : Reply) : Prop :=
  ∃ n, ∃ addr ∈ hosts, W.answer n addr args = some reply

/-- what a request reports back -/
structure Report (hosts : List Addr) (cmd : CRedisCommand) (r : Heap × CRedisCommand × Rc) : Prop where
  args : r.2.1.args = cmd.args
  nSlot : r.2.1.nSlot = cmd.nSlot
  code : r.2.2 = .success ∨ r.2.2 = .rqstErr ∨ r.2.2 = .paramErr
  reply : r.2.2 = .success → ∃ reply, r.2.1.reply = some reply ∧ Answered W hosts cmd.args reply
  silent : r.2.2 ≠ .success → cmd.reply = none → r.2.1.reply = none

variable {W}

theorem Report.failed (hosts : List Addr) (h : Heap) (cmd : CRedisCommand) :
    Report W hosts cmd (h, cmd, .rqstErr) :=
  ⟨rfl, rfl, Or.inr (Or.inl rfl), fun he => (by cases he), fun _ h => h⟩

/-- the report of a request that is made again after a failure -/
theorem Report.retried {hosts : List Addr} {cmd cmd' : CRedisCommand} {h : Heap} {r : Heap × CRedisCommand × Rc}
    (hr' : Report W hosts cmd' r) (hr : Report W hosts cmd (h, cmd', .rqstErr)) : Report W hosts cmd r :=
  ⟨hr'.args.trans hr.args, hr'.nSlot.trans hr.nSlot, hr'.code, fun he => hr.args ▸ hr'.reply he,
    fun he hnone => hr'.silent he (hr.silent (fun h => by cases h) hnone)⟩

variable (W)

theorem cmdRequest_report (h : Heap) (cmd : CRedisCommand) {context : Option Addr} {hosts : List Addr}
    (hc : ∀ addr, context = some addr → addr ∈ hosts) : Report W hosts cmd (cmdRequest W h cmd context) := by
  unfold cmdRequest
  split
  · exact ⟨rfl, rfl, Or.inr (Or.inr rfl), fun he => (by cases he), fun _ h => h⟩
  · cases context with
    | none => exact Report.failed hosts h cmd
    | some addr =>
      simp only []
      cases ha : W.answer h.calls addr cmd.args with
      | none => exact ⟨rfl, rfl, Or.inr (Or.inl rfl), fun he => (by cases he), fun _ _ => rfl⟩
      | some reply =>
        exact ⟨rfl, rfl, Or.inl rfl, fun _ => ⟨reply, rfl, h.calls, addr, hc addr rfl, ha⟩,
          fun he => absurd rfl he⟩

theorem stamp_report (c : Nat) (tmNow : Int) {hosts : List Addr} {cmd : CRedisCommand}
    {r : Heap × CRedisCommand × Rc} (hr : Report W hosts cmd r) : Report W hosts cmd (stamp c tmNow r) := by
  obtain ⟨h, cmd', nRet⟩ := r
  unfold stamp
  simp only []
  split
  · exact hr
  · exact ⟨hr.args, hr.nSlot, hr.code, hr.reply, hr.silent⟩

theorem request_report {h : Heap} {c : Nat} (h0 : HostsOk h) (hs : (h.conns c).server < h.nextServ)
    (cmd : CRedisCommand) (tmNow : Int) :
    Report W (h.servers (h.conns c).server).vecHosts cmd (request W h c cmd tmNow) := by
  have h1 := cmdRequest_requested W h cmd (h.conns c).context
  have hr1 := cmdRequest_report W h cmd fun addr ha => (h0.context c addr ha).1
  unfold request
  generalize cmdRequest W h cmd (h.conns c).context = r at h1 hr1
  obtain ⟨h', cmd', nRet⟩ := r
  split
  · rename_i e
    obtain ⟨rfl, rfl, rfl⟩ := by simpa using e
    split
    · exact hr1
    · have h2 := reconnect_requested W h' c (by rw [h1.server, h1.nextServ]; exact hs)
      generalize reconnect W h' c = r at h2
      obtain ⟨h'', ok⟩ := r
      cases ok with
      | false => exact (Report.failed _ h'' cmd').retried hr1
      | true =>
        have h12 := h1.trans h2
        refine stamp_report W c tmNow (Report.retried (cmdRequest_report W h'' cmd' fun addr ha => ?_) hr1)
        have hm := ((h12.hostsOk h0).context c addr ha).1
        rw [h12.server, h12.vecHosts] at hm
        exact hm
  · exact stamp_report W c tmNow hr1

theorem connRequest_report {h : Heap} {c : Nat} (h0 : HostsOk h) (hs : (h.conns c).server < h.nextServ)
    (cmd : CRedisCommand) :
    Report W (h.servers (h.conns c).server).vecHosts cmd (connRequest W h c cmd) := by
  have hcall := Requested.called h 1
  unfold connRequest
  simp only []
  split
  · have h1 := reconnect_requested W (h.called 1) c hs
    generalize reconnect W (h.called 1) c = r at h1
    obtain ⟨h', ok⟩ := r
    cases ok with
    | false => exact Report.failed _ h' cmd
    | true =>
      have h2 := hcall.trans h1
      have hr := request_report W (h2.hostsOk h0) (by rw [h2.server, h2.nextServ]; exact hs) cmd
        (W.time h.calls)
      rw [h2.server, h2.vecHosts] at hr
      exact hr
  · exact request_report W (hcall.hostsOk h0) hs cmd _

end

end Iocp.Redis
