import IocpChatting.Content.Steps

/-!
# `ChatServer::Start` (Content/chat_server.cpp)

The network is started first, and the users are made after that: `PacketManager::Init` sets the
pointers to the managers, and `UserManager::Init` then pushes one user after the other into
`user_obj_pool_`.  From `BindAndListen` on the worker threads serve clients.

* `Startup`            the server with the main thread in `Start`; `enqueuePacket` tests the size that
                       the pool has so far;
* `Ordered`            what the place of the main thread says about the pool;
* `step_view`, `run_view`   where every `OnRecv` is permitted, the server is the one that was complete
                       from the start, and nothing that it receives is lost;
* `found_run_iff`      every `OnRecv` finds its user exactly if the main thread has pushed it before;
* `dropped_at_start`   a run in which the first packet of a client is dropped.

A `push_back` and a call of `GetUserByIndex` are single steps here: that a worker may read the vector
while it moves is not modelled.
-/

set_option linter.unusedSectionVars false
set_option autoImplicit false

namespace Iocp
open Runs

namespace Startup

/-- the statements of `Start`, with those of the functions that it calls -/
inductive MainPc where
  | setDelegate
  | initListenSocket
  | initSessionPool
  | createIOCP
  | createWorkerAndIOThread
  | bindAndListen
  | setManagers
  | pushUser (i : Session)
  | initUser (i : Session)
  | initRooms
  | bindHandler
  | run
  | redisStart
  /-- `Start` has returned true -/
  | started
  /-- `Start` has returned false -/
  | failed
deriving DecidableEq, Repr

namespace MainPc

/-- clients are accepted: the listen socket is associated with the completion port -/
def accepts : MainPc → Bool
  | .setDelegate | .initListenSocket | .initSessionPool | .createIOCP | .createWorkerAndIOThread
  | .bindAndListen | .failed => false
  | _ => true

/-- `PacketProcessThread` has been started -/
def loopRuns : MainPc → Bool
  | .redisStart | .started => true
  | _ => false

/-- the calls of `push_back` that `UserManager::Init` has made -/
def pushed : MainPc → Nat
  | .pushUser i => i
  | .initUser i => i + 1
  | .initRooms | .bindHandler | .run | .redisStart | .started => kMaxUserCnt
  | _ => 0

/-- and the calls of `User::Init` -/
def initialized : MainPc → Nat
  | .pushUser i | .initUser i => i
  | .initRooms | .bindHandler | .run | .redisStart | .started => kMaxUserCnt
  | _ => 0

end MainPc

end Startup

/-- A user of `server` from `poolSize` on is one that `UserManager::Init` has still to make. -/
structure Startup where
  main : Startup.MainPc
  /-- `p_ref_user_manager_` has been set -/
  managers : Bool
  /-- `user_obj_pool_.size()` -/
  poolSize : Nat
  /-- the sessions that `OnConnect` has been called for -/
  connected : Session → Bool
  /-- the Redis workers have been started -/
  redisRuns : Bool
  server : Server

namespace Startup

/-- before `Start` is called; a new `User` has the index -1 -/
def start (heap : Session → Fin kDefaultRingBufferSize → UInt8) : Startup where
  main := .setDelegate
  managers := false
  poolSize := 0
  connected := fun _ => false
  redisRuns := false
  server := { Server.start heap with
    chat := { Chat.init heap with
      users := { UserManager.init heap with pool := fun p => User.init (heap p) (-1) } } }

/-- `ok` is the result of the system calls -/
inductive Action where
  | main (ok : Bool)
  | server (a : Server.Action)

def initUser (s : Server) (i : Session) : Server :=
  { s with chat := s.chat.setUser i { s.chat.users.pool i with sessionIdx := (i : Nat) } }

/-- the next statement of the main thread -/
def mainStep (t : Startup) (ok : Bool) : Startup :=
  match t.main with
  | .setDelegate => { t with main := .initListenSocket }
  | .initListenSocket => { t with main := if ok then .initSessionPool else .failed }
  | .initSessionPool => { t with main := .createIOCP }
  | .createIOCP => { t with main := if ok then .createWorkerAndIOThread else .failed }
  | .createWorkerAndIOThread => { t with main := .bindAndListen }
  | .bindAndListen => { t with main := if ok then .setManagers else .failed }
  | .setManagers => { t with managers := true, main := .pushUser 0 }
  | .pushUser i => { t with poolSize := t.poolSize + 1, main := .initUser i }
  | .initUser i =>
    { t with
      server := initUser t.server i
      main := if h : (i : Nat) + 1 < kMaxUserCnt then .pushUser ⟨i + 1, h⟩ else .initRooms }
  | .initRooms => { t with main := .bindHandler }
  | .bindHandler => { t with main := .run }
  | .run => { t with main := .redisStart }
  -- `Start` does not look at the result of `RedisManager::Start`
  | .redisStart => { t with redisRuns := ok, main := .started }
  | .started | .failed => t

/-- `GetUserByIndex` on the pool as it is -/
def getUserByIndex (t : Startup) (userIndex : Int) : Option Session :=
  if userIndex < 0 ∨ userIndex ≥ t.poolSize then none else UserManager.getUserByIndex userIndex

/-- first half of `EnqueuePacket`; the result is `none` where `p_ref_user_manager_` has no value yet -/
def enqueuePacket (t : Startup) (i : Session) (data : List UInt8) : Startup × Option Bool :=
  if t.managers = false then (t, none)
  else
    match t.getUserByIndex (i : Nat) with
    | none => (t, some false)
    | some p =>
      ({ t with server := { t.server.storePacket p data with storing := i :: t.server.storing } }, some true)

section
variable (redisGet : CStr → Option (List UInt8))

/-- a thread that does not run yet does nothing, and `OnRecv` comes after `OnConnect` -/
def step (t : Startup) : Action → Startup
  | .main ok => t.mainStep ok
  | .server a =>
    match a with
    | .onConnect i =>
      if t.main.accepts then
        { t with server := t.server.step redisGet a, connected := Function.update t.connected i true }
      else t
    | .onRecv i data => if t.connected i then (t.enqueuePacket i data).1 else t
    | .onDisconnect i | .pushIndex i =>
      if t.connected i then { t with server := t.server.step redisGet a } else t
    | .loop _ => if t.main.loopRuns then { t with server := t.server.step redisGet a } else t
    | .redisTake | .redisPut .. => if t.redisRuns then { t with server := t.server.step redisGet a } else t

end

/-- the call of `OnRecv` in a step -/
def received (t : Startup) : Action → Option (Session × List UInt8)
  | .server (.onRecv i data) => if t.connected i then some (i, data) else none
  | _ => none

/-- the call of `OnRecv` in a step finds its user -/
def Finds (t : Startup) (a : Action) : Prop :=
  ∀ x ∈ t.received a, (t.enqueuePacket x.1 x.2).2 = some true

/-- **The condition.**  `UserManager::Init` has pushed the user before. -/
def Permits (t : Startup) (a : Action) : Prop :=
  ∀ x ∈ t.received a, (x.1 : Nat) < t.main.pushed

/-- what a step is to a server that was complete from the start -/
def served (t : Startup) : Action → Option Server.Action
  | .main _ => none
  | .server a =>
    match a with
    | .onConnect _ => if t.main.accepts then some a else none
    | .onRecv i _ | .onDisconnect i | .pushIndex i => if t.connected i then some a else none
    | .loop _ => if t.main.loopRuns then some a else none
    | .redisTake | .redisPut .. => if t.redisRuns then some a else none

end Startup

/-! ## a complete pool -/

/-- every user has its index -/
def Chat.indexed (c : Chat) : Chat :=
  { c with users := { c.users with
    pool := fun p => { c.users.pool p with sessionIdx := (p : Nat) } } }

def Server.indexed (s : Server) : Server := { s with chat := s.chat.indexed }

theorem Chat.indexed_eq {c : Chat} (h : ∀ p, (c.users.pool p).sessionIdx = (p : Nat)) : c.indexed = c := by
  have e : (fun p => { c.users.pool p with sessionIdx := ((p : Nat) : Int) }) = c.users.pool := by
    funext p
    rw [← h p]
  unfold Chat.indexed
  rw [e]

theorem Server.indexed_eq {s : Server} (h : ∀ p, (s.chat.users.pool p).sessionIdx = (p : Nat)) :
    s.indexed = s := by
  unfold Server.indexed
  rw [Chat.indexed_eq h]

/-- the index of a user does not matter while it is written -/
theorem Chat.indexed_setUser (c : Chat) (p : Session) (u : User) :
    (c.setUser p u).indexed = c.indexed.setUser p { u with sessionIdx := (p : Nat) } := by
  have e : (fun q => { Function.update c.users.pool p u q with sessionIdx := ((q : Nat) : Int) })
      = Function.update (fun q => { c.users.pool q with sessionIdx := ((q : Nat) : Int) }) p
        { u with sessionIdx := ((p : Nat) : Int) } := by
    funext q
    by_cases hq : q = p
    · subst hq
      rw [Function.update_self, Function.update_self]
    · rw [Function.update_of_ne hq, Function.update_of_ne hq]
  exact congrArg (fun pool => ({ c with users := { c.users with pool := pool } } : Chat)) e

/-- no thread but the packet loop reads it -/
theorem Server.indexed_step (redisGet : CStr → Option (List UInt8)) (s : Server) {a : Server.Action}
    (ha : ∀ mem, a ≠ .loop mem) : (s.step redisGet a).indexed = s.indexed.step redisGet a := by
  cases a with
  | loop mem => exact absurd rfl (ha mem)
  | onConnect i | onDisconnect i => rfl
  | onRecv i data =>
    show { s with chat := (s.chat.setUser i _).indexed, storing := _ } = _
    rw [Chat.indexed_setUser]
    rfl
  | pushIndex i =>
    show Server.indexed (if i ∈ s.storing then _ else _) = if i ∈ s.storing then _ else _
    by_cases hi : i ∈ s.storing
    · rw [if_pos hi, if_pos hi]
      rfl
    · rw [if_neg hi, if_neg hi]
  | redisTake =>
    show Server.indexed (s.step redisGet .redisTake) = _
    have e : s.indexed.chat.taskReqQueue = s.chat.taskReqQueue := rfl
    cases hq : s.chat.taskReqQueue with
    | nil => simp only [Server.step, e, hq]
    | cons task rest =>
      simp only [Server.step, e, hq]
      rfl
  | redisPut k mem =>
    have e : s.indexed.workers = s.workers := rfl
    cases hw : s.workers[k]? with
    | none => simp only [Server.step, e, hw]
    | some task =>
      simp only [Server.step, e, hw]
      rfl

namespace Startup

def view (t : Startup) : Server := t.server.indexed

theorem view_start (heap : Session → Fin kDefaultRingBufferSize → UInt8) :
    (start heap).view = Server.start heap := rfl

theorem initUser_indexed (s : Server) (i : Session) : (initUser s i).indexed = s.indexed := by
  have e : (initUser s i).indexed.chat = s.indexed.chat := by
    show (s.chat.setUser i _).indexed = s.chat.indexed
    rw [Chat.indexed_setUser]
    have hpool := Function.update_eq_self i s.chat.indexed.users.pool
    exact congrArg (fun pool => ({ s.chat with users := { s.chat.users with pool := pool } } : Chat)) hpool
  exact congrArg (fun c => ({ s with chat := c } : Server)) e

/-- the main thread does nothing that the complete server would see -/
theorem view_main (t : Startup) (ok : Bool) : (t.mainStep ok).view = t.view := by
  unfold mainStep
  split
  case h_9 => exact initUser_indexed t.server _
  all_goals rfl

/-! ## the place of the main thread -/

structure Ordered (t : Startup) : Prop where
  /-- the managers are set before the first user is pushed -/
  managers : t.main ≠ .setManagers → t.main.accepts = true → t.managers = true
  poolSize : t.poolSize = t.main.pushed
  sessionIdx : ∀ p : Session, (p : Nat) < t.main.initialized →
    (t.server.chat.users.pool p).sessionIdx = (p : Nat)
  redisRuns : t.redisRuns = true → t.main = .started
  fixed : t.view.chat.Fixed

theorem start_ordered (heap : Session → Fin kDefaultRingBufferSize → UInt8) : (start heap).Ordered where
  managers _ h := by cases h
  poolSize := rfl
  sessionIdx _ h := by cases h
  redisRuns h := by cases h
  fixed := Chat.init_fixed heap

theorem pushed_pos {pc : MainPc} (h : 0 < pc.pushed) : pc ≠ .setManagers ∧ pc.accepts = true := by
  cases pc with
  | pushUser | initUser | initRooms | bindHandler | run | redisStart | started =>
    exact ⟨fun e => (by cases e), rfl⟩
  | _ => cases h

theorem getUserByIndex_pool (t : Startup) (i : Session) :
    t.getUserByIndex (i : Nat) = if (i : Nat) < t.poolSize then some i else none := by
  unfold getUserByIndex
  by_cases hi : (i : Nat) < t.poolSize
  · rw [if_pos hi, if_neg (by omega), getUserByIndex_session]
  · rw [if_neg hi, if_pos (by omega)]

/-- **`EnqueuePacket` finds a user exactly if it has been pushed.**  Then it does what it does on the
complete pool, and otherwise the bytes are dropped. -/
theorem enqueuePacket_spec {t : Startup} (h : t.Ordered) (redisGet : CStr → Option (List UInt8))
    (i : Session) (data : List UInt8) :
    ((i : Nat) < t.main.pushed ∧ t.enqueuePacket i data =
        ({ t with server := t.server.step redisGet (.onRecv i data) }, some true)) ∨
      (¬ (i : Nat) < t.main.pushed ∧ (t.enqueuePacket i data).1 = t ∧
        (t.enqueuePacket i data).2 ≠ some true) := by
  unfold enqueuePacket
  rw [getUserByIndex_pool, h.poolSize]
  by_cases hi : (i : Nat) < t.main.pushed
  · obtain ⟨hne, hacc⟩ := pushed_pos (Nat.zero_lt_of_lt hi)
    rw [if_pos hi, h.managers hne hacc]
    exact .inl ⟨hi, rfl⟩
  · rw [if_neg hi]
    refine .inr ⟨hi, ?_⟩
    by_cases hm : t.managers = false
    · rw [if_pos hm]
      exact ⟨rfl, fun e => by cases e⟩
    · rw [if_neg hm]
      exact ⟨rfl, fun e => by cases e⟩

/-- **An `OnRecv` finds its user exactly if it is permitted.** -/
theorem finds_iff {t : Startup} (h : t.Ordered) (a : Action) : t.Finds a ↔ t.Permits a := by
  refine forall₂_congr fun x _ => ?_
  rcases enqueuePacket_spec h (fun _ => none) x.1 x.2 with ⟨hi, e⟩ | ⟨hi, _, hne⟩
  · rw [e]
    exact iff_of_true rfl hi
  · exact iff_of_false hne hi

/-! ## steps -/

/-- a statement that only goes on to the next one -/
theorem Ordered.goto {t : Startup} (h : t.Ordered) {pc : MainPc} (hne : t.main ≠ .started)
    (hsize : pc.pushed = t.main.pushed) (hidx : pc.initialized = t.main.initialized)
    (hman : pc ≠ .setManagers → pc.accepts = true → t.managers = true) : { t with main := pc }.Ordered where
  managers := hman
  poolSize := h.poolSize.trans hsize.symm
  sessionIdx p hp := h.sessionIdx p (by rwa [← hidx])
  redisRuns hr := absurd (h.redisRuns hr) hne
  fixed := h.fixed

theorem mainStep_ordered {t : Startup} (h : t.Ordered) (ok : Bool) : (t.mainStep ok).Ordered := by
  have hfixed : (t.mainStep ok).view.chat.Fixed := by
    rw [view_main]
    exact h.fixed
  unfold mainStep at hfixed ⊢
  cases hm : t.main with
  | started | failed => exact h
  | setDelegate | initSessionPool | createWorkerAndIOThread =>
    refine h.goto ?_ ?_ ?_ ?_
    · rw [hm]; exact fun e => by cases e
    · rw [hm]; rfl
    · rw [hm]; rfl
    · exact fun _ e => by cases e
  | initListenSocket | createIOCP | bindAndListen =>
    cases ok with
    | true | false =>
      refine h.goto ?_ ?_ ?_ ?_
      · rw [hm]; exact fun e => by cases e
      · rw [hm]; rfl
      · rw [hm]; rfl
      · first
        | exact fun hne => absurd rfl hne
        | exact fun _ e => by cases e
  | initRooms | bindHandler | run =>
    refine h.goto ?_ ?_ ?_ fun _ _ => h.managers ?_ ?_
    · rw [hm]; exact fun e => by cases e
    · rw [hm]; rfl
    · rw [hm]; rfl
    · rw [hm]; exact fun e => by cases e
    · rw [hm]; rfl
  | setManagers =>
    have hsize := h.poolSize
    rw [hm] at hsize hfixed
    refine ⟨fun _ _ => rfl, hsize, fun p hp => ?_, fun hr => ?_, hfixed⟩
    · exact absurd hp (Nat.not_lt_zero _)
    · have e := h.redisRuns hr
      rw [hm] at e
      cases e
  | pushUser i =>
    have hman := h.managers
    have hsize := h.poolSize
    have hidx := h.sessionIdx
    have hredis := h.redisRuns
    rw [hm] at hman hsize hidx hredis
    refine ⟨fun _ _ => hman (fun e => by cases e) rfl, congrArg (· + 1) hsize, hidx, fun hr => ?_, h.fixed⟩
    cases hredis hr
  | initUser i =>
    have hman := h.managers
    have hsize := h.poolSize
    have hredis := h.redisRuns
    rw [hm] at hman hsize hredis hfixed
    have hidx : ∀ p : Session, (p : Nat) < i + 1 →
        ((initUser t.server i).chat.users.pool p).sessionIdx = (p : Nat) := by
      intro p hp
      show (Function.update t.server.chat.users.pool i _ p).sessionIdx = _
      by_cases hpi : p = i
      · subst hpi
        rw [Function.update_self]
      · rw [Function.update_of_ne hpi]
        refine h.sessionIdx p ?_
        rw [hm]
        exact lt_of_le_of_ne (Nat.le_of_lt_succ hp) fun e => hpi (Fin.ext e)
    have hi := i.isLt
    simp only at hfixed ⊢
    by_cases hlast : (i : Nat) + 1 < kMaxUserCnt
    · rw [dif_pos hlast] at hfixed ⊢
      refine ⟨fun _ _ => hman (fun e => by cases e) rfl, hsize, hidx, fun hr => ?_, hfixed⟩
      cases hredis hr
    · rw [dif_neg hlast] at hfixed ⊢
      have e : (i : Nat) + 1 = kMaxUserCnt := by omega
      refine ⟨fun _ _ => hman (fun e => by cases e) rfl, hsize.trans e, fun p _ => hidx p ?_, fun hr => ?_,
        hfixed⟩
      · rw [e]
        exact p.isLt
      · cases hredis hr
  | redisStart =>
    have hman := h.managers
    have hsize := h.poolSize
    have hidx := h.sessionIdx
    rw [hm] at hman hsize hidx hfixed
    exact ⟨fun _ _ => hman (fun e => by cases e) rfl, hsize, hidx, fun _ => rfl, hfixed⟩

/-- while the packet loop or Redis runs, the pool is complete -/
theorem view_complete {t : Startup} (h : t.Ordered) (hinit : t.main.initialized = kMaxUserCnt) :
    t.view = t.server := by
  refine Server.indexed_eq fun p => h.sessionIdx p ?_
  rw [hinit]
  exact p.isLt

theorem loopRuns_initialized {pc : MainPc} (h : pc.loopRuns = true) : pc.initialized = kMaxUserCnt := by
  cases pc with
  | redisStart | started => rfl
  | _ => cases h

section
variable (redisGet : CStr → Option (List UInt8))

/-- a step of the server that a startup makes -/
theorem serve_view {t : Startup} (h : t.Ordered) (a : Server.Action)
    (hloop : ∀ mem, a = .loop mem → t.main.loopRuns = true) :
    (t.server.step redisGet a).indexed = t.view.step redisGet a := by
  cases a with
  | loop mem =>
    have e := view_complete h (loopRuns_initialized (hloop mem rfl))
    have hfixed := h.fixed
    rw [e] at hfixed ⊢
    exact Server.indexed_eq (Server.step_fixed redisGet hfixed _).sessionIdx
  | _ => exact Server.indexed_step redisGet t.server fun mem e => by cases e

theorem serve_sessionIdx {t : Startup} (h : t.Ordered) (a : Server.Action)
    (hloop : ∀ mem, a = .loop mem → t.main.loopRuns = true) (p : Session)
    (hp : (p : Nat) < t.main.initialized) :
    ((t.server.step redisGet a).chat.users.pool p).sessionIdx = (p : Nat) := by
  by_cases hl : ∃ mem, a = .loop mem
  · obtain ⟨mem, e⟩ := hl
    have hview := view_complete h (loopRuns_initialized (hloop mem e))
    have hfixed := h.fixed
    rw [hview] at hfixed
    exact (Server.step_fixed redisGet hfixed a).sessionIdx p
  · have hcall : t.server.call a = none := by
      cases a with
      | loop mem => exact absurd ⟨mem, rfl⟩ hl
      | _ => rfl
    obtain ⟨buf, e⟩ := (Server.step_quiet redisGet hcall).user p
    rw [e]
    exact h.sessionIdx p hp

theorem serve_ordered {t : Startup} (h : t.Ordered) (a : Server.Action)
    (hloop : ∀ mem, a = .loop mem → t.main.loopRuns = true) (l : Session → Bool) :
    { t with server := t.server.step redisGet a, connected := l }.Ordered where
  managers := h.managers
  poolSize := h.poolSize
  sessionIdx := serve_sessionIdx redisGet h a hloop
  redisRuns := h.redisRuns
  fixed := by
    show (t.server.step redisGet a).indexed.chat.Fixed
    rw [serve_view redisGet h a hloop]
    exact Server.step_fixed redisGet h.fixed a

/-- what a thread does, if it runs -/
theorem ordered_gate {g : Bool} {t t' : Startup} (h : t.Ordered) (h' : g = true → t'.Ordered) :
    (if g then t' else t).Ordered := by
  cases g with
  | true => exact h' rfl
  | false => exact h

theorem view_gate {g : Bool} {t t' : Startup} {b : Server.Action}
    (h : g = true → t'.view = t.view.step redisGet b) :
    (if g then t' else t).view =
      (if g then some b else none).toList.foldl (Server.step redisGet) t.view := by
  cases g with
  | true => exact h rfl
  | false => rfl

/-- The place of the main thread is right about the pool in the next state as well. -/
theorem step_ordered {t : Startup} (h : t.Ordered) (a : Action) : (step redisGet t a).Ordered := by
  cases a with
  | main ok => exact mainStep_ordered h ok
  | server b =>
    cases b with
    | onRecv i data =>
      refine ordered_gate h fun _ => ?_
      rcases enqueuePacket_spec h redisGet i data with ⟨_, e⟩ | ⟨_, e, _⟩
      · rw [e]
        exact serve_ordered redisGet h _ (fun _ e => by cases e) t.connected
      · rw [e]
        exact h
    | loop mem => exact ordered_gate h fun hl => serve_ordered redisGet h _ (fun _ _ => hl) t.connected
    | onConnect i | onDisconnect i | pushIndex i | redisTake | redisPut k mem =>
      exact ordered_gate h fun _ => serve_ordered redisGet h _ (fun _ e => by cases e) _

/-- **A permitted step is a step of the complete server, or none.** -/
theorem step_view {t : Startup} (h : t.Ordered) {a : Action} (hp : t.Permits a) :
    (step redisGet t a).view = (t.served a).toList.foldl (Server.step redisGet) t.view := by
  cases a with
  | main ok => exact view_main t ok
  | server b =>
    cases b with
    | onRecv i data =>
      refine view_gate redisGet fun hc => ?_
      have hi : (i : Nat) < t.main.pushed := by
        refine hp (i, data) ?_
        simp only [received, if_pos hc]
        rfl
      rcases enqueuePacket_spec h redisGet i data with ⟨_, e⟩ | ⟨hni, _⟩
      · rw [e]
        exact serve_view redisGet h _ fun _ e => by cases e
      · exact absurd hi hni
    | loop mem => exact view_gate redisGet fun hl => serve_view redisGet h _ fun _ _ => hl
    | onConnect i | onDisconnect i | pushIndex i | redisTake | redisPut k mem =>
      exact view_gate redisGet fun _ => serve_view redisGet h _ fun _ e => by cases e

/-! ## runs -/

variable (heap : Session → Fin kDefaultRingBufferSize → UInt8)

theorem hist_ordered (as : List Action) : ∀ x ∈ hist (step redisGet) (start heap) as, x.1.Ordered :=
  hist_keeps_all (I := Ordered) _ (fun _ a h => step_ordered redisGet h a) (start_ordered heap) as

/-- what the server is given, if the pool is complete -/
def trace (t : Startup) (as : List Action) : List Server.Action :=
  (hist (step redisGet) t as).flatMap fun x => (x.1.served x.2).toList

theorem trace_cons (t : Startup) (a : Action) (as : List Action) :
    trace redisGet t (a :: as) = (t.served a).toList ++ trace redisGet (step redisGet t a) as := by
  unfold trace
  rw [hist_cons, List.flatMap_cons]

/-- **Where every `OnRecv` is permitted, the start makes no difference to the server.** -/
theorem run_view {t : Startup} (h : t.Ordered) (as : List Action)
    (hp : ∀ x ∈ hist (step redisGet) t as, x.1.Permits x.2) :
    (run (step redisGet) t as).view = run (Server.step redisGet) t.view (trace redisGet t as) := by
  induction as generalizing t with
  | nil => rfl
  | cons a as ih =>
    have ha : t.Permits a := hp (t, a) List.mem_cons_self
    have hrest := ih (step_ordered redisGet h a) fun x hx => hp x (List.mem_cons_of_mem _ hx)
    rw [step_view redisGet h ha] at hrest
    rw [run_cons, hrest, trace_cons, run_append]
    rfl

/-- **Every `OnRecv` finds its user exactly if `UserManager::Init` has always pushed it before.**  Then
the server has what it would have if it had been complete from the start. -/
theorem found_run_iff (as : List Action) :
    ((∀ x ∈ hist (step redisGet) (start heap) as, x.1.Finds x.2)
      ↔ ∀ x ∈ hist (step redisGet) (start heap) as, x.1.Permits x.2) ∧
    ((∀ x ∈ hist (step redisGet) (start heap) as, x.1.Permits x.2) →
      (run (step redisGet) (start heap) as).view
        = run (Server.step redisGet) (Server.start heap) (trace redisGet (start heap) as)) := by
  refine ⟨forall₂_congr fun x hx => ?_, fun hp => ?_⟩
  · exact finds_iff (hist_ordered redisGet heap as x hx) x.2
  · rw [run_view redisGet (start_ordered heap) as hp, view_start]

end

/-- a client connects when `BindAndListen` is done -/
def earlyConnect : List Action := List.replicate 7 (.main true) ++ [.server (.onConnect 0)]

/-- its login request comes before the first user -/
theorem dropped_at_start :
    ¬ ∀ x ∈ hist (step fun _ => none) (start fun _ _ => 0)
        (earlyConnect ++ [.server (.onRecv 0 (loginPacket [97] [98]))]), x.1.Finds x.2 := by
  intro h
  have hmem := split_mem_hist (step fun _ => none) (s := start fun _ _ => 0)
    (rfl : earlyConnect ++ [.server (.onRecv 0 (loginPacket [97] [98]))]
      = earlyConnect ++ .server (.onRecv 0 (loginPacket [97] [98])) :: [])
  have hconn : (run (step fun _ => none) (start fun _ _ => 0) earlyConnect).connected 0 = true := by
    decide
  have hfind : ((run (step fun _ => none) (start fun _ _ => 0) earlyConnect).enqueuePacket 0
      (loginPacket [97] [98])).2 = some false := by
    decide
  generalize run (step fun _ => none) (start fun _ _ => 0) earlyConnect = t at hmem hconn hfind
  have hrecv : (0, loginPacket [97] [98]) ∈ t.received (.server (.onRecv 0 (loginPacket [97] [98]))) := by
    simp only [received, hconn, if_true]
    rfl
  have htrue := h _ hmem _ hrecv
  rw [hfind] at htrue
  cases htrue

end Startup

end Iocp
