import IocpChatting.Content.Deliveries
import IocpChatting.Content.Logins
import Mathlib.Data.List.Forall2
import Mathlib.Data.List.Perm.Basic

/-!
# Every login request is answered once

A `LOGIN_REQUEST` is turned down at once, or it goes to Redis and comes back: through
`task_req_queue_`, the hands of a Redis worker, `task_res_queue_` and the hands of the packet loop.

* `logins`                  the places of the history where a `LOGIN_REQUEST` is dispatched;
* `Whereabouts`, `Traced`   each of these places is at exactly one stage of the way;
* `logins_answered_once`    so the counts add up for every session, and every response settles a
                            request of its own.
-/

set_option linter.unusedSectionVars false
set_option autoImplicit false

namespace Iocp
open Runs
open UserManager (getUserByIndex)

/-! ## pairing two lists -/

section
variable {α β : Type*} {R : α → β → Prop}

theorem forall₂_snoc {l : List α} {l' : List β} {x : α} {y : β} (h : List.Forall₂ R l l') (hx : R x y) :
    List.Forall₂ R (l ++ [x]) (l' ++ [y]) :=
  List.rel_append h (.cons hx .nil)

theorem forall₂_eraseIdx {l : List α} {l' : List β} (h : List.Forall₂ R l l') (k : Nat) :
    List.Forall₂ R (l.eraseIdx k) (l'.eraseIdx k) := by
  induction h generalizing k with
  | nil => exact .nil
  | cons hx _ ih =>
    cases k with
    | zero => assumption
    | succ k => exact .cons hx (ih k)

theorem forall₂_getElem {l : List α} {l' : List β} (h : List.Forall₂ R l l') {k : Nat} {y : β}
    (hy : l'[k]? = some y) : ∃ x, l[k]? = some x ∧ R x y := by
  induction h generalizing k with
  | nil => cases hy
  | cons hx _ ih =>
    cases k with
    | zero =>
      cases hy
      exact ⟨_, rfl, hx⟩
    | succ k => exact ih hy

theorem forall₂_countP {l : List α} {l' : List β} (h : List.Forall₂ R l l') {P : α → Bool} {Q : β → Bool}
    (hPQ : ∀ x y, R x y → P x = Q y) : l.countP P = l'.countP Q := by
  induction h with
  | nil => rfl
  | cons hx _ ih => rw [List.countP_cons, List.countP_cons, ih, hPQ _ _ hx]

end

/-! ## login responses -/

/-- whom a `LOGIN_RESPONSE` goes to, and its result -/
def Sent.loginResult (x : Sent) : Option (Nat × Nat) :=
  match x.pkt.body with
  | .loginResponse result => some (x.idx, result)
  | _ => none

def loginResponses (l : List Sent) : List (Nat × Nat) := l.filterMap Sent.loginResult

/-- what Redis says to a login request, as a result code -/
def redisVerdict (redisGet : CStr → Option (List UInt8)) (mem : Mem) (task : RedisTask) : Nat :=
  if redisAccepts redisGet mem task then ErrorCode.none.val else ErrorCode.loginUserInvalidPw.val

theorem readResult_verdict (redisGet : CStr → Option (List UInt8)) (c : Chat) (mem mem' : Mem)
    (req : RedisTask) :
    readResult (Server.view c mem' (redisLogin redisGet mem req).toPacketInfo.data)
      = redisVerdict redisGet mem req := by
  unfold redisLogin redisVerdict RedisTask.toPacketInfo
  cases redisAccepts redisGet mem req with
  | true => rfl
  | false => rfl

namespace Chat
variable {c : Chat} {mem : Mem} {i : Nat} {data : Nat → UInt8}

/-- `LoginHandler` asks Redis and says nothing, or says no and does not ask -/
theorem login_splits (c : Chat) (mem : Mem) (i : Nat) (data : Nat → UInt8) :
    (Handler.login.request c mem i data = [loginTask i data] ∧
        Handler.login.sends c mem i data = []) ∨
      (Handler.login.request c mem i data = [] ∧ ∃ result, result ≠ ErrorCode.none.val ∧
        Handler.login.sends c mem i data = [⟨i, reply mem .loginResponse (.loginResponse result)⟩]) := by
  simp only [Handler.request, Handler.sends]
  by_cases hfull : c.users.getCurrentUserCnt ≥ c.users.getMaxUserCnt
  · rw [if_pos hfull, if_pos hfull]
    exact .inr ⟨rfl, _, by decide, rfl⟩
  · rw [if_neg hfull, if_neg hfull]
    by_cases hfree : c.users.findUserIndexByID (loginId mem data) = -1
    · rw [if_pos hfree, if_pos hfree]
      exact .inl ⟨rfl, rfl⟩
    · rw [if_neg hfree, if_neg hfree]
      exact .inr ⟨rfl, _, by decide, rfl⟩

theorem other_responses {hd : Handler} (h1 : hd ≠ .login) (h2 : hd ≠ .loginDBRes) :
    loginResponses (hd.sends c mem i data) = [] := by
  refine List.filterMap_eq_nil_iff.mpr fun x hx => ?_
  have hsays := sends_says hx
  unfold Sent.loginResult
  cases hb : x.pkt.body with
  | loginResponse result =>
    rw [hb] at hsays
    cases hd with
    | login => exact absurd rfl h1
    | loginDBRes => exact absurd rfl h2
    | _ => cases hsays
  | _ => rfl

theorem other_request {hd : Handler} (h : hd ≠ .login) : hd.request c mem i data = [] := by
  cases hd with
  | login => exact absurd rfl h
  | _ => rfl

end Chat

def Call.sends (k : Call) (c : Chat) : List Sent := k.handler.sends c k.mem k.pkt.sessionIndex (k.data c)

theorem Call.run_sent {c : Chat} (k : Call) (hc : c.Fixed) : (k.run c).sent = c.sent ++ k.sends c :=
  Chat.run_sent k.handler hc

namespace Server

/-- what a step sends -/
def sends (s : Server) (a : Action) : List Sent :=
  match s.call a with
  | none => []
  | some k => k.sends s.chat

theorem step_sent (redisGet : CStr → Option (List UInt8)) {s : Server} (hs : s.chat.Fixed) (a : Action) :
    (s.step redisGet a).chat.sent = s.chat.sent ++ s.sends a := by
  unfold Server.sends
  cases hk : s.call a with
  | none =>
    rw [(step_quiet redisGet hk).sent]
    exact (List.append_nil _).symm
  | some k =>
    rw [step_call redisGet hk]
    exact k.run_sent hs

/-! ## the requests of a history -/

/-- the `LOGIN_REQUEST` that a step dispatches, with the state that the handler finds -/
def loginCall (x : Server × Action) : Option (Chat × Call) :=
  ((x.1.call x.2).filter fun k => k.pkt.id = PacketId.loginRequest.val).map fun k => (x.1.chat, k)

def loginAt (h : History) (n : Nat) : Option (Chat × Call) := h[n]?.bind loginCall

def logins (h : History) : List Nat := (List.range h.length).filter fun n => (loginAt h n).isSome

/-- how many `LOGIN_REQUEST`s of session `i` have been dispatched -/
def loginsDispatched (i : Nat) (h : History) : Nat :=
  (logins h).countP fun n => (loginAt h n).any fun x => x.2.pkt.sessionIndex == i

/-- the response that the packet loop holds -/
def heldTasks (s : Server) : List RedisTask :=
  match s.pc with
  | .processTaskRes task => [task]
  | _ => []

/-- how many login tasks of session `i` are under way -/
def loginsUnderWay (s : Server) (i : Nat) : Nat :=
  (s.chat.taskReqQueue ++ s.workers ++ s.taskResQueue ++ s.heldTasks).countP fun t => t.userIdx == i

section
variable (redisGet : CStr → Option (List UInt8))

/-- `t` is what the request at `n` asks Redis for -/
def Asked (h : History) (n : Nat) (t : RedisTask) : Prop :=
  ∃ c k, loginAt h n = some (c, k) ∧ k.request c = [t]

/-- `r` is what Redis has said to the request at `n` -/
def Judged (h : History) (n : Nat) (r : RedisTask) : Prop :=
  ∃ req mem, Asked h n req ∧ Answered redisGet h r req mem

/-- the response `y` is the answer to the request at `n`: the handler has said no itself, or a Redis
worker has judged the request -/
def Settles (h : History) (n : Nat) (y : Nat × Nat) : Prop :=
  ∃ c k, loginAt h n = some (c, k) ∧ k.pkt.sessionIndex = y.1 ∧
    ((y.2 ≠ ErrorCode.none.val ∧
        k.sends c = [⟨y.1, Chat.reply k.mem .loginResponse (.loginResponse y.2)⟩]) ∨
      ∃ req r mem, k.request c = [req] ∧ Answered redisGet h r req mem ∧
        y.2 = redisVerdict redisGet mem req)

end

theorem loginAt_lt {h : History} {n : Nat} (hn : n < h.length) (x : Server × Action) :
    loginAt (h ++ [x]) n = loginAt h n := by
  unfold loginAt
  rw [List.getElem?_append_left hn]

theorem loginAt_length (h : History) (x : Server × Action) :
    loginAt (h ++ [x]) h.length = loginCall x := by
  unfold loginAt
  rw [List.getElem?_concat_length]
  rfl

theorem loginAt_mono {h : History} {n : Nat} {y : Chat × Call} (hn : loginAt h n = some y)
    (x : Server × Action) : loginAt (h ++ [x]) n = some y := by
  have hlt : n < h.length := by
    obtain ⟨z, hz, _⟩ := Option.bind_eq_some_iff.mp hn
    exact (List.getElem?_eq_some_iff.mp hz).1
  rw [loginAt_lt hlt, hn]

theorem logins_snoc (h : History) (x : Server × Action) :
    logins (h ++ [x]) = logins h ++ if (loginCall x).isSome then [h.length] else [] := by
  unfold logins
  rw [List.length_append, List.length_singleton, List.range_succ, List.filter_append]
  congr 1
  · refine List.filter_congr fun n hn => ?_
    rw [loginAt_lt (List.mem_range.mp hn)]
  · rw [List.filter_singleton, loginAt_length, Bool.cond_eq_ite]

theorem logins_nodup (h : History) : (logins h).Nodup := List.nodup_range.sublist List.filter_sublist

section
variable {redisGet : CStr → Option (List UInt8)} {h : History} {n : Nat}

theorem Asked.mono {t : RedisTask} (x : Server × Action) (ha : Asked h n t) : Asked (h ++ [x]) n t := by
  obtain ⟨c, k, hn, hk⟩ := ha
  exact ⟨c, k, loginAt_mono hn x, hk⟩

theorem Judged.mono {r : RedisTask} (x : Server × Action) (hj : Judged redisGet h n r) :
    Judged redisGet (h ++ [x]) n r := by
  obtain ⟨req, mem, ha, hr⟩ := hj
  exact ⟨req, mem, ha.mono x, hr.mono x⟩

theorem Settles.mono {y : Nat × Nat} (x : Server × Action) (hs : Settles redisGet h n y) :
    Settles redisGet (h ++ [x]) n y := by
  obtain ⟨c, k, hn, hi, hor⟩ := hs
  refine ⟨c, k, loginAt_mono hn x, hi, hor.imp_right ?_⟩
  rintro ⟨req, r, mem, hreq, hr, hv⟩
  exact ⟨req, r, mem, hreq, hr.mono x, hv⟩

end

/-! ## where the requests are -/

/-- the places of the requests, by the stage they have come to -/
structure Whereabouts where
  requested : List Nat
  working : List Nat
  responded : List Nat
  held : List Nat
  answered : List Nat

def Whereabouts.all (W : Whereabouts) : List Nat :=
  W.requested ++ W.working ++ W.responded ++ W.held ++ W.answered

structure Traced (redisGet : CStr → Option (List UInt8)) (h : History) (s : Server) (W : Whereabouts) :
    Prop where
  once : W.all.Perm (logins h)
  requested : List.Forall₂ (Asked h) W.requested s.chat.taskReqQueue
  working : List.Forall₂ (Asked h) W.working s.workers
  responded : List.Forall₂ (Judged redisGet h) W.responded s.taskResQueue
  held : List.Forall₂ (Judged redisGet h) W.held s.heldTasks
  answered : List.Forall₂ (Settles redisGet h) W.answered (loginResponses s.chat.sent)

theorem loginCall_none {s : Server} {a : Action} (hk : s.call a = none) : loginCall (s, a) = none := by
  unfold loginCall
  rw [hk]
  rfl

theorem login_id {id : Nat} {hd : Handler} (h : packetHandlers id = some hd) :
    id = PacketId.loginRequest.val ↔ hd = .login := by
  have hall : ∀ x ∈ bindHandler, x.1 = PacketId.loginRequest.val ↔ x.2 = .login := by decide
  exact hall _ (mem_bindHandler h)

theorem loginCall_login {s : Server} {a : Action} {k : Call} (hk : s.call a = some k)
    (hd : k.handler = .login) : loginCall (s, a) = some (s.chat, k) := by
  have hid := (login_id (call_spec hk).2.2).mpr hd
  unfold loginCall
  rw [hk, Option.filter_some_pos (by simpa using hid)]
  rfl

theorem loginCall_other {s : Server} {a : Action} {k : Call} (hk : s.call a = some k)
    (hd : k.handler ≠ .login) : loginCall (s, a) = none := by
  have hid : ¬ k.pkt.id = PacketId.loginRequest.val := fun e =>
    hd ((login_id (call_spec hk).2.2).mp e)
  unfold loginCall
  rw [hk, Option.filter_some_neg (by simpa using hid)]
  rfl

section
variable {redisGet : CStr → Option (List UInt8)} {h : History} {s s' : Server} {a : Action}
  {W : Whereabouts}

/-- a step that moves no request -/
theorem Traced.still (hT : Traced redisGet h s W) (hl : loginCall (s, a) = none)
    (hq : s'.chat.taskReqQueue = s.chat.taskReqQueue) (hw : s'.workers = s.workers)
    (hr : s'.taskResQueue = s.taskResQueue) (hh : s'.heldTasks = s.heldTasks)
    (hs : loginResponses s'.chat.sent = loginResponses s.chat.sent) :
    Traced redisGet (h ++ [(s, a)]) s' W where
  once := by
    rw [logins_snoc, hl]
    simpa using hT.once
  requested := hq ▸ hT.requested.imp fun _ _ => Asked.mono _
  working := hw ▸ hT.working.imp fun _ _ => Asked.mono _
  responded := hr ▸ hT.responded.imp fun _ _ => Judged.mono _
  held := hh ▸ hT.held.imp fun _ _ => Judged.mono _
  answered := hs ▸ hT.answered.imp fun _ _ => Settles.mono _

theorem heldTasks_eq_nil (h : s.pc.packet = none) : s.heldTasks = [] := by
  unfold heldTasks
  cases hpc : s.pc with
  | processTaskRes t =>
    rw [hpc] at h
    cases h
  | _ => rfl

/-- a Redis worker takes the oldest request -/
theorem traced_take {task : RedisTask} {rest : List RedisTask} (hT : Traced redisGet h s W)
    (hq : s.chat.taskReqQueue = task :: rest) :
    ∃ W', Traced redisGet (h ++ [(s, .redisTake)])
      { s with chat := { s.chat with taskReqQueue := rest }, workers := s.workers ++ [task] } W' := by
  have hreq := hT.requested
  rw [hq] at hreq
  obtain ⟨n, ns, hn, hns, e⟩ := List.forall₂_cons_right_iff.mp hreq
  refine ⟨{ W with requested := ns, working := W.working ++ [n] }, ?_⟩
  constructor
  · rw [logins_snoc, loginCall_none rfl]
    refine List.Perm.trans ?_ (by simpa using hT.once)
    refine List.perm_iff_count.mpr fun m => ?_
    simp only [Whereabouts.all, e, List.count_append, List.count_cons, List.count_nil]
    omega
  · exact hns.imp fun _ _ => Asked.mono _
  · exact forall₂_snoc (hT.working.imp fun _ _ => Asked.mono _) (hn.mono _)
  · exact hT.responded.imp fun _ _ => Judged.mono _
  · exact hT.held.imp fun _ _ => Judged.mono _
  · exact hT.answered.imp fun _ _ => Settles.mono _

/-- and judges it -/
theorem traced_put {k : Nat} {mem : Mem} {task : RedisTask} (hs : s.Sound) (hT : Traced redisGet h s W)
    (hk : s.workers[k]? = some task) :
    ∃ W', Traced redisGet (h ++ [(s, .redisPut k mem)])
      { s with
        workers := s.workers.eraseIdx k
        taskResQueue := s.taskResQueue ++ (processTask redisGet mem task).toList } W' := by
  obtain ⟨n, hn, ha⟩ := forall₂_getElem hT.working hk
  obtain ⟨hlt, hn'⟩ := List.getElem?_eq_some_iff.mp hn
  have hid := hs.tasks.workers task (List.mem_of_getElem? hk)
  have hput : (processTask redisGet mem task).toList = [redisLogin redisGet mem task] := by
    unfold processTask
    rw [if_pos hid]
    rfl
  refine ⟨{ W with working := W.working.eraseIdx k, responded := W.responded ++ [n] }, ?_⟩
  constructor
  · rw [logins_snoc, loginCall_none rfl]
    refine List.Perm.trans ?_ (by simpa using hT.once)
    refine List.perm_iff_count.mpr fun m => ?_
    have hperm := (List.perm_iff_count.mp (List.getElem_cons_eraseIdx_perm hlt)) m
    rw [hn', List.count_cons] at hperm
    simp only [Whereabouts.all, List.count_append, List.count_cons, List.count_nil]
    omega
  · exact hT.requested.imp fun _ _ => Asked.mono _
  · exact forall₂_eraseIdx (hT.working.imp fun _ _ => Asked.mono _) k
  · rw [hput]
    refine forall₂_snoc (hT.responded.imp fun _ _ => Judged.mono _) ?_
    exact ⟨task, mem, ha.mono _, (s, .redisPut k mem), by simp, k, rfl, hk, rfl⟩
  · exact hT.held.imp fun _ _ => Judged.mono _
  · exact hT.answered.imp fun _ _ => Settles.mono _

/-- the packet loop takes the oldest response -/
theorem traced_task {mem : Mem} {task : RedisTask} {rest : List RedisTask} (hT : Traced redisGet h s W)
    (hpc : s.pc = .getTaskRes) (hq : s.taskResQueue = task :: rest) :
    ∃ W', Traced redisGet (h ++ [(s, .loop mem)])
      { s with taskResQueue := rest, pc := .processTaskRes task } W' := by
  have hres := hT.responded
  rw [hq] at hres
  obtain ⟨n, ns, hn, hns, e⟩ := List.forall₂_cons_right_iff.mp hres
  have hheld := hT.held
  rw [show s.heldTasks = [] by rw [heldTasks, hpc]] at hheld
  have e' := List.forall₂_nil_right_iff.mp hheld
  refine ⟨{ W with responded := ns, held := [n] }, ?_⟩
  constructor
  · rw [logins_snoc, loginCall_none (call_eq_none (by rw [hpc]; rfl))]
    refine List.Perm.trans ?_ (by simpa using hT.once)
    refine List.perm_iff_count.mpr fun m => ?_
    simp only [Whereabouts.all, e, e', List.count_append, List.count_cons, List.count_nil]
    omega
  · exact hT.requested.imp fun _ _ => Asked.mono _
  · exact hT.working.imp fun _ _ => Asked.mono _
  · exact hns.imp fun _ _ => Judged.mono _
  · exact .cons (hn.mono _) .nil
  · exact hT.answered.imp fun _ _ => Settles.mono _

theorem loginResponses_call {k : Call} (hs : s.Sound) :
    loginResponses (k.run s.chat).sent = loginResponses s.chat.sent ++ loginResponses (k.sends s.chat) := by
  rw [k.run_sent hs.fixed, loginResponses, List.filterMap_append]
  rfl

theorem heldTasks_call {k : Call} (hk : s.call a = some k) (hsrc : k.source ≠ .redis) :
    s.heldTasks = [] := by
  obtain ⟨_, hp, _⟩ := call_spec hk
  unfold heldTasks
  cases hpc : s.pc with
  | processTaskRes t =>
    rw [hpc] at hp
    exact absurd (Prod.mk.inj (Option.some.inj hp)).1.symm hsrc
  | _ => rfl

theorem heldTasks_ran {k : Call} (hk : s.call a = some k) (c : Chat) :
    heldTasks { s with chat := c, pc := s.pc.ran } = [] :=
  heldTasks_eq_nil (LoopPc.ran_packet (call_spec hk).2.1)

/-- `LoginHandler` sends the request on or settles it -/
theorem traced_login {k : Call} (hs : s.Sound) (hT : Traced redisGet h s W) (hk : s.call a = some k)
    (hd : k.handler = .login) :
    ∃ W', Traced redisGet (h ++ [(s, a)]) { s with chat := k.run s.chat, pc := s.pc.ran } W' := by
  have hcall := loginCall_login hk hd
  have hat : loginAt (h ++ [(s, a)]) h.length = some (s.chat, k) := (loginAt_length h _).trans hcall
  have hlogins : logins (h ++ [(s, a)]) = logins h ++ [h.length] := by rw [logins_snoc, hcall]; rfl
  have honce : ∀ W' : Whereabouts, (∀ m, W'.all.count m = (W.all ++ [h.length]).count m) →
      W'.all.Perm (logins (h ++ [(s, a)])) := by
    intro W' hW'
    rw [hlogins]
    exact (List.perm_iff_count.mpr hW').trans (hT.once.append_right _)
  have hsrc : k.source ≠ .redis := by
    intro e
    have := (redis_handler hs hk e).1
    rw [hd] at this
    cases this
  have hheld : List.Forall₂ (Judged redisGet (h ++ [(s, a)])) W.held
      (heldTasks { s with chat := k.run s.chat, pc := s.pc.ran }) := by
    rw [heldTasks_ran hk, ← heldTasks_call hk hsrc]
    exact hT.held.imp fun _ _ => Judged.mono _
  have hsplit := Chat.login_splits s.chat k.mem k.pkt.sessionIndex (k.data s.chat)
  rw [← hd] at hsplit
  rcases hsplit with ⟨hreq, hsend⟩ | ⟨hreq, result, hres, hsend⟩
  · refine ⟨{ W with requested := W.requested ++ [h.length] }, ?_⟩
    constructor
    · refine honce _ fun m => ?_
      simp only [Whereabouts.all, List.count_append, List.count_cons, List.count_nil]
      omega
    · show List.Forall₂ _ _ (k.run s.chat).taskReqQueue
      rw [call_taskReqQueue, show k.request s.chat = [_] from hreq]
      exact forall₂_snoc (hT.requested.imp fun _ _ => Asked.mono _) ⟨_, k, hat, hreq⟩
    · exact hT.working.imp fun _ _ => Asked.mono _
    · exact hT.responded.imp fun _ _ => Judged.mono _
    · exact hheld
    · show List.Forall₂ _ _ (loginResponses (k.run s.chat).sent)
      rw [loginResponses_call hs, show k.sends s.chat = [] from hsend]
      rw [show loginResponses [] = [] from rfl, List.append_nil]
      exact hT.answered.imp fun _ _ => Settles.mono _
  · refine ⟨{ W with answered := W.answered ++ [h.length] }, ?_⟩
    constructor
    · refine honce _ fun m => ?_
      simp only [Whereabouts.all, List.count_append, List.count_cons, List.count_nil]
      omega
    · show List.Forall₂ _ _ (k.run s.chat).taskReqQueue
      rw [call_taskReqQueue, show k.request s.chat = [] from hreq, List.append_nil]
      exact hT.requested.imp fun _ _ => Asked.mono _
    · exact hT.working.imp fun _ _ => Asked.mono _
    · exact hT.responded.imp fun _ _ => Judged.mono _
    · exact hheld
    · show List.Forall₂ _ _ (loginResponses (k.run s.chat).sent)
      rw [loginResponses_call hs, show k.sends s.chat = [_] from hsend]
      refine forall₂_snoc (hT.answered.imp fun _ _ => Settles.mono _) ?_
      exact ⟨s.chat, k, hat, rfl, .inl ⟨hres, hsend⟩⟩

/-- `LoginDBResHandler` tells the client what Redis has said -/
theorem traced_response {k : Call} (hs : s.Sound) (hids : s.RequestsOnly) (hT : Traced redisGet h s W)
    (hk : s.call a = some k) (hd : k.handler = .loginDBRes) :
    ∃ W', Traced redisGet (h ++ [(s, a)]) { s with chat := k.run s.chat, pc := s.pc.ran } W' := by
  have hne : k.handler ≠ .login := by rw [hd]; decide
  obtain ⟨_, t, hpc, hpkt⟩ := redis_handler hs hk (redis_of_response hs hids hk hd)
  have hheld := hT.held
  rw [show s.heldTasks = [t] by rw [heldTasks, hpc]] at hheld
  obtain ⟨n, ns, hn, hns, e⟩ := List.forall₂_cons_right_iff.mp hheld
  rw [List.forall₂_nil_right_iff.mp hns] at e
  obtain ⟨req, mem, ⟨c, k', hat, hreq⟩, hans⟩ := hn
  have ht : t = redisLogin redisGet mem req := by
    obtain ⟨_, _, _, _, _, e'⟩ := hans
    exact e'
  have hidx : k'.pkt.sessionIndex = t.userIdx := by
    have hmem : req ∈ k'.request c := by rw [hreq]; exact List.mem_singleton_self req
    rw [ht, (request_id hmem).2]
    rfl
  have hresult : readResult (k.data s.chat) = redisVerdict redisGet mem req := by
    unfold Call.data
    rw [hpkt, ht]
    exact readResult_verdict redisGet s.chat mem k.mem req
  have hsend : k.sends s.chat = [⟨t.userIdx, Chat.reply k.mem .loginResponse
      (.loginResponse (redisVerdict redisGet mem req))⟩] := by
    unfold Call.sends
    rw [hd, Handler.sends, hresult, hpkt]
    rfl
  refine ⟨{ W with held := [], answered := W.answered ++ [n] }, ?_⟩
  constructor
  · rw [logins_snoc, loginCall_other hk hne]
    refine List.Perm.trans ?_ (by simpa using hT.once)
    refine List.perm_iff_count.mpr fun m => ?_
    simp only [Whereabouts.all, e, List.count_append, List.count_cons, List.count_nil]
    omega
  · show List.Forall₂ _ _ (k.run s.chat).taskReqQueue
    rw [call_taskReqQueue, show k.request s.chat = [] from Chat.other_request hne, List.append_nil]
    exact hT.requested.imp fun _ _ => Asked.mono _
  · exact hT.working.imp fun _ _ => Asked.mono _
  · exact hT.responded.imp fun _ _ => Judged.mono _
  · rw [heldTasks_ran hk]
    exact .nil
  · show List.Forall₂ _ _ (loginResponses (k.run s.chat).sent)
    rw [loginResponses_call hs, hsend]
    refine forall₂_snoc (hT.answered.imp fun _ _ => Settles.mono _) ?_
    exact ⟨c, k', loginAt_mono hat _, hidx, .inr ⟨req, t, mem, hreq, hans.mono _, rfl⟩⟩

theorem traced_call {k : Call} (hs : s.Sound) (hids : s.RequestsOnly) (hT : Traced redisGet h s W)
    (hk : s.call a = some k) :
    ∃ W', Traced redisGet (h ++ [(s, a)]) { s with chat := k.run s.chat, pc := s.pc.ran } W' := by
  by_cases h1 : k.handler = .login
  · exact traced_login hs hT hk h1
  · by_cases h2 : k.handler = .loginDBRes
    · exact traced_response hs hids hT hk h2
    · refine ⟨W, hT.still (loginCall_other hk h1) ?_ rfl rfl ?_ ?_⟩
      · show (k.run s.chat).taskReqQueue = _
        rw [call_taskReqQueue, show k.request s.chat = [] from Chat.other_request h1, List.append_nil]
      · have hsrc : k.source ≠ .redis := fun e => h2 (redis_handler hs hk e).1
        rw [heldTasks_ran hk, heldTasks_call hk hsrc]
      · show loginResponses (k.run s.chat).sent = _
        rw [loginResponses_call hs, show loginResponses (k.sends s.chat) = [] from Chat.other_responses h1 h2,
          List.append_nil]

theorem traced_step (hs : s.Sound) (hids : s.RequestsOnly) (hT : Traced redisGet h s W) :
    ∃ W', Traced redisGet (h ++ [(s, a)]) (step redisGet s a) W' := by
  have he := step_effect redisGet s a
  generalize step redisGet s a = s' at he
  cases he with
  | take hq => exact traced_take hT hq
  | put hk => exact traced_put hs hT hk
  | task hpc hq => exact traced_task hT hpc hq
  | call hk => exact traced_call hs hids hT hk
  | @skip mem source pkt hpc hid =>
    have hcall : s.call (.loop mem) = none := by
      simp only [Server.call, hpc, hid, Option.map_none]
    have hheld : s.heldTasks = [] := by
      unfold heldTasks
      cases hp : s.pc with
      | processTaskRes t =>
        -- Redis responses have a handler
        rw [hp] at hpc
        cases hpc
        have ht : t.id = .responseLogin := hs.tasks.held t hp
        simp only [RedisTask.toPacketInfo, ht] at hid
        cases hid
      | _ => rfl
    refine ⟨W, hT.still (loginCall_none hcall) rfl rfl rfl ?_ rfl⟩
    rw [hheld]
    exact heldTasks_eq_nil (LoopPc.skipped_packet hpc)
  | @complete mem pkt hpc =>
    have hcall : s.call (.loop mem) = none := call_eq_none (by rw [hpc]; rfl)
    have hheld : s.heldTasks = [] := heldTasks_eq_nil (by rw [hpc]; rfl)
    refine ⟨W, hT.still (loginCall_none hcall) rfl rfl rfl ?_ rfl⟩
    rw [hheld]
    exact heldTasks_eq_nil (complete_packet s pkt)
  | @noIndex mem hpc | @noPacket mem i rest hpc | @dequeue mem i rest p pkt hpc | @repush mem i hpc
  | @noSystem mem hpc | @system mem pkt rest hpc | @noTask mem hpc =>
    have hcall : s.call (.loop mem) = none := call_eq_none (by rw [hpc]; rfl)
    have hheld : s.heldTasks = [] := heldTasks_eq_nil (by rw [hpc]; rfl)
    exact ⟨W, hT.still (loginCall_none hcall) rfl rfl rfl hheld.symm rfl⟩
  | _ => exact ⟨W, hT.still (loginCall_none rfl) rfl rfl rfl rfl rfl⟩

theorem run_traced (heap : Session → Fin kDefaultRingBufferSize → UInt8) (as : List Action)
    (hids : ∀ x ∈ hist (step redisGet) (start heap) as, x.1.RequestsOnly) :
    ∃ W, Traced redisGet (hist (step redisGet) (start heap) as) (run (step redisGet) (start heap) as) W := by
  have h0 : Traced redisGet [] (start heap) ⟨[], [], [], [], []⟩ := ⟨.nil, .nil, .nil, .nil, .nil, .nil⟩
  have hI := hist_keeps (step redisGet) (I := fun h s => s.Sound ∧ ∃ W, Traced redisGet h s W)
    (C := fun _ s _ => s.RequestsOnly) ⟨start_sound heap, _, h0⟩
    (fun h s a hI hC => ⟨step_sound redisGet hI.1 a, ?_⟩) as (fun bs a cs e => ?_)
  · exact hI.2
  · obtain ⟨hs, W, hT⟩ := hI
    exact traced_step hs hC hT
  · exact hids _ (split_mem_hist (step redisGet) e)

/-! ## the counts -/

theorem settles_session {n : Nat} {y : Nat × Nat} {i : Nat} (hs : Settles redisGet h n y) :
    ((loginAt h n).any fun x => x.2.pkt.sessionIndex == i) = (y.1 == i) := by
  obtain ⟨c, k, hn, hi, _⟩ := hs
  rw [hn, ← hi]
  rfl

theorem asked_session {n : Nat} {t : RedisTask} {i : Nat} (ha : Asked h n t) :
    ((loginAt h n).any fun x => x.2.pkt.sessionIndex == i) = (t.userIdx == i) := by
  obtain ⟨c, k, hn, hk⟩ := ha
  have hmem : t ∈ k.request c := by rw [hk]; exact List.mem_singleton_self t
  rw [hn, (request_id hmem).2]
  rfl

theorem judged_session {n : Nat} {r : RedisTask} {i : Nat} (hj : Judged redisGet h n r) :
    ((loginAt h n).any fun x => x.2.pkt.sessionIndex == i) = (r.userIdx == i) := by
  obtain ⟨req, mem, ha, hr⟩ := hj
  obtain ⟨_, _, _, _, _, rfl⟩ := hr
  show _ = (req.userIdx == i)
  exact asked_session ha

theorem Traced.dispatched_eq (hT : Traced redisGet h s W) (i : Nat) :
    loginsDispatched i h = ((loginResponses s.chat.sent).countP fun y => y.1 == i) + s.loginsUnderWay i := by
  unfold loginsDispatched loginsUnderWay
  rw [← hT.once.countP_eq]
  unfold Whereabouts.all
  simp only [List.countP_append]
  rw [forall₂_countP hT.requested fun _ _ => asked_session,
    forall₂_countP hT.working fun _ _ => asked_session,
    forall₂_countP hT.responded fun _ _ => judged_session,
    forall₂_countP hT.held fun _ _ => judged_session,
    forall₂_countP hT.answered fun _ _ => settles_session]
  omega

/-- no request is settled twice -/
theorem Traced.answered_nodup (hT : Traced redisGet h s W) : W.answered.Nodup := by
  have hall : W.all.Nodup := hT.once.nodup_iff.mpr (logins_nodup h)
  exact hall.sublist (List.sublist_append_right _ _)

end

/-- **Every login request is answered exactly once.**  In every run where clients send requests only, a
request that has been dispatched has been answered or is under way, and each response settles a
request of its own. -/
theorem logins_answered_once (redisGet : CStr → Option (List UInt8))
    (heap : Session → Fin kDefaultRingBufferSize → UInt8) (as : List Action)
    (hids : ∀ x ∈ hist (step redisGet) (start heap) as, x.1.RequestsOnly) :
    (∀ i, loginsDispatched i (hist (step redisGet) (start heap) as) =
      ((loginResponses (run (step redisGet) (start heap) as).chat.sent).countP fun y => y.1 == i)
        + (run (step redisGet) (start heap) as).loginsUnderWay i) ∧
    ∃ origins : List Nat, origins.Nodup ∧
      List.Forall₂ (Settles redisGet (hist (step redisGet) (start heap) as)) origins
        (loginResponses (run (step redisGet) (start heap) as).chat.sent) := by
  obtain ⟨W, hT⟩ := run_traced heap as hids
  exact ⟨hT.dispatched_eq, W.answered, hT.answered_nodup, hT.answered⟩

theorem logins_answered_once_login :
    loginsDispatched 0 (hist (step fun _ => some [112]) (start fun _ _ => 0)
      (Action.enterLobby 0 [97] [112])) = 1 ∧
    loginResponses (run (step fun _ => some [112]) (start fun _ _ => 0)
      (Action.enterLobby 0 [97] [112])).chat.sent = [(0, 0)] ∧
    ∃ origins : List Nat, origins.Nodup ∧
      List.Forall₂ (Settles (fun _ => some [112]) (hist (step fun _ => some [112]) (start fun _ _ => 0)
        (Action.enterLobby 0 [97] [112]))) origins
        (loginResponses (run (step fun _ => some [112]) (start fun _ _ => 0)
          (Action.enterLobby 0 [97] [112])).chat.sent) := by
  have hids : ∀ x ∈ hist (step fun _ => some [112]) (start fun _ _ => 0)
      (Action.enterLobby 0 [97] [112]), x.1.RequestsOnly := by
    decide +kernel
  refine ⟨by decide +kernel, by decide +kernel, ?_⟩
  exact (logins_answered_once (fun _ => some [112]) (fun _ _ => 0) (Action.enterLobby 0 [97] [112])
    hids).2

end Server

end Iocp
