import IocpChatting.Content.Sources

/-!
# Logins

`LoginHandler` writes the id into the user and sends a task to Redis; the response comes back later
and carries no id.

* `one_session_run_iff`    exactly when a run never has two sessions logged in with one id;
* `accepted`               the ids that Redis has accepted for a session since its last
                           `ConnectHandler`;
* `authentic_run`          if the logins of a session go one after the other (`LoginsInTurn`), then
                           whoever is logged in has an accepted id.
-/

set_option linter.unusedSectionVars false
set_option autoImplicit false

namespace Iocp
open Runs
open UserManager (getUserByIndex)

namespace Chat

def OneSessionPerId (c : Chat) : Prop :=
  ∀ p q : Session, p ≠ q → (c.users.pool p).LoggedIn → (c.users.pool q).LoggedIn →
    (c.users.pool p).userId ≠ (c.users.pool q).userId

theorem oneSessionPerId_iff (c : Chat) : c.OneSessionPerId ↔ c.roster.OneSession := Iff.rfl

end Chat

namespace Server

section
variable (redisGet : CStr → Option (List UInt8))
  (heap : Session → Fin kDefaultRingBufferSize → UInt8)

/-- **A run never has two sessions logged in with one id exactly if none of its steps gives a
session the id of another one that is logged in.** -/
theorem one_session_run_iff (as : List Action) :
    ((∀ x ∈ hist (step redisGet) (start heap) as, x.1.chat.OneSessionPerId) ∧
        (run (step redisGet) (start heap) as).chat.OneSessionPerId)
      ↔ ∀ x ∈ hist (step redisGet) (start heap) as, x.1.chat.roster.KeepsOne (x.1.deed x.2) := by
  simp only [Chat.oneSessionPerId_iff]
  have h0 : (start heap).chat.roster.OneSession := by
    intro p q _ hp
    rcases hp with hp | hp
    · cases hp
    · cases hp
  refine run_keeps_iff (step redisGet) (I := fun s => s.chat.roster.OneSession)
    (F := fun s _ => s.Sound) (C := fun s a => s.chat.roster.KeepsOne (s.deed a))
    (fun s a hs h => ?_) h0 as (hist_sound redisGet heap as)
  rw [roster_step redisGet hs.fixed]
  exact Roster.oneSession_apply_iff (step_fits hs.fixed a) h

end

/-- two clients ask for one account before Redis has answered either -/
def loginTwice : List Action :=
  [.onConnect 0, .onConnect 1] ++ Action.loops 8
    ++ Action.receive 0 (loginPacket [97] [112]) ++ Action.receive 1 (loginPacket [97] [112])
    ++ Action.loops 10 ++ Action.redis ++ Action.redis ++ Action.loops 8

theorem both_logged_in :
    ¬ (run (step fun _ => some [112]) (start fun _ _ => 0) loginTwice).chat.OneSessionPerId := by
  intro h
  have h0 : ((run (step fun _ => some [112]) (start fun _ _ => 0)
      loginTwice).chat.users.pool 0).LoggedIn := by
    decide +kernel
  have h1 : ((run (step fun _ => some [112]) (start fun _ _ => 0)
      loginTwice).chat.users.pool 1).LoggedIn := by
    decide +kernel
  refine h 0 1 (by decide) h0 h1 ?_
  decide +kernel

/-! ## what Redis has accepted -/

section
variable (redisGet : CStr → Option (List UInt8))

def acceptedBy (p : Session) (s : Server) (k : Nat) (mem : Mem) : List CStr :=
  match s.workers[k]? with
  | none => []
  | some t =>
    if t.id = .requestLogin ∧ getUserByIndex (int32 t.userIdx) = some p ∧
      redisAccepts redisGet mem t = true then [redisKey mem t] else []

def acceptedStep (p : Session) (l : List CStr) (x : Server × Action) : List CStr :=
  match x.1.call x.2 with
  | some k => if k.session = some p ∧ k.handler = .connect then [] else l
  | none =>
    match x.2 with
    | .redisPut k mem => acceptedBy redisGet p x.1 k mem ++ l
    | _ => l

/-- the ids in the requests of `p` that Redis has accepted since `ConnectHandler` last ran for `p` -/
def accepted (p : Session) (h : History) : List CStr := h.foldl (acceptedStep redisGet p) []

theorem accepted_snoc (p : Session) (h : History) (x : Server × Action) :
    accepted redisGet p (h ++ [x]) = acceptedStep redisGet p (accepted redisGet p h) x := by
  rw [accepted, List.foldl_append]
  rfl

/-- whoever is logged in has an id that Redis has accepted for it -/
def Authentic (h : History) (s : Server) : Prop :=
  ∀ p, (s.chat.users.pool p).LoggedIn → (s.chat.users.pool p).userId ∈ accepted redisGet p h

end

/-! ## one login after the other -/

/-- no login task of `p` waits for a worker, is with a worker, or waits for the packet loop -/
def Idle (s : Server) (p : Session) : Prop :=
  ∀ t ∈ s.chat.taskReqQueue ++ s.workers ++ s.taskResQueue,
    getUserByIndex (int32 t.userIdx) ≠ some p

instance (s : Server) (p : Session) : Decidable (s.Idle p) := List.decidableBAll ..

/-- * a request carries a terminated id, and the id that the user has already, unless the user is
    not logged in and no task of it is under way;
* a failure response comes to a user that is not logged in and has no further task under way;
* `ConnectHandler` finds no task of its user under way. -/
def InTurn (s : Server) (k : Call) : Deed Session RoomPtr CStr → Prop
  | .request p v =>
    0 ∈ (Chat.loginTask k.pkt.sessionIndex (k.data s.chat)).data ∧
      (v = (s.chat.users.pool p).userId ∨ ¬ (s.chat.users.pool p).LoggedIn ∧ s.Idle p)
  | .reject p => ¬ (s.chat.users.pool p).LoggedIn ∧ s.Idle p
  | .clear p => s.Idle p
  | _ => True

instance (s : Server) (k : Call) : (d : Deed Session RoomPtr CStr) → Decidable (InTurn s k d)
  | .request _ _ => inferInstanceAs (Decidable (_ ∧ _))
  | .reject _ => inferInstanceAs (Decidable (_ ∧ _))
  | .clear p => inferInstanceAs (Decidable (s.Idle p))
  | .idle | .disconnect _ _ | .accept _ | .enter _ _ | .leave _ _ | .chat _ _ => .isTrue trivial

def LoginsInTurn (s : Server) (a : Action) : Prop := ∀ k ∈ s.call a, InTurn s k (k.deed s.chat)

instance (s : Server) (a : Action) : Decidable (LoginsInTurn s a) := Option.decidableForallMem _

def RequestsOnly (s : Server) : Prop := ∀ x ∈ s.pc.packet, x.1 = .user → x.2.id ∈ requestIds

instance (s : Server) : Decidable s.RequestsOnly := Option.decidableForallMem _

/-- where clients send requests only, `LoginDBResHandler` is run by Redis responses only -/
theorem redis_of_response {s : Server} {a : Action} {k : Call} (hs : s.Sound) (hids : s.RequestsOnly)
    (hk : s.call a = some k) (hh : k.handler = .loginDBRes) : k.source = .redis := by
  obtain ⟨_, hp, hid⟩ := call_spec hk
  cases hsrc : k.source with
  | redis => rfl
  | user =>
    have hin := hids _ hp hsrc
    have hres := (serverOnly_iff hid).mp (.inr (.inr hh))
    exact absurd hin (by
      have hall : ∀ id ∈ reservedIds, id ∉ requestIds := by decide
      exact hall _ hres)
  | system =>
    rcases system_handler hs hk hsrc with e | e
    · rw [e] at hh; cases hh
    · rw [e] at hh; cases hh

section
variable (redisGet : CStr → Option (List UInt8))

/-- the request `t` carries the id that its user has now -/
def KeyOf (s : Server) (t : RedisTask) : Prop :=
  ∀ p, getUserByIndex (int32 t.userIdx) = some p →
    0 ∈ t.data ∧ CStr.ofBytes t.data = (s.chat.users.pool p).userId

/-- if the response `t` is a success, then Redis has accepted the id that its user has now -/
def GrantOf (h : History) (s : Server) (t : RedisTask) : Prop :=
  ∀ p c mem, getUserByIndex (int32 t.userIdx) = some p →
    readResult (view c mem t.toPacketInfo.data) = ErrorCode.none.val →
    (s.chat.users.pool p).userId ∈ accepted redisGet p h

structure Secured (h : History) (s : Server) : Prop where
  tasks : Tasks (KeyOf s) (GrantOf redisGet h s) s
  authentic : Authentic redisGet h s

variable {redisGet} {h : History} {s : Server} {a : Action}

theorem grantOf_put {k : Nat} {mem : Mem} {t r : RedisTask} (hs : s.Sound)
    (hk : s.workers[k]? = some t) (hQ : KeyOf s t) (hr : processTask redisGet mem t = some r) :
    GrantOf redisGet (h ++ [(s, .redisPut k mem)]) s r := by
  intro p c m hp hres
  rw [processTask_eq redisGet hr] at hp hres
  have hacc := (readResult_redisLogin c mem m t).mp hres
  have hid := hs.tasks.workers t (List.mem_of_getElem? hk)
  obtain ⟨hnul, hkey⟩ := hQ p hp
  have hkey' : redisKey mem t = (s.chat.users.pool p).userId := by
    rw [← hkey]
    exact CStr.ofBytes_append hnul _
  have hby : acceptedBy redisGet p s k mem = [redisKey mem t] := by
    unfold acceptedBy
    rw [hk]
    exact if_pos ⟨hid, hp, hacc⟩
  rw [accepted_snoc]
  show _ ∈ acceptedBy redisGet p s k mem ++ _
  rw [hby, hkey']
  exact List.mem_cons_self

theorem accepted_quiet (hk : s.call a = none) {p : Session} {v : CStr}
    (hv : v ∈ accepted redisGet p h) : v ∈ accepted redisGet p (h ++ [(s, a)]) := by
  rw [accepted_snoc]
  unfold acceptedStep
  simp only [hk]
  split
  · exact List.mem_append_right _ hv
  · exact hv

theorem secured_quiet (hs : s.Sound) (hI : Secured redisGet h s) (hk : s.call a = none) :
    Secured redisGet (h ++ [(s, a)]) (step redisGet s a) := by
  have hq := step_quiet redisGet hk
  have hid : ∀ p, ((step redisGet s a).chat.users.pool p).userId = (s.chat.users.pool p).userId := by
    intro p
    obtain ⟨buf, e⟩ := hq.user p
    rw [e]
  have hst : ∀ p, ((step redisGet s a).chat.users.pool p).LoggedIn → (s.chat.users.pool p).LoggedIn := by
    intro p hl
    obtain ⟨buf, e⟩ := hq.user p
    rw [e] at hl
    exact hl
  constructor
  · have ht : Tasks (KeyOf s) (GrantOf redisGet (h ++ [(s, a)]) s) (step redisGet s a) := by
      refine tasks_step redisGet (hI.tasks.mono (fun _ hQ => hQ) fun t hR => ?_) a ?_ ?_
      · intro p c mem hp hres
        exact accepted_quiet hk (hR p c mem hp hres)
      · intro k e
        rw [hk] at e
        cases e
      · intro k mem t r ha hw hQ hr
        subst ha
        exact grantOf_put hs hw hQ hr
    refine ht.mono (fun t hQ p hp => ?_) (fun t hR p c mem hp hres => ?_)
    · rw [hid]
      exact hQ p hp
    · rw [hid]
      exact hR p c mem hp hres
  · intro p hl
    rw [hid]
    exact accepted_quiet hk (hI.authentic p (hst p hl))

/-- a call that changes the id or the accepted ids only of users with no task under way -/
theorem secured_call {k : Call} (hI : Secured redisGet h s) (hk : s.call a = some k)
    (hreq : ∀ t ∈ k.request s.chat, KeyOf (step redisGet s a) t)
    (hid : ∀ p, (((step redisGet s a).chat.users.pool p).userId = (s.chat.users.pool p).userId ∧
      accepted redisGet p (h ++ [(s, a)]) = accepted redisGet p h) ∨ s.Idle p)
    (hauth : Authentic redisGet (h ++ [(s, a)]) (step redisGet s a)) :
    Secured redisGet (h ++ [(s, a)]) (step redisGet s a) := by
  have hreqs : ∀ t ∈ s.chat.taskReqQueue ++ s.workers ++ s.taskResQueue,
      KeyOf s t → KeyOf (step redisGet s a) t := by
    intro t ht hQ p hp
    rcases hid p with ⟨e, _⟩ | e
    · rw [e]
      exact hQ p hp
    · exact absurd hp (e t ht)
  refine ⟨tasks_call redisGet hk (fun t ht => ?_) hreq (fun t ht => ?_) (fun t ht => ?_), hauth⟩
  · exact hreqs t (by simp [ht]) (hI.tasks.requests t ht)
  · exact hreqs t (by simp [ht]) (hI.tasks.workers t ht)
  · intro p c mem hp hres
    rcases hid p with ⟨e, e'⟩ | e
    · rw [e, e']
      exact hI.tasks.responses t ht p c mem hp hres
    · exact absurd hp (e t (by simp [ht]))

theorem accepted_call {k : Call} (hk : s.call a = some k) (p : Session) :
    accepted redisGet p (h ++ [(s, a)]) =
      if k.session = some p ∧ k.handler = .connect then [] else accepted redisGet p h := by
  rw [accepted_snoc]
  unfold acceptedStep
  simp only [hk]

theorem accepted_other {k : Call} (hk : s.call a = some k) {p : Session}
    (hne : k.deed s.chat ≠ .clear p) :
    accepted redisGet p (h ++ [(s, a)]) = accepted redisGet p h := by
  rw [accepted_call hk, if_neg]
  rintro ⟨hp, hd⟩
  exact hne (connect_deed hd hp)

theorem call_user {k : Call} (hs : s.Sound) (hk : s.call a = some k) (p : Session) :
    ((step redisGet s a).chat.users.pool p).userId
        = (s.chat.roster.apply (k.deed s.chat)).id p ∧
      (((step redisGet s a).chat.users.pool p).LoggedIn
        ↔ (s.chat.roster.apply (k.deed s.chat)).LoggedIn p) := by
  have hr := roster_step redisGet hs.fixed a
  rw [show s.deed a = k.deed s.chat by rw [Server.deed, hk]] at hr
  rw [← hr]
  exact ⟨rfl, Iff.rfl⟩

/-- a call that changes no id: whoever logs in by it must have an accepted id -/
theorem secured_plain {k : Call} (hs : s.Sound) (hI : Secured redisGet h s) (hk : s.call a = some k)
    (hc : ∀ p, k.deed s.chat ≠ .clear p) (hq : ∀ p v, k.deed s.chat ≠ .request p v)
    (hid : ∀ p, (s.chat.roster.apply (k.deed s.chat)).id p = s.chat.roster.id p)
    (hlog : ∀ p, (s.chat.roster.apply (k.deed s.chat)).LoggedIn p →
      s.chat.roster.LoggedIn p ∨ s.chat.roster.id p ∈ accepted redisGet p h) :
    Secured redisGet (h ++ [(s, a)]) (step redisGet s a) := by
  refine secured_call hI hk (fun t ht p hp => ?_) (fun p => .inl ⟨?_, accepted_other hk (hc p)⟩) ?_
  · rw [(request_id ht).2] at hp
    exact absurd (request_deed ht hp) (hq p _)
  · rw [(call_user hs hk p).1, hid]
    rfl
  · intro p hl
    rw [(call_user hs hk p).1, hid, accepted_other hk (hc p)]
    rcases hlog p ((call_user hs hk p).2.mp hl) with hp | hp
    · exact hI.authentic p hp
    · exact hp

/-- a success response that the loop processes was earned by the id that its user has -/
theorem accept_granted {k : Call} {p : Session} (hs : s.Sound) (hI : Secured redisGet h s)
    (hids : s.RequestsOnly) (hk : s.call a = some k) (hd : k.deed s.chat = .accept p) :
    s.chat.roster.id p ∈ accepted redisGet p h := by
  have hdo := does_deed k s.chat
  rw [hd] at hdo
  obtain ⟨hp, hh, hres⟩ := hdo
  have hsrc : k.source = .redis := redis_of_response hs hids hk hh
  obtain ⟨_, t, hpc, hpkt⟩ := redis_handler hs hk hsrc
  unfold Call.session at hp
  unfold Call.data at hres
  rw [hpkt] at hp hres
  exact hI.tasks.held t hpc p s.chat k.mem hp hres

theorem keyOf_request {k : Call} {p : Session} {v : CStr} {t : RedisTask} (hs : s.Sound)
    (hk : s.call a = some k) (hd : k.deed s.chat = .request p v) (ht : t ∈ k.request s.chat)
    (hnul : 0 ∈ (Chat.loginTask k.pkt.sessionIndex (k.data s.chat)).data) :
    KeyOf (step redisGet s a) t := by
  intro q hq
  have et := (request_id ht).2
  have hdo := does_deed k s.chat
  rw [hd] at hdo
  obtain ⟨hp, _, hv, _⟩ := hdo
  rw [et] at hq ⊢
  have eq : q = p := by
    have := hq.symm.trans hp
    exact Option.some.inj this
  subst eq
  refine ⟨hnul, ?_⟩
  rw [(call_user hs hk q).1, hd]
  show _ = Function.update s.chat.roster.id q v q
  rw [Function.update_self, hv]
  exact (CStr.ofBytes_append hnul _).symm

theorem secured_request {k : Call} {p : Session} {v : CStr} (hs : s.Sound)
    (hI : Secured redisGet h s) (hk : s.call a = some k) (hd : k.deed s.chat = .request p v)
    (hturn : InTurn s k (.request p v)) : Secured redisGet (h ++ [(s, a)]) (step redisGet s a) := by
  obtain ⟨hnul, hv⟩ := hturn
  have hc : ∀ q, k.deed s.chat ≠ .clear q := by
    intro q e
    rw [hd] at e
    cases e
  have hid : ∀ q, q ≠ p → ((step redisGet s a).chat.users.pool q).userId
      = (s.chat.users.pool q).userId := by
    intro q hq
    rw [(call_user hs hk q).1, hd]
    exact Function.update_of_ne hq _ _
  have hidp : ((step redisGet s a).chat.users.pool p).userId = v := by
    rw [(call_user hs hk p).1, hd]
    exact Function.update_self ..
  have hlog : ∀ q, ((step redisGet s a).chat.users.pool q).LoggedIn →
      (s.chat.users.pool q).LoggedIn := by
    intro q hl
    have := (call_user hs hk q).2.mp hl
    rw [hd] at this
    exact this
  refine secured_call hI hk (fun t ht => keyOf_request hs hk hd ht hnul) (fun q => ?_) (fun q hl => ?_)
  · by_cases hq : q = p
    · subst hq
      -- the same id again changes nothing; a new one meets no task of `q` that knows the old one
      rcases hv with e | ⟨_, hidle⟩
      · exact .inl ⟨hidp.trans e, accepted_other hk (hc q)⟩
      · exact .inr hidle
    · exact .inl ⟨hid q hq, accepted_other hk (hc q)⟩
  · rw [accepted_other hk (hc q)]
    by_cases hq : q = p
    · subst hq
      rcases hv with e | ⟨hno, _⟩
      · rw [hidp, e]
        exact hI.authentic q (hlog q hl)
      · exact absurd (hlog q hl) hno
    · rw [hid q hq]
      exact hI.authentic q (hlog q hl)

/-- a call that leaves `p` logged out, with no task of `p` under way -/
theorem secured_logout {k : Call} {p : Session} (hs : s.Sound) (hI : Secured redisGet h s)
    (hk : s.call a = some k) (hidle : s.Idle p) (hq : ∀ q v, k.deed s.chat ≠ .request q v)
    (hc : ∀ q, q ≠ p → k.deed s.chat ≠ .clear q)
    (hid : ∀ q, q ≠ p → (s.chat.roster.apply (k.deed s.chat)).id q = s.chat.roster.id q)
    (hlog : ∀ q, (s.chat.roster.apply (k.deed s.chat)).LoggedIn q → q ≠ p ∧ s.chat.roster.LoggedIn q) :
    Secured redisGet (h ++ [(s, a)]) (step redisGet s a) := by
  refine secured_call hI hk (fun t ht q hq' => ?_) (fun q => ?_) (fun q hl => ?_)
  · rw [(request_id ht).2] at hq'
    exact absurd (request_deed ht hq') (hq q _)
  · by_cases hqp : q = p
    · subst hqp
      exact .inr hidle
    · refine .inl ⟨?_, accepted_other hk (hc q hqp)⟩
      rw [(call_user hs hk q).1, hid q hqp]
      rfl
  · obtain ⟨hqp, hl'⟩ := hlog q ((call_user hs hk q).2.mp hl)
    rw [(call_user hs hk q).1, hid q hqp, accepted_other hk (hc q hqp)]
    exact hI.authentic q hl'

theorem secured_step (hs : s.Sound) (hids : s.RequestsOnly) (hturn : LoginsInTurn s a)
    (hI : Secured redisGet h s) : Secured redisGet (h ++ [(s, a)]) (step redisGet s a) := by
  cases hk : s.call a with
  | none => exact secured_quiet hs hI hk
  | some k =>
    have hf := step_fits hs.fixed a
    rw [show s.deed a = k.deed s.chat by rw [Server.deed, hk]] at hf
    have ht := hturn k hk
    have hplain := @secured_plain redisGet h s a k hs hI hk
    cases hd : k.deed s.chat with
    | request p v =>
      rw [hd] at ht
      exact secured_request hs hI hk hd ht
    | reject p =>
      rw [hd] at ht
      refine secured_logout hs hI hk ht.2 ?_ ?_ ?_ ?_
      · intro q v e; rw [hd] at e; cases e
      · intro q _ e; rw [hd] at e; cases e
      · intro q hq
        rw [hd]
        exact Function.update_of_ne hq _ _
      · intro q hl
        rw [hd] at hl
        refine ⟨fun e => ?_, hl⟩
        subst e
        exact ht.1 hl
    | clear p =>
      rw [hd] at ht
      refine secured_logout hs hI hk ht ?_ ?_ ?_ ?_
      · intro q v e; rw [hd] at e; cases e
      · intro q hq e; rw [hd] at e; cases e; exact hq rfl
      · intro q hq
        rw [hd]
        exact Function.update_of_ne hq _ _
      · intro q hl
        rw [hd] at hl
        have hq : q ≠ p := by
          rintro rfl
          simp [Roster.LoggedIn, Roster.apply] at hl
        refine ⟨hq, ?_⟩
        simpa [Roster.LoggedIn, Roster.apply, hq] using hl
    | accept p =>
      have hgr := accept_granted hs hI hids hk hd
      rw [hd] at hplain
      refine hplain (fun q e => by cases e) (fun q v e => by cases e) (fun q => rfl) (fun q hl => ?_)
      by_cases hq : q = p
      · subst hq
        exact .inr hgr
      · exact .inl (by simpa [Roster.LoggedIn, Roster.apply, hq] using hl)
    | enter p r =>
      rw [hd] at hplain hf
      refine hplain (fun q e => by cases e) (fun q v e => by cases e) (fun q => rfl) (fun q hl => .inl ?_)
      by_cases hq : q = p
      · subst hq
        exact .inl hf
      · simpa [Roster.LoggedIn, Roster.apply, hq] using hl
    | leave p r =>
      rw [hd] at hplain hf
      refine hplain (fun q e => by cases e) (fun q v e => by cases e) (fun q => rfl) (fun q hl => .inl ?_)
      by_cases hq : q = p
      · subst hq
        exact .inr hf.1
      · simpa [Roster.LoggedIn, Roster.apply, hq] using hl
    | idle | disconnect p left | chat p r =>
      rw [hd] at hplain
      exact hplain (fun q e => by cases e) (fun q v e => by cases e) (fun q => rfl) (fun q hl => .inl hl)

/-- **Logins that take turns are authentic**, in every state of a run where clients send requests
only. -/
theorem authentic_run (redisGet : CStr → Option (List UInt8))
    (heap : Session → Fin kDefaultRingBufferSize → UInt8) (as : List Action)
    (hids : ∀ x ∈ hist (step redisGet) (start heap) as, x.1.RequestsOnly)
    (hturn : ∀ x ∈ hist (step redisGet) (start heap) as, LoginsInTurn x.1 x.2) :
    ∀ bs cs, as = bs ++ cs →
      Authentic redisGet (hist (step redisGet) (start heap) bs) (run (step redisGet) (start heap) bs) := by
  intro bs cs e
  have h0 : Secured redisGet [] (start heap) := by
    refine ⟨⟨fun _ ht => (by cases ht), fun _ ht => (by cases ht), fun _ ht => (by cases ht),
      fun _ ht => (by cases ht)⟩, fun p hl => ?_⟩
    rcases hl with hl | hl
    · cases hl
    · cases hl
  have hI := hist_keeps (step redisGet) (I := fun h s => s.Sound ∧ Secured redisGet h s)
    (C := fun _ s a => s.RequestsOnly ∧ LoginsInTurn s a) ⟨start_sound heap, h0⟩
    (fun h s a hI hC => ⟨step_sound redisGet hI.1 a, secured_step hI.1 hC.1 hC.2 hI.2⟩) bs
    (fun bs' a cs' e' => ?_)
  · exact hI.2.authentic
  · have hmem : (run (step redisGet) (start heap) bs', a) ∈ hist (step redisGet) (start heap) as := by
      refine split_mem_hist (step redisGet) (show as = bs' ++ a :: (cs' ++ cs) from ?_)
      rw [e, e', List.append_assoc]
      rfl
    exact ⟨hids _ hmem, hturn _ hmem⟩

end

theorem authentic_run_login :
    ((run (step fun _ => some [112]) (start fun _ _ => 0)
        (Action.enterLobby 0 [97] [112])).chat.users.pool 0).LoggedIn ∧
      Authentic (fun _ => some [112])
        (hist (step fun _ => some [112]) (start fun _ _ => 0) (Action.enterLobby 0 [97] [112]))
        (run (step fun _ => some [112]) (start fun _ _ => 0) (Action.enterLobby 0 [97] [112])) := by
  refine ⟨by decide +kernel, ?_⟩
  have hids : ∀ x ∈ hist (step fun _ => some [112]) (start fun _ _ => 0)
      (Action.enterLobby 0 [97] [112]), x.1.RequestsOnly := by
    decide +kernel
  have hturn : ∀ x ∈ hist (step fun _ => some [112]) (start fun _ _ => 0)
      (Action.enterLobby 0 [97] [112]), LoginsInTurn x.1 x.2 := by
    decide +kernel
  exact authentic_run _ _ _ hids hturn _ [] (List.append_nil _).symm

/-- Redis knows the account "a" and no other -/
def onlyA (v : CStr) : Option (List UInt8) := if v.bytes = [97] then some [112] else none

/-- user 0 logs in as "a" and then asks to log in as "b" -/
def loginAgain : List Action :=
  Action.enterLobby 0 [97] [112] ++ Action.receive 0 (loginPacket [98] [112]) ++ Action.loops 2

/-- the second request renames the user at once -/
theorem renamed_by_request :
    (∀ x ∈ hist (step onlyA) (start fun _ _ => 0) loginAgain, x.1.RequestsOnly) ∧
      ¬ Authentic onlyA (hist (step onlyA) (start fun _ _ => 0) loginAgain)
        (run (step onlyA) (start fun _ _ => 0) loginAgain) := by
  refine ⟨by decide +kernel, fun h => ?_⟩
  have hlog : ((run (step onlyA) (start fun _ _ => 0) loginAgain).chat.users.pool 0).LoggedIn := by
    decide +kernel
  have hnot : ((run (step onlyA) (start fun _ _ => 0) loginAgain).chat.users.pool 0).userId
      ∉ accepted onlyA 0 (hist (step onlyA) (start fun _ _ => 0) loginAgain) := by
    decide +kernel
  exact hnot (h 0 hlog)

end Server

end Iocp
