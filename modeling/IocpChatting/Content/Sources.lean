import IocpChatting.Content.Steps

/-!
# Which handlers a client can reach

Packets of clients, system packets and Redis responses go through one table.  The server's own
handlers (`ServerOnly`) have ids in it like the requests of clients.

* `Answered`, `Granted`    a response that a Redis worker gave earlier in the run, and gave because
                           the store has the password;
* `reserved_run_iff`       clients reach no handler of the server, and nobody is logged in without
                           a grant, exactly if no client packet has a reserved id.
-/

set_option linter.unusedSectionVars false
set_option autoImplicit false

namespace Iocp
namespace Server
open Runs
open UserManager (getUserByIndex)

def ServerOnly (hd : Handler) : Prop := hd = .connect ∨ hd = .disconnect ∨ hd = .loginDBRes

def reservedIds : List Nat :=
  [PacketId.sysUserConnect.val, PacketId.sysUserDisconnect.val, RedisTaskId.responseLogin.val]

theorem serverOnly_iff {id : Nat} {hd : Handler} (h : packetHandlers id = some hd) :
    ServerOnly hd ↔ id ∈ reservedIds := by
  have hall : ∀ x ∈ bindHandler, (x.2 = .connect ∨ x.2 = .disconnect ∨ x.2 = .loginDBRes) ↔
      x.1 ∈ reservedIds := by
    decide
  exact hall _ (mem_bindHandler h)

section
variable (redisGet : CStr → Option (List UInt8))

/-! ## responses are answers to requests -/

/-- `t` was pushed by a worker, as its answer to the request `req` -/
def Answered (h : History) (t req : RedisTask) (mem : Mem) : Prop :=
  ∃ x ∈ h, ∃ k, x.2 = .redisPut k mem ∧ x.1.workers[k]? = some req ∧ t = redisLogin redisGet mem req

/-- Redis had the id with the password that `t`'s request carried -/
def Granted (h : History) (t : RedisTask) : Prop :=
  ∃ req mem, Answered redisGet h t req mem ∧ redisAccepts redisGet mem req = true

variable {redisGet}

theorem Answered.mono {h : History} {t req : RedisTask} {mem : Mem} (x : Server × Action)
    (ha : Answered redisGet h t req mem) : Answered redisGet (h ++ [x]) t req mem := by
  obtain ⟨y, hy, hrest⟩ := ha
  exact ⟨y, List.mem_append_left _ hy, hrest⟩

theorem Tasks.mono {Q Q' R R' : RedisTask → Prop} {s : Server} (h : Tasks Q R s)
    (hQ : ∀ t, Q t → Q' t) (hR : ∀ t, R t → R' t) : Tasks Q' R' s where
  requests t ht := hQ t (h.requests t ht)
  workers t ht := hQ t (h.workers t ht)
  responses t ht := hR t (h.responses t ht)
  held t ht := hR t (h.held t ht)

theorem responses_answered (heap : Session → Fin kDefaultRingBufferSize → UInt8)
    (as : List Action) :
    Tasks (fun _ => True)
      (fun t => ∃ req mem, Answered redisGet (hist (step redisGet) (start heap) as) t req mem)
      (run (step redisGet) (start heap) as) := by
  refine hist_keeps (step redisGet) (C := fun _ _ _ => True)
    (I := fun h s => Tasks (fun _ => True) (fun t => ∃ req mem, Answered redisGet h t req mem) s)
    ⟨fun _ h => (by cases h), fun _ h => (by cases h), fun _ h => (by cases h),
      fun _ h => (by cases h)⟩
    (fun h s a hI _ => ?_) as (fun _ _ _ _ => trivial)
  refine tasks_step redisGet (hI.mono (fun _ hQ => hQ) ?_) a (fun _ _ _ _ => trivial) ?_
  · rintro t ⟨req, mem, ha⟩
    exact ⟨req, mem, ha.mono _⟩
  · intro k mem req t ha hk _ ht
    subst ha
    exact ⟨req, mem, ⟨(s, .redisPut k mem), by simp, k, rfl, hk, processTask_eq redisGet ht⟩⟩

theorem readResult_redisLogin (c : Chat) (mem mem' : Mem) (req : RedisTask) :
    readResult (view c mem' (redisLogin redisGet mem req).toPacketInfo.data) = ErrorCode.none.val ↔
      redisAccepts redisGet mem req = true := by
  unfold redisLogin RedisTask.toPacketInfo
  cases redisAccepts redisGet mem req with
  | true => exact ⟨fun _ => rfl, fun _ => rfl⟩
  | false =>
    refine ⟨fun h => ?_, fun h => ?_⟩
    · change ErrorCode.loginUserInvalidPw.val = ErrorCode.none.val at h
      cases h
    · cases h

/-! ## reserved ids -/

/-- whoever goes from `kNONE` to `kLOGIN` in a step has a response with result `kNONE` processed -/
theorem login_by_accept {s : Server} {a : Action} {p : Session} (hs : s.Sound)
    (h0 : (s.chat.users.pool p).domainState = .none)
    (h1 : ((step redisGet s a).chat.users.pool p).domainState = .login) :
    ∃ k, s.call a = some k ∧ k.session = some p ∧ k.handler = .loginDBRes ∧
      readResult (k.data s.chat) = ErrorCode.none.val := by
  have h1' : (s.chat.roster.apply (s.deed a)).state p = .login := by
    rw [← roster_step redisGet hs.fixed]
    exact h1
  have hd := Roster.login_apply (step_fits hs.fixed a) h0 h1'
  unfold Server.deed at hd
  cases hk : s.call a with
  | none => rw [hk] at hd; cases hd
  | some k =>
    rw [hk] at hd
    have hdo := does_deed k s.chat
    rw [show k.deed s.chat = .accept p from hd] at hdo
    exact ⟨k, rfl, hdo⟩

end

/-- what clients must not be able to do: run a handler of the server, or be logged in for other
reasons than a grant for that session -/
structure Reserved (redisGet : CStr → Option (List UInt8)) (h : History) (s : Server) (a : Action) :
    Prop where
  handlers : ∀ k, s.call a = some k → ServerOnly k.handler → k.source ≠ .user
  logins : ∀ p, (s.chat.users.pool p).domainState = .none →
    ((step redisGet s a).chat.users.pool p).domainState = .login →
    ∃ t, s.pc = .processTaskRes t ∧ getUserByIndex (int32 t.userIdx) = some p ∧ Granted redisGet h t

section
variable {redisGet : CStr → Option (List UInt8)}

theorem reserved_step {h : History} {s : Server} {a : Action} (hs : s.Sound)
    (ht : Tasks (fun _ => True) (fun t => ∃ req mem, Answered redisGet h t req mem) s) :
    Reserved redisGet h s a ↔
      ∀ pkt mem, s.pc = .processPacket pkt → a = .loop mem → pkt.id ∉ reservedIds := by
  constructor
  · intro hr pkt mem hpc ha hin
    have hall : ∀ id ∈ reservedIds, (packetHandlers id).isSome := by decide
    obtain ⟨hd, hid⟩ := Option.isSome_iff_exists.mp (hall _ hin)
    have hk : s.call a = some ⟨.user, pkt, hd, mem⟩ := by
      rw [ha]
      simp only [Server.call, hpc, LoopPc.packet, hid]
      rfl
    exact hr.handlers _ hk ((serverOnly_iff hid).mpr hin) rfl
  · intro hc
    have hh : ∀ k, s.call a = some k → ServerOnly k.handler → k.source ≠ .user := by
      intro k hk hso hu
      obtain ⟨ha, hp, hid⟩ := call_spec hk
      rw [hu] at hp
      cases hpc : s.pc with
      | processPacket pkt =>
        rw [hpc] at hp
        cases hp
        exact hc _ _ hpc ha ((serverOnly_iff hid).mp hso)
      | _ => rw [hpc] at hp; cases hp
    refine ⟨hh, fun p h0 h1 => ?_⟩
    obtain ⟨k, hk, hp, hd, hres⟩ := login_by_accept hs h0 h1
    -- a login comes from `LoginDBResHandler`, and that from Redis: clients cannot run it, system
    -- packets do not
    have hsrc : k.source = .redis := by
      cases hsrc : k.source with
      | redis => rfl
      | user => exact absurd hsrc (hh k hk (.inr (.inr hd)))
      | system =>
        rcases system_handler hs hk hsrc with e | e
        · rw [e] at hd; cases hd
        · rw [e] at hd; cases hd
    obtain ⟨_, t, hpc, hpkt⟩ := redis_handler hs hk hsrc
    obtain ⟨req, mem, ha⟩ := ht.held t hpc
    refine ⟨t, hpc, ?_, req, mem, ha, ?_⟩
    · unfold Call.session at hp
      rw [hpkt] at hp
      exact hp
    · obtain ⟨_, _, _, _, _, rfl⟩ := ha
      unfold Call.data at hres
      rw [hpkt] at hres
      exact (readResult_redisLogin s.chat mem k.mem req).mp hres

/-- **The server's handlers are out of the clients' reach exactly if no client packet carries a
reserved id.** -/
theorem reserved_run_iff (redisGet : CStr → Option (List UInt8))
    (heap : Session → Fin kDefaultRingBufferSize → UInt8) (as : List Action) :
    (∀ bs a cs, as = bs ++ a :: cs →
        Reserved redisGet (hist (step redisGet) (start heap) bs)
          (run (step redisGet) (start heap) bs) a)
      ↔ ∀ bs a cs, as = bs ++ a :: cs → ∀ pkt mem,
          (run (step redisGet) (start heap) bs).pc = .processPacket pkt → a = .loop mem →
          pkt.id ∉ reservedIds := by
  refine forall_congr' fun bs => forall_congr' fun a => forall_congr' fun cs => forall_congr' fun _ => ?_
  exact reserved_step (run_sound redisGet heap bs) (responses_answered heap bs)

end

/-- a client connects and sends one header: size 0, the id of a Redis response -/
def forgedResponse : List Action :=
  [.onConnect 0] ++ Action.loops 4 ++ Action.receive 0 [0, 0, 0xEA, 0x03, 0] ++ Action.loops 1

/-- the header logs the client in, on a server whose Redis knows nobody -/
theorem forged_response_logs_in :
    ¬ ∀ bs a cs, forgedResponse ++ [.loop Mem.zero] = bs ++ a :: cs →
      Reserved (fun _ => none) (hist (step fun _ => none) (start fun _ _ => 0) bs)
        (run (step fun _ => none) (start fun _ _ => 0) bs) a := by
  intro h
  have h0 : ((run (step fun _ => none) (start fun _ _ => 0)
      forgedResponse).chat.users.pool 0).domainState = .none := by
    decide +kernel
  have h1 : ((run (step fun _ => none) (start fun _ _ => 0)
      (forgedResponse ++ [.loop Mem.zero])).chat.users.pool 0).domainState = .login := by
    decide +kernel
  rw [run_snoc] at h1
  obtain ⟨t, _, _, req, mem, _, hacc⟩ := (h forgedResponse (.loop Mem.zero) [] rfl).logins 0 h0 h1
  cases hacc

end Server

end Iocp
