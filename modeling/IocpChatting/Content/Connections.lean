import IocpChatting.Content.Ledger
import IocpChatting.Content.Logins

/-!
# Responses and connections

Redis tasks carry a session index and no connection.

* `no_cross_login_run`   if no connection starts while a login of the old one is under way, then no
                         Redis response reaches a later connection than the one it is for.
-/

set_option linter.unusedSectionVars false
set_option autoImplicit false

namespace Iocp
open Runs
open UserManager (getUserByIndex)

namespace Server
variable {L : Ledger} {s : Server}

/-- the state of `p` stays as it is, and no `LOGIN_RESPONSE` goes to `p` -/
structure Untouched (p : Session) (c c' : Chat) : Prop where
  domainState : (c'.users.pool p).domainState = (c.users.pool p).domainState
  userId : (c'.users.pool p).userId = (c.users.pool p).userId
  isConfirmed : (c'.users.pool p).isConfirmed = (c.users.pool p).isConfirmed
  userIdMap : c'.users.userIdMap = c.users.userIdMap
  sent : ∀ m ∈ c'.sent.drop c.sent.length, m.idx = (p : Nat) → m.pkt.body.isLoginResponse = false

section
variable (redisGet : CStr → Option (List UInt8))

/-- the response that the loop processes touches no later connection than those its request came
from -/
def NoCrossLogin (h : History) (s : Server) (a : Action) : Prop :=
  ∀ mem t tags p, a = .loop mem → s.pc = .processTaskRes t →
    (ledger redisGet h).held = some (t, tags) → getUserByIndex (int32 t.userIdx) = some p →
    ∀ g ∈ tags, g < (ledger redisGet h).conn p →
      Untouched p s.chat (step redisGet s a).chat

def RequestCurrent (L : Ledger) (k : Call) : Deed Session RoomPtr CStr → Prop
  | .request p _ => ∀ g ∈ L.origin p k.pkt.size, g = L.conn p
  | _ => True

instance (L : Ledger) (k : Call) : (d : Deed Session RoomPtr CStr) → Decidable (RequestCurrent L k d)
  | .request p _ => inferInstanceAs (Decidable (∀ g ∈ L.origin p k.pkt.size, g = L.conn p))
  | .idle | .clear _ | .disconnect _ _ | .accept _ | .reject _ | .enter _ _ | .leave _ _
  | .chat _ _ => .isTrue trivial

/-- a connection starts when no login of its session is under way, and a login request is taken up
while the connection that sent it is the current one -/
def LoginsDrained (h : History) (s : Server) : Action → Prop
  | .onConnect i =>
    s.Idle i ∧ ∀ x ∈ s.pc.packet, x.1 = .redis → getUserByIndex (int32 x.2.sessionIndex) ≠ some i
  | .loop mem => ∀ k ∈ s.call (.loop mem), RequestCurrent (ledger redisGet h) k (k.deed s.chat)
  | _ => True

instance (h : History) (s : Server) : (a : Action) → Decidable (LoginsDrained redisGet h s a)
  | .onConnect i =>
    have : Decidable (∀ x ∈ s.pc.packet, x.1 = .redis →
        getUserByIndex (int32 x.2.sessionIndex) ≠ some i) := Option.decidableForallMem _
    inferInstanceAs (Decidable (s.Idle i ∧ _))
  | .loop mem => inferInstanceAs
      (Decidable (∀ k ∈ s.call (.loop mem), RequestCurrent (ledger redisGet h) k (k.deed s.chat)))
  | .onDisconnect _ | .onRecv _ _ | .pushIndex _ | .redisTake | .redisPut _ _ => .isTrue trivial

def FromCurrent (conn : Session → Nat) (x : Tagged) : Prop :=
  ∀ p, getUserByIndex (int32 x.1.userIdx) = some p → ∀ g ∈ x.2, g = conn p

variable {redisGet}

theorem Synced.idle {Q : Tagged → Prop} {i : Session} (h : Synced Q L s) (hi : s.Idle i) :
    ∀ x ∈ L.requests ++ L.workers ++ L.responses, getUserByIndex (int32 x.1.userIdx) ≠ some i := by
  intro x hx
  refine hi x.1 ?_
  rw [← h.requests, ← h.workers, ← h.responses, ← List.map_append, ← List.map_append]
  exact List.mem_map_of_mem hx

theorem fromCurrent_put {conn : Session → Nat} {mem : Mem} {t r : RedisTask} {tags : List Nat}
    (hQ : FromCurrent conn (t, tags)) (hr : processTask redisGet mem t = some r) :
    FromCurrent conn (r, tags) := by
  rw [processTask_eq redisGet hr]
  exact hQ

theorem fromCurrent_request {h : History} {a : Action} {k : Call} {t : RedisTask}
    (hc : LoginsDrained redisGet h s a) (hk : s.call a = some k) (ht : t ∈ k.request s.chat) :
    FromCurrent (ledger redisGet h).conn (t, (ledger redisGet h).callOrigin k) := by
  intro p hp g hg
  rw [(request_id ht).2] at hp
  have hp' : k.session = some p := hp
  unfold Ledger.callOrigin at hg
  rw [hp'] at hg
  have ha := (call_spec hk).1
  subst ha
  have hcur := hc k hk
  rw [request_deed ht hp'] at hcur
  exact hcur g hg

theorem drained_step {h : History} {a : Action} (hc : LoginsDrained redisGet h s a)
    (hI : Synced (FromCurrent (ledger redisGet h).conn) (ledger redisGet h) s) :
    Synced (FromCurrent (ledger redisGet (h ++ [(s, a)])).conn) (ledger redisGet (h ++ [(s, a)]))
      (step redisGet s a) := by
  have hs := synced_step redisGet a hI (fun k hk t ht => fromCurrent_request hc hk ht)
    (fun mem t r tags hQ hr => fromCurrent_put hQ hr)
  have hconn := note_conn (L := ledger redisGet h) (s := s) redisGet a
  rw [ledger_snoc]
  cases a with
  | onConnect i =>
    -- the count of `i` goes up, and no task of `i` is there to notice
    obtain ⟨hidle, hheld⟩ := hc
    have hother : ∀ p, p ≠ i →
        ((ledger redisGet h).note redisGet (s, .onConnect i)).conn p = (ledger redisGet h).conn p :=
      fun p hp => Function.update_of_ne hp _ _
    refine ⟨hs.rings, hs.requests, hs.workers, hs.responses, fun x hx p hp => ?_, fun t ht => ?_⟩
    · have hne : p ≠ i := by
        rintro rfl
        exact hI.idle hidle x hx hp
      rw [hother p hne]
      exact hs.tagged x hx p hp
    · obtain ⟨tags, hL, hQ⟩ := hs.held t ht
      refine ⟨tags, hL, fun p hp => ?_⟩
      have hne : p ≠ i := by
        rintro rfl
        rw [show s.pc = .processTaskRes t from ht] at hheld
        exact hheld _ rfl rfl hp
      rw [hother p hne]
      exact hQ p hp
  | _ =>
    rw [hconn]
    exact hs

/-- **If logins are drained before a session is used again, no response crosses over.** -/
theorem no_cross_login_run (redisGet : CStr → Option (List UInt8))
    (heap : Session → Fin kDefaultRingBufferSize → UInt8) (as : List Action)
    (hdrained : ∀ bs a cs, as = bs ++ a :: cs →
      LoginsDrained redisGet (hist (step redisGet) (start heap) bs)
        (run (step redisGet) (start heap) bs) a) :
    ∀ bs a cs, as = bs ++ a :: cs →
      NoCrossLogin redisGet (hist (step redisGet) (start heap) bs)
        (run (step redisGet) (start heap) bs) a := by
  intro bs a cs e mem t tags p _ hpc hheld hp g hg hlt
  have hI := hist_keeps (step redisGet)
    (I := fun h s => Synced (FromCurrent (ledger redisGet h).conn) (ledger redisGet h) s)
    (C := LoginsDrained redisGet) (start_synced _ heap) (fun h s a hI hC => drained_step hC hI) bs
    (fun bs' a' cs' e' => hdrained bs' a' (cs' ++ a :: cs) (by rw [e, e', List.append_assoc]; rfl))
  obtain ⟨tags', ht, hcur⟩ := hI.held t hpc
  rw [hheld] at ht
  cases ht
  exact absurd (hcur p hp g hg) (by omega)

end

/-- user 0 logs in over its first connection; the last step processes the response -/
theorem no_cross_login_run_login :
    (run (step fun _ => some [112]) (start fun _ _ => 0)
        ((Action.enterLobby 0 [97] [112]).take 17)).pc = .processTaskRes ⟨0, .responseLogin, [0, 0]⟩ ∧
      NoCrossLogin (fun _ => some [112])
        (hist (step fun _ => some [112]) (start fun _ _ => 0) ((Action.enterLobby 0 [97] [112]).take 17))
        (run (step fun _ => some [112]) (start fun _ _ => 0) ((Action.enterLobby 0 [97] [112]).take 17))
        (.loop Mem.zero) := by
  refine ⟨by decide +kernel, ?_⟩
  have h : Along (step fun _ => some [112]) (LoginsDrained fun _ => some [112]) []
      (start fun _ _ => 0) (Action.enterLobby 0 [97] [112]) := by
    decide +kernel
  exact no_cross_login_run _ _ _ (along_split _ h) _ _ [] rfl

/-- user 0 asks to log in and hangs up; a new connection gets the index, and then Redis answers -/
def slowRedis : List Action :=
  [.onConnect 0] ++ Action.loops 4 ++ Action.receive 0 (loginPacket [97] [112]) ++ Action.loops 5
    ++ [.redisTake, .onDisconnect 0, .onConnect 0] ++ Action.loops 8
    ++ [.redisPut 0 Mem.zero] ++ Action.loops 3

/-- the answer for the old connection logs the new one in -/
theorem slow_redis_crosses :
    ¬ NoCrossLogin (fun _ => some [112]) (hist (step fun _ => some [112]) (start fun _ _ => 0) slowRedis)
      (run (step fun _ => some [112]) (start fun _ _ => 0) slowRedis) (.loop Mem.zero) := by
  intro h
  have hpc : (run (step fun _ => some [112]) (start fun _ _ => 0) slowRedis).pc
      = .processTaskRes ⟨0, .responseLogin, [0, 0]⟩ := by
    decide +kernel
  have hheld : (ledger (fun _ => some [112])
      (hist (step fun _ => some [112]) (start fun _ _ => 0) slowRedis)).held
      = some (⟨0, .responseLogin, [0, 0]⟩, List.replicate 71 1) := by
    decide +kernel
  have hconn : (ledger (fun _ => some [112])
      (hist (step fun _ => some [112]) (start fun _ _ => 0) slowRedis)).conn 0 = 2 := by
    decide +kernel
  have h0 : ((run (step fun _ => some [112]) (start fun _ _ => 0)
      slowRedis).chat.users.pool 0).domainState = .none := by
    decide +kernel
  have h1 : ((run (step fun _ => some [112]) (start fun _ _ => 0)
      (slowRedis ++ [.loop Mem.zero])).chat.users.pool 0).domainState = .login := by
    decide +kernel
  rw [run_snoc] at h1
  have hlt : 1 < (ledger (fun _ => some [112])
      (hist (step fun _ => some [112]) (start fun _ _ => 0) slowRedis)).conn 0 := by
    rw [hconn]
    decide
  have hun := h _ _ _ 0 rfl hpc hheld (by decide) 1 (by decide) hlt
  have := hun.domainState
  rw [h0, h1] at this
  cases this

end Server

end Iocp
