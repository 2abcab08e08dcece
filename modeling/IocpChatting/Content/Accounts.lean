import IocpChatting.Content.Membership
import IocpChatting.Content.Logins

/-!
# Accounts

`user_id_map_` says which session an id belongs to.  A success response of Redis makes an entry under
the id that the user has then; `DisconnectHandler` deletes the entry under the id that the user has by
that time.

* `deregistered_run_iff`      exactly when a disconnected session is left without an entry;
* `spares_others_run_iff`     exactly when a disconnect deletes no entry of another session;
* `keeps_identity_run_iff`    exactly when a user who is logged in keeps its id, state and room
                              until it moves itself.
-/

set_option linter.unusedSectionVars false
set_option autoImplicit false

namespace Iocp
open Runs
open UserManager (getUserByIndex)

namespace Chat

/-- `user_id_map_` has an entry that maps `v` to `p` -/
def Registered (c : Chat) (v : CStr) (p : Session) : Prop := c.users.userIdMap v = some ((p : Nat) : Int)

theorem registered_iff {c : Chat} {v : CStr} {p : Session} :
    c.Registered v p ↔ c.roster.owner v = some p := by
  show _ ↔ (c.users.userIdMap v).bind getUserByIndex = some p
  unfold Registered
  cases c.users.userIdMap v with
  | none => simp
  | some k => rw [Option.bind_some, getUserByIndex_eq_some, Option.some.injEq]

theorem not_registered_iff {c : Chat} {p : Session} :
    (∀ v, ¬ c.Registered v p) ↔ c.roster.Unregistered p :=
  forall_congr' fun _ => not_congr registered_iff

end Chat

namespace Server

theorem accept_deed_iff {k : Call} {c : Chat} {p : Session} (hp : k.session = some p) :
    k.deed c = .accept p ↔
      k.handler = .loginDBRes ∧ readResult (k.data c) = ErrorCode.none.val := by
  constructor
  · intro hd
    have h := does_deed k c
    rw [hd] at h
    exact h.2
  · rintro ⟨hd, hr⟩
    unfold Call.session at hp
    unfold Call.data at hr
    unfold Call.deed Handler.deed Call.data
    rw [hp, hd]
    exact if_pos hr

/-! ## the entries of a disconnected session -/

/-- when `DisconnectHandler` runs, every entry of `i` is under the id that `i` has now; afterwards no
success response gives `i` a new entry -/
structure Deregisters (i : Session) (h : History) (s : Server) (a : Action) : Prop where
  atDisconnect : ∀ k, s.call a = some k → k.handler = .disconnect → k.session = some i →
    ∀ v, s.chat.Registered v i → v = (s.chat.users.pool i).userId
  after : gone i h = true → ∀ k, s.call a = some k → k.handler = .loginDBRes →
    k.session = some i → readResult (k.data s.chat) = ErrorCode.none.val →
    s.chat.users.userIdMap (s.chat.users.pool i).userId ≠ none

section
variable (redisGet : CStr → Option (List UInt8))

theorem deregistered_step {i : Session} {h : History} {s : Server} (a : Action) (hs : s.Sound)
    (hI : gone i h = true → s.chat.roster.Unregistered i) :
    (gone i (h ++ [(s, a)]) = true → (step redisGet s a).chat.roster.Unregistered i)
      ↔ Deregisters i h s a := by
  rw [gone_snoc, roster_step redisGet hs.fixed a]
  unfold goneStep Server.deed
  cases hk : s.call a with
  | none =>
    refine ⟨fun _ => ⟨fun k e => ?_, fun _ k e => ?_⟩, fun _ => hI⟩
    · rw [hk] at e; cases e
    · rw [hk] at e; cases e
  | some k =>
    have hsame : ∀ {k'}, s.call a = some k' → k' = k := fun e => Option.some.inj (e.symm.trans hk)
    simp only
    by_cases hsess : k.session = some i
    · rw [if_pos hsess]
      -- outside `DisconnectHandler` and `ConnectHandler` a new entry is the only danger
      have hother : (gone i h = true → (s.chat.roster.apply (k.deed s.chat)).Unregistered i) ↔
          (gone i h = true → k.handler = .loginDBRes →
            readResult (k.data s.chat) = ErrorCode.none.val →
            s.chat.users.userIdMap (s.chat.users.pool i).userId ≠ none) := by
        refine forall_congr' fun hg => ?_
        rw [Roster.unregistered_apply_iff (hI hg), accept_deed_iff hsess, and_imp]
        exact forall_congr' fun _ => forall_congr' fun _ =>
          not_congr (Chat.owner_eq_none hs.fixed _)
      cases hd : k.handler with
      | disconnect =>
        obtain ⟨left, e⟩ := disconnect_deed hs.placed hd hsess
        simp only [e, forall_true_left]
        rw [Roster.unregistered_disconnect_iff]
        constructor
        · intro hv
          refine ⟨fun k' e' _ _ v hr => hv v (Chat.registered_iff.mp hr), fun _ k' e' hd' => ?_⟩
          obtain rfl := hsame e'
          rw [hd] at hd'
          cases hd'
        · intro hc v ho
          exact hc.atDisconnect k hk hd hsess v (Chat.registered_iff.mpr ho)
      | connect =>
        refine ⟨fun _ => ⟨fun k' e hd' => ?_, fun _ k' e hd' => ?_⟩, fun _ hg => by cases hg⟩
        · obtain rfl := hsame e
          rw [hd] at hd'
          cases hd'
        · obtain rfl := hsame e
          rw [hd] at hd'
          cases hd'
      | _ =>
        rw [hd] at hother
        simp only
        rw [hother]
        constructor
        · intro hc
          refine ⟨fun k' e hd' => ?_, fun hg k' e hd' _ => ?_⟩
          · obtain rfl := hsame e
            rw [hd] at hd'
            cases hd'
          · obtain rfl := hsame e
            rw [hd] at hd'
            exact hc hg hd'
        · intro hc hg hd' hr
          exact hc.after hg k hk (hd.trans hd') hsess hr
    · -- a call for somebody else registers somebody else
      rw [if_neg hsess]
      constructor
      · intro _
        refine ⟨fun k' e _ hse => ?_, fun _ k' e _ hse => ?_⟩
        · obtain rfl := hsame e
          exact absurd hse hsess
        · obtain rfl := hsame e
          exact absurd hse hsess
      · intro _ hg
        refine (Roster.unregistered_apply_iff (hI hg)).mpr fun e => ?_
        have hdo := does_deed k s.chat
        rw [e] at hdo
        exact absurd hdo.1 hsess

/-- **A disconnected session has no entry in `user_id_map_` exactly if every step of the run meets
`Deregisters`.** -/
theorem deregistered_run_iff (heap : Session → Fin kDefaultRingBufferSize → UInt8) (i : Session)
    (as : List Action) :
    (∀ bs cs, as = bs ++ cs → gone i (hist (step redisGet) (start heap) bs) = true →
        ∀ v, ¬ (run (step redisGet) (start heap) bs).chat.Registered v i)
      ↔ ∀ bs a cs, as = bs ++ a :: cs →
          Deregisters i (hist (step redisGet) (start heap) bs)
            (run (step redisGet) (start heap) bs) a := by
  have h := @hist_keeps_iff _ _ (step redisGet)
    (fun h s => gone i h = true → s.chat.roster.Unregistered i) (fun _ _ _ => True) (Deregisters i)
    (start heap) (fun h => by cases h)
    (fun bs a hI => by
      rw [true_and]
      exact deregistered_step redisGet a (run_sound redisGet heap bs) hI) as
  simp only [implies_true, and_true] at h
  simp only [Chat.not_registered_iff]
  exact h

end

/-- user 0 logs in as "a", asks to log in as "b" and disconnects -/
def renamedAndGone : List Action := loginAgain ++ [.onDisconnect 0] ++ Action.loops 4

/-- the entry of "a" stays -/
theorem entry_outlives_disconnect :
    ¬ ∀ bs cs, renamedAndGone = bs ++ cs →
      gone 0 (hist (step onlyA) (start fun _ _ => 0) bs) = true →
      ∀ v, ¬ (run (step onlyA) (start fun _ _ => 0) bs).chat.Registered v 0 := by
  intro h
  have hgone : gone 0 (hist (step onlyA) (start fun _ _ => 0) renamedAndGone) = true := by
    decide +kernel
  refine h renamedAndGone [] (List.append_nil _).symm hgone (CStr.ofBytes [97]) ?_
  show (run (step onlyA) (start fun _ _ => 0) renamedAndGone).chat.users.userIdMap _ = _
  decide +kernel

/-! ## the entries of the others -/

/-- `DisconnectHandler` for a session deletes no entry of another one -/
def SparesOthers (redisGet : CStr → Option (List UInt8)) (s : Server) (a : Action) : Prop :=
  ∀ k i, s.call a = some k → k.handler = .disconnect → k.session = some i →
    ∀ v j, j ≠ i → s.chat.Registered v j → (step redisGet s a).chat.Registered v j

/-- when `DisconnectHandler` runs for a session, no other one is registered under the id that the
session has then -/
def OwnEntry (s : Server) (a : Action) : Prop :=
  ∀ k i, s.call a = some k → k.handler = .disconnect → k.session = some i →
    ∀ j, j ≠ i → ¬ s.chat.Registered (s.chat.users.pool i).userId j

section
variable (redisGet : CStr → Option (List UInt8))

theorem spares_others_step {s : Server} {a : Action} (hs : s.Sound) :
    SparesOthers redisGet s a ↔ OwnEntry s a := by
  refine forall_congr' fun k => forall_congr' fun i => forall_congr' fun hk => forall_congr' fun hd =>
    forall_congr' fun hsess => ?_
  obtain ⟨left, e⟩ := disconnect_deed hs.placed hd hsess
  have hr := roster_step redisGet hs.fixed a
  rw [show s.deed a = .disconnect i left by rw [Server.deed, hk]; exact e] at hr
  simp only [Chat.registered_iff, hr]
  exact Roster.disconnect_spares_iff

/-- **No disconnect of a run deletes an entry of another session exactly if every session that
disconnects has an id under which no other one is registered.** -/
theorem spares_others_run_iff (heap : Session → Fin kDefaultRingBufferSize → UInt8)
    (as : List Action) :
    (∀ x ∈ hist (step redisGet) (start heap) as, SparesOthers redisGet x.1 x.2)
      ↔ ∀ x ∈ hist (step redisGet) (start heap) as, OwnEntry x.1 x.2 :=
  forall_congr' fun x => forall_congr' fun hx =>
    spares_others_step redisGet (hist_sound redisGet heap as x hx)

end

/-- users 1 and 0 ask to log in as "a", Redis has answered user 1 only, and user 0 disconnects -/
def claimedAndGone : List Action :=
  [.onConnect 0, .onConnect 1] ++ Action.loops 8
    ++ Action.receive 1 (loginPacket [97] [112]) ++ Action.receive 0 (loginPacket [97] [112])
    ++ Action.loops 10 ++ Action.redis ++ Action.loops 4 ++ [.onDisconnect 0] ++ Action.loops 2

/-- the entry of user 1 goes with user 0, whom Redis has never accepted -/
theorem claimant_deletes_entry :
    ¬ ∀ x ∈ hist (step onlyA) (start fun _ _ => 0) (claimedAndGone ++ [.loop Mem.zero]),
      SparesOthers onlyA x.1 x.2 := by
  intro h
  have hlast : (run (step onlyA) (start fun _ _ => 0) claimedAndGone, .loop Mem.zero)
      ∈ hist (step onlyA) (start fun _ _ => 0) (claimedAndGone ++ [.loop Mem.zero]) := by
    rw [hist_snoc]
    exact List.mem_append_right _ (List.mem_singleton.mpr rfl)
  have hpc : (run (step onlyA) (start fun _ _ => 0) claimedAndGone).pc
      = .processSystemPacket (systemPacket 0 .sysUserDisconnect) := by
    decide +kernel
  have hown : (run (step onlyA) (start fun _ _ => 0) claimedAndGone).chat.users.userIdMap
      (CStr.ofBytes [97]) = some 1 := by
    decide +kernel
  have hnone : (step onlyA (run (step onlyA) (start fun _ _ => 0) claimedAndGone)
      (.loop Mem.zero)).chat.users.userIdMap (CStr.ofBytes [97]) = none := by
    decide +kernel
  have hspares := h (_, _) hlast
  generalize run (step onlyA) (start fun _ _ => 0) claimedAndGone = s at hspares hpc hown hnone
  have hcall : s.call (.loop Mem.zero)
      = some ⟨.system, systemPacket 0 .sysUserDisconnect, .disconnect, Mem.zero⟩ := by
    simp only [call, hpc]
    rfl
  have hreg := hspares _ 0 hcall rfl (getUserByIndex_int32 0) _ 1 (by decide) hown
  exact absurd (hreg.symm.trans hnone) (by simp)

/-! ## identity and place -/

/-- the handlers that may change a logged-in user -/
def Moves (hd : Handler) : Prop :=
  hd = .enterRoom ∨ hd = .leaveRoom ∨ hd = .disconnect ∨ hd = .connect

/-- a logged-in user keeps `user_id_`, `domain_state_` and `room_idx_` in every step but its own room
enter, room leave, disconnect and connect -/
def KeepsPlace (redisGet : CStr → Option (List UInt8)) (s : Server) (a : Action) : Prop :=
  ∀ i, (s.chat.users.pool i).LoggedIn →
    (∀ k, s.call a = some k → k.session = some i → ¬ Moves k.handler) →
    ((step redisGet s a).chat.users.pool i).userId = (s.chat.users.pool i).userId ∧
      ((step redisGet s a).chat.users.pool i).domainState = (s.chat.users.pool i).domainState ∧
      ((step redisGet s a).chat.users.pool i).roomIdx = (s.chat.users.pool i).roomIdx

section
variable (redisGet : CStr → Option (List UInt8))

/-- the fields that the roster shows -/
theorem roster_fields {s : Server} (hs : s.Sound) (a : Action) (i : Session) :
    ((step redisGet s a).chat.users.pool i).userId = (s.chat.roster.apply (s.deed a)).id i ∧
      ((step redisGet s a).chat.users.pool i).domainState
        = (s.chat.roster.apply (s.deed a)).state i := by
  rw [← roster_step redisGet hs.fixed a]
  exact ⟨rfl, rfl⟩

theorem roomIdx_kept {s : Server} {a : Action} {i : Session}
    (h : ∀ k, s.call a = some k → k.session = some i → ¬ Moves k.handler) :
    ((step redisGet s a).chat.users.pool i).roomIdx = (s.chat.users.pool i).roomIdx := by
  cases hk : s.call a with
  | none =>
    obtain ⟨buf, e⟩ := (step_quiet redisGet hk).user i
    rw [e]
  | some k =>
    rw [step_call redisGet hk]
    show (k.run s.chat).places i = s.chat.places i
    refine Chat.run_places fun hsess => ?_
    have hm := h k hk hsess
    exact ⟨fun e => hm (.inr (.inr (.inr e))), fun e => hm (.inl e)⟩

/-- the deed of a call that moves nobody, for a session that it may concern -/
theorem keeps_of_calm {s : Server} {a : Action} {i : Session} (hc : s.chat.roster.KeepsIdentity (s.deed a))
    (hl : s.chat.roster.LoggedIn i)
    (h : ∀ k, s.call a = some k → k.session = some i → ¬ Moves k.handler) :
    (s.chat.roster.apply (s.deed a)).state i = s.chat.roster.state i ∧
      (s.chat.roster.apply (s.deed a)).id i = s.chat.roster.id i := by
  unfold Server.deed at hc ⊢
  cases hk : s.call a with
  | none => exact ⟨rfl, rfl⟩
  | some k =>
    rw [hk] at hc
    simp only at hc ⊢
    by_cases hwho : (k.deed s.chat).who = some i
    · have hdo := does_deed k s.chat
      have hm := h k hk
      generalize k.deed s.chat = d at hc hwho hdo
      cases d with
      | idle => cases hwho
      | clear p | disconnect p _ | enter p _ | leave p _ =>
        obtain rfl := Option.some.inj hwho
        exact absurd (by simp [Moves, hdo.2]) (hm hdo.1)
      | request p v =>
        obtain rfl := Option.some.inj hwho
        exact Roster.request_keeps_iff.mpr hc hl
      | accept p =>
        obtain rfl := Option.some.inj hwho
        exact Roster.accept_keeps_iff.mpr hc hl
      | reject p =>
        obtain rfl := Option.some.inj hwho
        exact Roster.reject_keeps_iff.mpr hc hl
      | chat p r => exact ⟨rfl, rfl⟩
    · exact Roster.apply_other hwho

theorem keeps_place_step {s : Server} {a : Action} (hs : s.Sound) :
    KeepsPlace redisGet s a ↔ s.chat.roster.KeepsIdentity (s.deed a) := by
  constructor
  · intro h
    -- a login deed is done by a call that moves nobody, so `h` applies to its doer
    have hown : ∀ p, (s.deed a).who = some p →
        (∀ k, s.call a = some k → k.session = some p → ¬ Moves k.handler) →
        s.chat.roster.LoggedIn p →
        (s.chat.roster.apply (s.deed a)).state p = s.chat.roster.state p ∧
          (s.chat.roster.apply (s.deed a)).id p = s.chat.roster.id p := by
      intro p _ hcalm hl
      obtain ⟨hid, hst, _⟩ := h p hl hcalm
      obtain ⟨eid, est⟩ := roster_fields redisGet hs a p
      exact ⟨est.symm.trans hst, eid.symm.trans hid⟩
    unfold Server.deed at hown ⊢
    cases hk : s.call a with
    | none => trivial
    | some k =>
      rw [hk] at hown
      simp only at hown ⊢
      have hdo := does_deed k s.chat
      generalize k.deed s.chat = d at hown hdo
      cases d with
      | request p v =>
        refine Roster.request_keeps_iff.mp (hown p rfl fun k' e _ => ?_)
        cases e
        simp [Moves, hdo.2.1]
      | accept p =>
        refine Roster.accept_keeps_iff.mp (hown p rfl fun k' e _ => ?_)
        cases e
        simp [Moves, hdo.2.1]
      | reject p =>
        refine Roster.reject_keeps_iff.mp (hown p rfl fun k' e _ => ?_)
        cases e
        simp [Moves, hdo.2.1]
      | _ => trivial
  · intro hc i hl hcalm
    obtain ⟨hst, hid⟩ := keeps_of_calm hc hl hcalm
    obtain ⟨eid, est⟩ := roster_fields redisGet hs a i
    exact ⟨eid.trans hid, est.trans hst, roomIdx_kept redisGet hcalm⟩

/-- **In every step of a run each logged-in user keeps its identity and its place exactly if the
login requests and responses are about users who are not logged in, or say nothing new.** -/
theorem keeps_identity_run_iff (heap : Session → Fin kDefaultRingBufferSize → UInt8)
    (as : List Action) :
    (∀ x ∈ hist (step redisGet) (start heap) as, KeepsPlace redisGet x.1 x.2)
      ↔ ∀ x ∈ hist (step redisGet) (start heap) as,
          x.1.chat.roster.KeepsIdentity (x.1.deed x.2) :=
  forall_congr' fun x => forall_congr' fun hx =>
    keeps_place_step redisGet (hist_sound redisGet heap as x hx)

end

/-- user 0, in room 0, asks to log in as "b" -/
def loginInRoom : List Action :=
  Action.enterLobby 0 [97] [112] ++ Action.receive 0 (roomEnterPacket 0) ++ Action.loops 5
    ++ Action.receive 0 (loginPacket [98] [112]) ++ Action.loops 1

/-- the member of the room has another id from then on -/
theorem member_renamed :
    ¬ ∀ x ∈ hist (step onlyA) (start fun _ _ => 0) (loginInRoom ++ [.loop Mem.zero]),
      KeepsPlace onlyA x.1 x.2 := by
  intro h
  have hlast : (run (step onlyA) (start fun _ _ => 0) loginInRoom, .loop Mem.zero)
      ∈ hist (step onlyA) (start fun _ _ => 0) (loginInRoom ++ [.loop Mem.zero]) := by
    rw [hist_snoc]
    exact List.mem_append_right _ (List.mem_singleton.mpr rfl)
  have hroom : ((run (step onlyA) (start fun _ _ => 0) loginInRoom).chat.users.pool 0).domainState
      = .room := by
    decide +kernel
  have hcall : ((run (step onlyA) (start fun _ _ => 0) loginInRoom).call (.loop Mem.zero)).map
      Call.handler = some .login := by
    decide +kernel
  have hid : ((step onlyA (run (step onlyA) (start fun _ _ => 0) loginInRoom)
        (.loop Mem.zero)).chat.users.pool 0).userId
      ≠ ((run (step onlyA) (start fun _ _ => 0) loginInRoom).chat.users.pool 0).userId := by
    decide +kernel
  have hkeeps := h (_, _) hlast
  generalize run (step onlyA) (start fun _ _ => 0) loginInRoom = s at hkeeps hroom hcall hid
  refine hid (hkeeps 0 (.inr hroom) fun k hk _ => ?_).1
  rw [hk] at hcall
  rw [show k.handler = .login from Option.some.inj hcall]
  simp [Moves]

end Server

end Iocp
