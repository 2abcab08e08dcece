import IocpChatting.Content.Steps

/-!
# Room membership

Membership is stored twice: in `user_list_` of the rooms and in `domain_state_` and `room_idx_` of the
users.

* `MembershipAgrees`       the two say the same;
* `membership_run_iff`     a run keeps them together exactly if every step of it does a deed that
                           changes both alike;
* `inert_run_iff`          exactly when a disconnected session stays out of the rooms and is noticed
                           by nobody.
-/

set_option linter.unusedSectionVars false
set_option autoImplicit false

namespace Iocp
open Runs
open UserManager (getUserByIndex)

/-! ## the two records -/

namespace Chat

/-- `p` is in `user_list_` of `r`, once, if and only if its fields say that it is in `r` -/
def MembershipAgrees (c : Chat) : Prop :=
  ∀ (p : Session) (r : RoomPtr),
    (p ∈ (c.roomList r).userList ↔
      (c.users.pool p).domainState = .room ∧ (c.users.pool p).roomIdx = (r : Nat)) ∧
    (c.roomList r).userList.count p ≤ 1

theorem getRoomByIdx_eq_some {k : Int} {r : RoomPtr} : getRoomByIdx k = some r ↔ k = (r : Nat) := by
  constructor
  · intro h
    unfold getRoomByIdx at h
    split at h
    · cases h
    · next hk =>
      have e := congrArg Fin.val (Option.some.inj h)
      simp only at e
      omega
  · rintro rfl
    exact getRoomByIdx_room r

theorem membershipAgrees_iff (c : Chat) : c.MembershipAgrees ↔ c.roster.Agree := by
  unfold MembershipAgrees Roster.Agree
  refine forall_congr' fun p => forall_congr' fun r => and_congr_left fun _ => ?_
  show (_ ↔ _ ∧ _) ↔ (_ ↔ _ ∧ getRoomByIdx _ = some r)
  rw [getRoomByIdx_eq_some]
  rfl

theorem MembershipAgrees.room_unique {c : Chat} (h : c.MembershipAgrees) {p : Session}
    {r r' : RoomPtr} (hr : p ∈ (c.roomList r).userList) (hr' : p ∈ (c.roomList r').userList) :
    r = r' := by
  have e := ((h p r).1.mp hr).2
  have e' := ((h p r').1.mp hr').2
  exact Fin.ext (by omega)

end Chat

namespace Server

section
variable (redisGet : CStr → Option (List UInt8))
  (heap : Session → Fin kDefaultRingBufferSize → UInt8)

/-- **A run keeps the two records together exactly if each of its steps changes them alike.** -/
theorem membership_run_iff (as : List Action) :
    ((∀ x ∈ hist (step redisGet) (start heap) as, x.1.chat.MembershipAgrees) ∧
        (run (step redisGet) (start heap) as).chat.MembershipAgrees)
      ↔ ∀ x ∈ hist (step redisGet) (start heap) as, x.1.chat.roster.KeepsAgree (x.1.deed x.2) := by
  simp only [Chat.membershipAgrees_iff]
  have h0 : (start heap).chat.roster.Agree := by
    intro p r
    exact ⟨⟨fun h => (by cases h), fun h => (by cases h.1)⟩, Nat.zero_le 1⟩
  refine run_keeps_iff (step redisGet) (I := fun s => s.chat.roster.Agree)
    (F := fun s _ => s.Sound) (C := fun s a => s.chat.roster.KeepsAgree (s.deed a))
    (fun s a hs h => ?_) h0 as (hist_sound redisGet heap as)
  rw [roster_step redisGet hs.fixed]
  exact Roster.agree_apply_iff (step_fits hs.fixed a) hs.placed h

end

/-- user 0 logs in, enters room 0 and disconnects; `packet_buf_` starts as zeros -/
def disconnectInRoom : List Action :=
  Action.enterLobby 0 [97] [112] ++ Action.receive 0 (roomEnterPacket 0) ++ Action.loops 5
    ++ [.onDisconnect 0] ++ Action.loops 4

/-- `DisconnectHandler` takes the user off the list and leaves it in `kROOM` -/
theorem membership_disagrees_after_disconnect :
    ¬ (run (step fun _ => some [112]) (start fun _ _ => 0) disconnectInRoom).chat.MembershipAgrees := by
  intro h
  have hfields : ((run (step fun _ => some [112]) (start fun _ _ => 0)
        disconnectInRoom).chat.users.pool 0).domainState = .room ∧
      ((run (step fun _ => some [112]) (start fun _ _ => 0)
        disconnectInRoom).chat.users.pool 0).roomIdx = ((0 : RoomPtr) : Nat) := by
    decide +kernel
  have hlist : ((run (step fun _ => some [112]) (start fun _ _ => 0)
      disconnectInRoom).chat.roomList 0).userList = [] := by
    decide +kernel
  have hin := (h 0 0).1.mpr hfields
  rw [hlist] at hin
  cases hin

/-! ## a disconnected session -/

/-- `DisconnectHandler` has run for `i`, and since then no `ConnectHandler` -/
def goneStep (i : Session) (b : Bool) (x : Server × Action) : Bool :=
  match x.1.call x.2 with
  | none => b
  | some k =>
    if k.session = some i then
      match k.handler with
      | .disconnect => true
      | .connect => false
      | _ => b
    else b

def gone (i : Session) (h : History) : Bool := h.foldl (goneStep i) false

theorem gone_snoc (i : Session) (h : History) (x : Server × Action) :
    gone i (h ++ [x]) = goneStep i (gone i h) x := by
  rw [gone, List.foldl_append]
  rfl

/-- the packets of `i` that come from its own buffer -/
def userCall (i : Session) (s : Server) (a : Action) (k : Call) : Prop :=
  s.call a = some k ∧ k.source = .user ∧ k.session = some i

section
variable (redisGet : CStr → Option (List UInt8))

/-- a packet of `i` changes no `user_list_` and causes no notify packet to another session -/
def Undisturbed (i : Session) (s : Server) (a : Action) : Prop :=
  ∀ k, userCall i s a k →
    (∀ r, ((step redisGet s a).chat.roomList r).userList = (s.chat.roomList r).userList) ∧
    ∀ j ∈ (Chat.notifies (step redisGet s a).chat.sent).drop (Chat.notifies s.chat.sent).length,
      j = (i : Nat)

end

/-- when the handler runs, `i` is listed at most in the room that its own fields name; afterwards
none of its packets enters a room, or leaves, talks in or disconnects from a room with somebody in
it -/
structure StaysInert (i : Session) (h : History) (s : Server) (a : Action) : Prop where
  atDisconnect : ∀ k, s.call a = some k → k.handler = .disconnect → k.session = some i →
    ∀ r, i ∈ (s.chat.roomList r).userList →
      (s.chat.users.pool i).domainState = .room ∧ (s.chat.users.pool i).roomIdx = (r : Nat)
  after : gone i h = true → ∀ k, userCall i s a k → s.chat.roster.Unnoticed (k.deed s.chat)

/-- a user with a room cannot get lost in `DisconnectHandler` -/
theorem disconnect_deed {k : Call} {c : Chat} {p : Session} (hpl : c.roster.Placed)
    (hk : k.handler = .disconnect) (hp : k.session = some p) :
    ∃ left, k.deed c = .disconnect p left := by
  unfold Call.session at hp
  unfold Call.deed Handler.deed
  rw [hk, hp]
  simp only
  by_cases h : (c.users.pool p).domainState = .room
  · rw [if_pos h]
    obtain ⟨r, hr⟩ := Option.ne_none_iff_exists'.mp (hpl p h)
    rw [show Chat.getRoomByIdx (c.users.pool p).roomIdx = some r from hr]
    exact ⟨some r, rfl⟩
  · rw [if_neg h]
    exact ⟨none, rfl⟩

section
variable (redisGet : CStr → Option (List UInt8))

theorem undisturbed_iff {i : Session} {s : Server} {a : Action} {k : Call} (hs : s.Sound)
    (hk : userCall i s a k) (h : s.chat.roster.Absent i) :
    Undisturbed redisGet i s a ↔ s.chat.roster.Unnoticed (k.deed s.chat) := by
  have hd : s.deed a = k.deed s.chat := by
    unfold Server.deed
    rw [hk.1]
  have hr := roster_step redisGet hs.fixed a
  have hm : ∀ r, ((step redisGet s a).chat.roomList r).userList
      = (s.chat.roster.apply (k.deed s.chat)).members r := by
    intro r
    rw [← hd, ← hr]
    rfl
  have hn : (Chat.notifies (step redisGet s a).chat.sent).drop (Chat.notifies s.chat.sent).length
      = (s.chat.roster.notified (k.deed s.chat)).map Fin.val := by
    rw [step_call redisGet hk.1]
    show (Chat.notifies (k.run s.chat).sent).drop _ = _
    rw [show Chat.notifies (k.run s.chat).sent = _ from Chat.run_notifies k.handler hs.fixed,
      List.drop_left]
    rfl
  have hwho : (k.deed s.chat).who = some i ∨ k.deed s.chat = .idle := by
    rw [← hk.2.2]
    exact deed_who k s.chat
  rw [← Roster.unnoticed_iff h hwho]
  unfold Undisturbed
  rw [hn]
  simp only [hm]
  constructor
  · intro hu
    obtain ⟨h1, h2⟩ := hu k hk
    refine ⟨funext h1, fun q hq => Fin.ext (h2 q (List.mem_map_of_mem hq))⟩
  · rintro ⟨h1, h2⟩ k' hk'
    refine ⟨fun r => by rw [h1]; rfl, fun j hj => ?_⟩
    obtain ⟨q, hq, rfl⟩ := List.mem_map.mp hj
    rw [h2 q hq]

/-- a packet of somebody else, or of `i` but not from its buffer, lets `i` into no room -/
theorem absent_other {i : Session} {s : Server} {a : Action} {k : Call} (hs : s.Sound)
    (hk : s.call a = some k) (hu : ¬ userCall i s a k) (h : s.chat.roster.Absent i) :
    (s.chat.roster.apply (k.deed s.chat)).Absent i := by
  refine Roster.absent_apply h fun r he => hu ?_
  have hdo := does_deed k s.chat
  rw [he] at hdo
  obtain ⟨hsess, hd⟩ := hdo
  refine ⟨hk, ?_, hsess⟩
  cases hsrc : k.source with
  | user => rfl
  | system =>
    rcases system_handler hs hk hsrc with e | e
    · rw [e] at hd; cases hd
    · rw [e] at hd; cases hd
  | redis =>
    rw [(redis_handler hs hk hsrc).1] at hd
    cases hd

/-- in the window of a disconnected session only its own entering could bring it back -/
theorem absent_kept {i : Session} {s : Server} {a : Action} {k : Call} (hs : s.Sound)
    (hk : s.call a = some k) (h : s.chat.roster.Absent i)
    (hun : userCall i s a k → s.chat.roster.Unnoticed (k.deed s.chat)) :
    (s.chat.roster.apply (k.deed s.chat)).Absent i := by
  by_cases hu : userCall i s a k
  · refine Roster.absent_apply h fun r e => ?_
    have := hun hu
    rw [e] at this
    exact this
  · exact absent_other hs hk hu h

theorem disconnect_absent_iff {i : Session} {s : Server} {a : Action} {k : Call} (hs : s.Sound)
    (hk : s.call a = some k) (hsess : k.session = some i) :
    (k.handler = .disconnect → ∀ r, i ∈ (s.chat.roomList r).userList →
        (s.chat.users.pool i).domainState = .room ∧ (s.chat.users.pool i).roomIdx = (r : Nat))
      ↔ (k.handler = .disconnect → (s.chat.roster.apply (k.deed s.chat)).Absent i) := by
  refine forall_congr' fun hd => ?_
  obtain ⟨left, e⟩ := disconnect_deed hs.placed hd hsess
  have hf := step_fits hs.fixed a
  unfold Server.deed at hf
  simp only [hk] at hf
  rw [e] at hf ⊢
  rw [Roster.absent_disconnect_iff hf]
  refine forall_congr' fun r => forall_congr' fun _ => and_congr_right fun _ => ?_
  exact Chat.getRoomByIdx_eq_some.symm

theorem inert_step {i : Session} {h : History} {s : Server} (a : Action) (hs : s.Sound)
    (hI : gone i h = true → s.chat.roster.Absent i) :
    ((gone i h = true → Undisturbed redisGet i s a) ∧
        (gone i (h ++ [(s, a)]) = true → (step redisGet s a).chat.roster.Absent i))
      ↔ StaysInert i h s a := by
  have hr := roster_step redisGet hs.fixed a
  rw [gone_snoc, hr]
  unfold goneStep Server.deed
  cases hk : s.call a with
  | none =>
    refine ⟨fun _ => ⟨fun k e => ?_, fun _ k e => ?_⟩, fun _ => ⟨fun _ k e => ?_, hI⟩⟩
    · rw [hk] at e; cases e
    · rw [e.1] at hk; cases hk
    · rw [e.1] at hk; cases hk
  | some k =>
    simp only
    by_cases hsess : k.session = some i
    · -- a call for `i`: `DisconnectHandler` opens the window, its own packets act in it
      rw [if_pos hsess]
      have hafter : (gone i h = true → Undisturbed redisGet i s a) ↔
          (gone i h = true → ∀ k, userCall i s a k → s.chat.roster.Unnoticed (k.deed s.chat)) := by
        refine forall_congr' fun hg => ⟨fun hu k' hk' => ?_, fun hc k' hk' => ?_⟩
        · exact (undisturbed_iff redisGet hs hk' (hI hg)).mp hu
        · exact (undisturbed_iff redisGet hs hk' (hI hg)).mpr (hc k' hk') k' hk'
      have hat : (∀ k', s.call a = some k' → k'.handler = .disconnect → k'.session = some i →
            ∀ r, i ∈ (s.chat.roomList r).userList →
              (s.chat.users.pool i).domainState = .room ∧
                (s.chat.users.pool i).roomIdx = (r : Nat)) ↔
          (k.handler = .disconnect → (s.chat.roster.apply (k.deed s.chat)).Absent i) := by
        rw [← disconnect_absent_iff hs hk hsess]
        refine ⟨fun h hd => h k hk hd hsess, fun h k' e hd _ => ?_⟩
        rw [hk] at e
        cases e
        exact h hd
      constructor
      · rintro ⟨hu, hab⟩
        exact ⟨hat.mpr fun hd => hab (by rw [hd]), hafter.mp hu⟩
      · rintro ⟨hdis, hun⟩
        refine ⟨hafter.mpr hun, fun hg => ?_⟩
        cases hd : k.handler with
        | disconnect => exact hat.mp hdis hd
        | connect => rw [hd] at hg; cases hg
        | _ =>
          rw [hd] at hg
          exact absent_kept hs hk (hI hg) (hun hg k)
    · -- a call for somebody else moves `i` nowhere
      rw [if_neg hsess]
      have hno : ∀ k', ¬ userCall i s a k' := by
        intro k' hk'
        have e := hk'.1
        rw [hk] at e
        cases e
        exact hsess hk'.2.2
      refine ⟨fun _ => ⟨fun k' e hd hse => ?_, fun _ k' e => absurd e (hno k')⟩,
        fun _ => ⟨fun _ k' e => absurd e (hno k'), fun hg => absent_other hs hk (hno k) (hI hg)⟩⟩
      rw [hk] at e
      cases e
      exact absurd hse hsess

/-- **A disconnected session is inert exactly if every step of the run meets `StaysInert`.** -/
theorem inert_run_iff (heap : Session → Fin kDefaultRingBufferSize → UInt8) (i : Session)
    (as : List Action) :
    ((∀ bs cs, as = bs ++ cs → gone i (hist (step redisGet) (start heap) bs) = true →
          ∀ r, i ∉ ((run (step redisGet) (start heap) bs).chat.roomList r).userList) ∧
        ∀ bs a cs, as = bs ++ a :: cs → gone i (hist (step redisGet) (start heap) bs) = true →
          Undisturbed redisGet i (run (step redisGet) (start heap) bs) a)
      ↔ ∀ bs a cs, as = bs ++ a :: cs →
          StaysInert i (hist (step redisGet) (start heap) bs) (run (step redisGet) (start heap) bs) a :=
  hist_keeps_iff (step redisGet) (I := fun h s => gone i h = true → s.chat.roster.Absent i)
    (P := fun h s a => gone i h = true → Undisturbed redisGet i s a) (C := StaysInert i)
    (fun h => by cases h) (fun bs a hI => inert_step redisGet a (run_sound redisGet heap bs) hI) as

end

/-- user 0 in the lobby asks for room 0 and disconnects; the loop, which has just found the user
queue empty, gets to the disconnect first -/
def enterAfterDisconnect : List Action :=
  Action.enterLobby 0 [97] [112] ++ Action.loops 1
    ++ Action.receive 0 (roomEnterPacket 0) ++ [.onDisconnect 0] ++ Action.loops 6

/-- the session is gone and its last packet takes it into room 0 -/
theorem disconnected_session_enters :
    ¬ ∀ bs cs, enterAfterDisconnect = bs ++ cs →
      gone 0 (hist (step fun _ => some [112]) (start fun _ _ => 0) bs) = true →
      ∀ r, 0 ∉ ((run (step fun _ => some [112]) (start fun _ _ => 0) bs).chat.roomList r).userList := by
  intro h
  have hgone : gone 0 (hist (step fun _ => some [112]) (start fun _ _ => 0)
      enterAfterDisconnect) = true := by
    decide +kernel
  have hlist : ((run (step fun _ => some [112]) (start fun _ _ => 0)
      enterAfterDisconnect).chat.roomList 0).userList = [0] := by
    decide +kernel
  refine h enterAfterDisconnect [] (List.append_nil _).symm hgone 0 ?_
  rw [hlist]
  exact List.mem_singleton.mpr rfl

end Server

end Iocp
