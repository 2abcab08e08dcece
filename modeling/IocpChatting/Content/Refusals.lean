import IocpChatting.Content.Deliveries

/-!
# Requests that are refused

A handler that answers with a code other than `kNONE` has looked things up and changed nothing.

* `Refused`               what the call leaves: the state as it was, and one more packet;
* `refusal_is_a_reply`    so it is for each of the four requests, whatever the reason.
-/

set_option linter.unusedSectionVars false
set_option autoImplicit false

namespace Iocp
open Runs
open UserManager (getUserByIndex)

namespace Chat

variable {c : Chat} {mem : Mem} {i : Nat} {data : Nat → UInt8} {result : Nat}

/-- from `c` to `c'` a request of `i` for `hd` has been answered with `result`, and that is all -/
structure Refused (c c' : Chat) (mem : Mem) (i : Nat) (hd : Handler) (result : Nat) : Prop where
  users : c'.users = c.users
  roomList : c'.roomList = c.roomList
  taskReqQueue : c'.taskReqQueue = c.taskReqQueue
  sent : ∃ id body, hd.response result = some (id, body) ∧
    c'.sent = c.sent ++ [⟨i, reply mem id body⟩]

/-- a reply with the body of the answer is the answer -/
theorem Refused.of_reply {c' : Chat} {hd : Handler} {id : PacketId} {body : Nat → Body} {code : ErrorCode}
    {x : Sent} (hid : hd.response result = some (id, body result))
    (he : c' = c.send i (reply mem id (body code.val)))
    (hx : x ∈ [(⟨i, reply mem id (body code.val)⟩ : Sent)])
    (hb : (hd.response result).map Prod.snd = some x.pkt.body) : c.Refused c' mem i hd result := by
  have hbody : body result = body code.val := by
    rw [hid, List.mem_singleton.mp hx] at hb
    exact Option.some.inj hb
  subst he
  refine ⟨rfl, rfl, rfl, id, body result, hid, ?_⟩
  rw [hbody]
  rfl

theorem answers_iff (hd : Handler) (hc : c.Fixed) :
    c.Answers (hd.run c mem i data) hd result ↔
      ∃ x ∈ hd.sends c mem i data, (hd.response result).map Prod.snd = some x.pkt.body := by
  unfold Answers
  rw [news_run hd hc]

/-! ## the four requests -/

theorem login_refused (hc : c.Fixed)
    (h : c.Answers (Handler.login.run c mem i data) .login result) :
    c.Refused (Handler.login.run c mem i data) mem i .login result := by
  obtain ⟨x, hx, hb⟩ := (answers_iff _ hc).mp h
  unfold Handler.sends at hx
  simp only at hx
  by_cases hfull : c.users.getCurrentUserCnt ≥ c.users.getMaxUserCnt
  · rw [if_pos hfull] at hx
    refine Refused.of_reply rfl ?_ hx hb
    show c.loginHandler mem i data = _
    unfold loginHandler
    simp only [if_pos hfull]
  · rw [if_neg hfull] at hx
    by_cases hfree : c.users.findUserIndexByID (loginId mem data) = -1
    · rw [if_pos hfree] at hx
      cases hx
    · rw [if_neg hfree] at hx
      refine Refused.of_reply rfl ?_ hx hb
      show c.loginHandler mem i data = _
      unfold loginHandler
      simp only [if_neg hfull, if_neg hfree]

theorem enterRoom_refused (hc : c.Fixed) (hr : result ≠ ErrorCode.none.val)
    (h : c.Answers (Handler.enterRoom.run c mem i data) .enterRoom result) :
    c.Refused (Handler.enterRoom.run c mem i data) mem i .enterRoom result := by
  obtain ⟨x, hx, hb⟩ := (answers_iff _ hc).mp h
  have hrun : Handler.enterRoom.run c mem i data = c.enterRoomHandler mem i data := rfl
  unfold Handler.sends at hx
  unfold enterRoomHandler at hrun
  rw [hrun]
  cases hp : getUserByIndex (int32 i) with
  | none =>
    rw [hp] at hx
    cases hx
  | some p =>
    rw [hp] at hx
    simp only at hx ⊢
    by_cases hs : (c.users.pool p).domainState ≠ .login
    · rw [if_pos hs] at hx ⊢
      exact Refused.of_reply rfl rfl hx hb
    · rw [if_neg hs] at hx ⊢
      unfold enterRoom
      cases hroom : getRoomByIdx (readRoomNumber data) with
      | none =>
        rw [hroom] at hx
        exact Refused.of_reply rfl rfl hx hb
      | some r =>
        rw [hroom] at hx
        simp only at hx ⊢
        by_cases hf : ((c.roomList r).userList.length : Int) ≥ (c.roomList r).maxUserCnt
        · rw [if_pos hf] at hx
          unfold enterUser
          simp only [if_pos hf]
          exact Refused.of_reply rfl rfl hx hb
        · rw [if_neg hf] at hx
          exfalso
          -- the packets of the entry are no responses, and the response is `kNONE`
          rcases List.mem_append.mp hx with hx | hx
          · rcases List.mem_append.mp hx with hx | hx
            · rw [mem_toEach hx] at hb
              cases hb
            · rw [List.mem_singleton.mp hx] at hb
              cases hb
          · rw [List.mem_singleton.mp hx] at hb
            cases hb
            exact hr rfl

theorem leaveRoom_refused (hc : c.Fixed) (hr : result ≠ ErrorCode.none.val)
    (h : c.Answers (Handler.leaveRoom.run c mem i data) .leaveRoom result) :
    c.Refused (Handler.leaveRoom.run c mem i data) mem i .leaveRoom result := by
  obtain ⟨x, hx, hb⟩ := (answers_iff _ hc).mp h
  have hrun : Handler.leaveRoom.run c mem i data = c.leaveRoomHandler mem i := rfl
  unfold Handler.sends at hx
  unfold leaveRoomHandler at hrun
  rw [hrun]
  cases hp : getUserByIndex (int32 i) with
  | none =>
    rw [hp] at hx
    cases hx
  | some p =>
    rw [hp] at hx
    simp only at hx ⊢
    by_cases hs : (c.users.pool p).domainState ≠ .room
    · rw [if_pos hs] at hx ⊢
      exact Refused.of_reply rfl rfl hx hb
    · rw [if_neg hs] at hx ⊢
      unfold leaveRoom
      cases hroom : getRoomByIdx (c.users.pool p).roomIdx with
      | none =>
        rw [hroom] at hx
        exact Refused.of_reply rfl rfl hx hb
      | some r =>
        rw [hroom] at hx
        exfalso
        rcases List.mem_append.mp hx with hx | hx
        · rw [mem_toEach hx] at hb
          cases hb
        · rw [List.mem_singleton.mp hx] at hb
          cases hb
          exact hr rfl

theorem roomChat_refused (hc : c.Fixed) (hr : result ≠ ErrorCode.none.val)
    (h : c.Answers (Handler.roomChat.run c mem i data) .roomChat result) :
    c.Refused (Handler.roomChat.run c mem i data) mem i .roomChat result := by
  obtain ⟨x, hx, hb⟩ := (answers_iff _ hc).mp h
  have hrun : Handler.roomChat.run c mem i data = c.roomChatHandler mem i data := rfl
  unfold Handler.sends at hx
  unfold roomChatHandler at hrun
  rw [hrun]
  cases hp : getUserByIndex (int32 i) with
  | none =>
    rw [hp] at hx
    exact Refused.of_reply rfl rfl hx hb
  | some p =>
    rw [hp] at hx
    simp only at hx ⊢
    by_cases hs : (c.users.pool p).domainState ≠ .room
    · rw [if_pos hs] at hx ⊢
      exact Refused.of_reply rfl rfl hx hb
    · rw [if_neg hs] at hx ⊢
      cases hroom : getRoomByIdx (c.users.pool p).roomIdx with
      | none =>
        rw [hroom] at hx
        exact Refused.of_reply rfl rfl hx hb
      | some r =>
        rw [hroom] at hx
        exfalso
        rcases List.mem_cons.mp hx with hx | hx
        · rw [hx] at hb
          cases hb
          exact hr rfl
        · rw [mem_toEach hx] at hb
          cases hb

theorem run_refused (hd : Handler) (hc : c.Fixed) (hr : result ≠ ErrorCode.none.val)
    (h : c.Answers (hd.run c mem i data) hd result) :
    c.Refused (hd.run c mem i data) mem i hd result := by
  cases hd with
  | login => exact login_refused hc h
  | enterRoom => exact enterRoom_refused hc hr h
  | leaveRoom => exact leaveRoom_refused hc hr h
  | roomChat => exact roomChat_refused hc hr h
  | connect | disconnect | loginDBRes =>
    -- these answer nobody's request
    obtain ⟨_, _, hb⟩ := h
    cases hb

end Chat

namespace Server

/-- **A refused request changes nothing**, in every reachable state. -/
theorem refusal_is_a_reply (redisGet : CStr → Option (List UInt8))
    (heap : Session → Fin kDefaultRingBufferSize → UInt8) (as : List Action) (c : Chat)
    (hreach : (run (step redisGet) (start heap) as).chat = c) (hd : Handler) (mem : Mem) (i : Nat)
    (data : Nat → UInt8) (result : Nat) (hr : result ≠ ErrorCode.none.val)
    (h : c.Answers (hd.run c mem i data) hd result) : c.Refused (hd.run c mem i data) mem i hd result := by
  have hc : c.Fixed := hreach ▸ (run_sound redisGet heap as).fixed
  exact Chat.run_refused hd hc hr h

/-- a user who is in the lobby already asks for room 99 -/
theorem refusal_is_a_reply_room99 :
    (run (step fun _ => some [112]) (start fun _ _ => 0) (Action.enterLobby 0 [97] [112])).chat.Refused
      (Handler.enterRoom.run
        (run (step fun _ => some [112]) (start fun _ _ => 0) (Action.enterLobby 0 [97] [112])).chat
        Mem.zero 0 fun k => if k = 5 then 99 else 0)
      Mem.zero 0 .enterRoom ErrorCode.roomInvalidIndex.val := by
  refine refusal_is_a_reply (fun _ => some [112]) (fun _ _ => 0) (Action.enterLobby 0 [97] [112]) _ rfl
    .enterRoom Mem.zero 0 (fun k => if k = 5 then 99 else 0) _ (by decide) ?_
  decide +kernel

end Server

end Iocp
