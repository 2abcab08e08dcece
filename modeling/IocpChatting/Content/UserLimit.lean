import IocpChatting.Content.Deliveries
import Mathlib.Data.List.FinRange

/-!
# The user limit

`LoginHandler` compares `current_user_cnt_` with the limit, and nothing ever writes
`current_user_cnt_`.

* `currentUserCnt_run`     it is zero in every reachable state;
* `liveUserCnt`            how many users are logged in on a live connection;
* `user_limit_iff`         the two agree all along a run exactly if no login succeeds on a live
                           connection; and the limit is enforced in a state exactly if it is not
                           reached there.
-/

set_option linter.unusedSectionVars false
set_option autoImplicit false

namespace Iocp
open Runs
open UserManager (getUserByIndex)

theorem Chat.Writes.currentUserCnt {c c' : Chat} (h : Chat.Writes c c') :
    c'.users.currentUserCnt = c.users.currentUserCnt := by
  induction h with
  | none | sent | user | room | unregister | register => rfl
  | trans _ _ ih ih' => exact ih'.trans ih

theorem Chat.run_currentUserCnt (hd : Handler) {c : Chat} {mem : Mem} {i : Nat}
    {data : Nat → UInt8} :
    (hd.run c mem i data).users.currentUserCnt = c.users.currentUserCnt := by
  by_cases hne : hd = .connect
  · subst hne
    show (c.connectHandler i).users.currentUserCnt = _
    unfold Chat.connectHandler
    split <;> rfl
  · exact (Chat.run_writes hne).currentUserCnt

namespace Roster

variable {S R I : Type*} [DecidableEq S] [DecidableEq R] [DecidableEq I] [Inhabited I]

/-- only a success response logs somebody in -/
theorem loggedIn_apply {ρ : Roster S R I} {d : Deed S R I} {q : S} (hf : ρ.Fits d)
    (h : (ρ.apply d).LoggedIn q) : ρ.LoggedIn q ∨ d = .accept q := by
  by_cases hwho : d.who = some q
  · cases d with
    | idle | chat | disconnect | request | reject => exact .inl h
    | clear p =>
      obtain rfl : p = q := Option.some.inj hwho
      simp [LoggedIn, apply] at h
    | accept p => exact .inr (by rw [Option.some.inj hwho])
    | enter p r =>
      obtain rfl : p = q := Option.some.inj hwho
      exact .inl (.inl hf)
    | leave p r =>
      obtain rfl : p = q := Option.some.inj hwho
      exact .inl (.inr hf.1)
  · unfold LoggedIn at h
    rw [(apply_other hwho).1] at h
    exact .inl h

end Roster

namespace Server

/-! ## who is there -/

def liveStep (p : Session) (b : Bool) (x : Server × Action) : Bool :=
  match x.2 with
  | .onConnect i => if i = p then true else b
  | .onDisconnect i => if i = p then false else b
  | _ => b

/-- the network has told of a connection of `p`, and since then not of its end -/
def live (p : Session) (h : History) : Bool := h.foldl (liveStep p) false

theorem live_snoc (p : Session) (h : History) (x : Server × Action) :
    live p (h ++ [x]) = liveStep p (live p h) x := by
  rw [live, List.foldl_append]
  rfl

/-- logged in on a live connection -/
def LiveUser (h : History) (s : Server) (p : Session) : Prop :=
  (s.chat.users.pool p).LoggedIn ∧ live p h = true

instance (h : History) (s : Server) (p : Session) : Decidable (LiveUser h s p) :=
  inferInstanceAs (Decidable (_ ∧ _))

def liveUserCnt (h : History) (s : Server) : Nat :=
  (List.finRange kMaxUserCnt).countP fun p => decide (LiveUser h s p)

theorem liveUserCnt_eq_zero {h : History} {s : Server} :
    liveUserCnt h s = 0 ↔ ∀ p, ¬ LiveUser h s p := by
  unfold liveUserCnt
  rw [List.countP_eq_zero]
  simp only [decide_eq_true_eq, List.mem_finRange, true_implies]

section
variable (redisGet : CStr → Option (List UInt8))

/-! ## the counter -/

theorem step_currentUserCnt (s : Server) (a : Action) :
    (step redisGet s a).chat.users.currentUserCnt = s.chat.users.currentUserCnt := by
  have he := step_effect redisGet s a
  generalize step redisGet s a = s' at he
  cases he with
  | @call mem k hk => exact Chat.run_currentUserCnt k.handler
  | @complete mem pkt hpc =>
    show (s.chat.users.completeProcess pkt.sessionIndex pkt.size).1.currentUserCnt = _
    unfold UserManager.completeProcess
    split <;> rfl
  | _ => rfl

theorem currentUserCnt_run (heap : Session → Fin kDefaultRingBufferSize → UInt8)
    (as : List Action) : (run (step redisGet) (start heap) as).chat.users.getCurrentUserCnt = 0 :=
  run_keeps_all (step redisGet) (I := fun s => s.chat.users.currentUserCnt = 0)
    (fun s a h => (step_currentUserCnt redisGet s a).trans h) rfl as

/-! ## the two counts -/

def CountTrue (h : History) (s : Server) : Prop :=
  s.chat.users.getCurrentUserCnt = liveUserCnt h s

/-- nobody that is logged in gets a new connection, and no login succeeds on a live one -/
def NoLiveLogin (h : History) (s : Server) (a : Action) : Prop :=
  (∀ p, a = .onConnect p → ¬ (s.chat.users.pool p).LoggedIn) ∧
    ∀ p, s.deed a = .accept p → live p h = false

theorem live_loop {p : Session} {h : History} {s : Server} {a : Action} {k : Call}
    (hk : s.call a = some k) : live p (h ++ [(s, a)]) = live p h := by
  rw [live_snoc, (call_spec hk).1]
  rfl

theorem deed_accept_call {s : Server} {a : Action} {p : Session} (h : s.deed a = .accept p) :
    ∃ k, s.call a = some k := by
  unfold Server.deed at h
  cases hk : s.call a with
  | none =>
    rw [hk] at h
    cases h
  | some k => exact ⟨k, rfl⟩

/-- one step, from a state with no user logged in on a live connection -/
theorem noLive_step_iff {h : History} {s : Server} (hs : s.Sound) (h0 : ∀ p, ¬ LiveUser h s p)
    (a : Action) :
    (∀ p, ¬ LiveUser (h ++ [(s, a)]) (step redisGet s a) p) ↔ NoLiveLogin h s a := by
  have hroster := roster_step redisGet hs.fixed a
  have hlog : ∀ p, ((step redisGet s a).chat.users.pool p).LoggedIn ↔
      (s.chat.roster.apply (s.deed a)).LoggedIn p := by
    intro p
    rw [← hroster]
    rfl
  constructor
  · intro hno
    refine ⟨fun p ha hp => ?_, fun p hd => ?_⟩
    · subst ha
      refine hno p ⟨(hlog p).mpr hp, ?_⟩
      rw [live_snoc]
      exact if_pos rfl
    · obtain ⟨k, hk⟩ := deed_accept_call hd
      by_contra hlive
      refine hno p ⟨(hlog p).mpr ?_, ?_⟩
      · rw [hd]
        exact .inl (Function.update_self ..)
      · rw [live_loop hk]
        simpa using hlive
  · rintro ⟨hconnect, haccept⟩ p ⟨hp, hlive⟩
    rcases Roster.loggedIn_apply (step_fits hs.fixed a) ((hlog p).mp hp) with hp | hd
    · -- it was logged in before, so its connection is new
      have hdead : live p h = false := by
        by_contra hl
        exact h0 p ⟨hp, by simpa using hl⟩
      rw [live_snoc, hdead] at hlive
      unfold liveStep at hlive
      split at hlive
      · next i ha =>
        split at hlive
        · next hi => exact hconnect p (by rw [← hi]; exact ha) hp
        · cases hlive
      · split at hlive <;> cases hlive
      · cases hlive
    · obtain ⟨k, hk⟩ := deed_accept_call hd
      rw [live_loop hk, haccept p hd] at hlive
      cases hlive

theorem countTrue_iff (heap : Session → Fin kDefaultRingBufferSize → UInt8) (as : List Action) :
    CountTrue (hist (step redisGet) (start heap) as) (run (step redisGet) (start heap) as) ↔
      ∀ p, ¬ LiveUser (hist (step redisGet) (start heap) as) (run (step redisGet) (start heap) as) p := by
  unfold CountTrue
  rw [currentUserCnt_run, ← liveUserCnt_eq_zero]
  omega

/-! ## the limit -/

/-- `LoginHandler` refuses because the server is full -/
def RefusesFull (c : Chat) (mem : Mem) (i : Nat) (data : Nat → UInt8) : Prop :=
  c.loginHandler mem i data
    = c.send i (Chat.reply mem .loginResponse (.loginResponse ErrorCode.loginUserUsedAllObj.val))

/-- with the counter at zero there is always room -/
theorem never_refusesFull {c : Chat} (h0 : c.users.getCurrentUserCnt = 0) (mem : Mem) (i : Nat)
    (data : Nat → UInt8) : ¬ RefusesFull c mem i data := by
  intro h
  have hroom : ¬ c.users.getCurrentUserCnt ≥ c.users.getMaxUserCnt := by
    rw [h0]
    show ¬ (0 : Int) ≥ kMaxUserCnt
    decide
  have e := congrArg Chat.sent h
  unfold Chat.loginHandler at e
  simp only [if_neg hroom] at e
  split at e
  · have hlen := congrArg List.length e
    simp [Chat.send] at hlen
  · simp only [Chat.send, Chat.reply, List.append_cancel_left_eq, List.cons.injEq, and_true,
      Sent.mk.injEq, Packet.mk.injEq, true_and] at e
    exact absurd (Body.loginResponse.inj e) (by decide)

/-- **The limit.**  The counter is the number of users logged in on a live connection, all along a
run, exactly if no login succeeds on a live connection; and in a reachable state `LoginHandler` refuses
a request for the limit exactly when it is reached, if and only if it is not reached. -/
theorem user_limit_iff (heap : Session → Fin kDefaultRingBufferSize → UInt8) (as : List Action) :
    ((∀ bs cs, as = bs ++ cs → CountTrue (hist (step redisGet) (start heap) bs)
          (run (step redisGet) (start heap) bs)) ↔
        ∀ bs a cs, as = bs ++ a :: cs → NoLiveLogin (hist (step redisGet) (start heap) bs)
          (run (step redisGet) (start heap) bs) a) ∧
      ((∀ mem i data, RefusesFull (run (step redisGet) (start heap) as).chat mem i data ↔
          kMaxUserCnt ≤ liveUserCnt (hist (step redisGet) (start heap) as)
            (run (step redisGet) (start heap) as)) ↔
        liveUserCnt (hist (step redisGet) (start heap) as)
          (run (step redisGet) (start heap) as) < kMaxUserCnt) := by
  constructor
  · simp only [countTrue_iff]
    have hbegin : ∀ p, ¬ LiveUser [] (start heap) p := fun p hp => by cases hp.2
    have key := hist_keeps_iff (step redisGet) (I := fun h s => ∀ p, ¬ LiveUser h s p)
      (P := fun _ _ _ => True) (C := NoLiveLogin) hbegin (fun bs a h0 => by
        rw [true_and]
        exact noLive_step_iff redisGet (run_sound redisGet heap bs) h0 a) as
    simpa only [implies_true, and_true] using key
  · have hnever := never_refusesFull (currentUserCnt_run redisGet heap as)
    constructor
    · intro h
      by_contra hfull
      exact hnever Mem.zero 0 (fun _ => 0) ((h _ _ _).mpr (Nat.le_of_not_lt hfull))
    · intro hlt mem i data
      exact ⟨fun h => absurd h (hnever mem i data), fun h => absurd h (Nat.not_le.mpr hlt)⟩

end

/-- one user logs in: there is one, and none is counted -/
theorem one_user_not_counted :
    ¬ CountTrue (hist (step fun _ => some [112]) (start fun _ _ => 0)
        (Action.enterLobby 0 [97] [112]))
      (run (step fun _ => some [112]) (start fun _ _ => 0) (Action.enterLobby 0 [97] [112])) := by
  intro h
  refine (countTrue_iff _ _ _).mp h 0 ⟨?_, ?_⟩
  · decide +kernel
  · decide +kernel

end Server

end Iocp
