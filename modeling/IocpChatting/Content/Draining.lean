import IocpChatting.Content.Dispatch
import IocpChatting.Lib.Turns

/-!
# Draining an inbound buffer

`DequeuePacket` and `ProcessPacket` again and again, while nothing new is received.

* `turn`, `turn_steps`     the two calls, and that they are what the packet loop does if nobody else
                           steps in between;
* `turn_effect`            what a turn can do: the ring of the user at the front of the index queue, and
                           whether its index comes back;
* `draining_iff`           every turn that puts the index back takes bytes out of the ring exactly if
                           every packet it finds `Advances`; and the index is out of the queue one
                           day exactly if from some turn on every packet does.
-/

set_option linter.unusedSectionVars false
set_option autoImplicit false

namespace Iocp
open Runs Framing Turns
open UserManager (getUserByIndex)

namespace Server

/-! ## one turn -/

/-- `DequeuePacket` and `ProcessPacket`, if nobody else steps in between -/
def turn (s : Server) (mem : Mem) : Server :=
  match s.dequeuePacket with
  | (s, some pkt) => (s.processUserPacket mem pkt).1
  | (s, none) => s

/-- after `n` turns; each finds its own memory -/
def turns (s : Server) (mems : Nat → Mem) : Nat → Server
  | 0 => s
  | n + 1 => (turns s mems n).turn (mems n)

theorem turn_steps (redisGet : CStr → Option (List UInt8)) {s : Server} (mem : Mem)
    (hpc : s.pc = .dequeuePacket) :
    ∃ n, run (step redisGet) s (List.replicate n (.loop mem))
      = { s.turn mem with pc := .dequeueSystemPacket } := by
  unfold turn
  cases hd : s.dequeuePacket with
  | mk s₁ x =>
    cases x with
    | none =>
      refine ⟨1, ?_⟩
      show s.loopStep mem = _
      unfold loopStep
      rw [hpc]
      simp only [hd]
    | some pkt =>
      have h1 : s.loopStep mem = { s₁ with pc := .processPacket pkt } := by
        unfold loopStep
        rw [hpc]
        simp only [hd]
      obtain ⟨n, hn⟩ := @process_steps redisGet { s₁ with pc := .processPacket pkt } mem pkt rfl
      refine ⟨n + 1, ?_⟩
      show run (step redisGet) (s.loopStep mem) _ = _
      rw [h1, hn]
      have hpc' : ∀ pc, ({ s₁ with pc := pc } : Server).processUserPacket mem pkt
          = ({ (s₁.processUserPacket mem pkt).1 with pc := pc }, (s₁.processUserPacket mem pkt).2) := by
        intro pc
        unfold processUserPacket handle
        cases packetHandlers pkt.id with
        | none => rfl
        | some h =>
          simp only [Option.map_some]
          split <;> rfl
      rw [hpc']

/-- the ring of a user after the handler `hd` and `CompleteProcess` -/
def ringDone (hd : Handler) (size : Nat) (r : RingBuffer UInt8 kDefaultRingBufferSize) :
    RingBuffer UInt8 kDefaultRingBufferSize :=
  (if hd = .connect then r.clearBuffer else r).moveFront size

/-- what can happen in a turn -/
inductive TurnEffect (s : Server) : Server → Prop
  | idle (hq : s.incomingQueue = []) : TurnEffect s s
  | noPacket {x : Int} {rest : List Int} (hq : s.incomingQueue = x :: rest)
      (h : ∀ p : Session, x = (p : Nat) → ¬ packetFormat.Complete (s.chat.bufs p).contents) :
      TurnEffect s { s with incomingQueue := rest }
  | skipped {p : Session} {rest : List Int} (hq : s.incomingQueue = ((p : Nat) : Int) :: rest)
      (hid : packetHandlers (packetFormat.head (s.chat.bufs p).contents).1 = none) :
      TurnEffect s { s with incomingQueue := rest }
  | handled {p : Session} {rest : List Int} {hd : Handler} {id size : Nat} {s' : Server}
      (hq : s.incomingQueue = ((p : Nat) : Int) :: rest)
      (hc : packetFormat.Complete (s.chat.bufs p).contents)
      (hhead : packetFormat.head (s.chat.bufs p).contents = (id, size))
      (hid : packetHandlers id = some hd) (hfixed : s'.chat.Fixed)
      (hring : s'.chat.bufs
        = Function.update s.chat.bufs p (ringDone hd size (s.chat.bufs p)))
      (hqueue : s'.incomingQueue =
        if (ringDone hd size (s.chat.bufs p)).contents = [] then rest else rest ++ [((p : Nat) : Int)]) :
      TurnEffect s s'

/-- the end of `ProcessPacket`: `CompleteProcess`, and the index again if anything is left -/
def finish (s : Server) (pkt : PacketInfo) : Server :=
  if (s.chat.users.completeProcess pkt.sessionIndex pkt.size).2 = false then
    (s.afterComplete pkt).pushIncoming (int32 pkt.sessionIndex)
  else s.afterComplete pkt

theorem finish_spec {s : Server} {pkt : PacketInfo} {p : Session}
    (hp : getUserByIndex (int32 pkt.sessionIndex) = some p) :
    (s.finish pkt).chat.bufs = Function.update s.chat.bufs p ((s.chat.bufs p).moveFront pkt.size) ∧
      (s.finish pkt).incomingQueue =
        if ((s.chat.bufs p).moveFront pkt.size).contents = [] then s.incomingQueue
        else s.incomingQueue ++ [((p : Nat) : Int)] := by
  have hdone := completeProcess_done s.chat.users pkt.size hp
  have hbufs := afterComplete_bufs s hp
  unfold finish
  by_cases hnil : ((s.chat.bufs p).moveFront pkt.size).contents = []
  · rw [if_neg (fun e => hdone.mp e hnil), if_pos hnil]
    exact ⟨hbufs, rfl⟩
  · rw [if_pos (hdone.mpr hnil), if_neg hnil, getUserByIndex_eq_some.mp hp]
    exact ⟨hbufs, rfl⟩

theorem finish_fixed {s : Server} (hs : s.chat.Fixed) (pkt : PacketInfo) :
    (s.finish pkt).chat.Fixed := by
  have hq : (s.afterComplete pkt).chat.Fixed := (Quiet.completeProcess s.chat _ _).fixed hs
  unfold finish
  split
  · exact hq
  · exact hq

theorem processUserPacket_eq {s : Server} {mem : Mem} {pkt : PacketInfo} {hd : Handler}
    (hid : packetHandlers pkt.id = some hd) :
    (s.processUserPacket mem pkt).1 = finish { s with
      chat := hd.run s.chat mem pkt.sessionIndex (view s.chat mem pkt.data) } pkt := by
  unfold processUserPacket handle finish
  rw [hid]
  simp only [Option.map_some]
  split <;> rfl

theorem turn_effect {s : Server} (hs : s.chat.Fixed) (mem : Mem) : TurnEffect s (s.turn mem) := by
  unfold turn dequeuePacket
  cases hq : s.incomingQueue with
  | nil => exact .idle hq
  | cons x rest =>
    simp only
    cases hx : getUserByIndex x with
    | none =>
      refine .noPacket hq (fun p hp => ?_)
      rw [hp, getUserByIndex_session] at hx
      cases hx
    | some p =>
      simp only
      have hxp := getUserByIndex_eq_some.mp hx
      cases hp : (s.chat.users.pool p).getPacketData p with
      | none =>
        refine .noPacket hq (fun p' hp' => ?_)
        rw [hp', getUserByIndex_session] at hx
        cases hx
        exact getPacketData_none hp
      | some pkt =>
        obtain ⟨hsess, hc, hhead⟩ := getPacketData_session hs hp
        rw [hxp] at hq
        show TurnEffect s (({ s with incomingQueue := rest } : Server).processUserPacket mem pkt).1
        cases hid : packetHandlers pkt.id with
        | none =>
          have e : ({ s with incomingQueue := rest } : Server).processUserPacket mem pkt
              = ({ s with incomingQueue := rest }, false) := by
            unfold processUserPacket handle
            rw [hid]
            rfl
          rw [e]
          exact .skipped hq (by rw [← hhead]; exact hid)
        | some hd =>
          rw [processUserPacket_eq hid]
          have hring : (hd.run s.chat mem pkt.sessionIndex (view s.chat mem pkt.data)).bufs
              = Function.update s.chat.bufs p
                  (if hd = .connect then (s.chat.bufs p).clearBuffer else s.chat.bufs p) := by
            funext q
            rw [Chat.run_bufs, hsess]
            by_cases hq : q = p
            · subst hq
              simp only [Function.update_self, and_true]
            · rw [Function.update_of_ne hq, if_neg fun h => hq (Option.some.inj h.2).symm]
          obtain ⟨hbufs, hqueue⟩ := finish_spec (s := { s with
            incomingQueue := rest
            chat := hd.run s.chat mem pkt.sessionIndex (view s.chat mem pkt.data) }) hsess
          simp only [hring, Function.update_self, Function.update_idem] at hbufs hqueue
          exact .handled hq hc hhead.symm hid (finish_fixed (Chat.run_fixed hd hs) pkt) hbufs hqueue

theorem TurnEffect.fixed {s s' : Server} (h : TurnEffect s s') (hs : s.chat.Fixed) :
    s'.chat.Fixed := by
  cases h with
  | idle => exact hs
  | noPacket => exact hs
  | skipped => exact hs
  | handled _ _ _ _ hfixed => exact hfixed

/-- on the index queue it is a turn -/
theorem TurnEffect.queue {s s' : Server} (h : TurnEffect s s') :
    Turn s.incomingQueue s'.incomingQueue := by
  cases h with
  | idle hq =>
    rw [hq]
    exact .idle
  | noPacket hq =>
    rw [hq]
    exact .leave _ _
  | skipped hq =>
    rw [hq]
    exact .leave _ _
  | handled hq _ _ _ _ _ hqueue =>
    rw [hq, hqueue]
    split
    · exact .leave _ _
    · exact .again _ _

/-- the rings of the users whose turn it is not stay -/
theorem TurnEffect.ring_other {s s' : Server} (h : TurnEffect s s') {i : Session}
    (hi : s.incomingQueue.head? ≠ some ((i : Nat) : Int)) : s'.chat.bufs i = s.chat.bufs i := by
  cases h with
  | @handled p rest hd id size s' hq hc hhead hid hfixed hring hqueue =>
    rw [hring, Function.update_of_ne]
    rintro rfl
    exact hi (by rw [hq]; rfl)
  | _ => rfl

/-! ## progress -/

/-- if the turn puts the index of `i` back, it takes bytes out of the ring of `i` -/
def Shrinks (i : Session) (s s' : Server) : Prop :=
  ∀ rest, s.incomingQueue = ((i : Nat) : Int) :: rest →
    s'.incomingQueue = rest ++ [((i : Nat) : Int)] →
    (s'.chat.bufs i).getSizeInUse < (s.chat.bufs i).getSizeInUse

/-- on the front packet in the ring: a handler that leaves the ring alone needs a size that is not
zero; `ConnectHandler`, which empties it, a size that takes `front_` past as much as there was, or
nowhere -/
def Advances (i : Session) (s : Server) : Prop :=
  s.incomingQueue.head? = some ((i : Nat) : Int) →
  packetFormat.Complete (s.chat.bufs i).contents →
  ∀ hd, packetHandlers (packetFormat.head (s.chat.bufs i).contents).1 = some hd →
    if hd = .connect then
      (packetFormat.head (s.chat.bufs i).contents).2 = 0 ∨
        kDefaultRingBufferSize - (packetFormat.head (s.chat.bufs i).contents).2
          < (s.chat.bufs i).getSizeInUse
    else (packetFormat.head (s.chat.bufs i).contents).2 ≠ 0

/-- what `MoveFront` leaves of an empty ring: all of the array behind the new `front_` -/
theorem clear_moveFront_inUse (r : RingBuffer UInt8 kDefaultRingBufferSize) {size : Nat}
    (h : size < kDefaultRingBufferSize) :
    (r.clearBuffer.moveFront size).getSizeInUse
      = if size = 0 then 0 else kDefaultRingBufferSize - size := by
  have hfront : ((r.clearBuffer.moveFront size).front : Nat) = size := by
    show (0 + size) % kDefaultRingBufferSize = size
    rw [Nat.zero_add, Nat.mod_eq_of_lt h]
  unfold RingBuffer.getSizeInUse
  rw [hfront]
  show (if 0 < size then kDefaultRingBufferSize - (size - 0) else 0 - size) = _
  by_cases h0 : size = 0
  · rw [if_neg (by omega), if_pos h0, h0]
  · rw [if_pos (by omega), if_neg h0, Nat.sub_zero]

theorem contents_ne_nil {r : RingBuffer UInt8 kDefaultRingBufferSize} :
    r.contents ≠ [] ↔ 0 < r.getSizeInUse := by
  rw [← RingBuffer.contents_length, List.length_pos_iff]

/-- the exact sizes with which a processed packet makes the ring smaller -/
theorem ringDone_lt_iff {r : RingBuffer UInt8 kDefaultRingBufferSize} {hd : Handler} {id size : Nat}
    (hc : packetFormat.Complete r.contents) (hhead : packetFormat.head r.contents = (id, size)) :
    ((ringDone hd size r).contents ≠ [] → (ringDone hd size r).getSizeInUse < r.getSizeInUse) ↔
      if hd = .connect then size = 0 ∨ kDefaultRingBufferSize - size < r.getSizeInUse
      else size ≠ 0 := by
  have hle : size ≤ r.getSizeInUse := by
    have := hc.2
    rw [hhead, RingBuffer.contents_length] at this
    exact this
  have hpos : 0 < r.getSizeInUse := by
    have := hc.1
    rw [RingBuffer.contents_length] at this
    exact packetFormat.hdr_pos.trans_le this
  have hlt := r.getSizeInUse_lt
  rw [contents_ne_nil]
  unfold ringDone
  by_cases hconnect : hd = .connect
  · rw [if_pos hconnect, if_pos hconnect, clear_moveFront_inUse r (by omega)]
    by_cases h0 : size = 0
    · rw [if_pos h0]
      exact ⟨fun _ => .inl h0, fun _ h => absurd h (Nat.lt_irrefl 0)⟩
    · rw [if_neg h0]
      constructor
      · exact fun h => .inr (h (by omega))
      · rintro (h | h) -
        · exact absurd h h0
        · exact h
  · rw [if_neg hconnect, if_neg hconnect, RingBuffer.moveFront_inUse r hle]
    omega

theorem no_repush {x k : Int} {rest rest' : List Int} (h : x :: rest = k :: rest') :
    rest ≠ rest' ++ [k] := by
  intro e
  have hlen := congrArg List.length ((List.cons.inj h).2.symm.trans e)
  rw [List.length_append] at hlen
  exact absurd hlen (Nat.lt_succ_self _).ne

/-- **One turn.**  It shrinks the ring or leaves the index out exactly if the packet it finds
advances. -/
theorem shrinks_iff {s s' : Server} (h : TurnEffect s s') (i : Session) :
    Shrinks i s s' ↔ Advances i s := by
  cases h with
  | idle hq =>
    refine ⟨fun _ hhead => ?_, fun _ rest hrest => ?_⟩
    · rw [hq] at hhead
      cases hhead
    · rw [hq] at hrest
      cases hrest
  | @noPacket x rest hq hx =>
    refine ⟨fun _ hhead hc => ?_, fun _ rest' hrest hagain => ?_⟩
    · rw [hq] at hhead
      exact absurd hc (hx i (Option.some.inj hhead))
    · rw [hq] at hrest
      exact absurd hagain (no_repush hrest)
  | @skipped p rest hq hid =>
    refine ⟨fun _ hhead _ hd hhd => ?_, fun _ rest' hrest hagain => ?_⟩
    · rw [hq] at hhead
      have e : p = i := session_inj (Option.some.inj hhead)
      rw [← e, hid] at hhd
      cases hhd
    · rw [hq] at hrest
      exact absurd hagain (no_repush hrest)
  | @handled p rest hd id size s' hq hc hhead hid hfixed hring hqueue =>
    by_cases hp : p = i
    · subst hp
      have key := @ringDone_lt_iff _ hd _ _ hc hhead
      have hself : s'.chat.bufs p = ringDone hd size (s.chat.bufs p) := by
        rw [hring, Function.update_self]
      have hagain : s'.incomingQueue = rest ++ [((p : Nat) : Int)]
          ↔ (ringDone hd size (s.chat.bufs p)).contents ≠ [] := by
        rw [hqueue]
        by_cases hnil : (ringDone hd size (s.chat.bufs p)).contents = []
        · simp [hnil]
        · simp [hnil]
      unfold Shrinks Advances
      rw [hself, hhead, hq]
      constructor
      · intro h _ _ hd' hid'
        rw [hid] at hid'
        cases hid'
        exact key.mp fun hne => h rest rfl (hagain.mpr hne)
      · intro h rest' hrest hq'
        rw [← (List.cons.inj hrest).2] at hq'
        exact key.mpr (h rfl hc hd hid) (hagain.mp hq')
    · have hne : s.incomingQueue.head? ≠ some ((i : Nat) : Int) := by
        rw [hq]
        exact fun e => hp (session_inj (Option.some.inj e))
      refine ⟨fun _ hhead => absurd hhead hne, fun _ rest' hrest => ?_⟩
      exact absurd (by rw [hrest]; rfl) hne

/-! ## turn after turn -/

/-- the bytes in the ring of `i` and its entries in the index queue -/
def backlog (i : Session) (s : Server) : Nat :=
  (s.chat.bufs i).getSizeInUse + s.incomingQueue.count ((i : Nat) : Int)

theorem backlog_other {s s' : Server} (h : TurnEffect s s') {i : Session}
    (hi : s.incomingQueue.head? ≠ some ((i : Nat) : Int)) : backlog i s' = backlog i s := by
  unfold backlog
  rw [h.ring_other hi, h.queue.count_eq hi]

theorem backlog_own {s s' : Server} (h : TurnEffect s s') {i : Session}
    (hi : s.incomingQueue.head? = some ((i : Nat) : Int)) (hshrinks : Shrinks i s s') :
    backlog i s' < backlog i s := by
  unfold backlog
  cases h with
  | idle hq =>
    rw [hq] at hi
    cases hi
  | @noPacket x rest hq =>
    rw [hq] at hi ⊢
    rw [Option.some.inj hi, List.count_cons_self]
    exact Nat.lt_succ_self _
  | @skipped p rest hq =>
    rw [hq] at hi ⊢
    rw [Option.some.inj hi, List.count_cons_self]
    exact Nat.lt_succ_self _
  | @handled p rest hd id size s' hq hc hhead hid hfixed hring hqueue =>
    have hp : p = i := by
      rw [hq] at hi
      exact session_inj (Option.some.inj hi)
    subst hp
    have hself : s'.chat.bufs p = ringDone hd size (s.chat.bufs p) := by
      rw [hring, Function.update_self]
    rw [hq, List.count_cons_self]
    by_cases hnil : (ringDone hd size (s.chat.bufs p)).contents = []
    · have hzero : (s'.chat.bufs p).getSizeInUse = 0 := by
        rw [← RingBuffer.contents_length, hself, hnil]
        rfl
      rw [hqueue, if_pos hnil, hzero]
      omega
    · have hagain : s'.incomingQueue = rest ++ [((p : Nat) : Int)] := by rw [hqueue, if_neg hnil]
      have hlt := hshrinks rest hq hagain
      rw [hagain, List.count_append, List.count_singleton_self]
      omega

section
variable {s : Server} (hs : s.chat.Fixed) (mems : Nat → Mem)

include hs

theorem turns_fixed (n : Nat) : (turns s mems n).chat.Fixed := by
  induction n with
  | zero => exact hs
  | succ n ih => exact (turn_effect ih (mems n)).fixed ih

theorem turns_effect (n : Nat) : TurnEffect (turns s mems n) (turns s mems (n + 1)) :=
  turn_effect (turns_fixed hs mems n) (mems n)

theorem turns_queue (n : Nat) :
    Turn (turns s mems n).incomingQueue (turns s mems (n + 1)).incomingQueue :=
  (turns_effect hs mems n).queue

theorem advances_of_absent {i : Session} {n : Nat}
    (h : ((i : Nat) : Int) ∉ (turns s mems n).incomingQueue) : Advances i (turns s mems n) := by
  intro hhead
  exact absurd (List.mem_of_mem_head? (by rw [hhead]; rfl)) h

/-- **The queue gets rid of the index** exactly if from some turn on every packet advances. -/
theorem leaves_iff (i : Session) :
    (∃ n, ((i : Nat) : Int) ∉ (turns s mems n).incomingQueue) ↔
      ∃ n, ∀ m, n ≤ m → Advances i (turns s mems m) := by
  constructor
  · rintro ⟨n, hn⟩
    exact ⟨n, fun m hm => advances_of_absent hs mems (absent_stays (turns_queue hs mems) hn hm)⟩
  · rintro ⟨n, hadv⟩
    obtain ⟨m, _, hout⟩ := leaves_queue (n := n) (k := ((i : Nat) : Int)) (turns_queue hs mems)
      (fun m => backlog i (turns s mems m))
      (fun m hm hhead => backlog_own (turns_effect hs mems m) hhead
        ((shrinks_iff (turns_effect hs mems m) i).mpr (hadv m hm)))
      (fun m _ hhead => (backlog_other (turns_effect hs mems m) hhead).le)
    exact ⟨m, hout⟩

/-- a packet of size zero, for a handler that leaves the ring alone, stays at the front, and its index
in the queue -/
theorem zero_size_stays {i : Session} {id : Nat} {hd : Handler}
    (hc : packetFormat.Complete (s.chat.bufs i).contents)
    (hhead : packetFormat.head (s.chat.bufs i).contents = (id, 0))
    (hid : packetHandlers id = some hd) (hne : hd ≠ .connect)
    (hin : ((i : Nat) : Int) ∈ s.incomingQueue) (n : Nat) :
    (turns s mems n).chat.bufs i = s.chat.bufs i ∧
      ((i : Nat) : Int) ∈ (turns s mems n).incomingQueue := by
  induction n with
  | zero => exact ⟨rfl, hin⟩
  | succ n ih =>
    obtain ⟨hring, hin'⟩ := ih
    have heff := turns_effect hs mems n
    generalize turns s mems (n + 1) = s' at heff
    have hrest : ∀ {x : Int} {rest : List Int}, (turns s mems n).incomingQueue = x :: rest →
        x ≠ ((i : Nat) : Int) → ((i : Nat) : Int) ∈ rest := by
      intro x rest hq hx
      rw [hq] at hin'
      rcases List.mem_cons.mp hin' with h | h
      · exact absurd h.symm hx
      · exact h
    cases heff with
    | idle => exact ⟨hring, hin'⟩
    | noPacket hq hx =>
      refine ⟨hring, hrest hq fun e => ?_⟩
      exact hx i e (by rw [hring]; exact hc)
    | @skipped p rest hq hnone =>
      refine ⟨hring, hrest hq fun e => ?_⟩
      have hp : p = i := session_inj e
      rw [hp, hring, hhead, hid] at hnone
      cases hnone
    | @handled p rest hd' id' size s' hq hc' hhead' hid' hfixed hbufs hqueue =>
      by_cases hp : p = i
      · subst hp
        rw [hring, hhead] at hhead'
        cases hhead'
        rw [hid] at hid'
        cases hid'
        have hdone : ringDone hd 0 (s.chat.bufs p) = s.chat.bufs p := by
          unfold ringDone RingBuffer.moveFront
          rw [if_neg hne, Cyclic.shift_zero]
        have hnil : (s.chat.bufs p).contents ≠ [] := by
          intro e
          rw [e] at hc
          exact Format.not_complete_nil hc
        rw [hring, hdone] at hbufs hqueue
        rw [hbufs, hqueue, if_neg hnil, Function.update_self]
        exact ⟨rfl, List.mem_append_right _ (List.mem_singleton.mpr rfl)⟩
      · have hin'' := hrest hq fun e => hp (session_inj e)
        rw [hbufs, hqueue, Function.update_of_ne fun e => hp e.symm]
        refine ⟨hring, ?_⟩
        split
        · exact hin''
        · exact List.mem_append_left _ hin''

end

section
variable (redisGet : CStr → Option (List UInt8))

/-- **Draining.**  In every reachable state, whatever is in the rings: every turn that puts the index
of `i` back takes bytes out of its ring exactly if every packet it finds there advances, and the
index leaves the queue exactly if from some turn on every packet does. -/
theorem draining_iff (heap : Session → Fin kDefaultRingBufferSize → UInt8) (as : List Action)
    (mems : Nat → Mem) (i : Session) :
    ((∀ n, Shrinks i (turns (run (step redisGet) (start heap) as) mems n)
          (turns (run (step redisGet) (start heap) as) mems (n + 1))) ↔
        ∀ n, Advances i (turns (run (step redisGet) (start heap) as) mems n)) ∧
      ((∃ n, ((i : Nat) : Int) ∉
          (turns (run (step redisGet) (start heap) as) mems n).incomingQueue) ↔
        ∃ n, ∀ m, n ≤ m → Advances i (turns (run (step redisGet) (start heap) as) mems m)) := by
  have hs := (run_sound redisGet heap as).fixed
  refine ⟨?_, leaves_iff hs mems i⟩
  constructor
  · intro h n
    exact (shrinks_iff (turns_effect hs mems n) i).mp (h n)
  · intro h n
    exact (shrinks_iff (turns_effect hs mems n) i).mpr (h n)

end

/-- a header with the id of a request to leave the room, and with size zero -/
def sizeZero : List UInt8 := [0, 0, 215, 0, 0]

/-- it is dispatched again in every turn, and the index of its sender never leaves the queue -/
theorem size_zero_forever :
    (∀ n, (0 : Int) ∈ (turns (run (step fun _ => none) (start fun _ _ => 0)
        (Action.receive 0 sizeZero)) (fun _ => Mem.zero) n).incomingQueue) ∧
      ¬ Shrinks 0 (run (step fun _ => none) (start fun _ _ => 0) (Action.receive 0 sizeZero))
        (turns (run (step fun _ => none) (start fun _ _ => 0) (Action.receive 0 sizeZero))
          (fun _ => Mem.zero) 1) := by
  have hs := (run_sound (fun _ => none) (fun _ _ => 0) (Action.receive 0 sizeZero)).fixed
  have hcontents : ((run (step fun _ => none) (start fun _ _ => 0)
      (Action.receive 0 sizeZero)).chat.bufs 0).contents = sizeZero := by decide +kernel
  have hqueue : (run (step fun _ => none) (start fun _ _ => 0)
      (Action.receive 0 sizeZero)).incomingQueue = [0] := by decide +kernel
  generalize run (step fun _ => none) (start fun _ _ => 0) (Action.receive 0 sizeZero) = s at *
  have hc : packetFormat.Complete (s.chat.bufs 0).contents := by rw [hcontents]; decide
  have hhead : packetFormat.head (s.chat.bufs 0).contents = (215, 0) := by rw [hcontents]; decide
  have hid : packetHandlers 215 = some .leaveRoom := by decide
  have hin : (((0 : Session) : Nat) : Int) ∈ s.incomingQueue := by
    rw [hqueue]
    exact List.mem_singleton.mpr rfl
  refine ⟨fun n => ?_, fun h => ?_⟩
  · exact (zero_size_stays hs _ hc hhead hid (by decide) hin n).2
  · have hadv := (shrinks_iff (turns_effect hs (fun _ => Mem.zero) 0) 0).mp h
    have := hadv (by rw [show (turns s _ 0).incomingQueue = [0] from hqueue]; rfl) hc .leaveRoom
      (by rw [show (turns s _ 0) = s from rfl, hhead]; exact hid)
    rw [if_neg (by decide), show (turns s _ 0) = s from rfl, hhead] at this
    exact this rfl

end Server

end Iocp
