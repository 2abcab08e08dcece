import IocpChatting.Content.Ledger

/-!
# The first bytes of a connection

`OnConnect` pushes a notice to the system queue, the bytes of the new connection go to the user
queue, and the loop looks at the user queue first.

* `Greeted`            the connections of an index are those greeted and those whose notice waits,
                       and all bytes in its ring came from greeted ones;
* `fresh_start_run`    if bytes arrive only after the `ConnectHandler` of their connection, then
                       none of them is dispatched before it or discarded by it.
-/

set_option linter.unusedSectionVars false
set_option autoImplicit false

namespace Iocp
open Runs
open UserManager (getUserByIndex)

namespace Server
variable {L : Ledger} {s : Server}

/-- the system packet that is about to be processed -/
def inHand : LoopPc → List PacketInfo
  | .processSystemPacket pkt => [pkt]
  | _ => []

/-- `kSYS_USER_CONNECT` notices of `i` that are queued or about to be processed -/
def waiting (s : Server) (i : Session) : Nat :=
  (inHand s.pc ++ s.systemQueue).count (systemPacket i .sysUserConnect)

/-- bytes are stored when no connect notice of their session waits, and clients send no connect
notice themselves -/
def StoredAfterGreeting (s : Server) : Action → Prop
  | .onRecv i _ => s.waiting i = 0
  | .loop _ => ∀ x ∈ s.pc.packet, x.1 = .user → x.2.id ≠ PacketId.sysUserConnect.val
  | _ => True

instance (s : Server) : (a : Action) → Decidable (StoredAfterGreeting s a)
  | .onRecv i _ => inferInstanceAs (Decidable (s.waiting i = 0))
  | .loop _ => Option.decidableForallMem _
  | .onConnect _ | .onDisconnect _ | .pushIndex _ | .redisTake | .redisPut _ _ => .isTrue trivial

/-- the connection that a call of `ConnectHandler` for `p` belongs to -/
def connectionOf (L : Ledger) (k : Call) (p : Session) : Nat :=
  if k.source = .system then L.greeted p + 1 else L.conn p

/-- * the connections that a dispatched packet came from have been greeted;
* `ConnectHandler` finds no byte of its own connection in the ring. -/
structure FreshStart (L : Ledger) (s : Server) (a : Action) : Prop where
  dispatched : ∀ pkt mem p, s.pc = .processPacket pkt → a = .loop mem →
    getUserByIndex (int32 pkt.sessionIndex) = some p → ∀ g ∈ L.origin p pkt.size, g ≤ L.greeted p
  kept : ∀ k p, s.call a = some k → k.handler = .connect → k.session = some p →
    ∀ g ∈ (L.rings p).contents, g ≠ connectionOf L k p

/-- the connections of an index are those greeted and those whose notice waits, and every slot of
its ring was last written for a greeted one -/
structure Greeted (L : Ledger) (s : Server) : Prop where
  conn : ∀ i, L.conn i = L.greeted i + s.waiting i
  slots : ∀ i k, (L.rings i).buf k ≤ L.greeted i

theorem systemPacket_inj {i j : Session} {id id' : PacketId}
    (h : systemPacket i id = systemPacket j id') : i = j ∧ id.val = id'.val := by
  have h1 := congrArg PacketInfo.sessionIndex h
  have h2 := congrArg PacketInfo.id h
  simp only [systemPacket, uint16_session] at h1 h2
  exact ⟨Fin.ext h1, h2⟩

theorem systemPacket_session (i : Session) (id : PacketId) :
    getUserByIndex (int32 (systemPacket i id).sessionIndex) = some i := by
  show getUserByIndex (int32 (uint16 (i : Nat))) = some i
  rw [uint16_session, getUserByIndex_int32]

def pushes (i : Session) : Action → Nat
  | .onConnect j => if j = i then 1 else 0
  | _ => 0

theorem note_conn_apply (redisGet : CStr → Option (List UInt8)) (a : Action) (i : Session) :
    (L.note redisGet (s, a)).conn i = L.conn i + pushes i a := by
  rw [note_conn]
  cases a with
  | onConnect j =>
    show Function.update L.conn j _ i = L.conn i + if j = i then 1 else 0
    by_cases hj : j = i
    · subst hj
      rw [Function.update_self, if_pos rfl]
    · rw [Function.update_of_ne (fun e => hj e.symm), if_neg hj]
      rfl
  | _ => rfl

theorem waiting_enqueue (s : Server) (pkt : PacketInfo) (i : Session) :
    (s.enqueueSystemPacket pkt).waiting i
      = s.waiting i + if pkt = systemPacket i .sysUserConnect then 1 else 0 := by
  show List.count _ (inHand s.pc ++ (s.systemQueue ++ [pkt])) = _
  rw [← List.append_assoc, List.count_append, List.count_singleton]
  simp only [beq_iff_eq]
  rfl

theorem waiting_packet {x : Source × PacketInfo} (s' : Server) (h : s.pc.packet = some x)
    (hq : s'.systemQueue = s.systemQueue) (hpc : s'.pc = s.pc.ran ∨ s'.pc = s.pc.skipped)
    (i : Session) :
    s.waiting i = s'.waiting i + if x = (.system, systemPacket i .sysUserConnect) then 1 else 0 := by
  have hno : inHand s'.pc = [] := by
    cases e : s.pc with
    | processPacket | processSystemPacket | processTaskRes =>
      rw [e] at hpc
      rcases hpc with hpc | hpc <;> rw [hpc] <;> rfl
    | _ => rw [e] at h; cases h
  have hheld : (inHand s.pc).count (systemPacket i .sysUserConnect)
      = if x = (.system, systemPacket i .sysUserConnect) then 1 else 0 := by
    cases e : s.pc with
    | processSystemPacket pkt =>
      rw [e] at h
      cases h
      show List.count _ [pkt] = _
      rw [List.count_singleton]
      simp only [beq_iff_eq, Prod.mk.injEq, true_and]
    | processPacket pkt | processTaskRes t =>
      rw [e] at h
      cases h
      rw [if_neg (by simp)]
      rfl
    | _ => rw [e] at h; cases h
  unfold waiting
  rw [hno, List.nil_append, hq, List.count_append, hheld, Nat.add_comm]

/-- without a call only `OnConnect` changes how many notices wait -/
theorem waiting_quiet (redisGet : CStr → Option (List UInt8)) {a : Action} (hk : s.call a = none)
    (i : Session) : waiting (step redisGet s a) i = s.waiting i + pushes i a := by
  have he := step_effect redisGet s a
  generalize step redisGet s a = s' at he
  cases he with
  | onConnect j =>
    rw [waiting_enqueue]
    congr 1
    by_cases hj : j = i
    · subst hj
      rw [if_pos rfl]
      exact (if_pos rfl).symm
    · rw [if_neg (fun e => hj (systemPacket_inj e).1)]
      exact (if_neg hj).symm
  | onDisconnect j =>
    rw [waiting_enqueue, if_neg (fun e => absurd (systemPacket_inj e).2 (by decide))]
    rfl
  | call hk' => rw [hk'] at hk; cases hk
  | @skip mem source pkt hpc hid =>
    have h := waiting_packet { s with pc := s.pc.skipped } hpc rfl (.inr rfl) i
    rw [if_neg] at h
    · exact h.symm
    · intro e
      cases e
      cases hid
  | @complete mem pkt hpc =>
    have hno : ∀ b : Bool,
        inHand (if b = false then LoopPc.pushIndex pkt.sessionIndex else .dequeueSystemPacket) = [] :=
      fun b => by cases b <;> rfl
    unfold waiting
    rw [hpc]
    show List.count _ (inHand (ite _ _ _) ++ _) = _
    rw [hno]
    rfl
  | @system mem pkt rest hpc hq =>
    unfold waiting
    rw [hpc, hq]
    rfl
  | noIndex hpc hq | noPacket hpc hq hi | dequeue hpc hq hi hp | repush hpc | noSystem hpc hq
  | noTask hpc hq | task hpc hq =>
    unfold waiting
    rw [hpc]
    rfl
  | _ => rfl

/-- a connection is greeted when its notice is processed -/
theorem noteCall_greeted (hs : s.Sound) {a : Action} {k : Call} (hk : s.call a = some k)
    (i : Session) :
    (L.noteCall s.chat k).greeted i = L.greeted i
      + if (k.source, k.pkt) = (.system, systemPacket i .sysUserConnect) then 1 else 0 := by
  obtain ⟨_, hp, hid⟩ := call_spec hk
  by_cases hsys : k.source = .system
  · rw [hsys] at hp
    obtain ⟨j, e | e⟩ := hs.notices.held _ hp
    · have hd : k.handler = .connect := by
        rw [e] at hid
        exact (Option.some.inj hid).symm
      have hj : k.session = some j := by
        unfold Call.session
        rw [e, systemPacket_session]
      have hg : (L.noteCall s.chat k).greeted = Function.update L.greeted j (L.greeted j + 1) := by
        unfold Ledger.noteCall
        simp only [hd, hj]
        exact if_pos hsys
      rw [hg, hsys, e]
      by_cases hij : i = j
      · subst hij
        rw [Function.update_self, if_pos rfl]
      · rw [Function.update_of_ne hij, if_neg]
        · rfl
        · intro h
          exact hij (systemPacket_inj (Prod.mk.inj h).2).1.symm
    · have hd : k.handler = .disconnect := by
        rw [e] at hid
        exact (Option.some.inj hid).symm
      have hg : (L.noteCall s.chat k).greeted = L.greeted := by
        unfold Ledger.noteCall
        simp only [hd]
      rw [hg, e, if_neg]
      · rfl
      · intro h
        exact absurd (systemPacket_inj (Prod.mk.inj h).2).2 (by decide)
  · have hg : (L.noteCall s.chat k).greeted = L.greeted := by
      unfold Ledger.noteCall
      split
      · exact if_neg hsys
      · rfl
    rw [hg, if_neg (fun h => hsys (Prod.mk.inj h).1)]
    rfl

theorem note_greeted_quiet (redisGet : CStr → Option (List UInt8)) {a : Action}
    (hk : s.call a = none) : (L.note redisGet (s, a)).greeted = L.greeted := by
  cases a with
  | loop mem =>
    simp only [Ledger.note, hk]
    split
    · next h => cases h
    · split <;> rfl
    · split <;> rfl
    · rfl
  | redisTake | redisPut =>
    simp only [Ledger.note]
    split <;> rfl
  | _ => rfl

/-- a slot is written in `OnRecv`, with the connection that is open -/
theorem note_slot (redisGet : CStr → Option (List UInt8)) (a : Action) (i : Session)
    (n : Fin kDefaultRingBufferSize) :
    ((L.note redisGet (s, a)).rings i).buf n = (L.rings i).buf n ∨
      ∃ data, a = .onRecv i data ∧ ((L.note redisGet (s, a)).rings i).buf n = L.conn i := by
  cases a with
  | onRecv j data =>
    show (Function.update L.rings j _ i).buf n = _ ∨ _
    by_cases hj : i = j
    · subst hj
      rw [Function.update_self]
      refine ((L.rings i).enqueue_buf (List.replicate data.length (L.conn i)) n).imp_right fun h => ?_
      refine ⟨data, rfl, ?_⟩
      show (Function.update L.rings i _ i).buf n = _
      rw [Function.update_self]
      exact (List.mem_replicate.mp h).2
    · rw [Function.update_of_ne hj]
      exact .inl rfl
  | loop mem =>
    left
    simp only [Ledger.note]
    split
    · rw [noteCall_rings]
      split <;> rfl
    · split
      · rfl
      · next p _ =>
        show (Function.update L.rings p _ i).buf n = _
        by_cases hp : i = p
        · subst hp
          rw [Function.update_self]
          rfl
        · rw [Function.update_of_ne hp]
    · split <;> rfl
    · rfl
  | redisTake | redisPut =>
    left
    simp only [Ledger.note]
    split <;> rfl
  | _ => exact .inl rfl

theorem note_call (redisGet : CStr → Option (List UInt8)) {a : Action} {k : Call}
    (hk : s.call a = some k) : L.note redisGet (s, a) = L.noteCall s.chat k := by
  have ha := (call_spec hk).1
  subst ha
  simp only [Ledger.note, hk]

/-- what a step adds to the greeted connections and takes from the waiting notices -/
theorem note_greeted (redisGet : CStr → Option (List UInt8)) (hs : s.Sound) (a : Action)
    (i : Session) : ∃ d, (L.note redisGet (s, a)).greeted i = L.greeted i + d ∧
      s.waiting i + pushes i a = waiting (step redisGet s a) i + d := by
  cases hk : s.call a with
  | none =>
    refine ⟨0, ?_, ?_⟩
    · rw [note_greeted_quiet redisGet hk]
      rfl
    · rw [waiting_quiet redisGet hk]
      rfl
  | some k =>
    obtain ⟨ha, hp, _⟩ := call_spec hk
    refine ⟨if (k.source, k.pkt) = (.system, systemPacket i .sysUserConnect) then 1 else 0, ?_, ?_⟩
    · rw [note_call redisGet hk]
      exact noteCall_greeted hs hk i
    · have hpush : pushes i a = 0 := by
        rw [ha]
        rfl
      rw [hpush, step_call redisGet hk]
      exact waiting_packet { s with chat := k.run s.chat, pc := s.pc.ran } hp rfl (.inl rfl) i

theorem greeted_step (redisGet : CStr → Option (List UInt8)) (hs : s.Sound) {a : Action}
    (h : Greeted L s) (hc : s.StoredAfterGreeting a) :
    Greeted (L.note redisGet (s, a)) (step redisGet s a) := by
  refine ⟨fun i => ?_, fun i n => ?_⟩
  · obtain ⟨d, hg, hw⟩ := note_greeted (L := L) redisGet hs a i
    have hconn := h.conn i
    rw [note_conn_apply, hg]
    omega
  · obtain ⟨d, hg, _⟩ := note_greeted (L := L) redisGet hs a i
    have hle : L.greeted i ≤ (L.note redisGet (s, a)).greeted i := by omega
    rcases note_slot (L := L) redisGet a i n with e | ⟨data, rfl, e⟩
    · rw [e]
      exact (h.slots i n).trans hle
    · have hw : s.waiting i = 0 := hc
      have hconn := h.conn i
      rw [e, hconn, hw]
      exact hle

theorem Greeted.contents (h : Greeted L s) {i : Session} {g : Nat} (hg : g ∈ (L.rings i).contents) :
    g ≤ L.greeted i := by
  obtain ⟨n, rfl⟩ := RingBuffer.mem_contents hg
  exact h.slots i n

theorem connect_id {id : Nat} (h : packetHandlers id = some .connect) :
    id = PacketId.sysUserConnect.val := by
  have hall : ∀ x ∈ bindHandler, x.2 = .connect → x.1 = PacketId.sysUserConnect.val := by decide
  exact hall _ (mem_bindHandler h) rfl

theorem Greeted.freshStart (h : Greeted L s) (hs : s.Sound) {a : Action}
    (hc : s.StoredAfterGreeting a) : FreshStart L s a where
  dispatched pkt mem p _ _ _ g hg := h.contents (List.mem_of_mem_take hg)
  kept k p hk hd _ g hg := by
    have hle := h.contents hg
    obtain ⟨ha, hp, hid⟩ := call_spec hk
    cases hsrc : k.source with
    | system =>
      unfold connectionOf
      rw [if_pos hsrc]
      omega
    | user =>
      -- a client's own notice, which the condition excludes
      subst ha
      rw [hsrc] at hp
      rw [hd] at hid
      exact absurd (connect_id hid) (hc _ hp rfl)
    | redis =>
      have := (redis_handler hs hk hsrc).1
      rw [hd] at this
      cases this

theorem start_greeted (heap : Session → Fin kDefaultRingBufferSize → UInt8) :
    Greeted Ledger.start (start heap) where
  conn _ := rfl
  slots _ _ := Nat.le_refl 0

/-- **If bytes arrive only after the `ConnectHandler` of their connection, every connection starts
fresh.** -/
theorem fresh_start_run (redisGet : CStr → Option (List UInt8))
    (heap : Session → Fin kDefaultRingBufferSize → UInt8) (as : List Action)
    (hstored : ∀ x ∈ hist (step redisGet) (start heap) as, x.1.StoredAfterGreeting x.2) :
    ∀ bs a cs, as = bs ++ a :: cs →
      FreshStart (ledger redisGet (hist (step redisGet) (start heap) bs))
        (run (step redisGet) (start heap) bs) a := by
  intro bs a cs e
  have hs : ∀ bs, Sound (run (step redisGet) (start heap) bs) := run_sound redisGet heap
  have hC : ∀ bs a cs, as = bs ++ a :: cs →
      StoredAfterGreeting (run (step redisGet) (start heap) bs) a :=
    fun bs a cs e => hstored _ (split_mem_hist (step redisGet) e)
  have hI := hist_keeps (step redisGet)
    (I := fun h s => s.Sound ∧ Greeted (ledger redisGet h) s) (C := fun _ s a => s.StoredAfterGreeting a)
    ⟨start_sound heap, start_greeted heap⟩
    (fun h s a hI hC => ⟨step_sound redisGet hI.1 a, by
      rw [ledger_snoc]
      exact greeted_step redisGet hI.1 hI.2 hC⟩) bs
    (fun bs' a' cs' e' => hC bs' a' (cs' ++ a :: cs) (by rw [e, e', List.append_assoc]; rfl))
  exact hI.2.freshStart hI.1 (hC bs a cs e)

/-- user 0 sends its login request after `ConnectHandler` has run; the last step dispatches it -/
theorem fresh_start_run_login :
    (run (step fun _ => some [112]) (start fun _ _ => 0)
        ((Action.enterLobby 0 [97] [112]).take 8)).pc = .processPacket ⟨0, 201, 71, .ring 0 0⟩ ∧
      FreshStart (ledger (fun _ => some [112])
        (hist (step fun _ => some [112]) (start fun _ _ => 0) ((Action.enterLobby 0 [97] [112]).take 8)))
        (run (step fun _ => some [112]) (start fun _ _ => 0) ((Action.enterLobby 0 [97] [112]).take 8))
        (.loop Mem.zero) := by
  refine ⟨by decide +kernel, ?_⟩
  have h : ∀ x ∈ hist (step fun _ => some [112]) (start fun _ _ => 0)
      (Action.enterLobby 0 [97] [112]), x.1.StoredAfterGreeting x.2 := by
    decide +kernel
  exact fresh_start_run _ _ _ h _ _ (Action.loops 3 ++ Action.redis ++ Action.loops 4) rfl

/-- a connection is made and sends a login request, before the loop has looked at its queues -/
def hastyLogin : List Action := [.onConnect 0] ++ Action.receive 0 (loginPacket [97] [112])

/-- the loop takes the user queue first -/
theorem dispatched_before_connect :
    ∃ mem, ¬ FreshStart (ledger (fun _ => none)
        (hist (step fun _ => none) (start fun _ _ => 0) (hastyLogin ++ Action.loops 1)))
      (run (step fun _ => none) (start fun _ _ => 0) (hastyLogin ++ Action.loops 1)) (.loop mem) := by
  refine ⟨Mem.zero, fun h => ?_⟩
  have hpc : (run (step fun _ => none) (start fun _ _ => 0) (hastyLogin ++ Action.loops 1)).pc
      = .processPacket ⟨0, 201, 71, .ring 0 0⟩ := by
    decide +kernel
  have horigin : 1 ∈ (ledger (fun _ => none)
      (hist (step fun _ => none) (start fun _ _ => 0) (hastyLogin ++ Action.loops 1))).origin 0 71 := by
    decide +kernel
  have hgreeted : (ledger (fun _ => none)
      (hist (step fun _ => none) (start fun _ _ => 0) (hastyLogin ++ Action.loops 1))).greeted 0
        = 0 := by
    decide +kernel
  have hle := h.dispatched _ Mem.zero 0 hpc rfl (by decide) 1 horigin
  rw [hgreeted] at hle
  exact absurd hle (by decide)

end Server

end Iocp
