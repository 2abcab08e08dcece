import IocpChatting.System.Inbound

/-!
# Packets on their way out

From the handler that builds a packet to the bytes that Winsock accepts.

* `run_made`            every packet that a handler sends is given to `SendPacket` once, in order;
* `sentPackets_made`, `enqueuedBytes_made`   and what that is to the send ring of a session;
* `handed_on_iff`       the send ring of a session gets whole packets of the handlers, in order, exactly if
                        each finds room or none at all;
* `delivered_run`       Winsock accepts for a live connection an initial part of what the handlers send
                        to it.
-/

set_option linter.unusedSectionVars false
set_option autoImplicit false

namespace Iocp
open Runs Framing
open Network (SessionIdx getSessionByIdx acceptedBytes enqueuedBytes sentPackets Framed FitsOrFull
  WithRoom SendsOnce)

namespace Network

variable {W : Nat} {s : Network W} {i : SessionIdx}

/-- a run on a live connection, from any state in which no send is in its ring -/
theorem accepted_of_sending (hs : s.Sound) (ho : (s.slot i).Owned) (hidle : s.bindSendRuns i = false)
    {as : List (Action W)} (hroom : ∀ x ∈ hist step s as, WithRoom i x.1 x.2)
    (hC : ∀ cs a ds, as = cs ++ a :: ds → SendsOnce i (hist step s cs) (run step s cs) a) :
    acceptedBytes i (hist step s as) <+: (s.session i).sendBuf.contents ++ enqueuedBytes i (hist step s as) := by
  have hout := not_sending (sendLocked_of_idle hidle)
  have hstart : InOrder i [] (s.session i).sendBuf.contents s := by
    refine ⟨?_, ?_, fun bufs hb => absurd hb (hout.2 bufs)⟩
    · rw [hout.1, List.drop_zero, List.nil_append]
    · rw [hout.1]
      exact Nat.zero_le _
  have h := @hist_keeps _ _ step (Sending i (s.session i).sendBuf.contents)
    (fun h s a => WithRoom i s a ∧ SendsOnce i h s a) s
    ⟨hs, ho, List.nil_prefix, fun _ => by simpa [acceptedBytes, enqueuedBytes] using hstart⟩
    (fun h s a hI hC => sending_step hI hC.1 hC.2) as
    (fun cs a ds e => ⟨hroom (run step s cs, a) (split_mem_hist step e), hC cs a ds e⟩)
  exact h.initial

end Network

namespace ChatServer

variable {W : Nat} {s : ChatServer W} {i : SessionIdx}

/-! ## the calls of `SendPacket` -/

/-- the calls made in a history -/
def made (H : History W) : List Sent := H.filterMap fun x => x.1.sendCall x.2

theorem made_snoc (H : History W) (s : ChatServer W) (a : Action W) :
    made (H ++ [(s, a)]) = made H ++ (s.sendCall a).toList := by
  unfold made
  rw [List.filterMap_append]
  cases h : s.sendCall a <;> simp [h]

/-- `p` is sent to session `i` -/
def sentTo (i : SessionIdx) (p : Sent) : Bool := getSessionByIdx (int32 p.idx) == some i

section
variable (redisGet : CStr → Option (List UInt8))

theorem sends_other {t : Server} {a : Server.Action} (h : ∀ mem, a ≠ .loop mem) : t.sends a = [] := by
  cases a with
  | loop mem => exact absurd rfl (h mem)
  | _ => rfl

theorem action_ne_loop (recvBuf : Nat → UInt8) (k : Callback) : ∀ mem, k.action recvBuf ≠ .loop mem := by
  intro mem
  cases k <;> exact Server.Action.noConfusion

/-- what a step of the content sends goes to the packet loop, which calls `SendPacket` for the first
that is left -/
theorem step_made (hs : s.server.chat.Fixed) (a : Action W) :
    ∃ new, (step redisGet s a).server.chat.sent = s.server.chat.sent ++ new ∧
      s.calls ++ new = (s.sendCall a).toList ++ (step redisGet s a).calls := by
  -- a step that sends nothing and leaves the calls alone
  have hsame : ∀ {t : ChatServer W}, s.sendCall a = none → t.server.chat.sent = s.server.chat.sent →
      t.calls = s.calls → ∃ new, t.server.chat.sent = s.server.chat.sent ++ new ∧
        s.calls ++ new = (s.sendCall a).toList ++ t.calls := by
    intro t hn hsent hcalls
    refine ⟨[], ?_, ?_⟩
    · rw [hsent, List.append_nil]
    · rw [hn, hcalls, List.append_nil]
      rfl
  have hquiet : ∀ b : Server.Action, (∀ mem, b ≠ .loop mem) →
      (s.server.step redisGet b).chat.sent = s.server.chat.sent := by
    intro b hb
    rw [Server.step_sent redisGet hs, sends_other hb, List.append_nil]
  unfold step
  cases hc : s.network.crashed with
  | true =>
    rw [if_pos rfl]
    refine hsame ?_ rfl rfl
    cases a with
    | loop mem =>
      simp only [sendCall]
      split
      · rfl
      · rw [hc]
        rfl
    | _ => rfl
  | false =>
    rw [if_neg Bool.false_ne_true]
    cases a with
    | worker w ok recvBuf =>
      simp only [workerStep]
      cases s.pushing w with
      | some j => exact hsame rfl (hquiet _ fun mem => by simp) rfl
      | none =>
        cases callback s.network w with
        | none => exact hsame rfl rfl rfl
        | some k =>
          have hk := hquiet _ (action_ne_loop recvBuf k)
          cases k with
          | onConnect j => exact hsame rfl hk rfl
          | onDisconnect j => exact hsame rfl hk rfl
          | onRecv j n => exact hsame rfl hk rfl
    | loop mem =>
      simp only [loopStep]
      cases hcalls : s.calls with
      | nil =>
        have hsent := Server.step_sent redisGet hs (.loop mem)
        refine ⟨s.server.sends (.loop mem), hsent, ?_⟩
        simp only [sendCall, hcalls, Option.toList_none, List.nil_append]
        show _ = ((s.server.step redisGet (.loop mem)).chat.sent).drop _
        rw [hsent, List.drop_left]
      | cons x rest =>
        simp only
        cases hw : sendWaits s.network x with
        | true =>
          have hn : s.sendCall (.loop mem) = none := by simp [sendCall, hcalls, hw]
          rw [if_pos rfl, ← hcalls]
          exact hsame hn rfl rfl
        | false =>
          have hn : s.sendCall (.loop mem) = some x := by simp [sendCall, hcalls, hw, hc]
          rw [if_neg Bool.false_ne_true, hn]
          exact ⟨[], (List.append_nil _).symm, List.append_nil _⟩
    | redisTake => exact hsame rfl (hquiet _ fun mem => by simp) rfl
    | redisPut k mem => exact hsame rfl (hquiet _ fun mem => by simp) rfl
    | accepter | sender | complete | tick | post | stopWorkers | stopAccepter | stopSender =>
      exact hsame rfl rfl rfl

theorem step_fixed (hs : s.server.chat.Fixed) (a : Action W) : (step redisGet s a).server.chat.Fixed := by
  rw [step_server]
  cases s.serverCall a with
  | none => exact hs
  | some b => exact Server.step_fixed redisGet hs b

/-- **Every packet sent is given to `SendPacket` once, in order.** -/
theorem run_made (hs : s.server.chat.Fixed) (as : List (Action W)) :
    ∃ new, (run (step redisGet) s as).server.chat.sent = s.server.chat.sent ++ new ∧
      s.calls ++ new = made (hist (step redisGet) s as) ++ (run (step redisGet) s as).calls := by
  induction as using List.reverseRecOn with
  | nil => exact ⟨[], (List.append_nil _).symm, List.append_nil _⟩
  | append_singleton as a ih =>
    obtain ⟨new, hsent, hcalls⟩ := ih
    have hf := @run_keeps_all _ _ (step redisGet) (fun s : ChatServer W => s.server.chat.Fixed)
      (fun _ a h => step_fixed redisGet h a) s hs as
    obtain ⟨new', hsent', hcalls'⟩ := step_made redisGet hf a
    refine ⟨new ++ new', ?_, ?_⟩
    · rw [run_snoc, hsent', hsent, List.append_assoc]
    · rw [run_snoc, hist_snoc, made_snoc, ← List.append_assoc, hcalls, List.append_assoc, hcalls',
        List.append_assoc]

/-! ## what they are to the send ring of a session -/

/-- the bytes of a call that are for `i` -/
def bytesFor (i : SessionIdx) (x : Sent) : List UInt8 := if sentTo i x then x.pkt.bytes else []

/-- a call that is made does not wait, so the whole packet is enqueued -/
theorem enqueued_call (s : ChatServer W) (a : Action W) :
    ((s.networkCall a).map (s.network.enqueued i)).toList.filter (· ≠ [])
      = ((s.sendCall a).map (bytesFor i)).toList.filter (· ≠ []) := by
  have hnone : ∀ {b : Network.Action W}, s.network.enqueued i b = [] → s.networkCall a = some b →
      s.sendCall a = none → ((s.networkCall a).map (s.network.enqueued i)).toList.filter (· ≠ [])
        = ((s.sendCall a).map (bytesFor i)).toList.filter (· ≠ []) := by
    intro b hb hn hsend
    rw [hn, hsend, Option.map_some, hb]
    rfl
  cases hc : s.network.crashed with
  | true =>
    have hn : s.networkCall a = none := by simp [networkCall, hc]
    have hsend : s.sendCall a = none := by
      cases a with
      | loop mem =>
        simp only [sendCall]
        split
        · rfl
        · rw [hc]
          rfl
      | _ => rfl
    rw [hn, hsend]
    rfl
  | false =>
    cases a with
    | loop mem =>
      have hn : s.networkCall (.loop mem)
          = (s.sendCall (.loop mem)).map fun x => .sendPacket (int32 x.idx) x.pkt.bytes := by
        simp [networkCall, hc]
      cases hsend : s.sendCall (.loop mem) with
      | none => rw [hn, hsend]; rfl
      | some x =>
        have hwait : sendWaits s.network x = false := by
          simp only [sendCall] at hsend
          split at hsend
          · cases hsend
          · split at hsend
            · cases hsend
            · next y rest _ hw =>
              cases hsend
              simp only [Bool.or_eq_true, not_or, Bool.not_eq_true] at hw
              exact hw.2
        have henq : s.network.enqueued i (.sendPacket (int32 x.idx) x.pkt.bytes) = bytesFor i x := by
          show (if _ ∧ _ ∧ _ then x.pkt.bytes else []) = bytesFor i x
          unfold bytesFor sentTo
          by_cases hi : getSessionByIdx (int32 x.idx) = some i
          · have hlock : s.network.sendLocked i = false := by simpa [sendWaits, hi] using hwait
            rw [if_pos ⟨hc, hi, hlock⟩, if_pos (by simp [hi])]
          · rw [if_neg (fun h => hi h.2.1), if_neg (by simpa using hi)]
        rw [hn, hsend, Option.map_some, Option.map_some, Option.map_some, henq]
    | worker w ok recvBuf =>
      simp only [networkCall, hc, sendCall]
      split
      · rfl
      · split <;> rfl
    | redisTake => simp [networkCall, hc, sendCall]
    | redisPut k mem => simp [networkCall, hc, sendCall]
    | accepter ok => exact hnone (b := .accepter ok) rfl (by simp [networkCall, hc]) rfl
    | sender r => exact hnone (b := .sender r) rfl (by simp [networkCall, hc]) rfl
    | complete k ok n => exact hnone (b := .complete k ok n) rfl (by simp [networkCall, hc]) rfl
    | tick t => exact hnone (b := .tick t) rfl (by simp [networkCall, hc]) rfl
    | post n => exact hnone (b := .post n) rfl (by simp [networkCall, hc]) rfl
    | stopWorkers => exact hnone (b := .stopWorkers) rfl (by simp [networkCall, hc]) rfl
    | stopAccepter => exact hnone (b := .stopAccepter) rfl (by simp [networkCall, hc]) rfl
    | stopSender => exact hnone (b := .stopSender) rfl (by simp [networkCall, hc]) rfl

theorem bytes_ne_nil (p : Packet) : p.bytes ≠ [] := by
  intro h
  have hlen := p.bytes_length
  rw [h, List.length_nil] at hlen
  unfold packetHeaderLength at hlen
  omega

/-- the packets given to `SendPacket` for `i`, as the network sees them and as the content does -/
theorem sentPackets_made (H : History W) :
    sentPackets i (networkHistory H) = ((made H).filter (sentTo i)).map fun x => x.pkt.bytes := by
  induction H with
  | nil => rfl
  | cons x H ih =>
    have hhead := enqueued_call (i := i) x.1 x.2
    have hleft : sentPackets i (networkHistory (x :: H))
        = ((x.1.networkCall x.2).map (x.1.network.enqueued i)).toList.filter (· ≠ [])
          ++ sentPackets i (networkHistory H) := by
      unfold sentPackets networkHistory
      cases hn : x.1.networkCall x.2 with
      | none => simp [hn]
      | some b =>
        simp only [List.filterMap_cons, hn, Option.map_some, List.map_cons, Option.toList_some]
        rw [← List.singleton_append, List.filter_append]
    have hright : ((made (x :: H)).filter (sentTo i)).map (fun x => x.pkt.bytes)
        = ((x.1.sendCall x.2).map (bytesFor i)).toList.filter (· ≠ [])
          ++ ((made H).filter (sentTo i)).map fun x => x.pkt.bytes := by
      unfold made
      cases hsend : x.1.sendCall x.2 with
      | none => simp [hsend]
      | some y =>
        simp only [List.filterMap_cons, hsend, Option.map_some, Option.toList_some]
        cases hto : sentTo i y with
        | true => simp [hto, bytesFor, bytes_ne_nil]
        | false => simp [hto, bytesFor]
    rw [hleft, hright, hhead, ih]

theorem flatten_filter_ne_nil {α : Type} [DecidableEq α] (l : List (List α)) :
    (l.filter (· ≠ [])).flatten = l.flatten := by
  induction l with
  | nil => rfl
  | cons x l ih =>
    by_cases h : x = []
    · rw [h, List.filter_cons_of_neg (by simp), ih]
      rfl
    · rw [List.filter_cons_of_pos (by simpa using h), List.flatten_cons, List.flatten_cons, ih]

theorem enqueuedBytes_made (H : History W) :
    enqueuedBytes i (networkHistory H) = ((made H).filter (sentTo i)).flatMap fun x => x.pkt.bytes := by
  have h := congrArg List.flatten (sentPackets_made (i := i) H)
  unfold sentPackets at h
  rw [flatten_filter_ne_nil] at h
  rw [enqueuedBytes, List.flatMap_def, List.flatMap_def]
  exact h

/-- from a state in which no send of `i` is under way, Winsock accepts an initial part of what is in the ring, of
the calls that are left and of what is sent -/
theorem accepted_of_made (hs : s.network.Sound) (ho : (s.network.slot i).Owned) (hf : s.server.chat.Fixed)
    (hidle : s.network.bindSendRuns i = false) {bs : List (Action W)}
    (hroom : ∀ y ∈ networkHistory (hist (step redisGet) s bs), WithRoom i y.1 y.2)
    (hC : ∀ cs a ds, networkActions (hist (step redisGet) s bs) = cs ++ a :: ds →
      SendsOnce i (hist Network.step s.network cs) (run Network.step s.network cs) a) :
    ∃ new, (run (step redisGet) s bs).server.chat.sent = s.server.chat.sent ++ new ∧
      acceptedBytes i (networkHistory (hist (step redisGet) s bs)) <+:
        (s.network.session i).sendBuf.contents
          ++ ((s.calls ++ new).filter (sentTo i)).flatMap fun x => x.pkt.bytes := by
  obtain ⟨new, hsent, hcalls⟩ := run_made redisGet hf bs
  refine ⟨new, hsent, ?_⟩
  -- what has been enqueued is part of what has been sent
  have henq : enqueuedBytes i (networkHistory (hist (step redisGet) s bs)) <+:
      ((s.calls ++ new).filter (sentTo i)).flatMap fun x => x.pkt.bytes := by
    rw [enqueuedBytes_made, hcalls, List.filter_append, List.flatMap_append]
    exact List.prefix_append _ _
  refine List.IsPrefix.trans ?_ ((List.prefix_append_right_inj _).mpr henq)
  have hnet := (run_network redisGet s bs).2
  rw [← hnet] at hroom ⊢
  exact Network.accepted_of_sending hs ho hidle hroom hC

end

/-! ## runs -/

section
variable (redisGet : CStr → Option (List UInt8))
variable (heap : SessionIdx → Fin kDefaultRingBufferSize → UInt8)
  (userHeap : Session → Fin kDefaultRingBufferSize → UInt8) (clock : Network.Seconds)

/-- the packets that the handlers have sent to `i` -/
def packetsTo (s : ChatServer W) (i : SessionIdx) : List (List UInt8) :=
  (s.server.chat.sent.filter (sentTo i)).map fun x => x.pkt.bytes

theorem run_fixed (as : List (Action W)) :
    (run (step redisGet) (start W heap userHeap clock) as).server.chat.Fixed :=
  (run_server_sound redisGet heap userHeap clock as).fixed

/-- a call made in a run is one of a packet that has been sent in it -/
theorem made_packed (as : List (Action W)) :
    ∀ x ∈ made (hist (step redisGet) (start W heap userHeap clock) as), x.pkt.Packed := by
  intro x hx
  obtain ⟨new, hsent, hcalls⟩ := run_made redisGet
    (s := start W heap userHeap clock) (run_fixed redisGet heap userHeap clock []) as
  have hmem : x ∈ (run (step redisGet) (start W heap userHeap clock) as).server.chat.sent := by
    rw [hsent]
    have hnew : new = made _ ++ _ := hcalls
    exact List.mem_append_right _ (hnew ▸ List.mem_append_left _ hx)
  rw [run_server] at hmem
  exact Server.sent_packed redisGet userHeap _ x hmem

theorem fromHandler_network (as : List (Action W)) :
    ∀ a ∈ networkActions (hist (step redisGet) (start W heap userHeap clock) as), a.FromHandler := by
  intro a ha
  obtain ⟨x, hx, hcall⟩ := List.mem_filterMap.mp ha
  unfold networkCall at hcall
  split at hcall
  · cases hcall
  · split at hcall
    case h_2 mem hxa =>
      obtain ⟨y, hy, rfl⟩ := Option.map_eq_some_iff.mp hcall
      refine ⟨y.pkt, made_packed redisGet heap userHeap clock as y ?_, rfl⟩
      exact List.mem_filterMap.mpr ⟨x, hx, by rw [hxa]; exact hy⟩
    case h_1 =>
      split at hcall
      · cases hcall
      · cases hcall
        trivial
    all_goals cases hcall
    all_goals trivial

/-- **What the handlers send to a session is what `SendPacket` is called with for it and what the packet
loop has still to pass on.  The send ring gets whole packets of these, in order, exactly if each call
finds room for all of its packet or for nothing.** -/
theorem handed_on_iff (as : List (Action W)) (i : SessionIdx) :
    sentPackets i (networkHistory (hist (step redisGet) (start W heap userHeap clock) as))
        ++ ((run (step redisGet) (start W heap userHeap clock) as).calls.filter (sentTo i)).map
          (fun x => x.pkt.bytes)
      = (run (step redisGet) (start W heap userHeap clock) as).packetsTo i ∧
    ((∀ cs ds, networkActions (hist (step redisGet) (start W heap userHeap clock) as) = cs ++ ds →
        Framed i (hist Network.step (Network.start W heap clock) cs)) ↔
      ∀ y ∈ networkHistory (hist (step redisGet) (start W heap userHeap clock) as),
        FitsOrFull i y.1 y.2) := by
  constructor
  · obtain ⟨new, hsent, hcalls⟩ := run_made redisGet
      (s := start W heap userHeap clock) (run_fixed redisGet heap userHeap clock []) as
    have hnew : (run (step redisGet) (start W heap userHeap clock) as).server.chat.sent
        = made (hist (step redisGet) (start W heap userHeap clock) as)
          ++ (run (step redisGet) (start W heap userHeap clock) as).calls := by
      rw [hsent]
      exact hcalls
    rw [sentPackets_made, packetsTo, hnew, List.filter_append, List.map_append]
  · have hnet := (run_network redisGet (start W heap userHeap clock) as).2
    rw [← hnet]
    exact Network.framed_iff _ (fromHandler_network redisGet heap userHeap clock as)

/-- **While a connection is live, Winsock accepts for it an initial part of what is in its send ring
and of what the handlers send to it, as long as no packet finds its ring full and no send is started after
one that stays pending.** -/
theorem delivered_run (as bs : List (Action W)) (i : SessionIdx)
    (hidle : (run (step redisGet) (start W heap userHeap clock) as).network.bindSendRuns i = false)
    (hroom : ∀ y ∈ networkHistory
        (hist (step redisGet) (run (step redisGet) (start W heap userHeap clock) as) bs), WithRoom i y.1 y.2)
    (hC : ∀ cs a ds, networkActions
        (hist (step redisGet) (run (step redisGet) (start W heap userHeap clock) as) bs) = cs ++ a :: ds →
      SendsOnce i
        (hist Network.step (run (step redisGet) (start W heap userHeap clock) as).network cs)
        (run Network.step (run (step redisGet) (start W heap userHeap clock) as).network cs) a) :
    ∃ new, (run (step redisGet) (run (step redisGet) (start W heap userHeap clock) as) bs).server.chat.sent
        = (run (step redisGet) (start W heap userHeap clock) as).server.chat.sent ++ new ∧
      acceptedBytes i (networkHistory
          (hist (step redisGet) (run (step redisGet) (start W heap userHeap clock) as) bs)) <+:
        ((run (step redisGet) (start W heap userHeap clock) as).network.session i).sendBuf.contents
          ++ (((run (step redisGet) (start W heap userHeap clock) as).calls ++ new).filter
            (sentTo i)).flatMap fun x => x.pkt.bytes := by
  have howned : ((run (step redisGet) (start W heap userHeap clock) as).network.slot i).Owned := by
    rw [(run_network redisGet _ as).1]
    exact Network.run_owned heap clock _ i
  exact accepted_of_made redisGet (run_network_sound redisGet heap userHeap clock as) howned
    (run_fixed redisGet heap userHeap clock as) hidle hroom hC

end

/-- the login request of `comesIn` is answered, and the answer sent -/
def answersLogin : List (Action 2) :=
  List.replicate 9 (.loop Mem.zero) ++ [.redisTake, .redisPut 0 Mem.zero]
    ++ List.replicate 7 (.loop Mem.zero) ++ List.replicate 6 (.sender (.sent 7))

theorem delivered_answersLogin :
    ∃ new, (run (step fun _ => some [66]) (run (step fun _ => some [66])
          (start 2 (fun _ _ => 0) (fun _ _ => 0) 0) comesIn) answersLogin).server.chat.sent
        = (run (step fun _ => some [66]) (start 2 (fun _ _ => 0) (fun _ _ => 0) 0) comesIn).server.chat.sent
          ++ new ∧
      acceptedBytes 0 (networkHistory (hist (step fun _ => some [66]) (run (step fun _ => some [66])
          (start 2 (fun _ _ => 0) (fun _ _ => 0) 0) comesIn) answersLogin)) <+:
        ((run (step fun _ => some [66]) (start 2 (fun _ _ => 0) (fun _ _ => 0) 0)
            comesIn).network.session 0).sendBuf.contents
          ++ (((run (step fun _ => some [66]) (start 2 (fun _ _ => 0) (fun _ _ => 0) 0) comesIn).calls
            ++ new).filter (sentTo 0)).flatMap fun x => x.pkt.bytes :=
  delivered_run (fun _ => some [66]) (fun _ _ => 0) (fun _ _ => 0) 0 comesIn answersLogin 0
    (by decide +kernel) (by decide +kernel)
    (along_split Network.step (h := []) (s := (run (step fun _ => some [66])
      (start 2 (fun _ _ => 0) (fun _ _ => 0) 0) comesIn).network) (by decide +kernel))

/-- the answer is what Winsock gets -/
example : acceptedBytes 0 (networkHistory (hist (step fun _ => some [66])
    (run (step fun _ => some [66]) (start 2 (fun _ _ => 0) (fun _ _ => 0) 0) comesIn) answersLogin))
    = [7, 0, 202, 0, 0, 0, 0] := by
  decide +kernel

end ChatServer

end Iocp
