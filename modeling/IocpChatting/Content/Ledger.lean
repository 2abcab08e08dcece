import IocpChatting.Content.Steps
import Mathlib.Data.List.InsertIdx

/-!
# A ledger of connections

A session index is used by one connection after another, and no code keeps count.  `Ledger` is what
an observer notes beside a run: how many connections each index has had and how many of them have
been greeted by `ConnectHandler`, for every byte in a ring the connection that it came from, for
every login task the connections that its packet came from.

* `Ledger.note`      the notes on one step;
* `ledger_synced`    the notes keep step with the rings and the queues.
-/

set_option linter.unusedSectionVars false
set_option autoImplicit false

namespace Iocp
open Runs
open UserManager (getUserByIndex)

/-- a login task and the connections that its packet's bytes came from -/
abbrev Tagged := RedisTask × List Nat

structure Ledger where
  /-- connections accepted so far -/
  conn : Session → Nat
  /-- of these, whose `ConnectHandler` has run -/
  greeted : Session → Nat
  rings : Session → RingBuffer Nat kDefaultRingBufferSize
  requests : List Tagged
  workers : List Tagged
  responses : List Tagged
  held : Option Tagged

namespace Ledger

def start : Ledger where
  conn := fun _ => 0
  greeted := fun _ => 0
  rings := fun _ => RingBuffer.init (fun _ => 0) kDefaultRingBufferSize_pos
  requests := []
  workers := []
  responses := []
  held := none

def setRing (L : Ledger) (p : Session) (r : RingBuffer Nat kDefaultRingBufferSize) : Ledger :=
  { L with rings := Function.update L.rings p r }

/-- the connections that the first packet in the ring of `p` came from, header included -/
def origin (L : Ledger) (p : Session) (size : Nat) : List Nat :=
  (L.rings p).contents.take (max packetHeaderLength size)

def callOrigin (L : Ledger) (k : Call) : List Nat :=
  match k.session with
  | none => []
  | some p => L.origin p k.pkt.size

def greet (L : Ledger) (p : Session) (source : Source) : Ledger :=
  { L.setRing p (L.rings p).clearBuffer with
    greeted := if source = .system then Function.update L.greeted p (L.greeted p + 1) else L.greeted }

def noteCall (L : Ledger) (c : Chat) (k : Call) : Ledger :=
  let L := { L with requests := L.requests ++ (k.request c).map fun t => (t, L.callOrigin k) }
  match k.handler, k.session with
  | .connect, some p => L.greet p k.source
  | _, _ => L

section
variable (redisGet : CStr → Option (List UInt8))

def note (L : Ledger) (x : Server × Server.Action) : Ledger :=
  match x.2 with
  | .onConnect i => { L with conn := Function.update L.conn i (L.conn i + 1) }
  | .onDisconnect _ => L
  | .onRecv i data => L.setRing i ((L.rings i).enqueue (List.replicate data.length (L.conn i))).1
  | .pushIndex _ => L
  | .redisTake =>
    match L.requests with
    | [] => L
    | t :: rest => { L with requests := rest, workers := L.workers ++ [t] }
  | .redisPut k mem =>
    match L.workers[k]? with
    | none => L
    | some t =>
      { L with
        workers := L.workers.eraseIdx k
        responses := L.responses ++ (processTask redisGet mem t.1).toList.map fun r => (r, t.2) }
  | .loop mem =>
    match x.1.call (.loop mem), x.1.pc with
    | some k, _ => L.noteCall x.1.chat k
    | none, .completeProcess pkt =>
      match getUserByIndex (int32 pkt.sessionIndex) with
      | none => L
      | some p => L.setRing p ((L.rings p).moveFront pkt.size)
    | none, .getTaskRes =>
      match L.responses with
      | [] => L
      | t :: rest => { L with responses := rest, held := some t }
    | none, _ => L

end

end Ledger

namespace Server

section
variable (redisGet : CStr → Option (List UInt8))

def ledger (h : History) : Ledger := h.foldl (Ledger.note redisGet) Ledger.start

theorem ledger_snoc (h : History) (x : Server × Action) :
    ledger redisGet (h ++ [x]) = (ledger redisGet h).note redisGet x := by
  rw [ledger, List.foldl_append]
  rfl

end

/-! ## the notes keep step -/

/-- the rings and the queues of the ledger are those of the server, and every task in flight has
`Q` -/
structure Synced (Q : Tagged → Prop) (L : Ledger) (s : Server) : Prop where
  rings : ∀ p, RingBuffer.Aligned (s.chat.bufs p) (L.rings p)
  requests : L.requests.map Prod.fst = s.chat.taskReqQueue
  workers : L.workers.map Prod.fst = s.workers
  responses : L.responses.map Prod.fst = s.taskResQueue
  tagged : ∀ x ∈ L.requests ++ L.workers ++ L.responses, Q x
  held : ∀ t, s.pc = .processTaskRes t → ∃ tags, L.held = some (t, tags) ∧ Q (t, tags)

theorem noteCall_rings (L : Ledger) (c : Chat) (k : Call) (p : Session) :
    (L.noteCall c k).rings p =
      if k.handler = .connect ∧ k.session = some p then (L.rings p).clearBuffer else L.rings p := by
  unfold Ledger.noteCall
  cases hd : k.handler with
  | connect =>
    cases hq : k.session with
    | none => rfl
    | some q =>
      show Function.update L.rings q _ p = _
      by_cases hp : p = q
      · subst hp
        rw [Function.update_self, if_pos ⟨rfl, rfl⟩]
      · rw [Function.update_of_ne hp, if_neg]
        rintro ⟨_, e⟩
        exact hp (Option.some.inj e).symm
  | _ => rfl

theorem noteCall_tasks (L : Ledger) (c : Chat) (k : Call) :
    (L.noteCall c k).requests = L.requests ++ (k.request c).map (fun t => (t, L.callOrigin k)) ∧
      (L.noteCall c k).workers = L.workers ∧ (L.noteCall c k).responses = L.responses ∧
      (L.noteCall c k).conn = L.conn := by
  unfold Ledger.noteCall
  cases k.handler with
  | connect =>
    cases k.session with
    | none => exact ⟨rfl, rfl, rfl, rfl⟩
    | some q => exact ⟨rfl, rfl, rfl, rfl⟩
  | _ => exact ⟨rfl, rfl, rfl, rfl⟩

variable {Q : Tagged → Prop} {L : Ledger} {s : Server}

theorem synced_call {k : Call} {mem : Mem} (h : Synced Q L s) (hk : s.call (.loop mem) = some k)
    (hreq : ∀ t ∈ k.request s.chat, Q (t, L.callOrigin k)) :
    Synced Q (L.noteCall s.chat k) { s with chat := k.run s.chat, pc := s.pc.ran } := by
  obtain ⟨h1, h2, h3, _⟩ := noteCall_tasks L s.chat k
  refine ⟨fun p => ?_, ?_, ?_, ?_, fun x hx => ?_, fun t ht => ?_⟩
  · show RingBuffer.Aligned ((k.run s.chat).bufs p) _
    rw [call_bufs, noteCall_rings]
    by_cases hc : k.handler = .connect ∧ k.session = some p
    · rw [if_pos hc, if_pos hc]
      exact RingBuffer.aligned_clearBuffer _ _
    · rw [if_neg hc, if_neg hc]
      exact h.rings p
  · show _ = (k.run s.chat).taskReqQueue
    rw [call_taskReqQueue, h1, List.map_append, List.map_map, h.requests]
    congr 1
    exact List.map_id' _
  · rw [h2]
    exact h.workers
  · rw [h3]
    exact h.responses
  · rw [h1, h2, h3] at hx
    simp only [List.mem_append, List.mem_map] at hx
    rcases hx with ((hx | ⟨t, ht, rfl⟩) | hx) | hx
    · exact h.tagged x (by simp [hx])
    · exact hreq t ht
    · exact h.tagged x (by simp [hx])
    · exact h.tagged x (by simp [hx])
  · have hran := LoopPc.ran_packet (call_spec hk).2.1
    rw [show s.pc.ran = _ from ht] at hran
    cases hran

theorem aligned_setRing {c : Chat} {p : Session} {u : User}
    {r : RingBuffer Nat kDefaultRingBufferSize} (h : ∀ q, RingBuffer.Aligned (c.bufs q) (L.rings q))
    (hr : RingBuffer.Aligned u.packetBuf r) (q : Session) :
    RingBuffer.Aligned ((c.setUser p u).bufs q) ((L.setRing p r).rings q) := by
  rw [Chat.bufs_setUser]
  show RingBuffer.Aligned _ (Function.update L.rings p r q)
  by_cases hq : q = p
  · subst hq
    rw [Function.update_self, Function.update_self]
    exact hr
  · rw [Function.update_of_ne hq, Function.update_of_ne hq]
    exact h q

theorem synced_move {pc : LoopPc} (h : Synced Q L s) (hpc : pc.packet = none) :
    Synced Q L { s with pc := pc } := by
  refine ⟨h.rings, h.requests, h.workers, h.responses, h.tagged, fun t ht => ?_⟩
  rw [show pc = _ from ht] at hpc
  cases hpc

theorem synced_step (redisGet : CStr → Option (List UInt8)) (a : Action) (h : Synced Q L s)
    (hreq : ∀ k, s.call a = some k → ∀ t ∈ k.request s.chat, Q (t, L.callOrigin k))
    (hput : ∀ mem t r tags, Q (t, tags) → processTask redisGet mem t = some r → Q (r, tags)) :
    Synced Q (L.note redisGet (s, a)) (step redisGet s a) := by
  have he := step_effect redisGet s a
  generalize step redisGet s a = s' at he
  cases he with
  | noPush hi => exact h
  | noRequest hq =>
    have hL : L.requests = [] := List.map_eq_nil_iff.mp (h.requests.trans hq)
    simp only [Ledger.note, hL]
    exact h
  | @noWorker k mem hk =>
    have hL : L.workers[k]? = none := by
      rw [← h.workers, List.getElem?_map, Option.map_eq_none_iff] at hk
      exact hk
    simp only [Ledger.note, hL]
    exact h
  | onConnect | onDisconnect | pushIndex =>
    exact ⟨h.rings, h.requests, h.workers, h.responses, h.tagged, h.held⟩
  | onRecv i data =>
    refine ⟨aligned_setRing h.rings ?_, h.requests, h.workers, h.responses, h.tagged, h.held⟩
    exact (h.rings i).enqueue List.length_replicate
  | @noIndex mem hpc | @noSystem mem hpc =>
    have hcall : s.call (.loop mem) = none := call_eq_none (by rw [hpc]; rfl)
    simp only [Ledger.note, hcall, hpc]
    exact synced_move h rfl
  | @noPacket mem i rest hpc | @dequeue mem i rest p pkt hpc | @repush mem i hpc
  | @system mem pkt rest hpc =>
    have hcall : s.call (.loop mem) = none := call_eq_none (by rw [hpc]; rfl)
    simp only [Ledger.note, hcall, hpc]
    exact ⟨h.rings, h.requests, h.workers, h.responses, h.tagged, fun t ht => by cases ht⟩
  | call hk =>
    simp only [Ledger.note, hk]
    exact synced_call h hk (hreq _ hk)
  | @skip mem source pkt hpc hid =>
    have hcall : s.call (.loop mem) = none := by
      simp only [Server.call, hpc, hid, Option.map_none]
    have hnote : L.note redisGet (s, .loop mem) = L := by
      simp only [Ledger.note, hcall]
      cases hp : s.pc with
      | completeProcess | getTaskRes => rw [hp] at hpc; cases hpc
      | _ => rfl
    rw [hnote]
    exact synced_move h (LoopPc.skipped_packet hpc)
  | @complete mem pkt hpc =>
    have hcall : s.call (.loop mem) = none := call_eq_none (by rw [hpc]; rfl)
    simp only [Ledger.note, hcall, hpc]
    refine synced_move (s := s.afterComplete pkt) ?_ (complete_packet s pkt)
    unfold afterComplete UserManager.completeProcess
    cases getUserByIndex (int32 pkt.sessionIndex) with
    | none => exact h
    | some p =>
      refine ⟨aligned_setRing h.rings ?_, h.requests, h.workers, h.responses, h.tagged, h.held⟩
      exact (h.rings p).moveFront pkt.size
  | @noTask mem hpc hq =>
    have hcall : s.call (.loop mem) = none := call_eq_none (by rw [hpc]; rfl)
    have hL : L.responses = [] := List.map_eq_nil_iff.mp (h.responses.trans hq)
    simp only [Ledger.note, hcall, hpc, hL]
    exact synced_move h rfl
  | @task mem t rest hpc hq =>
    have hcall : s.call (.loop mem) = none := call_eq_none (by rw [hpc]; rfl)
    obtain ⟨⟨t', tags⟩, l, hL, hx, hl⟩ := List.map_eq_cons_iff.mp (h.responses.trans hq)
    simp only at hx
    subst hx
    have htag := h.tagged
    rw [hL] at htag
    simp only [Ledger.note, hcall, hpc, hL]
    refine ⟨h.rings, h.requests, h.workers, hl, fun x hx => htag x ?_, fun u hu => ?_⟩
    · simp only [List.mem_append, List.mem_cons] at hx ⊢
      exact hx.imp_right .inr
    · cases hu
      exact ⟨tags, rfl, htag _ (by simp)⟩
  | @take t rest hq =>
    obtain ⟨x, l, hL, hx, hl⟩ := List.map_eq_cons_iff.mp (h.requests.trans hq)
    have htag := h.tagged
    rw [hL] at htag
    simp only [Ledger.note, hL]
    refine ⟨h.rings, hl, ?_, h.responses, fun y hy => htag y ?_, h.held⟩
    · rw [List.map_append, h.workers, ← hx]
      rfl
    · simp only [List.mem_append, List.mem_cons, List.not_mem_nil, or_false] at hy ⊢
      tauto
  | @put k mem t hk =>
    -- the answer inherits the connections of its request
    rw [← h.workers, List.getElem?_map, Option.map_eq_some_iff] at hk
    obtain ⟨x, hL, hx⟩ := hk
    have hQ : Q x := h.tagged x (by simp [List.mem_of_getElem? hL])
    simp only [Ledger.note, hL]
    refine ⟨h.rings, h.requests, ?_, ?_, fun y hy => ?_, h.held⟩
    · rw [← h.workers, List.eraseIdx_map]
    · rw [List.map_append, List.map_map, h.responses, ← hx]
      congr 1
      exact List.map_id' _
    · simp only [List.mem_append, List.mem_map, Option.mem_toList] at hy
      rcases hy with (hy | hy) | hy | ⟨r, hr, rfl⟩
      · exact h.tagged y (by simp [hy])
      · exact h.tagged y (by simp [List.mem_of_mem_eraseIdx hy])
      · exact h.tagged y (by simp [hy])
      · exact hput mem x.1 r x.2 hQ hr

theorem start_synced (Q : Tagged → Prop) (heap : Session → Fin kDefaultRingBufferSize → UInt8) :
    Synced Q Ledger.start (start heap) where
  rings _ := ⟨rfl, rfl⟩
  requests := rfl
  workers := rfl
  responses := rfl
  tagged x hx := by cases hx
  held t ht := by cases ht

/-- **The notes keep step with the server.** -/
theorem ledger_synced (redisGet : CStr → Option (List UInt8))
    (heap : Session → Fin kDefaultRingBufferSize → UInt8) (as : List Action) :
    Synced (fun _ => True) (ledger redisGet (hist (step redisGet) (start heap) as))
      (run (step redisGet) (start heap) as) := by
  refine hist_keeps (step redisGet) (I := fun h s => Synced (fun _ => True) (ledger redisGet h) s)
    (C := fun _ _ _ => True) (start_synced _ heap) (fun h s a hI _ => ?_) as (fun _ _ _ _ => trivial)
  rw [ledger_snoc]
  exact synced_step redisGet a hI (fun _ _ _ _ => trivial) (fun _ _ _ _ _ _ => trivial)

theorem note_conn (redisGet : CStr → Option (List UInt8)) (a : Action) :
    (L.note redisGet (s, a)).conn =
      match a with
      | .onConnect i => Function.update L.conn i (L.conn i + 1)
      | _ => L.conn := by
  cases a with
  | onConnect i => rfl
  | onDisconnect i => rfl
  | onRecv i data => rfl
  | pushIndex i => rfl
  | redisTake =>
    simp only [Ledger.note]
    split <;> rfl
  | redisPut k mem =>
    simp only [Ledger.note]
    split <;> rfl
  | loop mem =>
    simp only [Ledger.note]
    split
    · exact (noteCall_tasks L s.chat _).2.2.2
    · split <;> rfl
    · split <;> rfl
    · rfl

end Server

end Iocp
