import IocpChatting.Redis.Server
import Mathlib.Data.List.Nodup

/-!
# The pools of the Redis client's servers (Content/RedisClient.cpp)

`Pooled h servers`: the servers are live and distinct, and what waits in their queues are live
connections of their own, each once; nothing was deleted twice.

One lemma for each operation: `Pooled.requested`, `Pooled.setIdle`, `Pooled.newConns`,
`Pooled.initServer`, `Pooled.newServer`, `Pooled.deleteServer`.  `Within s h h'` says what an operation
at the server `s` leaves alone.
-/

set_option linter.unusedSectionVars false
set_option autoImplicit false

namespace Iocp.Redis

/-! ## operations at one server -/

/-- other servers keep their queues; hosts, owners and the servers there are stay the same -/
structure Within (s : Nat) (h h' : Heap) : Prop where
  idle : ∀ s', s' ≠ s → h'.idle s' = h.idle s'
  vecHosts : ∀ s', (h'.servers s').vecHosts = (h.servers s').vecHosts
  server : ∀ c, c < h.nextConn → (h'.conns c).server = (h.conns c).server
  nextConn : h.nextConn ≤ h'.nextConn
  nextServ : h'.nextServ = h.nextServ
  deletedServs : h'.deletedServs = h.deletedServs

namespace Within

variable {s : Nat} {h h' h'' : Heap}

theorem refl : Within s h h := ⟨fun _ _ => rfl, fun _ => rfl, fun _ _ => rfl, le_rfl, rfl, rfl⟩

theorem trans (h1 : Within s h h') (h2 : Within s h' h'') : Within s h h'' where
  idle s' hs := (h2.idle s' hs).trans (h1.idle s' hs)
  vecHosts s' := (h2.vecHosts s').trans (h1.vecHosts s')
  server c hc := (h2.server c (lt_of_lt_of_le hc h1.nextConn)).trans (h1.server c hc)
  nextConn := le_trans h1.nextConn h2.nextConn
  nextServ := h2.nextServ.trans h1.nextServ
  deletedServs := h2.deletedServs.trans h1.deletedServs

theorem of_requested (hr : Requested h h') : Within s h h' where
  idle s' _ := hr.idle s'
  vecHosts := hr.vecHosts
  server c _ := hr.server c
  nextConn := le_of_eq hr.nextConn.symm
  nextServ := hr.nextServ
  deletedServs := hr.deletedServs

theorem setIdle (q : List Nat) : Within s h (h.setIdle s q) where
  idle s' hs := by simp [Heap.idle, Heap.setIdle, Heap.setServ, Function.update_of_ne hs]
  vecHosts s' := by
    by_cases e : s' = s
    · subst e
      simp [Heap.setIdle, Heap.setServ]
    · simp [Heap.setIdle, Heap.setServ, Function.update_of_ne e]
  server _ _ := rfl
  nextConn := le_rfl
  nextServ := rfl
  deletedServs := rfl

end Within

theorem idle_setIdle (h : Heap) (s : Nat) (q : List Nat) : (h.setIdle s q).idle s = q := by
  simp [Heap.idle, Heap.setIdle, Heap.setServ]

theorem HostsOk.setIdle {h : Heap} (h0 : HostsOk h) (s : Nat) (q : List Nat) : HostsOk (h.setIdle s q) := by
  constructor
  · intro c addr ha
    obtain ⟨h1, h2⟩ := h0.context c addr ha
    refine ⟨?_, h2⟩
    rw [(Within.setIdle (s := s) (h := h) q).vecHosts]
    exact h1
  · intro s' hs'
    rw [(Within.setIdle (s := s) (h := h) q).vecHosts]
    by_cases e : s' = s
    · subst e
      simp only [Heap.setIdle, Heap.setServ, Function.update_self] at hs' ⊢
      exact h0.host s' hs'
    · simp only [Heap.setIdle, Heap.setServ, Function.update_of_ne e] at hs' ⊢
      exact h0.host s' hs'

/-! ## the invariant -/

/-- a live connection of `s` -/
structure Owned (h : Heap) (s c : Nat) : Prop where
  server : (h.conns c).server = s
  made : c < h.nextConn
  live : c ∉ h.deletedConns

structure Pooled (h : Heap) (servers : List Nat) : Prop where
  nodup : servers.Nodup
  live : ∀ s ∈ servers, s < h.nextServ ∧ s ∉ h.deletedServs
  idleNodup : ∀ s ∈ servers, (h.idle s).Nodup
  idle : ∀ s ∈ servers, ∀ c ∈ h.idle s, Owned h s c
  deletedConns : h.deletedConns.Nodup ∧ ∀ c ∈ h.deletedConns, c < h.nextConn
  deletedServs : h.deletedServs.Nodup ∧ ∀ s ∈ h.deletedServs, s < h.nextServ
  hostsOk : HostsOk h

theorem Pooled.empty : Pooled Heap.empty [] where
  nodup := List.nodup_nil
  live _ hs := absurd hs List.not_mem_nil
  idleNodup _ hs := absurd hs List.not_mem_nil
  idle _ hs := absurd hs List.not_mem_nil
  deletedConns := ⟨List.nodup_nil, fun _ hc => absurd hc List.not_mem_nil⟩
  deletedServs := ⟨List.nodup_nil, fun _ hs => absurd hs List.not_mem_nil⟩
  hostsOk := ⟨fun _ _ ha => (Option.some_ne_none _ ha.symm).elim, fun _ hs => absurd rfl hs⟩

theorem Owned.requested {h h' : Heap} {s c : Nat} (ho : Owned h s c) (hr : Requested h h') :
    Owned h' s c where
  server := (hr.server c).trans ho.server
  made := hr.nextConn ▸ ho.made
  live := hr.deletedConns ▸ ho.live

theorem Owned.setIdle {h : Heap} {s c : Nat} (ho : Owned h s c) (s' : Nat) (q : List Nat) :
    Owned (h.setIdle s' q) s c := ⟨ho.server, ho.made, ho.live⟩

namespace Pooled

variable {h h' : Heap} {servers : List Nat} {s : Nat}

theorem sublist {l : List Nat} (hp : Pooled h servers) (hl : l.Sublist servers) : Pooled h l where
  nodup := hp.nodup.sublist hl
  live s hs := hp.live s (hl.subset hs)
  idleNodup s hs := hp.idleNodup s (hl.subset hs)
  idle s hs := hp.idle s (hl.subset hs)
  deletedConns := hp.deletedConns
  deletedServs := hp.deletedServs
  hostsOk := hp.hostsOk

theorem perm {l : List Nat} (hp : Pooled h servers) (hl : l.Perm servers) : Pooled h l where
  nodup := hl.nodup_iff.mpr hp.nodup
  live s hs := hp.live s (hl.subset hs)
  idleNodup s hs := hp.idleNodup s (hl.subset hs)
  idle s hs := hp.idle s (hl.subset hs)
  deletedConns := hp.deletedConns
  deletedServs := hp.deletedServs
  hostsOk := hp.hostsOk

theorem requested (hp : Pooled h servers) (hr : Requested h h') : Pooled h' servers where
  nodup := hp.nodup
  live s hs := by
    rw [hr.nextServ, hr.deletedServs]
    exact hp.live s hs
  idleNodup s hs := by
    rw [hr.idle]
    exact hp.idleNodup s hs
  idle s hs c hc := (hp.idle s hs c (hr.idle s ▸ hc)).requested hr
  deletedConns := by
    rw [hr.deletedConns, hr.nextConn]
    exact hp.deletedConns
  deletedServs := by
    rw [hr.deletedServs, hr.nextServ]
    exact hp.deletedServs
  hostsOk := hr.hostsOk hp.hostsOk

/-- the queue of one server is changed -/
theorem setIdle (hp : Pooled h servers) {q : List Nat} (hn : q.Nodup)
    (hq : ∀ c ∈ q, Owned h s c) : Pooled (h.setIdle s q) servers where
  nodup := hp.nodup
  live := hp.live
  idleNodup s' hs' := by
    by_cases e : s' = s
    · subst e
      rw [idle_setIdle]
      exact hn
    · rw [(Within.setIdle q).idle s' e]
      exact hp.idleNodup s' hs'
  idle s' hs' c hc := by
    by_cases e : s' = s
    · subst e
      rw [idle_setIdle] at hc
      exact (hq c hc).setIdle s' q
    · rw [(Within.setIdle q).idle s' e] at hc
      exact (hp.idle s' hs' c hc).setIdle s q
  deletedConns := hp.deletedConns
  deletedServs := hp.deletedServs
  hostsOk := hp.hostsOk.setIdle s q

theorem idle_addHosts (h : Heap) (s s' : Nat) (l : List Addr) :
    (h.setServ s { h.servers s with vecHosts := (h.servers s).vecHosts ++ l }).idle s' = h.idle s' := by
  by_cases e : s' = s
  · subst e
    simp [Heap.idle, Heap.setServ]
  · simp [Heap.idle, Heap.setServ, Function.update_of_ne e]

/-- one server learns of more hosts -/
theorem addHosts (hp : Pooled h servers) (s : Nat) (l : List Addr) :
    Pooled (h.setServ s { h.servers s with vecHosts := (h.servers s).vecHosts ++ l }) servers := by
  have hidle := idle_addHosts h s
  let h' := h.setServ s { h.servers s with vecHosts := (h.servers s).vecHosts ++ l }
  have hold : ∀ s', s' ≠ s → h'.servers s' = h.servers s' := fun s' e => Function.update_of_ne e _ _
  have hnew : h'.servers s = { h.servers s with vecHosts := (h.servers s).vecHosts ++ l } :=
    Function.update_self _ _ _
  have hsub : ∀ s', ∀ addr ∈ (h.servers s').vecHosts, addr ∈ (h'.servers s').vecHosts := by
    intro s' addr ha
    by_cases e : s' = s
    · rw [e] at ha
      rw [e, hnew]
      exact List.mem_append_left _ ha
    · rw [hold s' e]
      exact ha
  refine ⟨hp.nodup, hp.live, fun s' hs' => ?_, fun s' hs' c hc => ?_, hp.deletedConns, hp.deletedServs,
    ⟨fun c addr ha => ?_, fun s' hs' => ?_⟩⟩
  · rw [hidle s' l]
    exact hp.idleNodup s' hs'
  · rw [hidle s' l] at hc
    have ho := hp.idle s' hs' c hc
    exact ⟨ho.server, ho.made, ho.live⟩
  · obtain ⟨h1, h2⟩ := hp.hostsOk.context c addr ha
    exact ⟨hsub _ addr h1, h2⟩
  · refine hsub s' _ ?_
    by_cases e : s' = s
    · subst e
      rw [hnew] at hs' ⊢
      exact hp.hostsOk.host s' hs'
    · rw [hold s' e] at hs' ⊢
      exact hp.hostsOk.host s' hs'

theorem cleanConn (hp : Pooled h servers) (hs : s ∈ servers) : Pooled (cleanConn h s) servers := by
  have h1 : Pooled (h.setIdle s []) servers :=
    hp.setIdle List.nodup_nil fun c hc => absurd hc List.not_mem_nil
  refine ⟨h1.nodup, h1.live, h1.idleNodup, fun s' hs' c hc => ?_, ⟨?_, ?_⟩, h1.deletedServs,
    ⟨h1.hostsOk.context, h1.hostsOk.host⟩⟩
  · have ho := h1.idle s' hs' c hc
    refine ⟨ho.server, ho.made, fun hd => ?_⟩
    rcases List.mem_append.mp hd with hd | hd
    · exact ho.live hd
    · -- `c` is in the queue of `s`, so it is a connection of `s`, whose queue is empty now
      obtain rfl : s' = s := ho.server.symm.trans (hp.idle s hs c hd).server
      have hc' : c ∈ (h.setIdle s' []).idle s' := hc
      rw [idle_setIdle] at hc'
      exact List.not_mem_nil hc'
  · refine List.nodup_append.mpr ⟨hp.deletedConns.1, hp.idleNodup s hs, fun c hc c' hc' e => ?_⟩
    exact (hp.idle s hs c' hc').live (e ▸ hc)
  · intro c hc
    rcases List.mem_append.mp hc with hc | hc
    · exact hp.deletedConns.2 c hc
    · exact (hp.idle s hs c hc).made

end Pooled

theorem cleanConn_within (h : Heap) (s : Nat) : Within s h (cleanConn h s) := by
  have h1 := Within.setIdle (s := s) (h := h) []
  exact ⟨h1.idle, h1.vecHosts, h1.server, h1.nextConn, h1.nextServ, h1.deletedServs⟩

/-! ## a new connection -/

section
variable (W : World)

theorem Pooled.newConnection {h : Heap} {servers : List Nat} {s : Nat} (hp : Pooled h servers)
    (hs : s < h.nextServ) :
    Pooled (newConnection W h s) servers ∧ Within s h (newConnection W h s) ∧
      Owned (newConnection W h s) s h.nextConn ∧ (newConnection W h s).idle s = h.idle s := by
  let h1 : Heap := { h.setConn h.nextConn ⟨none, 0, s⟩ with nextConn := h.nextConn + 1 }
  have hnew : h1.conns h.nextConn = ⟨none, 0, s⟩ := Function.update_self _ _ _
  have hold : ∀ c, c ≠ h.nextConn → h1.conns c = h.conns c := fun c hc => Function.update_of_ne hc _ _
  have howned : ∀ s' c, Owned h s' c → Owned h1 s' c := fun s' c ho =>
    ⟨by rw [hold c (Nat.ne_of_lt ho.made)]; exact ho.server, Nat.lt_succ_of_lt ho.made, ho.live⟩
  have hp1 : Pooled h1 servers := by
    refine ⟨hp.nodup, hp.live, hp.idleNodup, fun s' hs' c hc => howned s' c (hp.idle s' hs' c hc),
      ⟨hp.deletedConns.1, fun c hc => Nat.lt_succ_of_lt (hp.deletedConns.2 c hc)⟩, hp.deletedServs,
      ⟨fun c addr ha => ?_, hp.hostsOk.host⟩⟩
    by_cases e : c = h.nextConn
    · subst e
      rw [hnew] at ha
      cases ha
    · rw [hold c e] at ha ⊢
      exact hp.hostsOk.context c addr ha
  have hr : Requested h1 (Redis.newConnection W h s) :=
    reconnect_requested W h1 h.nextConn (by rw [hnew]; exact hs)
  have hw : Within s h h1 := by
    refine ⟨fun _ _ => rfl, fun _ => rfl, fun c hc => ?_, Nat.le_succ _, rfl, rfl⟩
    rw [hold c (Nat.ne_of_lt hc)]
  have hfresh : h.nextConn ∉ h1.deletedConns := fun hd => Nat.lt_irrefl _ (hp.deletedConns.2 _ hd)
  have hown : Owned h1 s h.nextConn := ⟨by rw [hnew], Nat.lt_succ_self _, hfresh⟩
  exact ⟨hp1.requested hr, hw.trans (Within.of_requested hr), hown.requested hr, hr.idle s⟩

theorem Pooled.newConns {servers : List Nat} {s : Nat} (hs : s ∈ servers) (n : Nat) {h : Heap}
    (hp : Pooled h servers) : Pooled (newConns W s n h) servers ∧ Within s h (newConns W s n h) := by
  induction n generalizing h with
  | zero => exact ⟨hp, Within.refl⟩
  | succ n ih =>
    obtain ⟨hp1, hw1, ho, hi⟩ := hp.newConnection W (hp.live s hs).1
    have hstep : ∀ h2, Pooled h2 servers → Within s (Redis.newConnection W h s) h2 →
        Pooled (Redis.newConns W s n h2) servers ∧ Within s h (Redis.newConns W s n h2) := by
      intro h2 hp2 hw2
      obtain ⟨hp3, hw3⟩ := ih hp2
      exact ⟨hp3, (hw1.trans hw2).trans hw3⟩
    rw [Redis.newConns]
    split
    · refine hstep _ (hp1.setIdle ?_ ?_) (Within.setIdle _)
      · rw [hi]
        refine List.Nodup.append (hp.idleNodup s hs) (List.nodup_singleton _) ?_
        intro c hc hc'
        have hlt := (hp.idle s hs c hc).made
        rw [List.mem_singleton.mp hc'] at hlt
        exact Nat.lt_irrefl _ hlt
      · intro c hc
        rcases List.mem_append.mp hc with hc | hc
        · exact hp1.idle s hs c hc
        · exact List.mem_singleton.mp hc ▸ ho
    · exact hstep _ hp1 Within.refl

/-! ## requests of the owner -/

theorem fetchTries_eq (n : Nat) (h : Heap) (s : Nat) :
    fetchTries (n + 1) h s = fetchConnection h s := by
  induction n generalizing h with
  | zero =>
    rw [fetchTries]
    unfold fetchConnection
    cases h.idle s <;> rfl
  | succ n ih =>
    rw [fetchTries]
    have hn := ih h
    unfold fetchConnection at hn ⊢
    cases hq : h.idle s with
    | nil =>
      rw [hq] at hn
      exact hn
    | cons c rest => rfl

theorem Pooled.servRequest {h : Heap} {servers : List Nat} {s : Nat} (hp : Pooled h servers)
    (hs : s ∈ servers) (cmd : CRedisCommand) :
    Pooled (servRequest W h s cmd).1 servers ∧ Within s h (servRequest W h s cmd).1 ∧
      ((servRequest W h s cmd).1.idle s = [] ↔ h.idle s = []) := by
  unfold Redis.servRequest rqstRetryTimes
  rw [fetchTries_eq]
  unfold fetchConnection
  cases hq : h.idle s with
  | nil => exact ⟨hp, Within.refl, by simp [hq]⟩
  | cons c rest =>
    have hnd := hp.idleNodup s hs
    have hown := hp.idle s hs
    rw [hq] at hnd hown
    have hp1 : Pooled (h.setIdle s rest) servers :=
      hp.setIdle (List.nodup_cons.mp hnd).2 fun c' hc' => hown c' (List.mem_cons_of_mem _ hc')
    have hc1 := (hown c List.mem_cons_self).setIdle s rest
    have hr : Requested (h.setIdle s rest) (connRequest W (h.setIdle s rest) c cmd).1 :=
      connRequest_requested W _ c cmd (by rw [hc1.server]; exact (hp1.live s hs).1)
    simp only []
    generalize connRequest W (h.setIdle s rest) c cmd = r at hr
    obtain ⟨h2, cmd', nRet⟩ := r
    have hi : h2.idle s = rest := (hr.idle s).trans (idle_setIdle h s rest)
    have hp2 := hp1.requested hr
    refine ⟨hp2.setIdle ?_ ?_, ?_, ?_⟩
    · rw [hi]
      exact List.nodup_append_comm.mp hnd
    · intro c' hc'
      rcases List.mem_append.mp hc' with hc' | hc'
      · exact hp2.idle s hs c' hc'
      · exact List.mem_singleton.mp hc' ▸ hc1.requested hr
    · exact ((Within.setIdle rest).trans (Within.of_requested hr)).trans (Within.setIdle _)
    · simp [returnConnection, idle_setIdle]

/-- the command keeps its arguments, and a success is an answer of one of the server's hosts -/
theorem Pooled.servRequest_reply {h : Heap} {servers : List Nat} {s : Nat} (hp : Pooled h servers)
    (hs : s ∈ servers) (cmd : CRedisCommand) :
    (Redis.servRequest W h s cmd).2.1.args = cmd.args ∧
      ((Redis.servRequest W h s cmd).2.2 = .success → ∃ reply,
        (Redis.servRequest W h s cmd).2.1.reply = some reply ∧
          Answered W (h.servers s).vecHosts cmd.args reply) := by
  unfold Redis.servRequest rqstRetryTimes
  rw [fetchTries_eq]
  unfold fetchConnection
  cases hq : h.idle s with
  | nil => exact ⟨rfl, fun he => by cases he⟩
  | cons c rest =>
    have hc := ((hp.idle s hs c (hq ▸ List.mem_cons_self)).setIdle s rest)
    have hr := connRequest_report W (hp.hostsOk.setIdle s rest)
      (by rw [hc.server]; exact (hp.live s hs).1) cmd
    rw [hc.server, (Within.setIdle rest).vecHosts] at hr
    exact ⟨hr.args, hr.reply⟩

theorem Pooled.readTimeout {h : Heap} {servers : List Nat} {s : Nat} (hp : Pooled h servers)
    (hs : s ∈ servers) :
    Pooled (readTimeout W h s) servers ∧ Within s h (readTimeout W h s) ∧
      ((readTimeout W h s).idle s = [] ↔ h.idle s = []) := by
  obtain ⟨hp1, hw1, hi1⟩ := hp.servRequest W hs configTimeout
  have hset : ∀ (h' : Heap) (n : Int),
      Requested h' (h'.setServ s { h'.servers s with nSerTimeout := n }) := fun h' n =>
    Requested.setServ rfl rfl fun h0 hne => h0.host s hne
  unfold Redis.readTimeout
  generalize Redis.servRequest W h s configTimeout = r at hp1 hw1 hi1
  obtain ⟨h1, cmd, nRet⟩ := r
  split
  · rename_i e
    obtain ⟨rfl, rfl, rfl⟩ := by simpa using e
    split
    · have hr := hset h1 (atoi ‹Str›)
      refine ⟨hp1.requested hr, hw1.trans (Within.of_requested hr), ?_⟩
      rw [hr.idle]
      exact hi1
    · exact ⟨hp1, hw1, hi1⟩
  · rename_i e
    obtain ⟨rfl, rfl⟩ := by simpa using e
    exact ⟨hp1, hw1, hi1⟩

theorem Pooled.initServer {h : Heap} {servers : List Nat} {s : Nat} (hp : Pooled h servers)
    (hs : s ∈ servers) :
    Pooled (Redis.initServer W h s).1 servers ∧ Within s h (Redis.initServer W h s).1 := by
  obtain ⟨hp1, hw1⟩ := (hp.cleanConn hs).newConns W hs (h.servers s).nConnNum.toNat
  have hw := (cleanConn_within h s).trans hw1
  unfold Redis.initServer
  simp only []
  split
  · obtain ⟨hp2, hw2, _⟩ := hp1.readTimeout W hs
    exact ⟨hp2, hw.trans hw2⟩
  · exact ⟨hp1, hw⟩

/-! ## new and deleted servers -/

/-- the server `s` keeps its queue and its hosts -/
structure Kept (s : Nat) (h h' : Heap) : Prop where
  idle : h'.idle s = h.idle s
  vecHosts : (h'.servers s).vecHosts = (h.servers s).vecHosts

theorem Kept.refl (s : Nat) (h : Heap) : Kept s h h := ⟨rfl, rfl⟩

theorem Kept.trans {s : Nat} {h h' h'' : Heap} (h1 : Kept s h h') (h2 : Kept s h' h'') : Kept s h h'' :=
  ⟨h2.idle.trans h1.idle, h2.vecHosts.trans h1.vecHosts⟩

theorem Within.kept {s s' : Nat} {h h' : Heap} (hw : Within s h h') (hs : s' ≠ s) : Kept s' h h' :=
  ⟨hw.idle s' hs, hw.vecHosts s'⟩

/-- what `newServer` makes -/
structure NewServer (h h' : Heap) (addr : Addr) : Prop where
  kept : ∀ s, s ≠ h.nextServ → Kept s h h'
  vecHosts : (h'.servers h.nextServ).vecHosts = [addr]
  nextServ : h'.nextServ = h.nextServ + 1

theorem Pooled.newServer {h : Heap} {servers : List Nat} (hp : Pooled h servers) (strHost : Str)
    (nPort nConnNum : Int) :
    Pooled (newServer W h strHost nPort nConnNum) (servers ++ [h.nextServ]) ∧
      NewServer h (newServer W h strHost nPort nConnNum) (strHost, nPort) := by
  let serv : CRedisServer := ⟨strHost, nPort, 0, nConnNum, [], [(strHost, nPort)]⟩
  let h1 : Heap := { h.setServ h.nextServ serv with nextServ := h.nextServ + 1 }
  have hnew : h1.servers h.nextServ = serv := Function.update_self _ _ _
  have hold : ∀ s, s ≠ h.nextServ → h1.servers s = h.servers s := fun s hs => Function.update_of_ne hs _ _
  have hidle : h1.idle h.nextServ = [] := congrArg CRedisServer.queIdleConn hnew
  have hkept : ∀ s, s ≠ h.nextServ → Kept s h h1 := fun s hs =>
    ⟨congrArg CRedisServer.queIdleConn (hold s hs), congrArg CRedisServer.vecHosts (hold s hs)⟩
  have hne : ∀ s ∈ servers, s ≠ h.nextServ := fun s hs => Nat.ne_of_lt (hp.live s hs).1
  have hp1 : Pooled h1 (servers ++ [h.nextServ]) := by
    refine ⟨?_, ?_, ?_, ?_, hp.deletedConns,
      ⟨hp.deletedServs.1, fun s hs => Nat.lt_succ_of_lt (hp.deletedServs.2 s hs)⟩, ⟨?_, ?_⟩⟩
    · refine List.Nodup.append hp.nodup (List.nodup_singleton _) fun s hs hs' => ?_
      exact hne s hs (List.mem_singleton.mp hs')
    · intro s hs
      rcases List.mem_append.mp hs with hs | hs
      · exact ⟨Nat.lt_succ_of_lt (hp.live s hs).1, (hp.live s hs).2⟩
      · obtain rfl := List.mem_singleton.mp hs
        exact ⟨Nat.lt_succ_self _, fun hd => Nat.lt_irrefl _ (hp.deletedServs.2 _ hd)⟩
    · intro s hs
      rcases List.mem_append.mp hs with hs | hs
      · rw [(hkept s (hne s hs)).idle]
        exact hp.idleNodup s hs
      · rw [List.mem_singleton.mp hs, hidle]
        exact List.nodup_nil
    · intro s hs c hc
      rcases List.mem_append.mp hs with hs | hs
      · rw [(hkept s (hne s hs)).idle] at hc
        have ho := hp.idle s hs c hc
        exact ⟨ho.server, ho.made, ho.live⟩
      · rw [List.mem_singleton.mp hs, hidle] at hc
        exact absurd hc List.not_mem_nil
    · intro c addr ha
      obtain ⟨h2, h3⟩ := hp.hostsOk.context c addr ha
      have hs : (h.conns c).server ≠ h.nextServ := Nat.ne_of_lt h3
      show addr ∈ (h1.servers (h.conns c).server).vecHosts ∧ _
      rw [hold _ hs]
      exact ⟨h2, Nat.lt_succ_of_lt h3⟩
    · intro s hs
      by_cases e : s = h.nextServ
      · rw [e, hnew]
        exact List.mem_singleton_self _
      · rw [hold s e] at hs ⊢
        exact hp.hostsOk.host s hs
  obtain ⟨hp2, hw⟩ := hp1.initServer W (List.mem_append_right _ (List.mem_singleton_self _))
  refine ⟨hp2, fun s hs => (hkept s hs).trans (hw.kept hs), ?_, hw.nextServ⟩
  exact (hw.vecHosts h.nextServ).trans (congrArg CRedisServer.vecHosts hnew)

end

theorem Pooled.deleteServer {h : Heap} {s : Nat} {servers : List Nat} (hp : Pooled h (s :: servers)) :
    Pooled (deleteServer h s) servers := by
  have h1 := (hp.cleanConn List.mem_cons_self).sublist (List.sublist_cons_self s servers)
  have hlive := hp.live s List.mem_cons_self
  refine ⟨h1.nodup, fun s' hs' => ⟨(h1.live s' hs').1, fun hd => ?_⟩, h1.idleNodup, fun s' hs' c hc => ?_,
    h1.deletedConns, ⟨?_, fun s' hs' => ?_⟩, ⟨h1.hostsOk.context, h1.hostsOk.host⟩⟩
  · rcases List.mem_append.mp hd with hd | hd
    · exact (hp.live s' (List.mem_cons_of_mem _ hs')).2 hd
    · exact (List.nodup_cons.mp hp.nodup).1 (List.mem_singleton.mp hd ▸ hs')
  · have ho := h1.idle s' hs' c hc
    exact ⟨ho.server, ho.made, ho.live⟩
  · refine List.Nodup.append hp.deletedServs.1 (List.nodup_singleton _) fun s' hs' he => ?_
    exact hlive.2 (List.mem_singleton.mp he ▸ hs')
  · rcases List.mem_append.mp hs' with hs' | hs'
    · exact hp.deletedServs.2 s' hs'
    · exact List.mem_singleton.mp hs' ▸ hlive.1

theorem deleteServer_kept {h : Heap} {s s' : Nat} (hs : s' ≠ s) : Kept s' h (deleteServer h s) := by
  have hw := (cleanConn_within h s).kept hs
  exact ⟨hw.idle, hw.vecHosts⟩

theorem Pooled.deleteServers {l servers : List Nat} {h : Heap} (hp : Pooled h (l ++ servers)) :
    Pooled (deleteServers h l) servers := by
  induction l generalizing h with
  | nil => exact hp
  | cons s l ih => exact ih hp.deleteServer

theorem deleteServers_kept {l : List Nat} {h : Heap} {s : Nat} (hs : s ∉ l) :
    Kept s h (deleteServers h l) := by
  induction l generalizing h with
  | nil => exact Kept.refl s h
  | cons s' l ih =>
    have hne : s ≠ s' := fun e => hs (e ▸ List.mem_cons_self)
    exact (deleteServer_kept hne).trans (ih fun hm => hs (List.mem_cons_of_mem _ hm))

end Iocp.Redis
