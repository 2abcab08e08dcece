import IocpChatting.Redis.Calls

/-!
# Where a reply comes from

`Routed` holds after every run of the Redis client: the slot table is that of one reply to `cluster slots`
(`Reported`), each region has its server, a caller is served by the server that its slot names, and its reply
is that server's.

* `table_run`    what a slot finds in the table, in terms of that reply;
* `served_run`   which host a caller's reply comes from.
-/

set_option linter.unusedSectionVars false
set_option autoImplicit false

namespace Iocp.Redis
open Runs

/-- the slot table of one reply to `cluster slots`, or none -/
def Reported (W : World) (vecSlot : List SlotRegion) : Prop :=
  vecSlot = [] ∨ ∃ reply regions assigned, (∃ k addr, W.answer k addr clusterSlots.args = some reply) ∧
    fetchSlot reply [] = .done .success regions ∧ vecSlot = sortSlots assigned ∧
    assigned.map SlotRegion.bare = regions.map SlotRegion.bare

theorem Reported.sorted {W : World} {vecSlot : List SlotRegion} (h : Reported W vecSlot) :
    ∃ assigned, vecSlot = sortSlots assigned := by
  rcases h with rfl | ⟨_, _, assigned, _, _, e, _⟩
  · exact ⟨[], rfl⟩
  · exact ⟨assigned, e⟩

/-- a load that succeeds takes the table from a reply -/
theorem LoadOk.reported {W : World} {h : Heap} {old : List Nat} {vecSlot : List SlotRegion} {r : Cluster × Bool}
    (hl : LoadOk W h old vecSlot r) (hok : r.2 = true) :
    (∀ x ∈ r.1.vecSlot, Assigned r.1.heap r.1.vecRedisServ x) ∧ Reported W r.1.vecSlot := by
  obtain ⟨_, reply, regions, ⟨_, _, k, addr, _, ha⟩, hfetch, ht⟩ := hl.done hok
  obtain ⟨assigned, he, hbare⟩ := ht.regions
  exact ⟨ht.assigned, Or.inr ⟨reply, regions, assigned, ⟨k, addr, ha⟩, hfetch, he, hbare⟩⟩

/-- regions that differ in their servers only -/
theorem Regular.of_bare {xs ys : List SlotRegion} (he : xs.map SlotRegion.bare = ys.map SlotRegion.bare)
    (h : Regular ys) : Regular xs := by
  have hbare : Regular (xs.map SlotRegion.bare) := by
    rw [he]
    refine ⟨fun r hr => ?_, List.pairwise_map.mpr h.disjoint⟩
    obtain ⟨y, hy, rfl⟩ := List.mem_map.mp hr
    exact h.ordered y hy
  have hdis := hbare.disjoint
  rw [List.pairwise_map] at hdis
  exact ⟨fun r hr => hbare.ordered r.bare (List.mem_map_of_mem hr), hdis⟩

theorem mem_of_bare {xs ys : List SlotRegion} (he : xs.map SlotRegion.bare = ys.map SlotRegion.bare)
    {r : SlotRegion} (hr : r ∈ xs) : ∃ r' ∈ ys, r'.bare = r.bare := by
  have hm : r.bare ∈ ys.map SlotRegion.bare := he ▸ List.mem_map_of_mem hr
  exact List.mem_map.mp hm

namespace CRedisClient

variable {n : Nat}

/-! ## replies from the right place -/

theorem Move.vecHosts {W : World} {s : CRedisClient n} (hs : Sound s) {i : Fin n} {x : Caller} {h : Heap}
    (hm : Move W s (s.callers i) x h) (sv : Nat) :
    (h.servers sv).vecHosts = (s.cluster.heap.servers sv).vecHosts := by
  cases hm with
  | take sv' nTry c rest hp hq => exact (Within.setIdle rest).vecHosts sv
  | ask sv' c cmd nRet h hp hr =>
    have hreq := hs.requested (W := W) hp
    rw [hr] at hreq
    exact hreq.vecHosts sv
  | giveBack sv' c nRet hp => exact (Within.setIdle _).vecHosts sv
  | _ => rfl

theorem Move.nSlot {W : World} {s : CRedisClient n} (hs : Sound s) {i : Fin n} {x : Caller} {h : Heap}
    (hm : Move W s (s.callers i) x h) : x.cmd.nSlot = (s.callers i).cmd.nSlot := by
  cases hm with
  | ask sv c cmd nRet h hp hr =>
    have hrep := (hs.report W hp).nSlot
    rw [hr] at hrep
    exact hrep
  | _ => rfl

/-- the reply in the caller's hand -/
theorem Move.reply {W : World} {s : CRedisClient n} (hs : Sound s) {i : Fin n} {x : Caller} {h : Heap}
    (hm : Move W s (s.callers i) x h) {sv c : Nat} (hx : x.place = .giveBack sv c .success) :
    x = s.callers i ∨ ∃ reply, x.cmd.reply = some reply ∧
      Answered W (s.cluster.heap.servers sv).vecHosts x.cmd.args reply := by
  cases hm with
  | stay => exact Or.inl rfl
  | ask sv' c' cmd nRet h hp hr =>
    cases hx
    have hrep := hs.report W hp
    rw [hr] at hrep
    obtain ⟨reply, h1, h2⟩ := hrep.reply rfl
    exact Or.inr ⟨reply, h1, by rw [show cmd.args = _ from hrep.args]; exact h2⟩
  | await nRet place _ hw =>
    rw [show place = _ from hx] at hw
    cases hw
  | _ => cases hx

/-- what the reply in the hand of the caller `i` is, if `sv` served it -/
def Served (W : World) (s : CRedisClient n) (i : Fin n) (sv : Nat) : Prop :=
  ∃ reply, (s.callers i).cmd.reply = some reply ∧
    Answered W (s.cluster.heap.servers sv).vecHosts (s.callers i).cmd.args reply ∧
    (s.bCluster = true → (s.callers i).cmd.nSlot ≠ -1 → Regular s.cluster.vecSlot →
      ∀ r ∈ s.cluster.vecSlot, r.Has (s.callers i).cmd.nSlot → r.strHost ≠ [] →
        Answered W [(r.strHost, r.nPort)] (s.callers i).cmd.args reply)

/-- the server that a caller was given -/
def Chosen (s : CRedisClient n) (cmd : CRedisCommand) (sv : Nat) : Prop :=
  (s.bCluster = false → s.cluster.vecRedisServ.head? = some sv) ∧
    (s.bCluster = true → cmd.nSlot ≠ -1 → findServer s.cluster.vecSlot cmd.nSlot = some sv)

structure Routed (W : World) (s : CRedisClient n) : Prop where
  table : ∀ r ∈ s.cluster.vecSlot, Assigned s.cluster.heap s.cluster.vecRedisServ r
  reported : Reported W s.cluster.vecSlot
  plain : s.bCluster = false → s.cluster.vecSlot = []
  chosen : ∀ i sv, (s.callers i).place.serves = some sv → Chosen s (s.callers i).cmd sv
  answered : ∀ i sv c, (s.callers i).place = .giveBack sv c .success → ∃ reply,
    (s.callers i).cmd.reply = some reply ∧
      Answered W (s.cluster.heap.servers sv).vecHosts (s.callers i).cmd.args reply

theorem getMatchedServer_chosen {s : CRedisClient n} {cmd : CRedisCommand} {sv : Nat}
    (h : s.getMatchedServer cmd = some sv) : Chosen s cmd sv := by
  unfold getMatchedServer at h
  constructor
  · intro hc
    rw [if_pos hc] at h
    exact h
  · intro hc hslot
    rw [if_neg (by rw [hc]; decide), if_pos hslot] at h
    exact h

namespace Routed

variable {W : World} {s : CRedisClient n}

theorem callerStep (hs : Sound s) (hr : Routed W s) (i : Fin n) (tryLock : Bool) :
    Routed W (s.callerStep W i tryLock) := by
  obtain ⟨x, h, hm, hmv⟩ := callerStep_move W s i tryLock
  generalize s.callerStep W i tryLock = s' at hmv
  have hself : s'.callers i = x := by rw [hmv.callers, Function.update_self]
  have hother : ∀ j, j ≠ i → s'.callers j = s.callers j := fun j hj => by
    rw [hmv.callers, Function.update_of_ne hj]
  have hhosts : ∀ sv, (s'.cluster.heap.servers sv).vecHosts = (s.cluster.heap.servers sv).vecHosts := fun sv => by
    rw [hmv.cluster]
    exact hm.vecHosts hs sv
  have hserv : s'.cluster.vecRedisServ = s.cluster.vecRedisServ := by rw [hmv.cluster]
  have hslot : s'.cluster.vecSlot = s.cluster.vecSlot := by rw [hmv.cluster]
  have hchosen : ∀ cmd cmd' sv, cmd'.nSlot = cmd.nSlot → Chosen s cmd sv → Chosen s' cmd' sv := by
    intro cmd cmd' sv he hc
    unfold Chosen
    rw [hserv, hslot, hmv.bCluster, he]
    exact hc
  refine ⟨fun r hrm => ?_, hslot ▸ hr.reported, ?_, fun j sv hj => ?_, fun j sv c hj => ?_⟩
  · rw [hslot] at hrm
    obtain ⟨sv, hsv, h1, h2⟩ := hr.table r hrm
    refine ⟨sv, hserv ▸ hsv, h1, fun hne => ?_⟩
    rw [hhosts]
    exact h2 hne
  · rw [hmv.bCluster, hslot]
    exact hr.plain
  · by_cases e : j = i
    · subst e
      rw [hself] at hj ⊢
      rcases hm.serves hj with hx | ⟨_, _, hmatch, _⟩
      · exact hchosen _ _ sv (hm.nSlot hs) (hr.chosen j sv hx)
      · exact hchosen _ _ sv (hm.nSlot hs) (getMatchedServer_chosen hmatch)
    · rw [hother j e] at hj ⊢
      exact hchosen _ _ sv rfl (hr.chosen j sv hj)
  · rw [hhosts]
    by_cases e : j = i
    · subst e
      rw [hself] at hj ⊢
      rcases hm.reply hs hj with rfl | hrep
      · exact hr.answered j sv c hj
      · exact hrep
    · rw [hother j e] at hj ⊢
      exact hr.answered j sv c hj

/-- nobody is served, and the slot table is in order -/
theorem of_quiet {s' : CRedisClient n} (hno : ∀ i, (s'.callers i).place.serves = none)
    (htable : ∀ r ∈ s'.cluster.vecSlot, Assigned s'.cluster.heap s'.cluster.vecRedisServ r)
    (hrep : Reported W s'.cluster.vecSlot) (hplain : s'.bCluster = false → s'.cluster.vecSlot = []) :
    Routed W s' := by
  refine ⟨htable, hrep, hplain, fun i sv h => ?_, fun i sv c h => ?_⟩
  · rw [hno i] at h
    cases h
  · have hn := hno i
    rw [h] at hn
    cases hn

/-- the lock, the flags and the places of the other threads do not matter -/
theorem of_same (hr : Routed W s) {s' : CRedisClient n} (hcall : s'.callers = s.callers)
    (hcl : s'.cluster = s.cluster) (hb : s'.bCluster = s.bCluster) : Routed W s' := by
  refine ⟨?_, ?_, ?_, ?_, ?_⟩
  · rw [hcl]
    exact hr.table
  · rw [hcl]
    exact hr.reported
  · rw [hcl, hb]
    exact hr.plain
  · unfold Chosen
    rw [hcall, hcl, hb]
    exact hr.chosen
  · rw [hcall, hcl]
    exact hr.answered

theorem reload (hs : Sound s) (hr : Routed W s) {cl : Cluster} {ok : Bool} (hl : s.reload W = some (cl, ok)) :
    (∀ r ∈ cl.vecSlot, Assigned cl.heap cl.vecRedisServ r) ∧ Reported W cl.vecSlot ∧
      (s.bCluster = false → cl.vecSlot = []) := by
  unfold CRedisClient.reload at hl
  split at hl
  · rename_i hc
    have hload := hs.pooled.loadFrom W s.nConnNum s.cluster.vecRedisServ (fun _ h => h) rfl hl
    have hplain : s.bCluster = false → cl.vecSlot = [] := fun h => by
      rw [hc] at h
      cases h
    cases hok : ok with
    | false =>
      obtain ⟨h1, h2, h3⟩ := hload.failed hok
      have h1' : cl.vecRedisServ = s.cluster.vecRedisServ := h1
      have h2' : cl.vecSlot = s.cluster.vecSlot := h2
      refine ⟨fun r hrm => ?_, h2' ▸ hr.reported, hplain⟩
      rw [h2'] at hrm
      rw [h1']
      obtain ⟨sv, hsv, h4, h5⟩ := hr.table r hrm
      exact ⟨sv, hsv, h4, fun hne => (h3 sv hsv).trans (h5 hne)⟩
    | true =>
      obtain ⟨h1, h2⟩ := hload.reported hok
      exact ⟨h1, h2, hplain⟩
  · rename_i hc
    split at hl
    · cases hl
    · obtain ⟨rfl, _⟩ := Prod.mk.inj (Option.some.inj hl)
      have hempty := hr.plain (Bool.eq_false_iff.mpr hc)
      refine ⟨fun r hrm => ?_, hr.reported, hr.plain⟩
      have hrm' : r ∈ s.cluster.vecSlot := hrm
      rw [hempty] at hrm'
      exact absurd hrm' List.not_mem_nil

theorem step (hs : Sound s) (hr : Routed W s) (a : Action n) : Routed W (s.step W a) := by
  unfold CRedisClient.step
  split
  · exact hr
  · cases a with
    | call i cmd =>
      simp only []
      split
      · refine ⟨hr.table, hr.reported, hr.plain, fun j sv hj => ?_, fun j sv c hj => ?_⟩
        · by_cases e : j = i
          · subst e
            rw [setCaller_self] at hj
            cases hj
          · rw [(setCaller_only s i _).callers j e] at hj ⊢
            exact hr.chosen j sv hj
        · by_cases e : j = i
          · subst e
            rw [setCaller_self] at hj
            cases hj
          · rw [(setCaller_only s i _).callers j e] at hj ⊢
            exact hr.answered j sv c hj
      · exact hr
    | caller i tryLock => exact hr.callerStep hs i tryLock
    | refresh =>
      have hm := refreshStep_move W s
      have hcall := refreshStep_callers W s
      simp only []
      generalize s.refreshStep W = s' at hm hcall
      cases hm with
      | go r l crashed _ _ => exact hr.of_same rfl rfl rfl
      | load cl ok hrel hl =>
        obtain ⟨h1, h2, h3⟩ := hr.reload hs hl
        have hwr : s.writes .refresh := by
          rw [Sound.writes_refresh, hrel]
          rfl
        refine of_quiet (fun i => ?_) h1 h2 h3
        cases hsv : (s.callers i).place.serves with
        | none => rfl
        | some sv => exact absurd (At.reads_of_serves hsv) (hs.tracked.excludes hwr i)
      | store ok _ => exact hr.of_same rfl rfl rfl
    | spurious =>
      obtain ⟨r, _, he⟩ := notifyAll_eq s
      simp only []
      rw [he]
      exact hr.of_same rfl rfl rfl
    | destroy =>
      have hm := destroyStep_move s
      simp only []
      generalize s.destroyStep = s' at hm
      cases hm with
      | go d r l v e _ _ => exact hr.of_same rfl rfl rfl
      | clean hd =>
        refine of_quiet (fun i => ?_) (fun r hrm => absurd hrm List.not_mem_nil) (Or.inl rfl) fun _ => rfl
        cases hsv : (s.callers i).place.serves with
        | none => rfl
        | some sv =>
          have hreads := At.reads_of_serves hsv
          rw [At.not_reads_of_resting (hs.resting (by rw [hd]; decide) i)] at hreads
          cases hreads

end Routed

theorem Begun.routed {W : World} {s : CRedisClient n} (hb : Begun W s) : Routed W s := by
  have hno : ∀ i, (s.callers i).place.serves = none := fun i => by rw [hb.callers i]; rfl
  cases hb with
  | nothing h nConnNum crashed hp =>
    exact .of_quiet hno (fun r hrm => absurd hrm List.not_mem_nil) (Or.inl rfl) fun _ => rfl
  | cluster h nConnNum cl ok hp hload =>
    have hl := hp.loadFrom W nConnNum [0] (fun _ h => h) rfl hload
    cases hok : ok with
    | false =>
      have hempty : cl.vecSlot = [] := (hl.failed hok).2.1
      refine .of_quiet hno (fun r hrm => ?_) (Or.inl hempty) fun _ => hempty
      have hrm' : r ∈ cl.vecSlot := hrm
      rw [hempty] at hrm'
      exact absurd hrm' List.not_mem_nil
    | true =>
      obtain ⟨h1, h2⟩ := hl.reported hok
      exact .of_quiet hno h1 h2 fun h => absurd h.symm Bool.false_ne_true
  | single h nConnNum hp _ =>
    exact .of_quiet hno (fun r hrm => absurd hrm List.not_mem_nil) (Or.inl rfl) fun _ => rfl

section
variable (W : World) (strHost : Str) (nPort nTimeout nConnNum : Int)

theorem run_routed (as : List (Action n)) :
    Routed W (run (step W) (start W strHost nPort nTimeout nConnNum) as) := by
  have hb := (start_begun W strHost nPort nTimeout nConnNum : Begun W (_ : CRedisClient n))
  exact (@run_keeps_all _ _ (step W) (fun s : CRedisClient n => Sound s ∧ Routed W s)
    (fun s a h => ⟨h.1.step W a, h.2.step h.1 a⟩) _ ⟨hb.sound, hb.routed⟩ as).2

/-- what a slot finds in the table, in terms of the reply that the table is from -/
def Mirrored (W : World) (s : CRedisClient n) : Prop :=
  s.cluster.vecSlot = [] ∨ ∃ reply regions, (∃ k addr, W.answer k addr clusterSlots.args = some reply) ∧
    fetchSlot reply [] = .done .success regions ∧
    (Regular regions → ∀ nSlot,
      (∀ r ∈ regions, r.Has nSlot → ∃ sv ∈ s.cluster.vecRedisServ, findServer s.cluster.vecSlot nSlot = some sv ∧
        (r.strHost ≠ [] → (s.cluster.heap.servers sv).vecHosts = [(r.strHost, r.nPort)])) ∧
      ((∀ r ∈ regions, ¬ r.Has nSlot) → findServer s.cluster.vecSlot nSlot = none))

/-- **The slot table is never a mixture.**  After any run it is empty, or it answers as one reply to
`cluster slots` does: a slot of a region finds a listed server that was opened for the region's host,
and a slot of none finds nothing. -/
theorem table_run (as : List (Action n)) :
    Mirrored W (run (step W) (start W strHost nPort nTimeout nConnNum) as) := by
  have hr := run_routed W strHost nPort nTimeout nConnNum as
  generalize run (step W) (start W strHost nPort nTimeout nConnNum) as = s at hr
  rcases hr.reported with h | ⟨reply, regions, assigned, hans, hfetch, he, hbare⟩
  · exact Or.inl h
  · refine Or.inr ⟨reply, regions, hans, hfetch, fun hreg nSlot => ⟨fun r hrm hk => ?_, fun hno => ?_⟩⟩
    · have hreg' := hreg.of_bare hbare
      obtain ⟨r', hr', hb⟩ := mem_of_bare hbare.symm hrm
      have hfields := SlotRegion.mk.inj hb
      have hk' : r'.Has nSlot := by
        unfold SlotRegion.Has at hk ⊢
        rw [hfields.1, hfields.2.1]
        exact hk
      have hmem : r' ∈ s.cluster.vecSlot := by
        rw [he]
        exact (List.mem_insertionSort _).mpr hr'
      obtain ⟨sv, hsv, hp, hv⟩ := hr.table r' hmem
      refine ⟨sv, hsv, ?_, fun hne => ?_⟩
      · rw [findServer_has ⟨assigned, he⟩ (he ▸ hreg'.sorted) hmem hk']
        exact hp
      · rw [← hfields.2.2.1, ← hfields.2.2.2.1]
        exact hv (by rw [hfields.2.2.1]; exact hne)
    · rw [he, findServer_sorted (hreg.of_bare hbare), List.find?_eq_none.mpr]
      · rfl
      · intro r' hr' hk'
        obtain ⟨r, hrm, hb⟩ := mem_of_bare hbare hr'
        have hfields := SlotRegion.mk.inj hb
        refine hno r hrm ?_
        have hk'' : r'.Has nSlot := of_decide_eq_true hk'
        unfold SlotRegion.Has at hk'' ⊢
        rw [hfields.1, hfields.2.1]
        exact hk''

/-- **A reply comes from the node that the slot table names.**  A caller whose request succeeded has the
answer of a host of its server to its own arguments; in a cluster, where the regions of the table do not
overlap and the slot of the command lies in one whose host has a name, it is the answer of that host. -/
theorem served_run (as : List (Action n)) (i : Fin n) (sv c : Nat)
    (hp : ((run (step W) (start W strHost nPort nTimeout nConnNum) as).callers i).place
      = .giveBack sv c .success) :
    Served W (run (step W) (start W strHost nPort nTimeout nConnNum) as) i sv := by
  have hr := run_routed W strHost nPort nTimeout nConnNum as
  generalize run (step W) (start W strHost nPort nTimeout nConnNum) as = s at hp hr
  obtain ⟨reply, h1, h2⟩ := hr.answered i sv c hp
  refine ⟨reply, h1, h2, fun hc hslot hreg r hrm hk hne => ?_⟩
  have hfind := (hr.chosen i sv (by rw [hp]; rfl)).2 hc hslot
  rw [findServer_has hr.reported.sorted hreg hrm hk] at hfind
  obtain ⟨sv', _, he, hv⟩ := hr.table r hrm
  rw [he] at hfind
  obtain rfl := Option.some.inj hfind
  rw [← hv hne]
  exact h2

end

/-- two nodes, `a` and `b`, that share the slots -/
def twoNodes : World where
  connect := fun _ _ => true
  answer := fun _ _ args =>
    if args = info.args then some (.string (clusterEnabled ++ [58, 49]))
    else if args = clusterSlots.args then some (.array
      [.array [.integer 8192, .integer 16383, .array [.string [98], .integer 7001]],
        .array [.integer 0, .integer 8191, .array [.string [97], .integer 7000]]])
    else some (.string [120])
  time := fun _ => 0

theorem served_twoNodes :
    Served twoNodes (run (step twoNodes) (start twoNodes [97] 7000 10 1 : CRedisClient 1)
      ([.call worker ⟨[[103, 101, 116], [107]], 12000, none⟩] ++ List.replicate 5 (.caller worker true))) worker 1 :=
  served_run twoNodes [97] 7000 10 1 _ worker 1 1 (by decide +kernel)

end CRedisClient

end Iocp.Redis
