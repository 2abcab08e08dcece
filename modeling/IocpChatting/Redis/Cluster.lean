import IocpChatting.Lib.EqualRange
import IocpChatting.Redis.Pool
import Mathlib.Data.List.Sort

/-!
# Servers of a cluster (Content/RedisClient.cpp)

* `findServer`, `findServ`   the two `CRedisClient::FindServer`;
* `loadClusterSlots`         `CRedisClient::LoadClusterSlots`.

`findServer_sorted`: in a sorted table of disjoint regions a slot finds the region it lies in.
`Pooled.loadFrom`: a load keeps the pools, and one that succeeds gives each region a live server, opened
for the region's host.
-/

set_option linter.unusedSectionVars false
set_option autoImplicit false

namespace Iocp.Redis
open EqualRange

/-! ## the slot table -/

/-- `CompSlot`, both ways round -/
def below (slotReg : SlotRegion) (nSlot : Int) : Bool := slotReg.nEndSlot < nSlot
def above (slotReg : SlotRegion) (nSlot : Int) : Bool := nSlot < slotReg.nStartSlot

/-- `std::sort` by `operator<` -/
def sortSlots (vecSlot : List SlotRegion) : List SlotRegion :=
  vecSlot.insertionSort fun lReg rReg => lReg.nStartSlot ≤ rReg.nStartSlot

def findServer (vecSlot : List SlotRegion) (nSlot : Int) : Option Nat :=
  let (first, second) := equalRange below above vecSlot nSlot
  if first ≠ vecSlot.length ∧ first ≠ second then vecSlot[first]?.bind SlotRegion.pRedisServ
  else none

/-- by host and port -/
def findServ (h : Heap) (vecRedisServ : List Nat) (strHost : Str) (nPort : Int) : Option Nat :=
  vecRedisServ.find? fun s => strHost == (h.servers s).strHost && nPort == (h.servers s).nPort

/-! ## `LoadClusterSlots` -/

/-- `cluster slots` -/
def clusterSlots : CRedisCommand where
  args := [[99, 108, 117, 115, 116, 101, 114], [115, 108, 111, 116, 115]]

/-- the servers and the slot table of a client -/
structure Cluster where
  heap : Heap
  vecRedisServ : List Nat
  vecSlot : List SlotRegion

section
variable (W : World) (nConnNum : Int)

/-- the loop over the regions, with the servers made so far and the regions that have theirs; none for
the regions if a server cannot be reached -/
def assignRegions : List SlotRegion → Heap → List Nat → List SlotRegion →
    Heap × List Nat × Option (List SlotRegion)
  | [], h, vecRedisServ, assigned => (h, vecRedisServ, some assigned)
  | slotReg :: rest, h, vecRedisServ, assigned =>
    match findServ h vecRedisServ slotReg.strHost slotReg.nPort with
    | some s => assignRegions rest h vecRedisServ (assigned ++ [{ slotReg with pRedisServ := some s }])
    | none =>
      let s := h.nextServ
      let h := newServer W h slotReg.strHost slotReg.nPort nConnNum
      if isValid h s then
        assignRegions rest h (vecRedisServ ++ [s]) (assigned ++ [{ slotReg with pRedisServ := some s }])
      -- the server that is not valid is in no list
      else (h, vecRedisServ, none)

/-- the loop over the servers; none if a null pointer is read.  Where a server is not valid there is
nothing to delete: no server was made before -/
def loadFrom (old : List Nat) (vecSlot : List SlotRegion) :
    List Nat → Heap → CRedisCommand → Option (Cluster × Bool)
  | [], h, _ => some (⟨h, old, vecSlot⟩, false)
  | s :: rest, h, cmd =>
    if isValid h s then
      let (h, cmd, nRet) := servRequest W h s cmd
      match nRet, cmd.reply.map fun pReply => fetchSlot pReply [] with
      | .success, some (.done .success regions) =>
        match assignRegions W nConnNum regions h [] [] with
        | (h, made, none) => some (⟨deleteServers h made, old, vecSlot⟩, false)
        | (h, made, some assigned) => some (⟨deleteServers h old, made, sortSlots assigned⟩, true)
      | .success, some .fault => none
      | _, _ => loadFrom old vecSlot rest h cmd
    else some (⟨h, old, vecSlot⟩, false)

def loadClusterSlots (cl : Cluster) : Option (Cluster × Bool) :=
  loadFrom W nConnNum cl.vecRedisServ cl.vecSlot cl.vecRedisServ cl.heap clusterSlots

end

/-! ## finding a slot -/

/-- the slots of a region -/
def SlotRegion.Has (slotReg : SlotRegion) (nSlot : Int) : Prop :=
  slotReg.nStartSlot ≤ nSlot ∧ nSlot ≤ slotReg.nEndSlot

instance (slotReg : SlotRegion) (nSlot : Int) : Decidable (slotReg.Has nSlot) :=
  inferInstanceAs (Decidable (_ ∧ _))

/-- no slot is in both -/
def SlotRegion.Disjoint (a b : SlotRegion) : Prop := a.nEndSlot < b.nStartSlot ∨ b.nEndSlot < a.nStartSlot

instance : Std.Symm SlotRegion.Disjoint := ⟨fun _ _ h => h.symm⟩

/-- a slot table as a server sends it, in any order: no region is empty, and none overlaps another -/
structure Regular (vecSlot : List SlotRegion) : Prop where
  ordered : ∀ r ∈ vecSlot, r.nStartSlot ≤ r.nEndSlot
  disjoint : vecSlot.Pairwise SlotRegion.Disjoint

theorem matches_iff (r : SlotRegion) (nSlot : Int) : Matches below above r nSlot ↔ r.Has nSlot := by
  unfold Matches below above SlotRegion.Has
  simp only [decide_eq_false_iff_not]
  omega

theorem Regular.sorted {vecSlot : List SlotRegion} (h : Regular vecSlot) : Regular (sortSlots vecSlot) := by
  have hperm := List.perm_insertionSort (fun a b : SlotRegion => a.nStartSlot ≤ b.nStartSlot) vecSlot
  refine ⟨fun r hr => h.ordered r (hperm.mem_iff.mp hr), ?_⟩
  exact (hperm.pairwise_iff fun h => Or.symm h).mpr h.disjoint

/-- `operator<`, the other way round -/
abbrev startsLe (a b : SlotRegion) : Prop := a.nStartSlot ≤ b.nStartSlot

theorem pairwise_sortSlots (vecSlot : List SlotRegion) : (sortSlots vecSlot).Pairwise startsLe := by
  have : Std.Total startsLe := ⟨fun a b => le_total a.nStartSlot b.nStartSlot⟩
  have : IsTrans SlotRegion startsLe := ⟨fun _ _ _ hab hbc => le_trans hab hbc⟩
  exact List.pairwise_insertionSort startsLe vecSlot

theorem Regular.apart {vecSlot : List SlotRegion} (h : Regular vecSlot) :
    (sortSlots vecSlot).Pairwise (Apart below above) := by
  have hboth := (pairwise_sortSlots vecSlot).and h.sorted.disjoint
  refine List.Pairwise.imp_of_mem (fun {a b} ha hb hab v hv => ?_) hboth
  have hord := h.sorted.ordered b hb
  obtain ⟨hle, hdis⟩ := hab
  unfold below at hv
  unfold above
  simp only [decide_eq_false_iff_not, decide_eq_true_eq] at hv ⊢
  -- the other way round, `b` would end before `a` starts
  rcases hdis with hdis | hdis <;> omega

theorem Regular.eq_of_has {vecSlot : List SlotRegion} (h : Regular vecSlot) {a b : SlotRegion} {nSlot : Int}
    (ha : a ∈ vecSlot) (hb : b ∈ vecSlot) (ka : a.Has nSlot) (kb : b.Has nSlot) : a = b := by
  by_contra hne
  have hdis := h.disjoint.forall ha hb hne
  unfold SlotRegion.Has at ka kb
  rcases hdis with hdis | hdis <;> omega

/-- **A slot finds the region it lies in**, whatever order the regions came in, and none if it lies in
none. -/
theorem findServer_sorted {vecSlot : List SlotRegion} (h : Regular vecSlot) (nSlot : Int) :
    findServer (sortSlots vecSlot) nSlot
      = (vecSlot.find? fun r => r.Has nSlot).bind SlotRegion.pRedisServ := by
  have hmem : ∀ r, r ∈ sortSlots vecSlot ↔ r ∈ vecSlot := fun r => List.mem_insertionSort _
  have hsound : ∀ r ∈ sortSlots vecSlot, below r nSlot = true → above r nSlot = false := by
    intro r hr hb
    have hord := h.sorted.ordered r hr
    unfold below at hb
    unfold above
    simp only [decide_eq_false_iff_not, decide_eq_true_eq] at hb ⊢
    omega
  unfold findServer
  cases hf : vecSlot.find? (fun r => r.Has nSlot) with
  | none =>
    have hnone : ∀ r ∈ sortSlots vecSlot, ¬ Matches below above r nSlot := by
      intro r hr hm
      have := List.find?_eq_none.mp hf r ((hmem r).mp hr)
      exact this (decide_eq_true ((matches_iff r nSlot).mp hm))
    have he := equalRange_none hsound hnone
    simp only []
    rw [if_neg fun hne => hne.2 he]
    rfl
  | some r =>
    have hr := List.mem_of_find?_eq_some hf
    have hk : r.Has nSlot := by simpa using List.find?_some hf
    obtain ⟨xs, ys, hxy⟩ := List.append_of_mem ((hmem r).mpr hr)
    have hap := h.apart
    rw [hxy] at hap hsound ⊢
    rw [equalRange_found (fun y hy => hsound y (List.mem_append_left _ hy)) hap
      ((matches_iff r nSlot).mpr hk)]
    simp

theorem Regular.of_sorted {vecSlot : List SlotRegion} (h : Regular (sortSlots vecSlot)) : Regular vecSlot := by
  have hperm := List.perm_insertionSort (fun a b : SlotRegion => a.nStartSlot ≤ b.nStartSlot) vecSlot
  refine ⟨fun r hr => h.ordered r (hperm.mem_iff.mpr hr), ?_⟩
  exact (hperm.pairwise_iff fun h => Or.symm h).mp h.disjoint

/-- in a table that is sorted already -/
theorem findServer_has {vecSlot : List SlotRegion} (hsorted : ∃ assigned, vecSlot = sortSlots assigned)
    (h : Regular vecSlot) {r : SlotRegion} (hr : r ∈ vecSlot) {nSlot : Int} (hk : r.Has nSlot) :
    findServer vecSlot nSlot = r.pRedisServ := by
  obtain ⟨assigned, rfl⟩ := hsorted
  have hreg := h.of_sorted
  have hmem : r ∈ assigned := (List.mem_insertionSort _).mp hr
  rw [findServer_sorted hreg]
  cases hf : assigned.find? (fun r => r.Has nSlot) with
  | none => exact absurd (decide_eq_true hk) (List.find?_eq_none.mp hf r hmem)
  | some r' =>
    have hk' : r'.Has nSlot := by simpa using List.find?_some hf
    rw [hreg.eq_of_has (List.mem_of_find?_eq_some hf) hmem hk' hk]
    rfl

/-! ## a load -/

/-- the region's server is one of `servers`, opened for the region's host if that has a name -/
def Assigned (h : Heap) (servers : List Nat) (r : SlotRegion) : Prop :=
  ∃ s ∈ servers, r.pRedisServ = some s ∧
    (r.strHost ≠ [] → (h.servers s).vecHosts = [(r.strHost, r.nPort)])

/-- a region without its server -/
def SlotRegion.bare (r : SlotRegion) : SlotRegion := { r with pRedisServ := none }

/-- servers that a load made: each has an idle connection and one host -/
def Fresh (h : Heap) (servers : List Nat) : Prop :=
  ∀ s ∈ servers, isValid h s = true ∧ ∃ addr, (h.servers s).vecHosts = [addr]

theorem Kept.isValid {s : Nat} {h h' : Heap} (hk : Kept s h h') : isValid h' s = isValid h s := by
  unfold Redis.isValid
  rw [hk.idle]

theorem Fresh.kept {h h' : Heap} {servers : List Nat} (hf : Fresh h servers)
    (hk : ∀ s ∈ servers, Kept s h h') : Fresh h' servers := by
  intro s hs
  rw [(hk s hs).isValid, (hk s hs).vecHosts]
  exact hf s hs

theorem Assigned.kept {h h' : Heap} {servers servers' : List Nat} {r : SlotRegion}
    (ha : Assigned h servers r) (hk : ∀ s ∈ servers, Kept s h h') (hsub : ∀ s ∈ servers, s ∈ servers') :
    Assigned h' servers' r := by
  obtain ⟨s, hs, hr, hv⟩ := ha
  refine ⟨s, hsub s hs, hr, fun hne => ?_⟩
  rw [(hk s hs).vecHosts]
  exact hv hne

section
variable (W : World) (nConnNum : Int)

/-- what the loop over the regions leaves: the servers it started with are as they were -/
structure AssignOk (h : Heap) (old made : List Nat) (regions assigned : List SlotRegion)
    (r : Heap × List Nat × Option (List SlotRegion)) : Prop where
  pooled : Pooled r.1 (old ++ r.2.1)
  kept : ∀ s ∈ old, Kept s h r.1
  fresh : Fresh r.1 r.2.1
  assigned : ∀ out, r.2.2 = some out → (∀ x ∈ out, Assigned r.1 r.2.1 x) ∧
    out.map SlotRegion.bare = assigned.map SlotRegion.bare ++ regions.map SlotRegion.bare

theorem Pooled.assignRegions (regions : List SlotRegion) {h : Heap} {old made : List Nat}
    {assigned : List SlotRegion} (hp : Pooled h (old ++ made)) (hf : Fresh h made)
    (ha : ∀ x ∈ assigned, Assigned h made x) :
    AssignOk h old made regions assigned (assignRegions W nConnNum regions h made assigned) := by
  induction regions generalizing h made assigned with
  | nil =>
    refine ⟨hp, fun s _ => Kept.refl s h, hf, fun out ho => ?_⟩
    obtain rfl : assigned = out := Option.some.inj ho
    exact ⟨ha, (List.append_nil _).symm⟩
  | cons r rest ih =>
    -- one region more, given its server
    have hnext : ∀ (h' : Heap) (made' : List Nat) (s : Nat), Pooled h' (old ++ made') → Fresh h' made' →
        (∀ x ∈ assigned, Assigned h' made' x) → Assigned h' made' { r with pRedisServ := some s } →
        (∀ s ∈ old, Kept s h h') →
        AssignOk h old made (r :: rest) assigned (Redis.assignRegions W nConnNum rest h' made'
          (assigned ++ [{ r with pRedisServ := some s }])) := by
      intro h' made' s hp' hf' ha' hr' hk'
      have hall : ∀ x ∈ assigned ++ [{ r with pRedisServ := some s }], Assigned h' made' x := by
        intro x hx
        rcases List.mem_append.mp hx with hx | hx
        · exact ha' x hx
        · exact List.mem_singleton.mp hx ▸ hr'
      obtain ⟨h1, h2, h3, h4⟩ := ih hp' hf' hall
      refine ⟨h1, fun s hs => (hk' s hs).trans (h2 s hs), h3, fun out ho => ?_⟩
      obtain ⟨h5, h6⟩ := h4 out ho
      refine ⟨h5, h6.trans ?_⟩
      rw [List.map_append, List.append_assoc]
      rfl
    rw [Redis.assignRegions]
    cases hfind : findServ h made r.strHost r.nPort with
    | some s =>
      have hs := List.mem_of_find?_eq_some hfind
      have heq := List.find?_some hfind
      simp only [Bool.and_eq_true, beq_iff_eq] at heq
      refine hnext h made s hp hf ha ⟨s, hs, rfl, fun hne => ?_⟩ fun s _ => Kept.refl s h
      -- a server made by this load has one host, and its current host is that one
      obtain ⟨addr, haddr⟩ := (hf s hs).2
      have hmem := hp.hostsOk.host s (fun e => hne (heq.1.trans e))
      rw [haddr, List.mem_singleton, ← heq.1, ← heq.2] at hmem
      exact haddr.trans (congrArg (fun a => [a]) hmem.symm)
    | none =>
      obtain ⟨hp1, hn⟩ := hp.newServer W r.strHost r.nPort nConnNum
      have hne : ∀ s ∈ old ++ made, s ≠ h.nextServ := fun s hs => Nat.ne_of_lt (hp.live s hs).1
      have hkmade : ∀ s ∈ made, Kept s h (Redis.newServer W h r.strHost r.nPort nConnNum) := fun s hs =>
        hn.kept s (hne s (List.mem_append_right _ hs))
      have hkold : ∀ s ∈ old, Kept s h (Redis.newServer W h r.strHost r.nPort nConnNum) := fun s hs =>
        hn.kept s (hne s (List.mem_append_left _ hs))
      simp only []
      cases hvalid : isValid (Redis.newServer W h r.strHost r.nPort nConnNum) h.nextServ with
      | true =>
        rw [if_pos rfl]
        refine hnext _ (made ++ [h.nextServ]) h.nextServ ?_ ?_ ?_ ?_ hkold
        · rw [← List.append_assoc]
          exact hp1
        · intro s hs
          rcases List.mem_append.mp hs with hs | hs
          · exact hf.kept hkmade s hs
          · rw [List.mem_singleton.mp hs]
            exact ⟨hvalid, _, hn.vecHosts⟩
        · exact fun x hx => (ha x hx).kept hkmade fun s hs => List.mem_append_left _ hs
        · exact ⟨h.nextServ, List.mem_append_right _ (List.mem_singleton_self _), rfl, fun _ => hn.vecHosts⟩
      | false =>
        rw [if_neg Bool.false_ne_true]
        refine ⟨hp1.sublist ?_, hkold, hf.kept hkmade, fun out ho => by cases ho⟩
        exact List.sublist_append_left (old ++ made) _

/-- the slot table is made of `regions`, and each has its server -/
structure Table (cl : Cluster) (regions : List SlotRegion) : Prop where
  assigned : ∀ r ∈ cl.vecSlot, Assigned cl.heap cl.vecRedisServ r
  regions : ∃ assigned, cl.vecSlot = sortSlots assigned ∧ assigned.map SlotRegion.bare = regions.map SlotRegion.bare

/-- what a load leaves; the servers it started from are `old` -/
structure LoadOk (h : Heap) (old : List Nat) (vecSlot : List SlotRegion) (r : Cluster × Bool) : Prop where
  pooled : Pooled r.1.heap r.1.vecRedisServ
  failed : r.2 = false → r.1.vecRedisServ = old ∧ r.1.vecSlot = vecSlot ∧
    ∀ s ∈ old, (r.1.heap.servers s).vecHosts = (h.servers s).vecHosts
  done : r.2 = true → Fresh r.1.heap r.1.vecRedisServ ∧ ∃ reply regions,
    (∃ s ∈ old, Answered W (h.servers s).vecHosts clusterSlots.args reply) ∧
      fetchSlot reply [] = .done .success regions ∧ Table r.1 regions

theorem Pooled.loadFrom (l : List Nat) {h : Heap} {old : List Nat} {vecSlot : List SlotRegion}
    {cmd : CRedisCommand} (hp : Pooled h old) (hl : ∀ s ∈ l, s ∈ old) (hc : cmd.args = clusterSlots.args)
    {r : Cluster × Bool} (hr : loadFrom W nConnNum old vecSlot l h cmd = some r) :
    LoadOk W h old vecSlot r := by
  induction l generalizing h cmd with
  | nil =>
    obtain rfl := Option.some.inj hr
    exact ⟨hp, fun _ => ⟨rfl, rfl, fun _ _ => rfl⟩, fun he => by cases he⟩
  | cons s rest ih =>
    rw [Redis.loadFrom] at hr
    cases hvalid : isValid h s with
    | false =>
      rw [hvalid, if_neg Bool.false_ne_true] at hr
      obtain rfl := Option.some.inj hr
      exact ⟨hp, fun _ => ⟨rfl, rfl, fun _ _ => rfl⟩, fun he => by cases he⟩
    | true =>
      rw [hvalid, if_pos rfl] at hr
      have hs := hl s List.mem_cons_self
      obtain ⟨hp1, hw, _⟩ := hp.servRequest W hs cmd
      obtain ⟨hargs, hrep⟩ := hp.servRequest_reply W hs cmd
      generalize Redis.servRequest W h s cmd = q at hr hp1 hw hargs hrep
      obtain ⟨h1, cmd1, nRet⟩ := q
      -- the next server is asked
      have hrest : Redis.loadFrom W nConnNum old vecSlot rest h1 cmd1 = some r → LoadOk W h old vecSlot r := by
        intro he
        obtain ⟨h2, h3, h4⟩ := ih hp1 (fun s hs => hl s (List.mem_cons_of_mem _ hs)) (hargs.trans hc) he
        refine ⟨h2, fun e => ?_, fun e => ?_⟩
        · obtain ⟨h5, h6, h7⟩ := h3 e
          exact ⟨h5, h6, fun s hs => (h7 s hs).trans (hw.vecHosts s)⟩
        · obtain ⟨h5, reply, regions, ⟨s', hs', ha⟩, h6⟩ := h4 e
          exact ⟨h5, reply, regions, ⟨s', hs', hw.vecHosts s' ▸ ha⟩, h6⟩
      simp only [] at hr
      split at hr
      · rename_i hfetched regions hfetch
        obtain ⟨reply, hreply, ha⟩ := hrep rfl
        rw [show cmd1.reply = some reply from hreply, Option.map_some] at hfetch
        have hfetch := Option.some.inj hfetch
        have hp1' : Pooled h1 (old ++ []) := by
          rw [List.append_nil]
          exact hp1
        have ho := hp1'.assignRegions W nConnNum regions (fun _ hs => absurd hs List.not_mem_nil)
          fun _ (hx : _ ∈ []) => absurd hx List.not_mem_nil
        generalize Redis.assignRegions W nConnNum regions h1 [] [] = q at hr ho
        obtain ⟨h2, made, out⟩ := q
        have hdis := List.disjoint_of_nodup_append ho.pooled.nodup
        cases out with
        | none =>
          obtain rfl := Option.some.inj hr
          refine ⟨(ho.pooled.perm List.perm_append_comm).deleteServers, fun _ => ⟨rfl, rfl, fun s' hs' => ?_⟩,
            fun he => by cases he⟩
          have hk := (ho.kept s' hs').trans (deleteServers_kept (l := made) fun hm => hdis hs' hm)
          exact hk.vecHosts.trans (hw.vecHosts s')
        | some assigned =>
          obtain rfl := Option.some.inj hr
          have hk : ∀ s' ∈ made, Kept s' h2 (Redis.deleteServers h2 old) := fun s' hs' =>
            deleteServers_kept fun hm => hdis hm hs'
          obtain ⟨h3, h4⟩ := ho.assigned assigned rfl
          refine ⟨ho.pooled.deleteServers, fun he => absurd he.symm Bool.false_ne_true, fun _ => ⟨ho.fresh.kept hk, reply, regions,
            ⟨s, hs, hc ▸ ha⟩, hfetch, fun x hx => ?_, assigned, rfl, h4⟩⟩
          exact (h3 x ((List.mem_insertionSort _).mp hx)).kept hk fun _ hs => hs
      · cases hr
      · exact hrest hr

end

end Iocp.Redis
