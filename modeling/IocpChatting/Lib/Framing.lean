import IocpChatting.Lib.Runs
import Mathlib.Data.List.Infix

/-!
# Length-prefixed framing

A `Format` reads a head off the first `hdr` symbols of a buffer, and the head says how long the frame
is.  A buffer is `Complete` when it holds the whole first frame.

`next_frame` is the step of every reader: a complete buffer that is an initial part of a stream of
frames (followed by anything incomplete) starts with the first frame of that stream, and its head is
the head of that frame.  `split` cuts a stream by the heads alone, and `split_flatten` says that it gives
back the frames the stream is made of.

`Reader` is a buffer whose reader sleeps: a stored chunk wakes it once, a look at the buffer
takes one frame, and a reader that leaves something behind wakes itself again.

* `tracks_run`        the frames handed on and the buffer make up the stream, all along a run;
* `handed_initial`    the frames are handed on in order, each once;
* `all_handed`        a reader that sleeps with no wake-up pending has handed on every frame that has
                      come.
-/

set_option linter.unusedSectionVars false
set_option autoImplicit false

namespace Framing
open Runs

variable {α β : Type*}

/-- the head of a frame is read off its first `hdr` symbols -/
structure Format (α β : Type*) where
  hdr : Nat
  hdr_pos : 0 < hdr
  head : List α → β
  size : β → Nat
  head_append : ∀ l x, hdr ≤ l.length → head (l ++ x) = head l

namespace Format

variable (F : Format α β)

/-- the buffer holds its first frame to the end -/
def Complete (l : List α) : Prop := F.hdr ≤ l.length ∧ F.size (F.head l) ≤ l.length

instance (l : List α) : Decidable (F.Complete l) := inferInstanceAs (Decidable (_ ∧ _))

def IsFrame (p : List α) : Prop := F.hdr ≤ p.length ∧ F.size (F.head p) = p.length

variable {F}

theorem not_complete_nil : ¬ F.Complete [] := fun h => absurd F.hdr_pos (Nat.not_lt.mpr h.1)

theorem head_initial {c l : List α} (h : c <+: l) (hc : F.hdr ≤ c.length) : F.head l = F.head c := by
  obtain ⟨x, rfl⟩ := h
  exact F.head_append c x hc

theorem IsFrame.complete {p : List α} (h : F.IsFrame p) : F.Complete p := ⟨h.1, h.2.le⟩

theorem Complete.mono {c l : List α} (h : F.Complete c) (hp : c <+: l) : F.Complete l := by
  refine ⟨h.1.trans hp.length_le, ?_⟩
  rw [head_initial hp h.1]
  exact h.2.trans hp.length_le

/-- a complete buffer in front of a frame covers that frame -/
theorem Complete.covers {c p x : List α} (h : F.Complete c) (hp : F.IsFrame p)
    (hc : c <+: p ++ x) : p <+: c ∧ F.head c = F.head p := by
  have h1 : F.head (p ++ x) = F.head p := F.head_append p x hp.1
  have h2 : F.head (p ++ x) = F.head c := head_initial hc h.1
  have e : F.head c = F.head p := h2.symm.trans h1
  have hle : p.length ≤ c.length := by
    rw [← hp.2, ← e]
    exact h.2
  exact ⟨List.prefix_of_prefix_length_le (List.prefix_append p x) hc hle, e⟩

/-- **The next frame.**  A complete buffer at the head of a stream of frames holds the first one
of them. -/
theorem next_frame {c t : List α} {ps : List (List α)} (h : F.Complete c)
    (hps : ∀ p ∈ ps, F.IsFrame p) (ht : ¬ F.Complete t) (hc : c <+: ps.flatten ++ t) :
    ∃ p ps', ps = p :: ps' ∧ p <+: c ∧ F.head c = F.head p := by
  cases ps with
  | nil => exact absurd (h.mono hc) ht
  | cons p ps' =>
    rw [List.flatten_cons, List.append_assoc] at hc
    exact ⟨p, ps', rfl, h.covers (hps p List.mem_cons_self) hc⟩

theorem complete_of_frame {p l : List α} (hp : F.IsFrame p) (h : p <+: l) : F.Complete l :=
  hp.complete.mono h

theorem IsFrame.pos {p : List α} (h : F.IsFrame p) : 0 < p.length := F.hdr_pos.trans_le h.1

/-- nothing shorter than a frame is complete -/
theorem IsFrame.not_complete {p q : List α} (hp : F.IsFrame p) (hq : q <+: p)
    (hlt : q.length < p.length) : ¬ F.Complete q := by
  intro hc
  have hcov := (hc.covers hp (x := []) (by rwa [List.append_nil])).1
  have hle := hcov.length_le
  omega

/-! ### splitting by the heads -/

variable (F) in
/-- cut a stream into frames, each as long as its head says, as far as they are there -/
def split (l : List α) : List (List α) :=
  if F.Complete l ∧ 0 < F.size (F.head l) then
    l.take (F.size (F.head l)) :: split (l.drop (F.size (F.head l)))
  else []
termination_by l.length
decreasing_by
  next h =>
    rw [List.length_drop]
    exact Nat.sub_lt (h.2.trans_le h.1.2) h.2

theorem split_of_not_complete {l : List α} (h : ¬ F.Complete l) : F.split l = [] := by
  rw [split, if_neg fun e => h e.1]

theorem split_frame {p : List α} (hp : F.IsFrame p) (t : List α) :
    F.split (p ++ t) = p :: F.split t := by
  have hhead : F.head (p ++ t) = F.head p := F.head_append p t hp.1
  have hpos := hp.pos
  rw [split, hhead, hp.2, if_pos ⟨complete_of_frame hp (List.prefix_append p t), hpos⟩,
    List.take_left, List.drop_left]

/-- **Splitting gives the frames back.** -/
theorem split_flatten {ps : List (List α)} (hps : ∀ p ∈ ps, F.IsFrame p) (t : List α) :
    F.split (ps.flatten ++ t) = ps ++ F.split t := by
  induction ps with
  | nil => rfl
  | cons p ps ih =>
    have hp := hps p List.mem_cons_self
    have hrest := ih fun q hq => hps q (List.mem_cons_of_mem _ hq)
    rw [List.flatten_cons, List.append_assoc, split_frame hp, hrest, List.cons_append]

/-- an initial part of a stream of frames gives the frames that are in it to the end -/
theorem split_initial {l : List α} {ps : List (List α)} (hps : ∀ p ∈ ps, F.IsFrame p)
    (hl : l <+: ps.flatten) : F.split l <+: ps := by
  induction ps generalizing l with
  | nil =>
    rw [List.flatten_nil, List.prefix_nil] at hl
    rw [hl, split_of_not_complete not_complete_nil]
  | cons p ps ih =>
    have hp := hps p List.mem_cons_self
    have hfront : p <+: (p :: ps).flatten := List.prefix_append p ps.flatten
    rcases Nat.lt_or_ge l.length p.length with hlt | hge
    · have hpart : l <+: p := List.prefix_of_prefix_length_le hl hfront hlt.le
      rw [split_of_not_complete (hp.not_complete hpart hlt)]
      exact List.nil_prefix
    · obtain ⟨l', rfl⟩ := List.prefix_of_prefix_length_le hfront hl hge
      rw [split_frame hp]
      have hrest := ih (fun q hq => hps q (List.mem_cons_of_mem _ hq)) ((List.prefix_append_right_inj p).mp hl)
      exact (List.prefix_cons_inj p).mpr hrest

end Format

/-! ## a reader that sleeps -/

inductive Phase (β : Type*) where
  | idle
  /-- it has found a frame with this head -/
  | found (x : β)
  /-- the frame has been handed on, and still is in the buffer -/
  | handled (x : β)
  /-- something is left in the buffer -/
  | again

structure Reader (α β : Type*) where
  buffer : List α
  phase : Phase β
  /-- wake-ups that have not been answered -/
  wakes : Nat

inductive Event (α : Type*) where
  | store (data : List α)
  | look
  | handle
  | finish
  | push

namespace Reader

/-- one step; `none` is a step of somebody else -/
def step (F : Format α β) (accepts : β → Bool) (r : Reader α β) : Option (Event α) → Reader α β
  | none => r
  | some (.store data) => { r with buffer := r.buffer ++ data, wakes := r.wakes + 1 }
  | some .look =>
    match r.phase with
    | .idle =>
      { r with
        phase := if F.Complete r.buffer then .found (F.head r.buffer) else .idle
        wakes := r.wakes - 1 }
    | _ => r
  | some .handle =>
    match r.phase with
    | .found x => { r with phase := if accepts x then .handled x else .idle }
    | _ => r
  | some .finish =>
    match r.phase with
    | .handled x =>
      { r with
        buffer := r.buffer.drop (F.size x)
        phase := if r.buffer.drop (F.size x) = [] then .idle else .again }
    | _ => r
  | some .push =>
    match r.phase with
    | .again => { r with phase := .idle, wakes := r.wakes + 1 }
    | _ => r

def storedBy : Option (Event α) → List α
  | some (.store data) => data
  | _ => []

def handedBy (r : Reader α β) : Option (Event α) → List β
  | some .handle =>
    match r.phase with
    | .found x => [x]
    | _ => []
  | _ => []

def stored (h : List (Reader α β × Option (Event α))) : List α := h.flatMap fun x => storedBy x.2
def handed (h : List (Reader α β × Option (Event α))) : List β := h.flatMap fun x => x.1.handedBy x.2

variable {F : Format α β} {accepts : β → Bool} {ps : List (List α)} {t R : List α} {D : List β}
  {r : Reader α β}

/-- the frame that the reader is at is in the buffer -/
def Enough (F : Format α β) (r : Reader α β) : Prop :=
  match r.phase with
  | .found x | .handled x => F.size x ≤ r.buffer.length
  | _ => True

theorem enough_step (h : Enough F r) (e : Option (Event α)) : Enough F (r.step F accepts e) := by
  cases e with
  | none => exact h
  | some e =>
    cases hph : r.phase with
    | idle =>
      cases e with
      | look =>
        simp only [step, hph, Enough]
        by_cases hc : F.Complete r.buffer
        · rw [if_pos hc]
          exact hc.2
        · rw [if_neg hc]
          trivial
      | store data | handle | finish | push => simp only [step, hph, Enough]
    | found x =>
      simp only [Enough, hph] at h
      cases e with
      | store data =>
        simp only [step, hph, Enough, List.length_append]
        omega
      | handle =>
        simp only [step, hph, Enough]
        cases accepts x with
        | true => exact h
        | false => trivial
      | look | finish | push =>
        simp only [step, hph, Enough]
        exact h
    | handled x =>
      simp only [Enough, hph] at h
      cases e with
      | store data =>
        simp only [step, hph, Enough, List.length_append]
        omega
      | finish =>
        simp only [step, hph, Enough]
        by_cases hnil : r.buffer.drop (F.size x) = []
        · rw [if_pos hnil]
          trivial
        · rw [if_neg hnil]
          trivial
      | look | handle | push =>
        simp only [step, hph, Enough]
        exact h
    | again =>
      cases e with
      | store data | look | handle | finish | push => simp only [step, hph, Enough]

/-- the frames `qs` are behind the reader and `rest` before it -/
def AtPhase (F : Format α β) (qs rest : List (List α)) (D : List β) (r : Reader α β) : Prop :=
  match r.phase with
  | .idle => D = qs.map F.head ∧ (F.Complete r.buffer → 0 < r.wakes)
  | .found x => D = qs.map F.head ∧ ∃ p l, rest = p :: l ∧ p <+: r.buffer ∧ x = F.head p
  | .handled x => ∃ p l, rest = p :: l ∧ p <+: r.buffer ∧ x = F.head p ∧ D = (qs ++ [p]).map F.head
  | .again => D = qs.map F.head

/-- `R` has been stored and the heads `D` handed on, of a stream with the frames `ps` -/
def Tracks (F : Format α β) (ps : List (List α)) (R : List α) (D : List β) (r : Reader α β) : Prop :=
  ∃ qs rest, ps = qs ++ rest ∧ R = qs.flatten ++ r.buffer ∧ AtPhase F qs rest D r

theorem tracks_start (ps : List (List α)) (wakes : Nat) : Tracks F ps [] [] ⟨[], .idle, wakes⟩ :=
  ⟨[], ps, rfl, rfl, rfl, fun h => absurd h Format.not_complete_nil⟩

theorem tracks_store (data : List α) (h : Tracks F ps R D r) :
    Tracks F ps (R ++ data) D (r.step F accepts (some (.store data))) := by
  obtain ⟨qs, rest, hps, hR, hat⟩ := h
  have hgrow : ∀ {p : List α}, p <+: r.buffer → p <+: r.buffer ++ data :=
    fun hp => hp.trans (List.prefix_append _ _)
  refine ⟨qs, rest, hps, by rw [hR, List.append_assoc]; rfl, ?_⟩
  unfold AtPhase at hat ⊢
  simp only [step]
  cases hph : r.phase with
  | idle =>
    simp only [hph] at hat ⊢
    exact ⟨hat.1, fun _ => Nat.succ_pos _⟩
  | found x =>
    simp only [hph] at hat ⊢
    obtain ⟨hD, p, l, hl, hp, hx⟩ := hat
    exact ⟨hD, p, l, hl, hgrow hp, hx⟩
  | handled x =>
    simp only [hph] at hat ⊢
    obtain ⟨p, l, hl, hp, hx⟩ := hat
    exact ⟨p, l, hl, hgrow hp, hx⟩
  | again =>
    simp only [hph] at hat ⊢
    exact hat

theorem tracks_look (hps : ∀ p ∈ ps, F.IsFrame p) (ht : ¬ F.Complete t)
    (hR : R <+: ps.flatten ++ t) (h : Tracks F ps R D r) :
    Tracks F ps R D (r.step F accepts (some .look)) := by
  obtain ⟨qs, rest, rfl, rfl, hat⟩ := h
  cases hph : r.phase with
  | idle =>
    simp only [step, hph]
    refine ⟨qs, rest, rfl, rfl, ?_⟩
    simp only [AtPhase, hph] at hat ⊢
    -- what is buffered is an initial part of the frames that are left
    by_cases hc : F.Complete r.buffer
    · have hbuf : r.buffer <+: rest.flatten ++ t := by
        rw [List.flatten_append, List.append_assoc] at hR
        exact (List.prefix_append_right_inj _).mp hR
      obtain ⟨p, l, hl, hp, hx⟩ := Format.next_frame hc
        (fun p hp => hps p (List.mem_append_right _ hp)) ht hbuf
      rw [if_pos hc]
      exact ⟨hat.1, p, l, hl, hp, hx⟩
    · rw [if_neg hc]
      exact ⟨hat.1, fun h => absurd h hc⟩
  | found x | handled x | again =>
    simp only [step, hph]
    exact ⟨qs, rest, rfl, rfl, hat⟩

theorem tracks_handle (hacc : ∀ p ∈ ps, accepts (F.head p) = true) (h : Tracks F ps R D r) :
    Tracks F ps R (D ++ r.handedBy (some .handle)) (r.step F accepts (some .handle)) := by
  obtain ⟨qs, rest, rfl, rfl, hat⟩ := h
  cases hph : r.phase with
  | found x =>
    simp only [step, handedBy, hph]
    refine ⟨qs, rest, rfl, rfl, ?_⟩
    simp only [AtPhase, hph] at hat ⊢
    obtain ⟨hD, p, l, rfl, hp, rfl⟩ := hat
    rw [if_pos (hacc p (by simp))]
    refine ⟨p, l, rfl, hp, rfl, ?_⟩
    rw [hD, List.map_append]
    rfl
  | idle | handled x | again =>
    simp only [step, handedBy, hph, List.append_nil]
    exact ⟨qs, rest, rfl, rfl, hat⟩

theorem tracks_finish (hps : ∀ p ∈ ps, F.IsFrame p) (h : Tracks F ps R D r) :
    Tracks F ps R D (r.step F accepts (some .finish)) := by
  obtain ⟨qs, rest, rfl, rfl, hat⟩ := h
  cases hph : r.phase with
  | handled x =>
    simp only [step, hph]
    simp only [AtPhase, hph] at hat
    obtain ⟨p, l, rfl, ⟨y, hy⟩, rfl, hD⟩ := hat
    have hsize : F.size (F.head p) = p.length := (hps p (by simp)).2
    have hdrop : r.buffer.drop (F.size (F.head p)) = y := by
      rw [hsize, ← hy]
      exact List.drop_left
    rw [hdrop]
    refine ⟨qs ++ [p], l, by simp, by simp [← hy], ?_⟩
    unfold AtPhase
    -- nothing left: no frame can be complete, so no wake-up is owed; else `again` owes one
    by_cases hnil : y = []
    · simp only [if_pos hnil]
      refine ⟨hD, fun hc => ?_⟩
      rw [hnil] at hc
      exact absurd hc Format.not_complete_nil
    · simp only [if_neg hnil]
      exact hD
  | idle | found x | again =>
    simp only [step, hph]
    exact ⟨qs, rest, rfl, rfl, hat⟩

theorem tracks_push (h : Tracks F ps R D r) :
    Tracks F ps R D (r.step F accepts (some .push)) := by
  obtain ⟨qs, rest, rfl, rfl, hat⟩ := h
  cases hph : r.phase with
  | again =>
    simp only [step, hph]
    simp only [AtPhase, hph] at hat
    exact ⟨qs, rest, rfl, rfl, hat, fun _ => Nat.succ_pos _⟩
  | idle | found x | handled x =>
    simp only [step, hph]
    exact ⟨qs, rest, rfl, rfl, hat⟩

theorem tracks_step (hps : ∀ p ∈ ps, F.IsFrame p) (hacc : ∀ p ∈ ps, accepts (F.head p) = true)
    (ht : ¬ F.Complete t) (h : Tracks F ps R D r) (hR : R <+: ps.flatten ++ t)
    (e : Option (Event α)) :
    Tracks F ps (R ++ storedBy e) (D ++ r.handedBy e) (r.step F accepts e) := by
  cases e with
  | none =>
    simp only [storedBy, handedBy, List.append_nil]
    exact h
  | some e =>
    cases e with
    | store data =>
      simp only [storedBy, handedBy, List.append_nil]
      exact tracks_store data h
    | look =>
      simp only [storedBy, handedBy, List.append_nil]
      exact tracks_look hps ht hR h
    | handle =>
      simp only [storedBy, List.append_nil]
      exact tracks_handle hacc h
    | finish =>
      simp only [storedBy, handedBy, List.append_nil]
      exact tracks_finish hps h
    | push =>
      simp only [storedBy, handedBy, List.append_nil]
      exact tracks_push h

/-- **The buffer and the frames handed on make up the stream, all along a run.** -/
theorem tracks_run (hps : ∀ p ∈ ps, F.IsFrame p) (hacc : ∀ p ∈ ps, accepts (F.head p) = true)
    (ht : ¬ F.Complete t) (wakes : Nat) (es : List (Option (Event α)))
    (hR : stored (hist (step F accepts) ⟨[], .idle, wakes⟩ es) <+: ps.flatten ++ t) :
    Tracks F ps (stored (hist (step F accepts) ⟨[], .idle, wakes⟩ es))
      (handed (hist (step F accepts) ⟨[], .idle, wakes⟩ es))
      (run (step F accepts) ⟨[], .idle, wakes⟩ es) := by
  induction es using List.reverseRecOn with
  | nil => exact tracks_start ps wakes
  | append_singleton es e ih =>
    have hs : ∀ h : List (Reader α β × Option (Event α)), ∀ x, stored (h ++ [x]) = stored h ++ storedBy x.2 := by
      intro h x
      unfold stored
      rw [List.flatMap_append, List.flatMap_singleton]
    have hd : ∀ h : List (Reader α β × Option (Event α)), ∀ x,
        handed (h ++ [x]) = handed h ++ x.1.handedBy x.2 := by
      intro h x
      unfold handed
      rw [List.flatMap_append, List.flatMap_singleton]
    rw [hist_snoc, hs] at hR
    rw [hist_snoc, run_snoc, hs, hd]
    have hR' := (List.prefix_append _ _).trans hR
    exact tracks_step hps hacc ht (ih hR') hR' e

/-- **The frames are handed on in order, each once.** -/
theorem Tracks.handed_initial (h : Tracks F ps R D r) : D <+: ps.map F.head := by
  obtain ⟨qs, rest, rfl, rfl, hat⟩ := h
  have hinit : qs.map F.head <+: (qs ++ rest).map F.head := by
    rw [List.map_append]
    exact List.prefix_append _ _
  unfold AtPhase at hat
  split at hat
  · rw [hat.1]
    exact hinit
  · rw [hat.1]
    exact hinit
  · obtain ⟨p, l, rfl, _, _, rfl⟩ := hat
    rw [List.map_append, List.map_append, List.map_cons]
    exact (List.prefix_append_right_inj _).mpr ⟨l.map F.head, rfl⟩
  · rw [hat]
    exact hinit

/-- **A reader that sleeps with no wake-up pending has handed on every frame that has come.** -/
theorem Tracks.all_handed (h : Tracks F ps R D r) (hps : ∀ p ∈ ps, F.IsFrame p)
    (hidle : r.phase = .idle) (hwakes : r.wakes = 0) {qs : List (List α)} (hqs : qs <+: ps)
    (hcome : qs.flatten <+: R) : qs.map F.head <+: D := by
  obtain ⟨qs₀, rest, rfl, rfl, hat⟩ := h
  simp only [AtPhase, hidle] at hat
  obtain ⟨rfl, hwake⟩ := hat
  have hnone : ¬ F.Complete r.buffer := fun hc => absurd (hwake hc) (by omega)
  rcases List.prefix_or_prefix_of_prefix hqs (List.prefix_append qs₀ rest) with hle | ⟨l, rfl⟩
  · exact hle.map F.head
  · cases l with
    | nil =>
      rw [List.append_nil]
    | cons p l =>
      -- the frame behind `qs₀` would be in the buffer
      have hp : p <+: r.buffer := by
        rw [List.flatten_append, List.prefix_append_right_inj, List.flatten_cons] at hcome
        exact (List.prefix_append _ _).trans hcome
      exact absurd (Format.complete_of_frame (hps p (hqs.subset (by simp))) hp) hnone

end Reader
end Framing
