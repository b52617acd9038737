import NetworkOptimization.Phases

namespace NetworkOptimization.SendQueue

open Runs Benchmark Phases

def experimentStart (txDepth iters : Int) : State :=
  ⟨.start (clientExperiment txDepth iters iters.toNat 0 0), .start serverExperiment⟩

/-- The states of one experiment, in every order of its steps. -/
def Running (txDepth iters : Int) : State → Prop :=
  Reach (fun s => s = experimentStart txDepth iters) (fun s l t => move s l = some t) (fun _ _ => True)

def outstanding (side : Side) : Int := side.posted - side.completed

/-- A rest of the client's program: whatever is left to complete, every post finds room for
one more request, because the waits behind it took `taken` completions and at most a response
for each message is among them. -/
def Window (txDepth posted sent taken : Int) : List Action → Prop
  | [] => True
  | .write :: rest => posted + 1 + sent - taken ≤ txDepth ∧ Window txDepth (posted + 1) sent taken rest
  | .send :: rest =>
    posted + 1 + sent - taken ≤ txDepth ∧ Window txDepth (posted + 1) (sent + 1) taken rest
  | .wait iters :: rest => Window txDepth posted sent (taken + iters) rest
  | .finish :: rest => Window txDepth posted sent taken rest

section Loop

variable {txDepth iters : Int}

theorem window_clientExperiment (ht : 1 ≤ txDepth) (hc : iters = 0 ∨ iters % txDepth ≠ 0) {n : Nat} :
    ∀ {i numComplete : Int}, 0 ≤ i → 0 ≤ numComplete → i + n = iters → Behind txDepth i numComplete →
      Window txDepth i 0 numComplete (clientExperiment txDepth iters n i numComplete) := by
  induction n with
  | zero =>
    intro i numComplete hi _ hn hb
    obtain rfl : i = iters := by omega
    have hfree : i ≠ numComplete + txDepth := by
      intro hfull
      obtain ⟨h0, hmod⟩ := (hb.waits_iff ht).mpr hfull
      cases hc with
      | inl hz => exact h0 hz
      | inr hr => exact hr hmod
    have hnear := hb.near
    exact ⟨by omega, trivial⟩
  | succ n ih =>
    intro i numComplete hi hnum hn hb
    rw [clientExperiment]
    have hnear := hb.near
    by_cases hw : i ≠ 0 ∧ i % txDepth = 0
    · have hfull := (hb.waits_iff ht).mp hw
      rw [if_pos hw]
      exact ⟨by omega, ih (by omega) (by omega) (by omega) (hb.wait ht hfull hi)⟩
    · have hfree : i ≠ numComplete + txDepth := fun hfull => hw ((hb.waits_iff ht).mpr hfull)
      rw [if_neg hw]
      exact ⟨by omega, ih (by omega) hnum (by omega) (hb.go hfree hi)⟩

end Loop

structure Roomy (txDepth : Int) (side : Side) (taken : Int) : Prop where
  counted : Counted side taken
  window : Window txDepth side.posted side.sent taken side.todo
  room : outstanding side ≤ txDepth

variable {txDepth taken : Int} {side side' : Side}

theorem outstanding_le (hc : Counted side taken) (ha : side.arrived ≤ side.sent) :
    outstanding side ≤ side.posted + side.sent - taken := by
  have htotal := hc.total
  rw [outstanding]
  omega

theorem Roomy.act (h : Roomy txDepth side taken) (hf : Fresh side.todo.tail)
    (ha : side.arrived ≤ side.sent)
    (hm : side.act = some side') : ∃ taken', Roomy txDepth side' taken' := by
  have hw := h.window
  have hroom := h.room
  have hle := outstanding_le h.counted ha
  rw [outstanding] at hroom hle
  obtain ⟨rest, ht, rfl, hc⟩ | ⟨rest, ht, rfl, hc⟩ | ⟨rest, ht, rfl, hc⟩ | ⟨iters, rest, ht, rfl, hc⟩ :=
    acted h.counted hf hm
  · rw [ht] at hw
    refine ⟨taken, hc, by exact_mod_cast hw.2, ?_⟩
    have hpost := hw.1
    simp only [outstanding]
    push_cast
    omega
  · rw [ht] at hw
    refine ⟨taken, hc, by exact_mod_cast hw.2, ?_⟩
    have hpost := hw.1
    simp only [outstanding]
    push_cast
    omega
  · rw [ht] at hw
    exact ⟨taken, hc, hw, hroom⟩
  · rw [ht] at hw
    exact ⟨taken + iters, hc, hw, hroom⟩

theorem Roomy.step {peerSent : Nat} {l : Label} (h : Roomy txDepth side taken) (hf : Fresh side.todo.tail)
    (ha : side.arrived ≤ side.sent) (hm : side.move peerSent l = some side') :
    ∃ taken', Roomy txDepth side' taken' := by
  have hw := h.window
  have hroom := h.room
  cases l with
  | act => exact h.act hf ha hm
  | poll ne =>
    have hc := h.counted.poll hm
    obtain ⟨scnt, rcnt, cq, rfl⟩ := polled_rest hm
    exact ⟨taken, hc, hw, hroom⟩
  | complete =>
    have hc := h.counted.complete hm
    obtain rfl := completed_rest hm
    refine ⟨taken, hc, hw, ?_⟩
    simp only [outstanding] at hroom ⊢
    push_cast
    omega
  | arrive =>
    obtain ⟨hc, -⟩ := h.counted.arrive hm
    obtain rfl := arrived_rest hm
    exact ⟨taken, hc, hw, hroom⟩

theorem experiment_inv {iters : Int} (hi : 0 ≤ iters) (ht : 1 ≤ txDepth) :
    Inv (experimentStart txDepth iters) 0 0 := by
  have hrounds := @rounds_clientExperiment txDepth iters [] ht (fun _ _ => trivial) iters.toNat 0 0 0 0
    (by omega) (by omega) (behind_zero ht)
  have hanswers := @answers_experiments [] (fun _ => trivial) 1 0
  rw [List.append_nil] at hrounds
  exact ⟨.begin hrounds.fresh rfl rfl rfl (Nat.le_refl 0),
    .begin hanswers.fresh rfl rfl rfl (Nat.le_refl 0),
    hrounds, hanswers, rfl, Nat.le_refl 0, Nat.le_refl 0, Nat.le_refl 0⟩

theorem stays_roomy {iters : Int} (hi : 0 ≤ iters) (ht : 1 ≤ txDepth)
    (hc : iters = 0 ∨ iters % txDepth ≠ 0) {s : State} (hs : Running txDepth iters s) :
    outstanding s.client ≤ txDepth := by
  have hinv : (∃ c v, Inv s c v) ∧ ∃ taken, Roomy txDepth s.client taken := by
    refine hs.invariant (P := fun s => (∃ c v, Inv s c v) ∧ ∃ taken, Roomy txDepth s.client taken) ?_ ?_
    · rintro s rfl
      have hi0 := experiment_inv hi ht
      refine ⟨⟨0, 0, hi0⟩, 0, hi0.client, ?_, ?_⟩
      · exact window_clientExperiment ht hc (Int.le_refl 0) (Int.le_refl 0)
          (show 0 + (iters.toNat : Int) = iters by omega) (behind_zero ht)
      · change (0 : Int) - 0 ≤ txDepth
        omega
    · rintro s l t ⟨⟨c, v, h⟩, taken, hr⟩ - hm
      refine ⟨h.step hm, ?_⟩
      cases l with
      | client l =>
        obtain ⟨client, hclient, rfl⟩ := Option.map_eq_some_iff.mp hm
        have hsent : s.client.arrived ≤ s.client.sent :=
          Nat.le_trans (Nat.le_trans h.toClient h.answered) h.toServer
        exact hr.step h.rounds.fresh_tail hsent hclient
      | server l =>
        obtain ⟨server, -, rfl⟩ := Option.map_eq_some_iff.mp hm
        exact ⟨taken, hr⟩
  obtain ⟨-, taken, hr⟩ := hinv
  exact hr.room

def before (todo : List Action) (posted completed : Nat) : State :=
  ahead (.start []) (.start serverExperiment) todo 0 posted completed

section Overfull

variable {iters : Int}

/-- Where the loop ended on a full window, the control message is one request too many. -/
theorem overfull {d : Nat} (ht : 1 ≤ (d : Int)) (hi : 0 ≤ iters) (h0 : iters ≠ 0) (hmod : iters % d = 0) :
    ∃ s, Running d iters s ∧ outstanding s.client = d + 1 := by
  have hstart : Running d iters (before (clientExperiment d iters iters.toNat 0 0 ++ []) 0 0) := by
    rw [List.append_nil]
    exact .start rfl
  obtain ⟨last, hb, hs⟩ := alone_loop (P := Running d iters) (fun hs hm => hs.next trivial hm) ht
    (Nat.le_refl 0) (show ((0 : Nat) : Int) + iters.toNat = iters by omega) (behind_zero ht) hstart
  have hfull := (hb.waits_iff ht).mp ⟨h0, hmod⟩
  refine ⟨_, hs.next trivial (show move _ (.client .act) = some _ from rfl), ?_⟩
  simp only [outstanding, ahead]
  push_cast
  omega

end Overfull

/-- No state of an experiment has more requests in the send queue than the queue holds, unless
`iters` is a positive multiple of `tx_depth`. -/
theorem send_queue_bound_iff (txDepth iters : Int) (hi : 0 ≤ iters) (ht : 1 ≤ txDepth) :
    (∀ s, Running txDepth iters s → outstanding s.client ≤ txDepth) ↔ iters = 0 ∨ iters % txDepth ≠ 0 := by
  constructor
  · intro hall
    by_contra hc
    obtain ⟨h0, hmod⟩ := not_or.mp hc
    obtain ⟨d, rfl⟩ := Int.eq_ofNat_of_zero_le (show 0 ≤ txDepth by omega)
    obtain ⟨s, hs, hover⟩ := overfull ht hi h0 (not_not.mp hmod)
    have hle := hall s hs
    omega
  · exact fun hc s hs => stays_roomy hi ht hc hs

/-- A write and the control message are outstanding. -/
theorem send_queue_bound_single :
    ∃ s, Running 4800 1 s ∧ outstanding s.client = 2 ∧ outstanding s.client ≤ 4800 := by
  have hstart : Running 4800 1 (before [.write, .send, .wait 3, .finish] 0 0) := .start rfl
  have hwrote := alone_post (P := Running 4800 1) (fun hs hm => hs.next trivial hm) hstart
  have hsent := hwrote.next trivial (show move _ (.client .act) = some _ from rfl)
  exact ⟨_, hsent, rfl, (send_queue_bound_iff 4800 1 (by decide) (by decide)).mpr (by decide) _ hsent⟩

/-- With `-n 4800` the 4801st request is the control message. -/
theorem send_queue_overfull : ¬ ∀ s, Running 4800 4800 s → outstanding s.client ≤ 4800 := by
  intro hall
  obtain ⟨s, hs, hover⟩ := @overfull 4800 4800 (by decide) (by decide) (by decide) (by decide)
  have hle := hall s hs
  omega

end NetworkOptimization.SendQueue
