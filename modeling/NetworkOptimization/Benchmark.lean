import Mathlib.Data.List.Basic
import NetworkOptimization.Runs
import NetworkOptimization.Waits

namespace NetworkOptimization.Benchmark

open Runs
open Waits (wcBatch)

def numOfWarmup : Int := 500

/-- What a side does next: it posts an RDMA write or a control message, it waits for a number
of completions, or (the client) it ends a round or an experiment. -/
inductive Action where
  | write
  | send
  | wait (iters : Int)
  | finish
  deriving DecidableEq

/-- The client's loop of `perform_single_experiment` from its `i`-th iteration on, with `n`
iterations left, and the control message behind it. The sums are those of the integers;
`Side.Defined` says that they are an `int`. -/
def clientExperiment (txDepth iters : Int) : Nat → Int → Int → List Action
  | 0, _, numComplete => [.send, .wait (iters - numComplete + 2), .finish]
  | n + 1, i, numComplete =>
    if i ≠ 0 ∧ i % txDepth = 0 then
      .wait txDepth :: .write :: clientExperiment txDepth iters n (i + 1) (numComplete + txDepth)
    else .write :: clientExperiment txDepth iters n (i + 1) numComplete

def serverExperiment : List Action := [.wait 1, .send, .wait 1]

def clientLatency : Nat → List Action
  | 0 => []
  | n + 1 => .send :: .wait 2 :: .finish :: clientLatency n

/-- The server's loop of `latency_test` from its `i`-th iteration on, with `n` left. -/
def serverLatency (iters : Int) : Nat → Int → List Action
  | 0, _ => []
  | n + 1, i => (if i = 0 then [.wait 1] else []) ++
      (.send :: .wait (if i = iters - 1 then 1 else 2) :: serverLatency iters n (i + 1))

/-- `main` on the client: the warm-up, the experiments and the second latency test. -/
def clientMain (txDepth iters : Int) (experiments : Nat) : List Action :=
  clientLatency numOfWarmup.toNat ++
    ((List.replicate experiments (clientExperiment txDepth iters iters.toNat 0 0)).flatten ++
      clientLatency iters.toNat)

def serverMain (iters : Int) (experiments : Nat) : List Action :=
  serverLatency numOfWarmup numOfWarmup.toNat 0 ++
    ((List.replicate experiments serverExperiment).flatten ++ serverLatency iters iters.toNat 0)

/-- `PINGPONG_SEND_WRID` and `PINGPONG_RECV_WRID`. -/
inductive WrId where
  | send
  | recv
  deriving DecidableEq

/-- One side: what is left of its program, the counters of `pp_wait_completions`, its
completion queue, and what it posted, what of that completed, the control messages that it
posted and that arrived, and the rounds that it ended. -/
structure Side where
  todo : List Action
  scnt : Nat
  rcnt : Nat
  cq : List WrId
  posted : Nat
  completed : Nat
  sent : Nat
  arrived : Nat
  ended : Nat

inductive Label where
  | act
  | poll (ne : Nat)
  | complete
  | arrive
  deriving DecidableEq

namespace Side

def start (todo : List Action) : Side := ⟨todo, 0, 0, [], 0, 0, 0, 0, 0⟩

def numPoll (side : Side) (iters : Int) : Int :=
  if wcBatch > iters - side.rcnt - side.scnt then iters - side.rcnt - side.scnt else wcBatch

def act (side : Side) : Option Side :=
  match side.todo with
  | [] => none
  | .write :: rest => some { side with todo := rest, posted := side.posted + 1 }
  | .send :: rest => some { side with todo := rest, posted := side.posted + 1, sent := side.sent + 1 }
  | .finish :: rest => some { side with todo := rest, ended := side.ended + 1 }
  | .wait iters :: rest =>
    if (side.rcnt + side.scnt : Int) < iters then none
    else some { side with todo := rest, scnt := 0, rcnt := 0 }

def poll (side : Side) (ne : Nat) : Option Side :=
  match side.todo with
  | .wait iters :: _ =>
    if (side.rcnt + side.scnt : Int) < iters ∧ 0 < ne ∧ ne ≤ side.numPoll iters ∧ ne ≤ side.cq.length then
      some { side with
        scnt := side.scnt + (side.cq.take ne).count .send
        rcnt := side.rcnt + (side.cq.take ne).count .recv
        cq := side.cq.drop ne }
    else none
  | _ => none

def complete (side : Side) : Option Side :=
  if side.completed < side.posted then
    some { side with completed := side.completed + 1, cq := side.cq ++ [.send] }
  else none

def arrive (side : Side) (peerSent : Nat) : Option Side :=
  if side.arrived < peerSent then
    some { side with arrived := side.arrived + 1, cq := side.cq ++ [.recv] }
  else none

def move (side : Side) (peerSent : Nat) : Label → Option Side
  | .act => side.act
  | .poll ne => side.poll ne
  | .complete => side.complete
  | .arrive => side.arrive peerSent

end Side

structure State where
  client : Side
  server : Side

def start (txDepth iters : Int) (experiments : Nat) : State :=
  ⟨.start (clientMain txDepth iters experiments), .start (serverMain iters experiments)⟩

inductive Step where
  | client (l : Label)
  | server (l : Label)

def move (s : State) : Step → Option State
  | .client l => (s.client.move s.server.sent l).map (fun c => { s with client := c })
  | .server l => (s.server.move s.client.sent l).map (fun v => { s with server := v })

def IsInt (n : Int) : Prop := -2 ^ 31 ≤ n ∧ n < 2 ^ 31

instance (n : Int) : Decidable (IsInt n) := inferInstanceAs (Decidable (_ ∧ _))

/-- The number that a side waits for came out of its sum without an overflow. -/
def Side.Defined (side : Side) : Prop := ∀ n rest, side.todo = .wait n :: rest → IsInt n

def Reached (txDepth iters : Int) (experiments : Nat) : State → Prop :=
  Reach (fun s => s = start txDepth iters experiments) (fun s l t => move s l = some t) (fun _ _ => True)

def Side.Blocked (side : Side) : Prop :=
  ∃ iters rest, side.todo = .wait iters :: rest ∧ (side.rcnt + side.scnt : Int) < iters ∧ side.cq = []

def Quiet (s : State) : Prop :=
  s.client.completed = s.client.posted ∧ s.server.completed = s.server.posted ∧
    s.client.arrived = s.server.sent ∧ s.server.arrived = s.client.sent

/-- The two sides are in step: the server is about to post its next response only when the
message of that round has arrived, the client is about to end a round only when all that it
posted has completed and the response of that round was received, and the two do not wait for
each other. -/
def InStep (s : State) : Prop :=
  (∀ rest, s.server.todo = .send :: rest → s.server.sent + 1 ≤ s.server.arrived) ∧
    (∀ rest, s.client.todo = .finish :: rest → s.client.completed = s.client.posted ∧
      s.client.ended + 1 ≤ s.client.arrived ∧ s.client.cq = []) ∧
    ¬ (s.client.Blocked ∧ s.server.Blocked ∧ Quiet s)

/-- How far the waits of the loop are behind its `i`-th iteration. -/
structure Behind (txDepth i numComplete : Int) : Prop where
  multiple : txDepth ∣ numComplete
  start : i = 0 → numComplete = 0
  below : i ≠ 0 → numComplete < i
  near : i ≤ numComplete + txDepth

section Loop

variable {txDepth iters i numComplete : Int}

theorem behind_zero (ht : 1 ≤ txDepth) : Behind txDepth 0 0 :=
  ⟨Int.dvd_zero _, fun _ => rfl, fun h => absurd rfl h, by omega⟩

theorem Behind.le (h : Behind txDepth i numComplete) : numComplete ≤ i := by
  by_cases h0 : i = 0
  · rw [h0, h.start h0]
  · exact (h.below h0).le

/-- The iterations that wait are those at which the whole depth is outstanding. -/
theorem Behind.waits_iff (h : Behind txDepth i numComplete) (ht : 1 ≤ txDepth) :
    (i ≠ 0 ∧ i % txDepth = 0) ↔ i = numComplete + txDepth := by
  obtain ⟨k, rfl⟩ := h.multiple
  constructor
  · rintro ⟨h0, hmod⟩
    obtain ⟨m, rfl⟩ := Int.dvd_of_emod_eq_zero hmod
    have hlow := h.below h0
    have hkm : k + 1 ≤ m := Int.lt_of_mul_lt_mul_left hlow (by omega)
    have hmul := Int.mul_le_mul_of_nonneg_left hkm (by omega : (0 : Int) ≤ txDepth)
    rw [Int.mul_add, Int.mul_one] at hmul
    exact Int.le_antisymm h.near hmul
  · intro hi
    refine ⟨fun h0 => ?_, ?_⟩
    · have hz := h.start h0
      omega
    · rw [hi, Int.add_emod_right, Int.mul_emod_right]

theorem Behind.wait (h : Behind txDepth i numComplete) (ht : 1 ≤ txDepth) (hi : i = numComplete + txDepth)
    (h0 : 0 ≤ i) : Behind txDepth (i + 1) (numComplete + txDepth) :=
  ⟨Int.dvd_add h.multiple (Int.dvd_refl _), fun _ => by omega, fun _ => by omega, by omega⟩

theorem Behind.go (h : Behind txDepth i numComplete) (hi : i ≠ numComplete + txDepth) (h0 : 0 ≤ i) :
    Behind txDepth (i + 1) numComplete := by
  have hnear := h.near
  refine ⟨h.multiple, fun _ => by omega, fun _ => ?_, by omega⟩
  by_cases hz : i = 0
  · rw [h.start hz]
    omega
  · have hlow := h.below hz
    omega

/-- What the last wait of the client asks for beside its message and the response. -/
def left (txDepth iters : Int) : Int := if iters = 0 then 0 else (iters - 1) % txDepth + 1

theorem Behind.left_eq (h : Behind txDepth iters numComplete) :
    iters - numComplete = left txDepth iters := by
  have hnear := h.near
  rw [left]
  split_ifs with h0
  · rw [h0, h.start h0, Int.sub_zero]
  · have hlow := h.below h0
    obtain ⟨k, rfl⟩ := h.multiple
    have hrest : iters - 1 = iters - 1 - txDepth * k + txDepth * k := by omega
    rw [hrest, Int.add_mul_emod_self_left, Int.emod_eq_of_lt (by omega) (by omega)]
    omega

theorem isInt_left (ht : 1 ≤ txDepth) (h : left txDepth iters + 2 < 2 ^ 31) :
    IsInt (left txDepth iters + 2) := by
  refine ⟨?_, h⟩
  rw [left]
  have hmod := Int.emod_nonneg (iters - 1) (show txDepth ≠ 0 by omega)
  split_ifs <;> omega

end Loop

def ahead (client server : Side) (todo : List Action) (scnt posted completed : Nat) : State :=
  ⟨{ client with
      todo := todo, scnt := scnt, rcnt := 0, cq := [], posted := posted, completed := completed },
    server⟩

section Alone

variable {P : State → Prop} {client server : Side} {iters n : Int} {rest : List Action}
  {scnt posted completed k : Nat} (hP : ∀ {s l t}, P s → move s l = some t → P t)

include hP

theorem alone_post (hs : P (ahead client server (.write :: rest) 0 posted completed)) :
    P (ahead client server rest 0 (posted + 1) completed) :=
  hP hs (show move _ (.client .act) = some _ from rfl)

theorem alone_past (hs : P (ahead client server (.wait n :: rest) scnt posted completed))
    (hn : n ≤ scnt) : P (ahead client server rest 0 posted completed) := by
  refine hP hs (show move _ (.client .act) = some _ from ?_)
  simp [move, Side.move, Side.act, ahead, Int.not_lt.mpr hn]

theorem alone_take (hs : P (ahead client server (.wait n :: rest) scnt posted completed))
    (hn : (scnt : Int) < n) (hc : completed < posted) :
    P (ahead client server (.wait n :: rest) (scnt + 1) posted (completed + 1)) := by
  have hcomplete : move (ahead client server (.wait n :: rest) scnt posted completed) (.client .complete) =
      some ⟨{ client with
        todo := .wait n :: rest, scnt := scnt, rcnt := 0, cq := [.send], posted := posted
        completed := completed + 1 }, server⟩ := by
    simp [move, Side.move, Side.complete, ahead, hc]
  refine hP (hP hs hcomplete) (show move _ (.client (.poll 1)) = some _ from ?_)
  have hask : ∀ side : Side, side.rcnt = 0 → side.scnt = scnt → 1 ≤ side.numPoll n := by
    intro side hr hsc
    rw [Side.numPoll, hr, hsc]
    have hbatch : wcBatch = 10 := rfl
    split_ifs <;> omega
  simp [move, Side.move, Side.poll, ahead, hn, hask]

theorem alone_wait (hk : (scnt : Int) + k = n) (hc : completed + k ≤ posted)
    (hs : P (ahead client server (.wait n :: rest) scnt posted completed)) :
    P (ahead client server rest 0 posted (completed + k)) := by
  induction k generalizing scnt completed with
  | zero => exact alone_past hP hs (by omega)
  | succ k ih =>
    have htaken := alone_take hP hs (by omega) (by omega)
    have hnext := ih (by push_cast; omega) (by omega) htaken
    rwa [Nat.add_right_comm, Nat.add_assoc] at hnext

theorem alone_loop {d : Nat} (ht : 1 ≤ (d : Int)) (hc : completed ≤ posted) {n : Nat} :
    ∀ {i numComplete : Nat}, (i : Int) + n = iters → Behind d i numComplete →
      P (ahead client server (clientExperiment d iters n i numComplete ++ rest) 0 (posted + i)
        (completed + numComplete)) →
      ∃ last : Nat, Behind d iters last ∧ P (ahead client server
        (.send :: .wait (iters - last + 2) :: .finish :: rest) 0 (posted + iters.toNat)
        (completed + last)) := by
  induction n with
  | zero =>
    intro i numComplete hn hb hs
    obtain rfl : (i : Int) = iters := by omega
    exact ⟨numComplete, hb, hs⟩
  | succ n ih =>
    intro i numComplete hn hb hs
    rw [clientExperiment] at hs
    have hnear := hb.near
    by_cases hw : (i : Int) ≠ 0 ∧ (i : Int) % d = 0
    · have hfull := (hb.waits_iff ht).mp hw
      rw [if_pos hw] at hs
      have hwrote := alone_post hP (alone_wait hP (by omega : ((0 : Nat) : Int) + d = d) (by omega) hs)
      refine @ih (i + 1) (numComplete + d) (by push_cast; omega) ?_ ?_
      · exact_mod_cast hb.wait ht hfull (by omega)
      · rw [← Nat.add_assoc, ← Nat.add_assoc]
        push_cast
        exact hwrote
    · have hfree : (i : Int) ≠ numComplete + d := fun hfull => hw ((hb.waits_iff ht).mpr hfull)
      rw [if_neg hw] at hs
      have hwrote := alone_post hP hs
      refine @ih (i + 1) numComplete (by push_cast; omega) ?_ ?_
      · exact_mod_cast hb.go hfree (by omega)
      · rw [← Nat.add_assoc]
        push_cast
        exact hwrote

end Alone

end NetworkOptimization.Benchmark
