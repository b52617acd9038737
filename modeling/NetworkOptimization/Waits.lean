import NetworkOptimization.Draining
import NetworkOptimization.Verbs

namespace NetworkOptimization.Waits

open Verbs Draining

def wcBatch : Int := 10

/-- `REFILL_RWR_THRES` of the bandwidth program. -/
def refillRwrThres : Int := 100

def pingpongRecvWrid : Int := 1

def pingpongSendWrid : Int := 2

/-- What a completion is of: the `k`-th request of a call, the message of the peer that the call
is for, or something else. -/
inductive Source where
  | request (k : Nat)
  | message
  | other
  deriving DecidableEq

/-- An entry of the completion queue; `wrId` is its `wr_id` as the `int` that is tested. The
code does not know the `source`. -/
structure Completion where
  status : WcStatus
  wrId : Int
  source : Source
  deriving DecidableEq

/-- What a wait keeps for the next one: the counter of the receive queue, how many refills
there were, and how many calls of `ibv_post_recv` were accepted. -/
structure ReceiveSide where
  ctx : ReceiveQueue
  refills : Nat
  accepted : Nat
  deriving DecidableEq

structure WaitState where
  scnt : Int
  rcnt : Int
  side : ReceiveSide
  deriving DecidableEq

/-- `pp_post_recv` of the bandwidth program: the number that it returns, and the accepted calls. -/
def ppPostRecv (posts : Nat → Bool) (n : Int) (accepted : Nat) : Nat × Nat :=
  postRecvs posts n.toNat 0 accepted

/-- The refill behind a receive; `posts k` are the outcomes of the posts of the `k`-th one. -/
def refill (posts : Nat → Nat → Bool) (side : ReceiveSide) : ReceiveSide :=
  let (i, accepted) :=
    ppPostRecv (posts side.refills) (side.ctx.rxDepth - side.ctx.routs) side.accepted
  ⟨{ side.ctx with routs := side.ctx.routs + i }, side.refills + 1, accepted⟩

def completeReceive (side : ReceiveSide) : ReceiveSide :=
  { side with ctx := { side.ctx with routs := side.ctx.routs - 1 } }

/-- The body of the loop of `pp_wait_completions` over a batch. -/
def waitStep (posts : Nat → Nat → Bool) (s : WaitState) (wc : Completion) : Except WaitState WaitState :=
  if wc.status ≠ .success then .error s
  else if wc.wrId = pingpongSendWrid then .ok { s with scnt := s.scnt + 1 }
  else if wc.wrId = pingpongRecvWrid then
    let side := completeReceive s.side
    if side.ctx.routs ≤ refillRwrThres then
      let side := refill posts side
      if side.ctx.routs < side.ctx.rxDepth then .error { s with side := side }
      else .ok { s with rcnt := s.rcnt + 1, side := side }
    else .ok { s with rcnt := s.rcnt + 1, side := side }
  else .error s

def received (posts : Nat → Nat → Bool) (side : ReceiveSide) : ReceiveSide :=
  if (completeReceive side).ctx.routs ≤ refillRwrThres then refill posts (completeReceive side)
  else completeReceive side

def RunsShort (posts : Nat → Nat → Bool) (side : ReceiveSide) : Prop :=
  (completeReceive side).ctx.routs ≤ refillRwrThres ∧
    (received posts side).ctx.routs < (received posts side).ctx.rxDepth

instance (posts : Nat → Nat → Bool) (side : ReceiveSide) : Decidable (RunsShort posts side) :=
  inferInstanceAs (Decidable ((completeReceive side).ctx.routs ≤ refillRwrThres ∧
    (received posts side).ctx.routs < (received posts side).ctx.rxDepth))

variable {posts : Nat → Nat → Bool} {s t : WaitState} {wc : Completion}

theorem waitStep_send (hs : wc.status = .success) (hw : wc.wrId = pingpongSendWrid) :
    waitStep posts s wc = .ok { s with scnt := s.scnt + 1 } := by
  rw [waitStep, if_neg (not_not.mpr hs), if_pos hw]

theorem waitStep_recv (hs : wc.status = .success) (hw : wc.wrId = pingpongRecvWrid) :
    waitStep posts s wc =
      if RunsShort posts s.side then .error { s with side := received posts s.side }
      else .ok { s with rcnt := s.rcnt + 1, side := received posts s.side } := by
  rw [waitStep, if_neg (not_not.mpr hs), if_neg (by rw [hw]; decide), if_pos hw]
  by_cases hlow : (completeReceive s.side).ctx.routs ≤ refillRwrThres
  · simp only [RunsShort, received, hlow, ↓reduceIte, true_and]
  · simp only [RunsShort, received, hlow, ↓reduceIte, false_and]

theorem waitStep_other (h : ¬ (wc.status = .success ∧
    (wc.wrId = pingpongSendWrid ∨ wc.wrId = pingpongRecvWrid))) : waitStep posts s wc = .error s := by
  by_cases hs : wc.status = .success
  · rw [waitStep, if_neg (not_not.mpr hs), if_neg (fun hw => h ⟨hs, .inl hw⟩),
      if_neg (fun hw => h ⟨hs, .inr hw⟩)]
  · rw [waitStep, if_pos hs]

theorem waitStep_cases (h : waitStep posts s wc = .ok t) : wc.status = .success ∧
    ((wc.wrId = pingpongSendWrid ∧ t = { s with scnt := s.scnt + 1 }) ∨
      (wc.wrId = pingpongRecvWrid ∧ ¬ RunsShort posts s.side ∧
        t = { s with rcnt := s.rcnt + 1, side := received posts s.side })) := by
  by_cases hk : wc.status = .success ∧ (wc.wrId = pingpongSendWrid ∨ wc.wrId = pingpongRecvWrid)
  · obtain ⟨hs, hw | hw⟩ := hk
    · rw [waitStep_send hs hw] at h
      cases h
      exact ⟨hs, .inl ⟨hw, rfl⟩⟩
    · rw [waitStep_recv hs hw] at h
      split_ifs at h with hshort
      cases h
      exact ⟨hs, .inr ⟨hw, hshort, rfl⟩⟩
  · rw [waitStep_other hk] at h
    cases h

def waitLoop (posts : Nat → Nat → Bool) : Consumer WaitState Completion where
  step := waitStep posts
  count := fun s => s.rcnt + s.scnt
  count_step := by
    intro s wc t h
    obtain ⟨-, ⟨-, rfl⟩ | ⟨-, -, rfl⟩⟩ := waitStep_cases h <;> simp only <;> omega

/-- `pp_wait_completions` on a stream of poll results: its result, and how its loop ended. -/
def ppWaitCompletions (posts : Nat → Nat → Bool) (side : ReceiveSide) (iters : Int)
    (polls : List (Poll Completion)) : Option (Int × Drained WaitState Completion) :=
  (drain (waitLoop posts) wcBatch iters ⟨0, 0, side⟩ polls).map (fun r => (if r.failed then 1 else 0, r))

def receives (wcs : List Completion) : Nat := wcs.countP (fun wc => wc.wrId = pingpongRecvWrid)

/-- A receive takes one request off the counter, and what is added to it was accepted. -/
theorem received_spec (posts : Nat → Nat → Bool) (side : ReceiveSide) :
    (received posts side).ctx.rxDepth = side.ctx.rxDepth ∧ (received posts side).ctx.routs -
      (received posts side).accepted = side.ctx.routs - side.accepted - 1 := by
  rw [received]
  split_ifs
  · refine ⟨rfl, ?_⟩
    obtain ⟨hcount, hheld⟩ := postRecvs_eq (posts side.refills)
      (side.ctx.rxDepth - (side.ctx.routs - 1)).toNat 0 side.accepted
    simp only [refill, completeReceive, ppPostRecv]
    omega
  · refine ⟨rfl, ?_⟩
    simp only [completeReceive]
    omega

theorem received_le (posts : Nat → Nat → Bool) {side : ReceiveSide}
    (h : side.ctx.routs ≤ side.ctx.rxDepth) :
    (received posts side).ctx.routs ≤ (received posts side).ctx.rxDepth := by
  rw [received]
  split_ifs
  · have hmost := (postLoop_le (posts side.refills)
      (side.ctx.rxDepth - (side.ctx.routs - 1)).toNat 0).2
    have hcount := (postRecvs_eq (posts side.refills)
      (side.ctx.rxDepth - (side.ctx.routs - 1)).toNat 0 side.accepted).1
    simp only [refill, completeReceive, ppPostRecv]
    omega
  · simp only [completeReceive]
    omega

theorem received_enough {side : ReceiveSide} (hd : refillRwrThres < side.ctx.rxDepth)
    (h : ¬ RunsShort posts side) : refillRwrThres < (received posts side).ctx.routs := by
  by_cases hlow : (completeReceive side).ctx.routs ≤ refillRwrThres
  · have hfull : ¬ (received posts side).ctx.routs < (received posts side).ctx.rxDepth :=
      fun hlt => h ⟨hlow, hlt⟩
    rw [(received_spec posts side).1] at hfull
    omega
  · rw [received, if_neg hlow]
    omega

/-- What the accepted completions did to the receive queue. -/
structure Tracks (side side' : ReceiveSide) (wcs : List Completion) : Prop where
  rxDepth : side'.ctx.rxDepth = side.ctx.rxDepth
  routs : side'.ctx.routs = side.ctx.routs - receives wcs + (side'.accepted - side.accepted)
  bound : side.ctx.routs ≤ side.ctx.rxDepth → side'.ctx.routs ≤ side'.ctx.rxDepth
  enough : refillRwrThres < side.ctx.rxDepth →
    refillRwrThres < side.ctx.routs ∨ 0 < receives wcs → refillRwrThres < side'.ctx.routs

theorem tracks_step {wcs : List Completion} {side' : ReceiveSide} (h : waitStep posts s wc = .ok t)
    (ht : Tracks t.side side' wcs) : Tracks s.side side' (wc :: wcs) := by
  obtain ⟨-, ⟨hw, rfl⟩ | ⟨hw, hshort, rfl⟩⟩ := waitStep_cases h
  · have hcount : receives (wc :: wcs) = receives wcs :=
      List.countP_cons_of_neg (by simp [hw, pingpongSendWrid, pingpongRecvWrid])
    exact ⟨ht.rxDepth, hcount ▸ ht.routs, ht.bound, hcount ▸ ht.enough⟩
  · have hcount : receives (wc :: wcs) = receives wcs + 1 := List.countP_cons_of_pos (by simp [hw])
    obtain ⟨hdepth, hrouts⟩ := received_spec posts s.side
    refine ⟨ht.rxDepth.trans hdepth, ?_, fun hle => ht.bound (received_le posts hle), fun hd _ => ?_⟩
    · have hsum := ht.routs
      simp only at hsum
      rw [hcount]
      push_cast
      omega
    · exact ht.enough (by rw [hdepth]; exact hd) (.inl (received_enough hd hshort))

theorem examine_waits {wcs : List Completion} (h : (examine (waitLoop posts) s wcs).2 = .ok t) :
    (∀ wc ∈ wcs, wc.status = .success) ∧ Tracks s.side t.side wcs := by
  induction wcs generalizing s with
  | nil =>
    cases h
    refine ⟨by simp, rfl, by simp [receives], id, fun _ h => ?_⟩
    simpa [receives] using h
  | cons wc wcs ih =>
    cases hstep : (waitLoop posts).step s wc with
    | error u => simp [examine, hstep] at h
    | ok u =>
      simp only [examine, hstep] at h
      obtain ⟨hall, htracks⟩ := ih h
      exact ⟨List.forall_mem_cons.mpr ⟨(waitStep_cases hstep).1, hall⟩, tracks_step hstep htracks⟩

theorem ppWaitCompletions_eq {side : ReceiveSide} {iters code : Int} {polls : List (Poll Completion)}
    {r : Drained WaitState Completion} (h : ppWaitCompletions posts side iters polls = some (code, r)) :
    drain (waitLoop posts) wcBatch iters ⟨0, 0, side⟩ polls = some r ∧ code = if r.failed then 1 else 0 :=
  coded_iff.mp h

/-- A wait that succeeds took as many completions as it was called for, all of them
successful, and left the counter exact, and above the threshold where it took a receive. -/
theorem pp_wait_completions_exact (posts : Nat → Nat → Bool) (side : ReceiveSide) (iters outstanding : Nat)
    (polls : List (Poll Completion)) (r : Drained WaitState Completion)
    (hd : refillRwrThres < side.ctx.rxDepth) (ho : side.ctx.routs = outstanding)
    (hle : side.ctx.routs ≤ side.ctx.rxDepth)
    (hf : Fits (waitLoop posts) wcBatch iters ⟨0, 0, side⟩ polls)
    (h : ppWaitCompletions posts side iters polls = some (0, r)) :
    r.taken.length = iters ∧ events polls = r.taken.map some ++ events r.rest ∧
      (∀ wc ∈ r.taken, wc.status = .success) ∧ (∀ k ∈ r.asked, k ≤ wcBatch) ∧
      r.state.side.ctx.routs = outstanding - receives r.taken + (r.state.side.accepted - side.accepted) ∧
      r.state.side.ctx.routs ≤ side.ctx.rxDepth ∧
      (0 < receives r.taken → refillRwrThres < r.state.side.ctx.routs) := by
  obtain ⟨hdrain, hcode⟩ := ppWaitCompletions_eq h
  have hfail := not_failed_of_code hcode
  obtain ⟨hevents, -, hx⟩ := drain_exact hdrain hfail
  have hcount := drain_count hf (Int.natCast_nonneg iters) hdrain hfail
  have hlen := (examine_ok hx).2
  rw [hcount] at hlen
  obtain ⟨hall, htracks⟩ := examine_waits hx
  have hbound := htracks.bound hle
  rw [htracks.rxDepth] at hbound
  refine ⟨?_, hevents, hall, drain_asked hdrain, ?_, hbound, fun hrecv => htracks.enough hd (.inr hrecv)⟩
  · change (iters : Int) = 0 + 0 + _ at hlen
    omega
  · rw [htracks.routs, ho]

/-- A send and a receive come in two batches; the receive brings the counter down to the
threshold, and the refill posts the twenty requests that are missing. -/
theorem pp_wait_completions_refill :
    ∃ r, ppWaitCompletions (fun _ _ => true) ⟨⟨120, 101⟩, 0, 0⟩ 2
        [.batch [⟨.success, pingpongSendWrid, .request 0⟩],
          .batch [⟨.success, pingpongRecvWrid, .message⟩]] = some (0, r) ∧
      r.taken.length = 2 ∧ refillRwrThres < r.state.side.ctx.routs := by
  have hf : Fits (waitLoop (fun _ _ => true)) wcBatch (2 : Nat) ⟨0, 0, ⟨⟨120, 101⟩, 0, 0⟩⟩
      [.batch [⟨.success, pingpongSendWrid, .request 0⟩],
        .batch [⟨.success, pingpongRecvWrid, .message⟩]] :=
    fits_singles (by decide) (by simp)
  have hcode : (ppWaitCompletions (fun _ _ => true) ⟨⟨120, 101⟩, 0, 0⟩ 2
      [.batch [⟨.success, pingpongSendWrid, .request 0⟩],
        .batch [⟨.success, pingpongRecvWrid, .message⟩]]).map
        (fun p => (p.1, receives p.2.taken)) = some (0, 1) := by
    decide +kernel
  obtain ⟨⟨code, r⟩, hr, heq⟩ := Option.map_eq_some_iff.mp hcode
  obtain ⟨rfl, hrecv⟩ := Prod.mk.inj heq
  obtain ⟨hlen, -, -, -, -, -, henough⟩ := pp_wait_completions_exact (fun _ _ => true) ⟨⟨120, 101⟩, 0, 0⟩
    2 101 _ r (by decide) rfl (by decide) hf hr
  exact ⟨r, hr, hlen, henough (by rw [hrecv]; decide)⟩

end NetworkOptimization.Waits
