import NetworkOptimization.Draining
import NetworkOptimization.Verbs

namespace NetworkOptimization.SendCompletions

open Verbs Draining

def wcBatch : Int := 10

def Accepted (wc : Wc) : Prop :=
  wc.status = .success ∧ (wc.opcode = .send ∨ wc.opcode = .rdmaWrite ∨ wc.opcode = .rdmaRead)

instance : DecidablePred Accepted := fun wc => inferInstanceAs
  (Decidable (wc.status = .success ∧ (wc.opcode = .send ∨ wc.opcode = .rdmaWrite ∨ wc.opcode = .rdmaRead)))

/-- The body of the inner loop of `poll_n_send_wc`; its state is `completed`. -/
def sendStep (completed : Int) (wc : Wc) : Except Int Int :=
  if wc.status ≠ .success then .error completed
  else if wc.opcode = .send ∨ wc.opcode = .rdmaWrite ∨ wc.opcode = .rdmaRead then .ok (completed + 1)
  else .error completed

theorem sendStep_eq (completed : Int) (wc : Wc) :
    sendStep completed wc = if Accepted wc then .ok (completed + 1) else .error completed := by
  by_cases hs : wc.status = .success
  · simp only [sendStep, Accepted, hs, ne_eq, not_true_eq_false, ↓reduceIte, true_and]
  · simp only [sendStep, Accepted, hs, ne_eq, not_false_eq_true, ↓reduceIte, false_and]

def sendLoop : Consumer Int Wc where
  step := sendStep
  count := id
  count_step := by
    intro s wc t h
    rw [sendStep_eq] at h
    split_ifs at h
    cases h
    rfl

/-- `poll_n_send_wc` on a stream of poll results: its result, and how its loop ended. -/
def pollNSendWc (nComplete : Int) (polls : List (Poll Wc)) : Option (Int × Drained Int Wc) :=
  (drain sendLoop wcBatch nComplete 0 polls).map (fun r => (if r.failed then 1 else 0, r))

/-- The next `n` completions are all accepted and come before any error. -/
def Delivered (n : Nat) (es : List (Option Wc)) : Prop :=
  ∃ wcs : List Wc, wcs.length = n ∧ wcs.map some <+: es ∧ ∀ wc ∈ wcs, Accepted wc

theorem examine_sends {completed t : Int} {wcs : List Wc} :
    (examine sendLoop completed wcs).2 = .ok t ↔
      (∀ wc ∈ wcs, Accepted wc) ∧ t = completed + wcs.length := by
  induction wcs generalizing completed with
  | nil => simp [examine, eq_comm]
  | cons wc wcs ih =>
    have hstep : sendLoop.step completed wc = _ := sendStep_eq completed wc
    by_cases ha : Accepted wc
    · rw [if_pos ha] at hstep
      simp only [examine, hstep, ih, List.forall_mem_cons, ha, true_and, List.length_cons]
      refine and_congr_right (fun _ => ?_)
      push_cast
      omega
    · rw [if_neg ha] at hstep
      simp [examine, hstep, ha]

theorem serve_sends {n : Nat} {completed t : Int} {es : List (Option Wc)} :
    serve sendLoop n completed es = some (false, t) ↔ Delivered n es ∧ t = completed + n := by
  constructor
  · intro h
    obtain ⟨wcs, hl, hp, hx⟩ := serve_all h
    obtain ⟨hall, ht⟩ := examine_sends.mp hx
    exact ⟨⟨wcs, hl, hp, hall⟩, by rw [ht, hl]⟩
  · rintro ⟨⟨wcs, rfl, ⟨es', rfl⟩, hall⟩, rfl⟩
    have hx : (examine sendLoop completed wcs).2 = .ok (completed + wcs.length) :=
      examine_sends.mpr ⟨hall, rfl⟩
    have hserve := serve_batch hx 0 es'
    rw [Nat.add_zero] at hserve
    rw [hserve, serve]

theorem provides_sends {n : Nat} {completed : Int} {es : List (Option Wc)}
    (h : n ≤ es.length ∨ none ∈ es) :
    Provides sendLoop n completed es := by
  rw [Provides]
  induction n generalizing completed es with
  | zero => rfl
  | succ n ih =>
    cases es with
    | nil => simp at h
    | cons e es =>
      cases e with
      | none => rfl
      | some wc =>
        rw [serve]
        cases hstep : sendLoop.step completed wc with
        | error t => rfl
        | ok t =>
          apply ih
          simpa using h

variable {nComplete : Nat} {polls : List (Poll Wc)} {code : Int} {r : Drained Int Wc}

theorem pollNSendWc_eq (h : pollNSendWc nComplete polls = some (code, r)) :
    drain sendLoop wcBatch nComplete 0 polls = some r ∧ code = if r.failed then 1 else 0 :=
  coded_iff.mp h

theorem sendLoop_left (n : Nat) : ((n : Int) - sendLoop.count 0).toNat = n := by
  change ((n : Int) - 0).toNat = n
  omega

/-- The result depends only on the completions and the errors before them. -/
theorem pollNSendWc_code (hf : Fits sendLoop wcBatch nComplete 0 polls)
    (h : pollNSendWc nComplete polls = some (code, r)) :
    (code = 0 ↔ Delivered nComplete (events polls)) ∧ (code = 0 ∨ code = 1) := by
  obtain ⟨hd, rfl⟩ := pollNSendWc_eq h
  have hserve := drain_eq_serve hf
  rw [hd, Option.map_some, sendLoop_left] at hserve
  cases hfail : r.failed with
  | false =>
    rw [hfail] at hserve
    exact ⟨iff_of_true rfl (serve_sends.mp hserve.symm).1, .inl rfl⟩
  | true =>
    refine ⟨iff_of_false (by simp) (fun hdel => ?_), .inr rfl⟩
    rw [serve_sends.mpr ⟨hdel, rfl⟩, hfail] at hserve
    simp at hserve

/-- `poll_n_send_wc` ends on every stream that gives it its completions or an error. It
succeeds exactly when these completions are all accepted, and then it took them and no more. -/
theorem poll_n_send_wc_exact (nComplete : Nat) (polls : List (Poll Wc))
    (hf : Fits sendLoop wcBatch nComplete 0 polls) :
    (nComplete ≤ (events polls).length ∨ none ∈ events polls →
        ∃ code r, pollNSendWc nComplete polls = some (code, r)) ∧
      ∀ code r, pollNSendWc nComplete polls = some (code, r) →
        (code = 0 ↔ Delivered nComplete (events polls)) ∧
        (code = 0 → r.taken.length = nComplete ∧ events polls = r.taken.map some ++ events r.rest) ∧
        (¬ Delivered nComplete (events polls) → code = 1) ∧
        (∀ k ∈ r.asked, k ≤ wcBatch) ∧
        ∀ polls' code' r', Fits sendLoop wcBatch nComplete 0 polls' → events polls' = events polls →
          pollNSendWc nComplete polls' = some (code', r') → code' = code := by
  constructor
  · intro he
    have hsome := (drain_isSome hf).mpr ((sendLoop_left nComplete).symm ▸ provides_sends he)
    obtain ⟨r, hr⟩ := Option.isSome_iff_exists.mp hsome
    exact ⟨_, r, by rw [pollNSendWc, hr]; rfl⟩
  · intro code r h
    obtain ⟨hzero, htwo⟩ := pollNSendWc_code hf h
    obtain ⟨hd, hcode⟩ := pollNSendWc_eq h
    refine ⟨hzero, fun h0 => ?_, fun hn => htwo.resolve_left (fun h0 => hn (hzero.mp h0)),
      drain_asked hd, fun polls' code' r' hf' hevents h' => ?_⟩
    · have hfail := not_failed_of_code (h0.symm.trans hcode)
      obtain ⟨hevents, -, hx⟩ := drain_exact hd hfail
      have hcount := drain_count hf (Int.natCast_nonneg nComplete) hd hfail
      have hstate : (nComplete : Int) = 0 + r.taken.length := hcount.symm.trans (examine_sends.mp hx).2
      exact ⟨by omega, hevents⟩
    · obtain ⟨hzero', htwo'⟩ := pollNSendWc_code hf' h'
      rw [hevents] at hzero'
      have hboth : code' = 0 ↔ code = 0 := hzero'.trans hzero.symm
      obtain h0 | h1 := htwo
      · rw [h0, hboth.mpr h0]
      · obtain h0' | h1' := htwo'
        · rw [h0', hboth.mp h0']
        · rw [h1, h1']

/-- Two completions in two batches, with an empty poll between. -/
theorem poll_n_send_wc_two :
    ∃ code r, pollNSendWc 2 [.batch [⟨.success, .send⟩], .batch [], .batch [⟨.success, .rdmaWrite⟩]] =
      some (code, r) ∧ code = 0 ∧ r.taken.length = 2 := by
  have hf : Fits sendLoop wcBatch (2 : Nat) 0
      [.batch [⟨.success, .send⟩], .batch [], .batch [⟨.success, .rdmaWrite⟩]] :=
    fits_singles (by decide) (by simp)
  obtain ⟨hends, hall⟩ := poll_n_send_wc_exact 2 _ hf
  obtain ⟨code, r, h⟩ := hends (.inl (by decide))
  obtain ⟨hzero, htaken, -⟩ := hall code r h
  have hdel : Delivered 2 (events [.batch [⟨.success, .send⟩], .batch [],
    .batch [⟨.success, .rdmaWrite⟩]]) :=
    ⟨[⟨.success, .send⟩, ⟨.success, .rdmaWrite⟩], rfl, List.prefix_refl _, by decide⟩
  exact ⟨code, r, h, hzero.mpr hdel, (htaken (hzero.mpr hdel)).1⟩

theorem pollNSendWc_one (wc : Wc) :
    (pollNSendWc 1 [.batch [wc]]).map Prod.fst = some (sendResult wc) := by
  have hf : Fits sendLoop wcBatch 1 0 [.batch [wc]] := fits_singles (by decide) (by simp)
  have hserve : _ = serve sendLoop 1 0 [some wc] := drain_eq_serve hf
  have hcode : (pollNSendWc 1 [.batch [wc]]).map Prod.fst =
      (serve sendLoop 1 0 [some wc]).map (fun p => if p.1 then 1 else 0) := by
    rw [pollNSendWc, Option.map_map, ← hserve, Option.map_map]
    rfl
  have hstep : sendLoop.step 0 wc = _ := sendStep_eq 0 wc
  rw [hcode, serve, hstep]
  by_cases ha : Accepted wc
  · simp only [ha, ↓reduceIte, serve, Option.map_some, Bool.false_eq_true, sendResult, ha.1, ha.2, ne_eq,
      not_true_eq_false]
  · have hresult : sendResult wc = 1 := by
      by_cases hs : wc.status = .success
      · rw [sendResult, if_neg (not_not.mpr hs), if_neg (fun hop => ha ⟨hs, hop⟩)]
      · rw [sendResult, if_pos hs]
    rw [if_neg ha, hresult]
    rfl

end NetworkOptimization.SendCompletions
