import Mathlib.Data.List.Nodup
import NetworkOptimization.Phases

namespace NetworkOptimization.Experiments

open Verbs Draining Waits
open Benchmark (Action clientExperiment serverExperiment IsInt left)
open Phases (WaitsInt)

/-- What a call of `perform_single_experiment` returns, `none` where the sum of a wait overflows,
how many of its work requests were accepted, and the completions that its waits looked at. -/
structure Report where
  code : Option Int
  posted : Nat
  seen : List Completion

/-- Run what is left of an experiment. `posts k` is whether the `k`-th post is accepted: a
rejected one ends the call. Nothing looks at the result of a wait. -/
def perform (posts : Nat → Bool) (refills : Nat → Nat → Bool) :
    List Action → Nat → ReceiveSide → List (Poll Completion) → Option Report
  | [], posted, _, _ => some ⟨some 0, posted, []⟩
  | .write :: rest, posted, side, polls =>
    if posts posted then perform posts refills rest (posted + 1) side polls else some ⟨some 1, posted, []⟩
  | .send :: rest, posted, side, polls =>
    if posts posted then perform posts refills rest (posted + 1) side polls else some ⟨some 1, posted, []⟩
  | .wait iters :: rest, posted, side, polls =>
    if IsInt iters then do
      let (_, wait) ← ppWaitCompletions refills side iters polls
      let report ← perform posts refills rest posted wait.state.side wait.rest
      some { report with seen := wait.seen ++ report.seen }
    else some ⟨none, posted, []⟩
  | .finish :: rest, posted, side, polls => perform posts refills rest posted side polls

/-- What the call posts and waits for; `servername` is given on the client. -/
def actions (servername : Bool) (txDepth iters : Int) : List Action :=
  if servername then clientExperiment txDepth iters iters.toNat 0 0 else serverExperiment

def performSingleExperiment (servername : Bool) (txDepth iters : Int) (posts : Nat → Bool)
    (refills : Nat → Nat → Bool) (side : ReceiveSide) (polls : List (Poll Completion)) : Option Report :=
  perform posts refills (actions servername txDepth iters) 0 side polls

/-- The work requests of an experiment: the writes and the finish message of the client, the
response of the server. -/
def requests (servername : Bool) (iters : Int) : Nat := if servername then iters.toNat + 1 else 1

/-- Every request of the call completed with success, and the message of the other side was
received: on the client in the call, whose finish message it answers, and on the server there or,
where `before` says so, by an earlier wait. -/
def Conveyed (servername : Bool) (iters : Int) (before : Bool) (wcs : List Completion) : Prop :=
  (∀ k < requests servername iters, ⟨.success, pingpongSendWrid, .request k⟩ ∈ wcs) ∧
    (servername = true ∨ before = false → ⟨.success, pingpongRecvWrid, .message⟩ ∈ wcs)

instance (servername : Bool) (iters : Int) (before : Bool) (wcs : List Completion) :
    Decidable (Conveyed servername iters before wcs) :=
  inferInstanceAs (Decidable ((∀ k < _, _) ∧ (_ → _)))

/-- The call reports what it did: it is defined, and it returns 0 only for an experiment that
took place. -/
def Reported (servername : Bool) (iters : Int) (before : Bool) (r : Report) : Prop :=
  r.code ≠ none ∧
    (r.code = some 0 → r.posted = requests servername iters ∧ Conveyed servername iters before r.seen)

def known (wc : Completion) : Bool :=
  wc.status = .success ∧ (wc.wrId = pingpongSendWrid ∨ wc.wrId = pingpongRecvWrid)

def demand : List Action → Nat
  | [] => 0
  | .wait iters :: rest => iters.toNat + demand rest
  | .write :: rest | .send :: rest | .finish :: rest => demand rest

def posting : List Action → Nat
  | [] => 0
  | .write :: rest | .send :: rest => posting rest + 1
  | .wait _ :: rest | .finish :: rest => posting rest

/-- Only behind its last post a program waits for a number that is no `int`. -/
def Guarded : List Action → Prop
  | [] => True
  | .wait iters :: rest => (IsInt iters ∨ posting rest = 0) ∧ Guarded rest
  | .write :: rest | .send :: rest | .finish :: rest => Guarded rest

/-- The next events are a known completion for each that the waits ask for, and no refill runs
short before the last one of its wait. -/
def Undisturbed (refills : Nat → Nat → Bool) : List Action → ReceiveSide → List (Option Completion) → Prop
  | [], _, _ => True
  | .wait iters :: rest, side, es =>
    ∃ t, supply (waitLoop refills) known iters.toNat ⟨0, 0, side⟩ es = some t ∧
      Undisturbed refills rest t.side (es.drop iters.toNat)
  | .write :: rest, side, es | .send :: rest, side, es | .finish :: rest, side, es =>
    Undisturbed refills rest side es

def awaited (prog : List Action) (es : List (Option Completion)) : List Completion :=
  (es.take (demand prog)).filterMap id

def Fitting (refills : Nat → Nat → Bool) : List Action → ReceiveSide → List (Poll Completion) → Prop
  | [], _, _ => True
  | .wait iters :: rest, side, polls => Fits (waitLoop refills) wcBatch iters ⟨0, 0, side⟩ polls ∧
      ∀ code wait, ppWaitCompletions refills side iters polls = some (code, wait) →
        Fitting refills rest wait.state.side wait.rest
  | .write :: rest, side, polls | .send :: rest, side, polls | .finish :: rest, side, polls =>
    Fitting refills rest side polls

def Rejected (posts : Nat → Bool) (requests : Nat) : Prop := ∃ k < requests, posts k = false

/-- The stream brings the completions of the call where its waits take them. The waits of the
client, which ask for several at once, must not be disturbed, and their sum must be an `int`. -/
def Served (refills : Nat → Nat → Bool) (servername : Bool) (txDepth iters : Int) (before : Bool)
    (side : ReceiveSide) (es : List (Option Completion)) : Prop :=
  Conveyed servername iters before (awaited (actions servername txDepth iters) es) ∧
    (servername = true → left txDepth iters + 2 < 2 ^ 31 ∧
      Undisturbed refills (actions servername txDepth iters) side es)

variable {posts : Nat → Bool} {refills : Nat → Nat → Bool} {prog rest : List Action} {posted : Nat}
  {side : ReceiveSide} {polls : List (Poll Completion)} {r : Report}

theorem perform_wait {iters : Int}
    (h : perform posts refills (.wait iters :: rest) posted side polls = some r) :
    (¬ IsInt iters ∧ r = ⟨none, posted, []⟩) ∨ (IsInt iters ∧ ∃ code wait report,
      ppWaitCompletions refills side iters polls = some (code, wait) ∧
        perform posts refills rest posted wait.state.side wait.rest = some report ∧
        r = { report with seen := wait.seen ++ report.seen }) := by
  rw [perform] at h
  split_ifs at h with hint
  · obtain ⟨⟨code, wait⟩, hwait, h⟩ := Option.bind_eq_some_iff.mp h
    obtain ⟨report, hreport, h⟩ := Option.bind_eq_some_iff.mp h
    exact .inr ⟨hint, code, wait, report, hwait, hreport, (Option.some.inj h).symm⟩
  · exact .inl ⟨hint, (Option.some.inj h).symm⟩

theorem perform_post {a : Action} (ha : a = .write ∨ a = .send)
    (h : perform posts refills (a :: rest) posted side polls = some r) :
    (posts posted = true ∧ perform posts refills rest (posted + 1) side polls = some r) ∨
      (posts posted = false ∧ r = ⟨some 1, posted, []⟩) := by
  have hpost : (if posts posted then perform posts refills rest (posted + 1) side polls
      else some ⟨some 1, posted, []⟩) = some r := by
    obtain rfl | rfl := ha <;> exact h
  by_cases hp : posts posted = true
  · rw [if_pos hp] at hpost
    exact .inl ⟨hp, hpost⟩
  · rw [if_neg hp] at hpost
    exact .inr ⟨Bool.eq_false_iff.mpr hp, (Option.some.inj hpost).symm⟩

theorem accepted_succ (n : Nat) : (∀ k < n + 1, posts (posted + k) = true) ↔
    posts posted = true ∧ ∀ k < n, posts (posted + 1 + k) = true := by
  constructor
  · intro hall
    refine ⟨hall 0 (Nat.succ_pos n), fun k hk => ?_⟩
    rw [Nat.add_assoc, Nat.add_comm 1]
    exact hall (k + 1) (Nat.succ_lt_succ hk)
  · rintro ⟨hp, hall⟩ k hk
    cases k with
    | zero => exact hp
    | succ k =>
      have hnext := hall k (Nat.lt_of_succ_lt_succ hk)
      rwa [Nat.add_assoc, Nat.add_comm 1] at hnext

/-- A call that returns ends with 0, on a rejected post, or in an overflow behind all posts. -/
theorem perform_code (hg : Guarded prog) (h : perform posts refills prog posted side polls = some r) :
    (r.code = some 0 ∧ (∀ k < posting prog, posts (posted + k) = true) ∧ WaitsInt prog ∧
        r.posted = posted + posting prog) ∨
      (r.code = some 1 ∧ ¬ ∀ k < posting prog, posts (posted + k) = true) ∨
      (r.code = none ∧ (∀ k < posting prog, posts (posted + k) = true) ∧ ¬ WaitsInt prog) := by
  induction prog generalizing posted side polls r with
  | nil =>
    cases h
    exact .inl ⟨rfl, fun k hk => absurd hk (Nat.not_lt_zero k),
      fun _ hn => absurd hn List.not_mem_nil, rfl⟩
  | cons a rest ih =>
    have hposting : a = .write ∨ a = .send → Guarded rest →
        (r.code = some 0 ∧ (∀ k < posting rest + 1, posts (posted + k) = true) ∧ WaitsInt (a :: rest) ∧
            r.posted = posted + (posting rest + 1)) ∨
          (r.code = some 1 ∧ ¬ ∀ k < posting rest + 1, posts (posted + k) = true) ∨
          (r.code = none ∧ (∀ k < posting rest + 1, posts (posted + k) = true) ∧
            ¬ WaitsInt (a :: rest)) := by
      intro ha hg
      have hwaits : WaitsInt (a :: rest) ↔ WaitsInt rest := by
        obtain rfl | rfl := ha <;> simp [WaitsInt]
      rw [accepted_succ, hwaits]
      obtain ⟨hp, hrest⟩ | ⟨hp, rfl⟩ := perform_post ha h
      · rw [and_iff_right hp]
        obtain ⟨hcode, hall, hints, hposted⟩ | h1 | hnone := ih hg hrest
        · exact .inl ⟨hcode, hall, hints, by omega⟩
        · exact .inr (.inl h1)
        · exact .inr (.inr hnone)
      · refine .inr (.inl ⟨rfl, fun hall => ?_⟩)
        rw [hp] at hall
        cases hall.1
    cases a with
    | write => exact hposting (.inl rfl) hg
    | send => exact hposting (.inr rfl) hg
    | wait iters =>
      have hwaits : WaitsInt (.wait iters :: rest) ↔ IsInt iters ∧ WaitsInt rest := by simp [WaitsInt]
      obtain ⟨hint, rfl⟩ | ⟨hint, code, wait, report, -, hreport, rfl⟩ := perform_wait h
      · have hnone : posting rest = 0 := hg.1.resolve_left hint
        exact .inr (.inr ⟨rfl, fun k hk => absurd hk (by simp [posting, hnone]),
          fun h => hint (hwaits.mp h).1⟩)
      · have hrest := ih hg.2 hreport
        rw [hwaits, and_iff_right hint]
        exact hrest
    | finish =>
      have hwaits : WaitsInt (.finish :: rest) ↔ WaitsInt rest := by simp [WaitsInt]
      rw [hwaits]
      exact ih hg h

theorem known_step {s : WaitState} {wc : Completion} {t : WaitState}
    (h : (waitLoop refills).step s wc = .ok t) : known wc = true := by
  obtain ⟨hs, ⟨hw, -⟩ | ⟨hw, -, -⟩⟩ := waitStep_cases h <;> simp [known, hs, hw]

/-- What the waits of a program saw of a stream: at most as many known completions as they ask
for, and as many exactly when nothing disturbs them. -/
structure Watched (refills : Nat → Nat → Bool) (prog : List Action) (side : ReceiveSide)
    (es : List (Option Completion)) (seen : List Completion) : Prop where
  most : seen.countP known ≤ demand prog
  whole : seen.countP known = demand prog ↔ Undisturbed refills prog side es
  start : seen.countP known = demand prog → seen.map some = es.take (demand prog)

theorem watched_wait {iters : Int} {wait : Drained WaitState Completion} {seen : List Completion}
    (h : Supplied (waitLoop refills) known iters ⟨0, 0, side⟩ polls wait)
    (hrest : Watched refills rest wait.state.side (events wait.rest) seen) :
    Watched refills (.wait iters :: rest) side (events polls) (wait.seen ++ seen) := by
  obtain ⟨hmost, hfull, hsupplied⟩ := h
  obtain ⟨hrmost, hrwhole, hrstart⟩ := hrest
  have hleft : (iters - (waitLoop refills).count ⟨0, 0, side⟩).toNat = iters.toNat := by
    change (iters - (0 + 0)).toNat = _
    omega
  rw [hleft] at hmost hfull hsupplied
  have hdemand : demand (.wait iters :: rest) = iters.toNat + demand rest := rfl
  have hsum : (wait.seen ++ seen).countP known = wait.seen.countP known + seen.countP known :=
    List.countP_append
  refine ⟨by omega, ⟨fun hall => ?_, ?_⟩, fun hall => ?_⟩
  · obtain ⟨hsupply, hdrop, -⟩ := hfull (by omega)
    refine ⟨wait.state, hsupply, ?_⟩
    rw [← hdrop]
    exact hrwhole.mp (by omega)
  · rintro ⟨t, hsupply, hundisturbed⟩
    have hwhole := hsupplied t hsupply
    obtain ⟨hstate, hdrop, -⟩ := hfull hwhole
    obtain rfl : wait.state = t := Option.some.inj (hstate.symm.trans hsupply)
    rw [← hdrop] at hundisturbed
    have hrest := hrwhole.mpr hundisturbed
    omega
  · obtain ⟨-, hdrop, hseen⟩ := hfull (by omega)
    have hrseen := hrstart (by omega)
    rw [hdemand, List.map_append, hseen, hrseen, hdrop, List.take_add]

theorem perform_seen (hf : Fitting refills prog side polls)
    (h : perform posts refills prog posted side polls = some r) (h0 : r.code = some 0) :
    Watched refills prog side (events polls) r.seen := by
  induction prog generalizing posted side polls r with
  | nil =>
    cases h
    exact ⟨Nat.le_refl 0, iff_of_true rfl trivial, fun _ => rfl⟩
  | cons a rest ih =>
    have hpost : a = .write ∨ a = .send → perform posts refills rest (posted + 1) side polls = some r := by
      intro ha
      obtain ⟨-, hrest⟩ | ⟨-, rfl⟩ := perform_post ha h
      · exact hrest
      · cases h0
    cases a with
    | write =>
      obtain ⟨hmost, hwhole, hstart⟩ := ih hf (hpost (.inl rfl)) h0
      exact ⟨hmost, hwhole, hstart⟩
    | send =>
      obtain ⟨hmost, hwhole, hstart⟩ := ih hf (hpost (.inr rfl)) h0
      exact ⟨hmost, hwhole, hstart⟩
    | wait iters =>
      obtain ⟨-, rfl⟩ | ⟨-, code, wait, report, hwait, hreport, rfl⟩ := perform_wait h
      · cases h0
      · have hsupplied := drain_supply (fun _ _ _ => known_step) hf.1 (ppWaitCompletions_eq hwait).1
        exact watched_wait hsupplied (ih (hf.2 code wait hwait) hreport h0)
    | finish =>
      obtain ⟨hmost, hwhole, hstart⟩ := ih hf h h0
      exact ⟨hmost, hwhole, hstart⟩

theorem server_seen (hf : Fitting refills serverExperiment side polls)
    (h : perform posts refills serverExperiment posted side polls = some r) (h0 : r.code = some 0) :
    awaited serverExperiment (events polls) = r.seen := by
  obtain ⟨hno, -⟩ | ⟨-, code, wait, report, hwait, hreport, rfl⟩ := perform_wait h
  · exact absurd ⟨by decide, by decide⟩ hno
  obtain ⟨e, es, hevents, hseen, hrest⟩ := drain_one hf.1 rfl (ppWaitCompletions_eq hwait).1
  obtain ⟨-, hreport⟩ | ⟨-, rfl⟩ := perform_post (.inr rfl) hreport
  · obtain ⟨hno, -⟩ | ⟨-, code', wait', report', hwait', hreport', rfl⟩ := perform_wait hreport
    · exact absurd ⟨by decide, by decide⟩ hno
    have hf' : Fitting refills [.send, .wait 1] wait.state.side wait.rest := hf.2 code wait hwait
    obtain ⟨e', es', hevents', hseen', -⟩ := drain_one hf'.1 rfl (ppWaitCompletions_eq hwait').1
    cases hreport'
    rw [hevents, ← hrest, hevents', hseen, hseen']
    cases e <;> cases e' <;> rfl
  · cases h0

theorem Conveyed.le {iters : Int} {before : Bool} {wcs : List Completion}
    (h : Conveyed true iters before wcs) : requests true iters + 1 ≤ wcs.countP known := by
  let tags : List Completion := ⟨.success, pingpongRecvWrid, .message⟩ ::
    (List.range (requests true iters)).map (fun k => ⟨.success, pingpongSendWrid, .request k⟩)
  have hnodup : tags.Nodup := by
    refine List.nodup_cons.mpr ⟨by simp, List.Nodup.map ?_ List.nodup_range⟩
    intro k m heq
    cases heq
    rfl
  have hsub : tags ⊆ wcs.filter known := by
    intro wc hwc
    obtain rfl | hwc := List.mem_cons.mp hwc
    · exact List.mem_filter.mpr ⟨h.2 (.inl rfl), rfl⟩
    · obtain ⟨k, hk, rfl⟩ := List.mem_map.mp hwc
      exact List.mem_filter.mpr ⟨h.1 k (List.mem_range.mp hk), rfl⟩
  have hle := hnodup.length_le_of_subset hsub
  rw [List.countP_eq_length_filter]
  simpa [tags] using hle

theorem posting_clientExperiment (txDepth iters : Int) (n : Nat) (i numComplete : Int) :
    posting (clientExperiment txDepth iters n i numComplete) = n + 1 := by
  induction n generalizing i numComplete with
  | zero => rfl
  | succ n ih =>
    rw [clientExperiment]
    split_ifs
    · exact congrArg (· + 1) (ih ..)
    · exact congrArg (· + 1) (ih ..)

theorem posting_actions (servername : Bool) (txDepth iters : Int) :
    posting (actions servername txDepth iters) = requests servername iters := by
  cases servername with
  | false => rfl
  | true => exact posting_clientExperiment ..

theorem guarded_clientExperiment {txDepth : Int} (hd : IsInt txDepth) (iters : Int) (n : Nat)
    (i numComplete : Int) : Guarded (clientExperiment txDepth iters n i numComplete) := by
  induction n generalizing i numComplete with
  | zero => exact ⟨.inr rfl, trivial⟩
  | succ n ih =>
    rw [clientExperiment]
    split_ifs
    · exact ⟨.inl hd, ih ..⟩
    · exact ih ..

theorem guarded_actions {txDepth : Int} (hd : IsInt txDepth) (servername : Bool) (iters : Int) :
    Guarded (actions servername txDepth iters) := by
  cases servername with
  | false => exact ⟨.inl (by decide), .inl (by decide), trivial⟩
  | true => exact guarded_clientExperiment hd ..

theorem demand_clientExperiment {txDepth iters : Int} (ht : 1 ≤ txDepth) {n : Nat} :
    ∀ {i numComplete : Int}, 0 ≤ i → i + n = iters → Benchmark.Behind txDepth i numComplete →
      demand (clientExperiment txDepth iters n i numComplete) = (iters - numComplete + 2).toNat ∧
        .wait (left txDepth iters + 2) ∈ clientExperiment txDepth iters n i numComplete := by
  induction n with
  | zero =>
    intro i numComplete _ hn hb
    obtain rfl : i = iters := by omega
    refine ⟨Nat.add_zero _, ?_⟩
    rw [← hb.left_eq]
    exact List.mem_cons_of_mem _ (List.mem_cons_self ..)
  | succ n ih =>
    intro i numComplete hi hn hb
    rw [clientExperiment]
    by_cases hw : i ≠ 0 ∧ i % txDepth = 0
    · have hfull := (hb.waits_iff ht).mp hw
      obtain ⟨hrest, hlast⟩ := ih (by omega) (by omega) (hb.wait ht hfull hi)
      rw [if_pos hw]
      refine ⟨?_, List.mem_cons_of_mem _ (List.mem_cons_of_mem _ hlast)⟩
      change txDepth.toNat + demand (clientExperiment txDepth iters n (i + 1) (numComplete + txDepth)) = _
      omega
    · have hfree : i ≠ numComplete + txDepth := fun hfull => hw ((hb.waits_iff ht).mpr hfull)
      obtain ⟨hrest, hlast⟩ := ih (by omega) (by omega) (hb.go hfree hi)
      rw [if_neg hw]
      exact ⟨hrest, List.mem_cons_of_mem _ hlast⟩

theorem demand_client {txDepth iters : Int} (ht : 1 ≤ txDepth) :
    demand (actions true txDepth iters) = (iters + 2).toNat := by
  change demand (clientExperiment txDepth iters iters.toNat 0 0) = _
  by_cases hi : 0 ≤ iters
  · rw [(demand_clientExperiment ht (Int.le_refl 0) (by omega) (Benchmark.behind_zero ht)).1]
    omega
  · rw [show iters.toNat = 0 by omega]
    change (iters - 0 + 2).toNat + 0 = _
    omega

theorem wait_client {txDepth iters : Int} (ht : 1 ≤ txDepth) (hi : 0 ≤ iters) :
    .wait (left txDepth iters + 2) ∈ actions true txDepth iters := by
  change _ ∈ clientExperiment txDepth iters iters.toNat 0 0
  exact (demand_clientExperiment ht (Int.le_refl 0) (by omega) (Benchmark.behind_zero ht)).2

/-- Where the client sees every completion of its experiment, it sees no other one. -/
theorem Conveyed.whole {txDepth iters : Int} {before : Bool} {wcs : List Completion} (ht : 1 ≤ txDepth)
    (h : Conveyed true iters before wcs) (hm : wcs.countP known ≤ demand (actions true txDepth iters)) :
    0 ≤ iters ∧ wcs.countP known = demand (actions true txDepth iters) := by
  have hle := h.le
  rw [demand_client ht] at hm ⊢
  change iters.toNat + 1 + 1 ≤ _ at hle
  omega

theorem awaited_le (prog : List Action) (es : List (Option Completion)) :
    (awaited prog es).countP known ≤ demand prog :=
  List.countP_le_length.trans ((List.length_filterMap_le ..).trans (List.length_take_le ..))

/-- A call whose completions come where its waits take them asks for no number that is no `int`. -/
theorem Served.waitsInt {servername before : Bool} {txDepth iters : Int} {es : List (Option Completion)}
    (ht : 1 ≤ txDepth) (hd : IsInt txDepth) (h : Served refills servername txDepth iters before side es) :
    WaitsInt (actions servername txDepth iters) := by
  obtain ⟨hc, hclient⟩ := h
  cases servername with
  | false => exact Phases.waits_serverExperiment
  | true =>
    obtain ⟨hi, -⟩ := hc.whole ht (awaited_le ..)
    exact Phases.waits_clientExperiment ht hd (Benchmark.isInt_left ht (hclient rfl).1) (Int.le_refl 0)
      (by omega) (Benchmark.behind_zero ht)

/-- A call that returns reports what it did exactly where one of its posts is rejected or the
stream serves its waits: it never looks at their results. -/
theorem experiment_reported_iff (servername : Bool) (txDepth iters : Int) (before : Bool)
    (posts : Nat → Bool) (refills : Nat → Nat → Bool) (side : ReceiveSide)
    (polls : List (Poll Completion)) (r : Report)
    (ht : 1 ≤ txDepth) (hd : IsInt txDepth)
    (hf : Fitting refills (actions servername txDepth iters) side polls)
    (h : performSingleExperiment servername txDepth iters posts refills side polls = some r) :
    Reported servername iters before r ↔ Rejected posts (requests servername iters) ∨
      Served refills servername txDepth iters before side (events polls) := by
  have hcode := perform_code (guarded_actions hd servername iters) h
  have haccepted : Rejected posts (requests servername iters) ↔
      ¬ ∀ k < posting (actions servername txDepth iters), posts (0 + k) = true := by
    simp [Rejected, posting_actions]
  rw [haccepted]
  obtain ⟨h0, hall, hints, hposted⟩ | ⟨h1, hrejected⟩ | ⟨hnone, hall, hints⟩ := hcode
  · rw [or_iff_right (not_not.mpr hall)]
    rw [posting_actions, Nat.zero_add] at hposted
    have hreported : Reported servername iters before r ↔ Conveyed servername iters before r.seen := by
      simp [Reported, h0, hposted]
    rw [hreported]
    cases servername with
    | false =>
      have hseen : awaited (actions false txDepth iters) (events polls) = r.seen := server_seen hf h h0
      rw [Served, hseen]
      exact ⟨fun hc => ⟨hc, nofun⟩, And.left⟩
    | true =>
      obtain ⟨hmost, hiff, htake⟩ := perform_seen hf h h0
      have hsame : r.seen.countP known = demand (actions true txDepth iters) →
          awaited (actions true txDepth iters) (events polls) = r.seen := by
        intro hwhole
        rw [awaited, ← htake hwhole]
        simp
      constructor
      · intro hc
        obtain ⟨hi, hwhole⟩ := hc.whole ht hmost
        exact ⟨(hsame hwhole).symm ▸ hc, fun _ => ⟨(hints _ (wait_client ht hi)).2, hiff.mp hwhole⟩⟩
      · rintro ⟨hc, hclient⟩
        rw [hsame (hiff.mpr (hclient rfl).2)] at hc
        exact hc
  · exact iff_of_true ⟨by simp [h1], by simp [h1]⟩ (.inl hrejected)
  · refine iff_of_false (fun hr => hr.1 hnone) ?_
    rintro (hrejected | hserved)
    · exact hrejected hall
    · exact hints (hserved.waitsInt ht hd)

def single : List (Poll Completion) :=
  [.batch [⟨.success, pingpongSendWrid, .request 0⟩], .batch [⟨.success, pingpongSendWrid, .request 1⟩],
    .batch [⟨.success, pingpongRecvWrid, .message⟩]]

theorem experiment_reported_single :
    ∃ r, performSingleExperiment true 4800 1 (fun _ => true) (fun _ _ => true) ⟨⟨4800, 4800⟩, 0, 0⟩
      single = some r ∧ r.code = some 0 ∧ Reported true 1 false r := by
  have hrun : (performSingleExperiment true 4800 1 (fun _ => true) (fun _ _ => true) ⟨⟨4800, 4800⟩, 0, 0⟩
      single).map Report.code = some (some 0) := by
    decide +kernel
  obtain ⟨r, hr, h0⟩ := Option.map_eq_some_iff.mp hrun
  have hf : Fitting (fun _ _ => true) (actions true 4800 1) ⟨⟨4800, 4800⟩, 0, 0⟩ single :=
    ⟨fits_singles (by decide) (by simp [single]), fun _ _ _ => trivial⟩
  have hserved : Served (fun _ _ => true) true 4800 1 false ⟨⟨4800, 4800⟩, 0, 0⟩ (events single) :=
    ⟨by decide +kernel, fun _ => ⟨by decide, _, rfl, trivial⟩⟩
  exact ⟨r, hr, h0, (experiment_reported_iff true 4800 1 false _ _ _ _ r (by decide) (by decide) hf hr).mpr (.inr hserved)⟩

/-- The only completion of the last wait reports a failure, and the call returns 0. -/
theorem experiment_not_transferred :
    ¬ ∀ r, performSingleExperiment true 4800 1 (fun _ => true) (fun _ _ => true) ⟨⟨4800, 4800⟩, 0, 0⟩
      [.batch [⟨.failure, pingpongSendWrid, .request 0⟩]] = some r → Reported true 1 false r := by
  intro hall
  have hrun : (performSingleExperiment true 4800 1 (fun _ => true) (fun _ _ => true) ⟨⟨4800, 4800⟩, 0, 0⟩
      [.batch [⟨.failure, pingpongSendWrid, .request 0⟩]]).map (fun r => (r.code, r.seen)) =
        some (some 0, [⟨.failure, pingpongSendWrid, .request 0⟩]) := by
    decide +kernel
  obtain ⟨r, hr, heq⟩ := Option.map_eq_some_iff.mp hrun
  obtain ⟨h0, hseen⟩ := Prod.mk.inj heq
  have hmessage := ((hall r hr).2 h0).2.2 (.inl rfl)
  rw [hseen] at hmessage
  simp at hmessage

end NetworkOptimization.Experiments
