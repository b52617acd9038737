import NetworkOptimization.Runs
import NetworkOptimization.Verbs

namespace NetworkOptimization.Receives

open Verbs Runs

/-- `poll_next_receive_wc(ctx, 0)` again and again until its result is not -2. -/
def pollAgain (posts : Nat → Bool) (ctx : ReceiveQueue) :
    List PollResult → Option ((Int × ReceiveQueue) × List PollResult)
  | [] => none
  | p :: polls => do
    let (r, _) ← pollNextReceiveWc false posts ctx [p]
    if r.1 = -2 then pollAgain posts r.2 polls else some (r, polls)

theorem pollNextReceiveWc_cons (posts : Nat → Bool) (ctx : ReceiveQueue) (p : PollResult)
    (polls : List PollResult) :
    pollNextReceiveWc false posts ctx (p :: polls) = some (afterPoll posts ctx p, polls) := rfl

theorem afterPoll_ne (posts : Nat → Bool) (ctx : ReceiveQueue) {p : PollResult} (hp : p ≠ .empty) :
    (afterPoll posts ctx p).1 ≠ -2 := by
  cases p with
  | empty => exact absurd rfl hp
  | error => simp [afterPoll]
  | completion wc =>
    rcases hpost : ppPostRecv posts { ctx with routs := ctx.routs - 1 } with ⟨failed, ctx'⟩
    simp only [afterPoll, hpost]
    split_ifs <;> simp

theorem pollAgain_cons (posts : Nat → Bool) (ctx : ReceiveQueue) {p : PollResult} (hp : p ≠ .empty)
    (polls : List PollResult) :
    pollAgain posts ctx (p :: polls) = some (afterPoll posts ctx p, polls) := by
  rw [pollAgain, pollNextReceiveWc_cons]
  exact if_neg (afterPoll_ne posts ctx hp)

theorem pollUntil_shorter {polls rest : List PollResult} {p : PollResult}
    (h : pollUntil polls = some (p, rest)) : rest.length < polls.length := by
  induction polls with
  | nil => cases h
  | cons q polls ih =>
    cases q with
    | empty => exact (ih h).trans (Nat.lt_succ_self _)
    | error => exact (ih h).trans (Nat.lt_succ_self _)
    | completion wc =>
      cases h
      exact Nat.lt_succ_self _

/-- The two modes agree on a stream of poll results exactly when no error comes before
the first completion: the blocking loop goes on after an error. -/
theorem blocking_agrees_iff (posts : Nat → Bool) (ctx : ReceiveQueue) (polls : List PollResult) :
    pollNextReceiveWc true posts ctx polls = pollAgain posts ctx polls ↔
      polls.find? (fun p => p ≠ .empty) ≠ some .error := by
  change (pollUntil polls).map (fun p => (afterPoll posts ctx p.1, p.2)) = _ ↔ _
  induction polls with
  | nil => exact iff_of_true rfl (by simp)
  | cons p polls ih =>
    cases p with
    | empty => exact ih
    | error =>
      rw [pollAgain_cons posts ctx (by simp)]
      refine iff_of_false (fun h => ?_) (by simp)
      obtain ⟨⟨q, rest⟩, hq, heq⟩ := Option.map_eq_some_iff.mp h
      have hshort := pollUntil_shorter (show pollUntil polls = some (q, rest) from hq)
      have hrest : rest = polls := congrArg Prod.snd heq
      rw [hrest] at hshort
      exact lt_irrefl _ hshort
    | completion wc =>
      rw [pollAgain_cons posts ctx (by simp)]
      exact iff_of_true rfl (by simp)

/-- An error before a completion: the blocking call returns success. -/
theorem blocking_skips_error :
    pollNextReceiveWc true (fun _ => true) ⟨rxDepth, rxDepth⟩
        [.error, .completion ⟨.success, .recv⟩] ≠
      pollAgain (fun _ => true) ⟨rxDepth, rxDepth⟩ [.error, .completion ⟨.success, .recv⟩] := by
  decide

inductive Outcome where
  | empty
  | error
  | received
  | failed (opcode : WcOpcode)
  deriving DecidableEq

def Outcome.result : Outcome → PollResult
  | .empty => .empty
  | .error => .error
  | .received => .completion ⟨.success, .recv⟩
  | .failed opcode => .completion ⟨.failure, opcode⟩

/-- One call of `poll_next_receive_wc` and everything that its environment decides. -/
structure Attempt where
  blocking : Bool
  outcomes : List Outcome
  posts : Nat → Bool

def polled : Bool → List Outcome → Option Outcome
  | _, [] => none
  | blocking, o :: os =>
    match o with
    | .empty | .error => if blocking then polled blocking os else some o
    | .received | .failed _ => some o

/-- A queue pair: `outstanding` receive requests are posted and not yet completed. -/
structure Credits where
  ctx : ReceiveQueue
  outstanding : Nat
  deriving DecidableEq

def refilled (posts : Nat → Bool) (ctx : ReceiveQueue) : Nat :=
  if ctx.routs - 1 ≤ refillRwrThres then (postLoop posts (ctx.rxDepth - (ctx.routs - 1)).toNat 0).1
  else 0

/-- The requests that are outstanding after a call; `none` where a receive would
complete that was never posted. -/
def Credits.left (s : Credits) (posts : Nat → Bool) : Outcome → Option Nat
  | .empty | .error => some s.outstanding
  | .received =>
    if s.outstanding = 0 then none else some (s.outstanding - 1 + refilled posts s.ctx)
  | .failed _ => if s.outstanding = 0 then none else some (s.outstanding - 1)

def Credits.call (s : Credits) (a : Attempt) : Option (Int × Credits) := do
  let o ← polled a.blocking a.outcomes
  let (r, _) ← pollNextReceiveWc a.blocking a.posts s.ctx (a.outcomes.map Outcome.result)
  let outstanding ← s.left a.posts o
  some (r.1, ⟨r.2, outstanding⟩)

def Credits.move (s : Credits) (a : Attempt) : Option Credits := (s.call a).map Prod.snd

/-- The initial fill of `kv_open`; `none` when it fails. -/
def kvOpen (posts : Nat → Bool) (rxDepth : Int) : Option Credits :=
  let ctx : ReceiveQueue := ⟨rxDepth, 0⟩
  let (failed, ctx) := ppPostRecv posts ctx
  if failed = 0 then some ⟨{ ctx with routs := ctx.rxDepth }, (postLoop posts rxDepth.toNat 0).1⟩
  else none

/-- `routs` is the number of outstanding requests, which the depth bounds. -/
def Exact (s : Credits) : Prop := s.ctx.routs = s.outstanding ∧ s.outstanding ≤ s.ctx.rxDepth

/-- The call leaves the counter exact, and enough requests posted when it succeeds. -/
def Counts (s : Credits) (a : Attempt) : Prop :=
  ∀ r t, s.call a = some (r, t) → Exact t ∧ (r = 0 → refillRwrThres < t.outstanding)

/-- A receive completes with a failure, or a refill stops after it has posted some of
its requests. -/
def Drifts (s : Credits) (a : Attempt) : Prop :=
  s.outstanding ≠ 0 ∧ ((∃ opcode, polled a.blocking a.outcomes = some (.failed opcode)) ∨
    (polled a.blocking a.outcomes = some .received ∧ s.ctx.routs - 1 ≤ refillRwrThres ∧
      a.posts 0 = true ∧ ∃ k < (s.ctx.rxDepth - (s.ctx.routs - 1)).toNat, a.posts k = false))

theorem polled_result {blocking : Bool} {os : List Outcome} {o : Outcome}
    (h : polled blocking os = some o) (posts : Nat → Bool) (ctx : ReceiveQueue) :
    ∃ rest, pollNextReceiveWc blocking posts ctx (os.map Outcome.result) =
      some (afterPoll posts ctx o.result, rest) := by
  induction os with
  | nil => cases h
  | cons p os ih =>
    cases p with
    | empty | error =>
      cases blocking with
      | true => exact ih h
      | false =>
        cases h
        exact ⟨_, rfl⟩
    | received | failed opcode =>
      cases h
      cases blocking <;> exact ⟨_, rfl⟩

variable {s t : Credits} {a : Attempt} {r : Int} {o : Outcome}

theorem call_eq (h : polled a.blocking a.outcomes = some o) :
    s.call a = (s.left a.posts o).map (fun k =>
      ((afterPoll a.posts s.ctx o.result).1, ⟨(afterPoll a.posts s.ctx o.result).2, k⟩)) := by
  obtain ⟨rest, hrest⟩ := polled_result h a.posts s.ctx
  rw [Credits.call, h, hrest, Option.map_eq_bind]
  rfl

theorem call_polled (h : s.call a = some (r, t)) : ∃ o, polled a.blocking a.outcomes = some o := by
  obtain ⟨o, ho, -⟩ := Option.bind_eq_some_iff.mp h
  exact ⟨o, ho⟩

theorem received_call (hp : polled a.blocking a.outcomes = some .received) (hz : s.outstanding ≠ 0) :
    s.call a = some ((afterPoll a.posts s.ctx Outcome.received.result).1,
      ⟨(afterPoll a.posts s.ctx Outcome.received.result).2,
        s.outstanding - 1 + refilled a.posts s.ctx⟩) := by
  rw [call_eq hp, Credits.left, if_neg hz]
  rfl

theorem failed_call {opcode : WcOpcode} (hp : polled a.blocking a.outcomes = some (.failed opcode))
    (hz : s.outstanding ≠ 0) : s.call a = some (-1, ⟨s.ctx, s.outstanding - 1⟩) := by
  rw [call_eq hp, Credits.left, if_neg hz]
  rfl

theorem call_none (ho : o = .received ∨ ∃ opcode, o = .failed opcode)
    (hp : polled a.blocking a.outcomes = some o) (hz : s.outstanding = 0) : s.call a = none := by
  rw [call_eq hp]
  obtain rfl | ⟨opcode, rfl⟩ := ho <;> simp [Credits.left, hz]

theorem received_done (hp : polled a.blocking a.outcomes = some .received) (h : s.call a = some (r, t)) :
    s.outstanding ≠ 0 ∧ r = (afterPoll a.posts s.ctx Outcome.received.result).1 ∧
      t = ⟨(afterPoll a.posts s.ctx Outcome.received.result).2,
        s.outstanding - 1 + refilled a.posts s.ctx⟩ := by
  by_cases hz : s.outstanding = 0
  · rw [call_none (.inl rfl) hp hz] at h
    cases h
  · rw [received_call hp hz] at h
    cases h
    exact ⟨hz, rfl, rfl⟩

theorem received_exact (hs : Exact s) (hd : refillRwrThres < s.ctx.rxDepth)
    (hp : polled a.blocking a.outcomes = some .received)
    (hposts : s.ctx.routs - 1 ≤ refillRwrThres →
      ∀ k < (s.ctx.rxDepth - (s.ctx.routs - 1)).toNat, a.posts k = true) : Counts s a := by
  obtain ⟨hrouts, hle⟩ := hs
  intro r t h
  obtain ⟨hz, -, rfl⟩ := received_done hp h
  by_cases hr : s.ctx.routs - 1 ≤ refillRwrThres
  · have hall : (postLoop a.posts (s.ctx.rxDepth - (s.ctx.routs - 1)).toNat 0).2 = true := by
      by_contra hf
      obtain ⟨k, hk, hfail⟩ := (postLoop_snd a.posts _ 0).mp (by simpa using hf)
      rw [Nat.zero_add, hposts hr k hk] at hfail
      cases hfail
    have hcount := postLoop_fst a.posts _ 0 hall
    have hctx : (afterPoll a.posts s.ctx Outcome.received.result).2 =
        { s.ctx with routs := s.ctx.rxDepth } := by
      simp [Outcome.result, afterPoll, hr, ppPostRecv, hall]
    rw [hctx, refilled, if_pos hr, hcount]
    refine ⟨⟨?_, ?_⟩, fun _ => ?_⟩ <;> simp only <;> omega
  · have hctx : (afterPoll a.posts s.ctx Outcome.received.result).2 =
        { s.ctx with routs := s.ctx.routs - 1 } := by
      simp [Outcome.result, afterPoll, hr]
    rw [hctx, refilled, if_neg hr]
    refine ⟨⟨?_, ?_⟩, fun _ => ?_⟩ <;> simp only <;> omega

/-- A refill that posts nothing fails, and the counter is still exact. -/
theorem unfilled_exact (hs : Exact s) (hp : polled a.blocking a.outcomes = some .received)
    (hr : s.ctx.routs - 1 ≤ refillRwrThres) (hfail : a.posts 0 = false) : Counts s a := by
  obtain ⟨hrouts, hle⟩ := hs
  intro r t h
  obtain ⟨hz, hres, rfl⟩ := received_done hp h
  obtain ⟨m, hm⟩ : ∃ m, (s.ctx.rxDepth - (s.ctx.routs - 1)).toNat = m + 1 :=
    Nat.exists_eq_succ_of_ne_zero (by omega)
  have hloop : postLoop a.posts (s.ctx.rxDepth - (s.ctx.routs - 1)).toNat 0 = (0, false) := by
    rw [hm, postLoop, if_neg (by simp [hfail])]
  have hafter : afterPoll a.posts s.ctx Outcome.received.result =
      (-1, { s.ctx with routs := s.ctx.routs - 1 }) := by
    simp [Outcome.result, afterPoll, hr, ppPostRecv, hloop]
  rw [hafter] at hres ⊢
  rw [refilled, if_pos hr, hloop]
  refine ⟨⟨?_, ?_⟩, fun h0 => ?_⟩ <;> simp only at * <;> omega

theorem idle_exact (hs : Exact s) (ho : o = .empty ∨ o = .error)
    (hp : polled a.blocking a.outcomes = some o) : Counts s a := by
  intro r t h
  rw [call_eq hp] at h
  obtain rfl | rfl := ho <;> cases h <;> exact ⟨hs, fun h => by cases h⟩

theorem failed_drifts (hs : Exact s) (hz : s.outstanding ≠ 0) {opcode : WcOpcode}
    (hp : polled a.blocking a.outcomes = some (.failed opcode)) : ¬ Counts s a := by
  intro hc
  obtain ⟨⟨hrouts, -⟩, -⟩ := hc _ _ (failed_call hp hz)
  have heq := hs.1
  simp only at hrouts
  omega

theorem partial_drifts (hs : Exact s) (hz : s.outstanding ≠ 0)
    (hp : polled a.blocking a.outcomes = some .received) (hr : s.ctx.routs - 1 ≤ refillRwrThres)
    (hpost : a.posts 0 = true)
    (hfail : ∃ k < (s.ctx.rxDepth - (s.ctx.routs - 1)).toNat, a.posts k = false) : ¬ Counts s a := by
  intro hc
  obtain ⟨⟨hrouts, -⟩, -⟩ := hc _ _ (received_call hp hz)
  have hloop : (postLoop a.posts (s.ctx.rxDepth - (s.ctx.routs - 1)).toNat 0).2 = false := by
    rw [postLoop_snd]
    simpa using hfail
  obtain ⟨k, hk, -⟩ := hfail
  obtain ⟨m, hm⟩ : ∃ m, (s.ctx.rxDepth - (s.ctx.routs - 1)).toNat = m + 1 :=
    Nat.exists_eq_succ_of_ne_zero (by omega)
  have hsome : 1 ≤ (postLoop a.posts (s.ctx.rxDepth - (s.ctx.routs - 1)).toNat 0).1 := by
    rw [hm, postLoop, if_pos hpost]
    exact (postLoop_le a.posts m 1).1
  have heq := hs.1
  simp only [Outcome.result, afterPoll, refilled, hr, ppPostRecv, hloop, ne_eq, not_true_eq_false,
    ↓reduceIte, Bool.false_eq_true, one_ne_zero, not_false_eq_true] at hrouts
  omega

theorem counts_iff (hs : Exact s) (hd : refillRwrThres < s.ctx.rxDepth) (a : Attempt) :
    Counts s a ↔ ¬ Drifts s a := by
  cases hp : polled a.blocking a.outcomes with
  | none =>
    refine iff_of_true (fun r t h => ?_) ?_
    · obtain ⟨o, ho⟩ := call_polled h
      rw [hp] at ho
      cases ho
    · rintro ⟨-, ⟨opcode, h⟩ | ⟨h, -⟩⟩ <;> rw [hp] at h <;> cases h
  | some o =>
    cases o with
    | empty | error =>
      refine iff_of_true (idle_exact hs (by simp) hp) ?_
      rintro ⟨-, ⟨opcode, h⟩ | ⟨h, -⟩⟩ <;> rw [hp] at h <;> cases h
    | failed opcode =>
      by_cases hz : s.outstanding = 0
      · refine iff_of_true (fun r t h => ?_) (fun h => h.1 hz)
        rw [call_none (.inr ⟨_, rfl⟩) hp hz] at h
        cases h
      · exact iff_of_false (failed_drifts hs hz hp) (not_not.mpr ⟨hz, .inl ⟨opcode, hp⟩⟩)
    | received =>
      by_cases hz : s.outstanding = 0
      · refine iff_of_true (fun r t h => ?_) (fun h => h.1 hz)
        rw [call_none (.inl rfl) hp hz] at h
        cases h
      by_cases hr : s.ctx.routs - 1 ≤ refillRwrThres
      · by_cases hfail : ∃ k < (s.ctx.rxDepth - (s.ctx.routs - 1)).toNat, a.posts k = false
        · cases hpost : a.posts 0 with
          | true =>
            exact iff_of_false (partial_drifts hs hz hp hr hpost hfail)
              (not_not.mpr ⟨hz, .inr ⟨hp, hr, hpost, hfail⟩⟩)
          | false =>
            refine iff_of_true (unfilled_exact hs hp hr hpost) ?_
            rintro ⟨-, ⟨opcode, h⟩ | ⟨-, -, h, -⟩⟩
            · rw [hp] at h
              cases h
            · rw [hpost] at h
              cases h
        · refine iff_of_true (received_exact hs hd hp fun _ k hk => ?_) ?_
          · by_contra hf
            exact hfail ⟨k, hk, by simpa using hf⟩
          · rintro ⟨-, ⟨opcode, h⟩ | ⟨-, -, -, h⟩⟩
            · rw [hp] at h
              cases h
            · exact hfail h
      · refine iff_of_true (received_exact hs hd hp fun h => absurd h hr) ?_
        rintro ⟨-, ⟨opcode, h⟩ | ⟨-, h, -⟩⟩
        · rw [hp] at h
          cases h
        · exact hr h

theorem call_depth (h : s.call a = some (r, t)) : t.ctx.rxDepth = s.ctx.rxDepth := by
  obtain ⟨o, ho⟩ := call_polled h
  rw [call_eq ho] at h
  have hdepth : (afterPoll a.posts s.ctx o.result).2.rxDepth = s.ctx.rxDepth := by
    cases o with
    | empty | error | failed opcode => rfl
    | received =>
      simp only [Outcome.result, afterPoll, ppPostRecv]
      split_ifs <;> rfl
  obtain ⟨k, -, hk⟩ := Option.map_eq_some_iff.mp h
  cases hk
  exact hdepth

theorem kvOpen_exact {posts : Nat → Bool} {rxDepth : Int} (hd : refillRwrThres < rxDepth)
    (h : kvOpen posts rxDepth = some s) : Exact s ∧ s.ctx.rxDepth = rxDepth := by
  unfold refillRwrThres at hd
  cases hp : (postLoop posts rxDepth.toNat 0).2 with
  | false => simp [kvOpen, ppPostRecv, hp] at h
  | true =>
    have hcount := postLoop_fst posts rxDepth.toNat 0 hp
    simp only [kvOpen, ppPostRecv, sub_zero, hp, ↓reduceIte, Option.some.injEq] at h
    subst h
    refine ⟨⟨?_, ?_⟩, rfl⟩ <;> simp only <;> omega

/-- From the fill of `kv_open` on, a run of `poll_next_receive_wc` keeps `routs` exact as
long as no receive fails and no refill stops half way, and not a call longer. -/
theorem credits_exact_iff (posts : Nat → Bool) (rxDepth : Int) (hd : refillRwrThres < rxDepth)
    (hs : kvOpen posts rxDepth = some s) (calls : List Attempt) :
    Exact s ∧ (Along Credits.move Counts s calls ↔
      Along Credits.move (fun s a => ¬ Drifts s a) s calls) := by
  obtain ⟨hexact, hdepth⟩ := kvOpen_exact hd hs
  refine ⟨hexact, ?_⟩
  refine along_iff (fun s => Exact s ∧ refillRwrThres < s.ctx.rxDepth) (fun _ => True)
    (fun s a hs _ => counts_iff hs.1 hs.2 a) ?_ calls s (fun _ _ => trivial) ⟨hexact, hdepth ▸ hd⟩
  rintro s a t ⟨-, hdepth⟩ - hc hm
  obtain ⟨⟨r, t'⟩, hcall, rfl⟩ := Option.map_eq_some_iff.mp hm
  exact ⟨(hc r t' hcall).1, by rw [call_depth hcall]; exact hdepth⟩

def plain : Attempt := ⟨true, [.received], fun _ => true⟩

def halfway : Attempt := ⟨true, [.received], fun k => k == 0⟩

theorem credits_exact_plain :
    kvOpen (fun _ => true) rxDepth = some ⟨⟨100, 100⟩, 100⟩ ∧
      (Along Credits.move Counts ⟨⟨100, 100⟩, 100⟩ [plain] ↔
        Along Credits.move (fun s a => ¬ Drifts s a) ⟨⟨100, 100⟩, 100⟩ [plain]) :=
  have h : kvOpen (fun _ => true) rxDepth = some ⟨⟨100, 100⟩, 100⟩ := by decide +kernel
  ⟨h, (credits_exact_iff (fun _ => true) rxDepth (by decide) h [plain]).2⟩

/-- The ninetieth receive makes a refill due; it posts one request of ninety and fails,
so that eleven requests are outstanding while `routs` is ten. -/
theorem credits_drift :
    ¬ Along Credits.move Counts ⟨⟨rxDepth, 100⟩, 100⟩ (List.replicate 89 plain ++ [halfway]) := by
  have hrun : ∀ m : Nat, ¬ Along Credits.move Counts ⟨⟨rxDepth, m + 11⟩, m + 11⟩
      (List.replicate m plain ++ [halfway]) := by
    intro m
    induction m with
    | zero =>
      rintro ⟨hc, -⟩
      exact partial_drifts ⟨rfl, by decide⟩ (by decide) rfl (by decide) rfl ⟨1, by decide, rfl⟩ hc
    | succ m ih =>
      rintro ⟨-, ht⟩
      have hcall := received_call (s := ⟨⟨rxDepth, (m + 1 : Nat) + 11⟩, m + 1 + 11⟩) (a := plain) rfl
        (Nat.succ_ne_zero _)
      have hr : ¬ ((m : Int) + 1 + 11 - 1 ≤ refillRwrThres) := by
        unfold refillRwrThres
        omega
      refine ih (ht _ ?_)
      rw [Credits.move, hcall]
      simp [Outcome.result, afterPoll, refilled, hr]
      omega
  exact hrun 89

end NetworkOptimization.Receives
