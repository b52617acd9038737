import NetworkOptimization.Runs
import NetworkOptimization.Tables

namespace NetworkOptimization.ServerLoop

open Words Memory ControlMessages DynamicArray Verbs SequentialCode Calls Server Handlers Tables Runs

variable {n : Nat}

/-- Everything the environment decides during one visit of a client: what `ibv_poll_cq`
gives, the outcomes of `ibv_post_recv`, the content of the receive buffer, and the
results of `poll_n_send_wc` and `ibv_dereg_mr`. -/
structure Visit where
  poll : PollResult
  posts : Nat → Bool
  message : ControlMessage
  sent : Int
  dereg : Int

structure Loop (n : Nat) where
  mem : ServerMemory n
  ctx : Fin n → ReceiveQueue
  current : Fin n

def Visit.answer (v : Visit) (ctx : ReceiveQueue) : (verb : Verb) → verb.Answer
  | .ibvPostSend _ => (0 : Int)
  | .pollNSendWc => v.sent
  | .pollNextReceiveWc _ => (afterPoll v.posts ctx v.poll).1
  | .readMessage => v.message
  | .ibvDeregMr => v.dereg

namespace Loop

def answer (s : Loop n) (v : Visit) : (verb : Verb) → verb.Answer := v.answer (s.ctx s.current)

def pass (s : Loop n) (v : Visit) : Option (ServerMemory n × LoopExit) :=
  execute (s.answer v) (runServerPass s.current) s.mem

/-- The client after this one; after the last one the `for` loop starts again. -/
def following (i : Fin n) : Fin n := ⟨(i + 1) % n, Nat.mod_lt _ i.pos⟩

/-- What can happen to the server: it visits a client, or a client writes into a
region that is open to it. -/
inductive Input where
  | visit (v : Visit)
  | remoteWrite (mr : Mr) (bytes : List UInt8)

/-- `none` once the server has returned, and where its behaviour is undefined. -/
def move (s : Loop n) : Input → Option (Loop n)
  | .visit v =>
    match s.pass v with
    | some (mem, .continue) =>
      some ⟨mem, Function.update s.ctx s.current (afterPoll v.posts (s.ctx s.current) v.poll).2,
        following s.current⟩
    | _ => none
  | .remoteWrite mr bytes =>
    if mr ∈ s.mem.regions ∧ mr.access = .remoteWrite ∧ bytes.length = mr.length.toNat then
      some { s with mem := s.mem.setHeap (write s.mem.heap mr.addr bytes) }
    else none

def start (place : Nat → UInt64) (junk : Nat → Nat → UInt8) (rkeys : Nat → UInt32)
    (records reallocs : Nat → Bool) (send : Fin n → ControlMessage) (rxDepth : Int)
    (first : Fin n) : Loop n where
  mem := runServerInit place junk rkeys records reallocs send
  ctx := fun _ => ⟨rxDepth, rxDepth⟩
  current := first

end Loop

/-- The visit takes a receive that completed successfully. -/
def Visit.Takes (v : Visit) : Prop := v.poll = .completion ⟨.success, .recv⟩

/-- The pass polls, reads the message and dispatches it, once. -/
def Dispatches (s : Loop n) (v : Visit) : Prop :=
  calls (s.answer v) (runServerPass s.current) s.mem =
      .pollNextReceiveWc false :: .readMessage ::
        calls (s.answer v) (dispatch s.current v.message) s.mem ∧
    s.pass v = execute (s.answer v) (dispatch s.current v.message) s.mem

/-- No completed receive is taken and then treated as no new information. -/
def KeepsRequest (s : Loop n) : Loop.Input → Prop
  | .visit v => v.Takes → Dispatches s v
  | .remoteWrite _ _ => True

/-- The receive that the visit takes makes a refill due, and a post of it fails. -/
def RefillFails (s : Loop n) : Loop.Input → Prop
  | .visit v => v.Takes ∧ (s.ctx s.current).routs - 1 ≤ refillRwrThres ∧
      ∃ k < ((s.ctx s.current).rxDepth - ((s.ctx s.current).routs - 1)).toNat, v.posts k = false
  | .remoteWrite _ _ => False

theorem afterPoll_takes {v : Visit} (hv : v.Takes) (ctx : ReceiveQueue) :
    (afterPoll v.posts ctx v.poll).1 = 0 ↔ ¬ (ctx.routs - 1 ≤ refillRwrThres ∧
      ∃ k < (ctx.rxDepth - (ctx.routs - 1)).toNat, v.posts k = false) := by
  have hpost := postLoop_snd v.posts (ctx.rxDepth - (ctx.routs - 1)).toNat 0
  simp only [zero_add] at hpost
  rw [hv, ← hpost]
  by_cases hr : ctx.routs - 1 ≤ refillRwrThres
  · cases hp : (postLoop v.posts (ctx.rxDepth - (ctx.routs - 1)).toNat 0).2 <;>
      simp [afterPoll, hr, ppPostRecv, hp]
  · simp [afterPoll, hr]

def Loop.polled (s : Loop n) (v : Visit) : Int := (afterPoll v.posts (s.ctx s.current) v.poll).1

theorem pass_eq (s : Loop n) (v : Visit) :
    s.pass v = execute (s.answer v) (afterTake s.current (s.polled v)) s.mem := by
  rw [Loop.pass, runServerPass_eq]
  rfl

theorem calls_eq (s : Loop n) (v : Visit) :
    calls (s.answer v) (runServerPass s.current) s.mem = .pollNextReceiveWc false ::
      calls (s.answer v) (afterTake s.current (s.polled v)) s.mem := by
  rw [runServerPass_eq]
  rfl

theorem pass_taken {s : Loop n} {v : Visit} (h : s.polled v = 0) :
    s.pass v = execute (s.answer v) (dispatch s.current v.message) s.mem := by
  rw [pass_eq, afterTake, if_pos h]
  rfl

theorem pass_idle {s : Loop n} {v : Visit} (h : s.polled v ≠ 0) :
    s.pass v = some (s.mem, .continue) := by
  rw [pass_eq, afterTake, if_neg h]
  rfl

theorem dispatches_iff (s : Loop n) (v : Visit) : Dispatches s v ↔ s.polled v = 0 := by
  constructor
  · rintro ⟨hc, -⟩
    by_contra h
    rw [calls_eq, afterTake, if_neg h] at hc
    cases hc
  · intro h
    refine ⟨?_, pass_taken h⟩
    rw [calls_eq, afterTake, if_pos h]
    rfl

/-- A run of the server dispatches every request that it takes, exactly as long as no
refill of a receive queue fails in the visit that took one. -/
theorem requests_kept_iff (s : Loop n) (inputs : List Loop.Input) :
    Along Loop.move KeepsRequest s inputs ↔
      Along Loop.move (fun s i => ¬ RefillFails s i) s inputs := by
  refine along_iff (fun _ => True) (fun _ => True) ?_ (fun _ _ _ _ _ _ _ => trivial)
    inputs s (fun _ _ => trivial) trivial
  intro s i _ _
  cases i with
  | remoteWrite mr bytes => exact ⟨fun _ h => h, fun _ => trivial⟩
  | visit v =>
    by_cases hv : v.Takes
    · have ha := afterPoll_takes hv (s.ctx s.current)
      simp only [KeepsRequest, RefillFails, hv, true_and, dispatches_iff, forall_const]
      exact ha
    · exact ⟨fun _ h => hv h.1, fun _ h => absurd h hv⟩

def ask (posts : Nat → Bool) : Visit where
  poll := .completion ⟨.success, .recv⟩
  posts := posts
  message := zeroed .clientKvGet [97] (by decide)
  sent := 0
  dereg := 0

theorem polled_ask {s : Loop n} {routs : Int} (hc : s.ctx = fun _ => ⟨rxDepth, routs⟩) :
    s.polled (ask fun _ => true) = 0 := by
  rw [Loop.polled, hc]
  exact afterPoll_recv (fun _ => rfl) _

theorem pass_ask {s : Loop 1} (hd : s.mem.database = initializeKeyValueAddressArray 20)
    (hp : s.polled (ask fun _ => true) = 0) :
    ∃ r, s.pass (ask fun _ => true) = some (s.mem.setSend s.current r, .continue) := by
  rw [pass_taken hp]
  obtain ⟨⟨heap, regions, regCount, rkeys, records, reallocs, kvMalloc, database, count, send⟩,
    ctx, current⟩ := s
  cases hd
  refine ⟨⟨.serverKvGetKeyNotFound, (send current).buf, (send current).length_buf⟩, ?_⟩
  rfl

theorem move_ask {s : Loop 1} (hd : s.mem.database = initializeKeyValueAddressArray 20)
    {routs : Int} (hc : s.ctx = fun _ => ⟨rxDepth, routs⟩) (hr : 11 < routs) :
    ∃ t, s.move (.visit (ask fun _ => true)) = some t ∧
      t.mem.database = initializeKeyValueAddressArray 20 ∧ t.ctx = fun _ => ⟨rxDepth, routs - 1⟩ := by
  obtain ⟨r, hp⟩ := pass_ask hd (polled_ask hc)
  have hctx : (afterPoll (ask fun _ => true).posts ⟨rxDepth, routs⟩ (ask fun _ => true).poll).2 =
      ⟨rxDepth, routs - 1⟩ := by
    simp [ask, afterPoll, refillRwrThres, show ¬ routs ≤ 11 by omega]
  refine ⟨⟨s.mem.setSend s.current r, Function.update s.ctx s.current ⟨rxDepth, routs - 1⟩,
    Loop.following s.current⟩, ?_, hd, ?_⟩
  · rw [Loop.move, hp]
    simp only [hc, hctx]
  · funext i
    obtain rfl : i = s.current := Subsingleton.elim _ _
    simp

def sample : Loop 1 :=
  .start (fun k => UInt64.ofNat (k + 1)) (fun _ _ => 0) UInt32.ofNat (fun _ => true) (fun _ => true)
    (fun _ => blank) rxDepth 0

/-- With one client the ninetieth receive makes the first refill due. When a post of it
fails the request is gone: 89 requests for a key are answered, the next one never is. -/
theorem request_lost :
    ¬ Along Loop.move KeepsRequest sample
      (List.replicate 89 (.visit (ask fun _ => true)) ++ [.visit (ask fun _ => false)]) := by
  have hrun : ∀ (m : Nat) (s : Loop 1), s.mem.database = initializeKeyValueAddressArray 20 →
      s.ctx = (fun _ => ⟨rxDepth, m + 11⟩) → ¬ Along Loop.move KeepsRequest s
        (List.replicate m (.visit (ask fun _ => true)) ++ [.visit (ask fun _ => false)]) := by
    intro m
    induction m with
    | zero =>
      rintro s - hc ⟨hk, -⟩
      have hlost := (dispatches_iff s (ask fun _ => false)).mp (hk rfl)
      rw [Loop.polled, hc] at hlost
      have hfail : (afterPoll (ask fun _ => false).posts ⟨rxDepth, 11⟩ (ask fun _ => false).poll).1
        ≠ 0 := by
        decide
      exact hfail hlost
    | succ m ih =>
      rintro s hd hc ⟨-, ht⟩
      obtain ⟨t, hm, hd', hc'⟩ := move_ask hd hc (by omega)
      refine ih t hd' ?_ (ht t hm)
      rw [hc']
      funext i
      simp
      omega
  exact hrun 89 sample rfl rfl

end NetworkOptimization.ServerLoop
