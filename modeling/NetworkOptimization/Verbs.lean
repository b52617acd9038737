import Mathlib.Data.List.Forall2
import NetworkOptimization.ControlMessages

namespace NetworkOptimization.Verbs

open Words ControlMessages

def rxDepth : Int := 100

def refillRwrThres : Int := 10

inductive WcStatus where
  | success
  | failure
  deriving DecidableEq

inductive WcOpcode where
  | send
  | rdmaWrite
  | rdmaRead
  | recv
  | other
  deriving DecidableEq

structure Wc where
  status : WcStatus
  opcode : WcOpcode
  deriving DecidableEq

/-- What one call of `ibv_poll_cq(cq, 1, &wc)` gives. -/
inductive PollResult where
  | empty
  | error
  | completion (wc : Wc)
  deriving DecidableEq

structure ReceiveQueue where
  rxDepth : Int
  routs : Int
  deriving DecidableEq

/-- The loop of `pp_post_recv`: `posts i` is the outcome of the `i`-th `ibv_post_recv`.
It gives the number of requests posted and whether none failed. -/
def postLoop (posts : Nat → Bool) : Nat → Nat → Nat × Bool
  | 0, i => (i, true)
  | n + 1, i => if posts i then postLoop posts n (i + 1) else (i, false)

/-- `ibv_post_recv` on a queue that holds `held` requests. -/
def ibvPostRecv (accepted : Bool) (held : Nat) : Int × Nat := if accepted then (0, held + 1) else (1, held)

/-- The loop with its effect on the queue. -/
def postRecvs (posts : Nat → Bool) : Nat → Nat → Nat → Nat × Nat
  | 0, i, held => (i, held)
  | n + 1, i, held =>
    let (failed, held) := ibvPostRecv (posts i) held
    if failed ≠ 0 then (i, held) else postRecvs posts n (i + 1) held

def ppPostRecv (posts : Nat → Bool) (ctx : ReceiveQueue) : Int × ReceiveQueue :=
  if (postLoop posts (ctx.rxDepth - ctx.routs).toNat 0).2 then
    (0, { ctx with routs := ctx.rxDepth })
  else (1, ctx)

/-- The loop `do … while (ne < 1)` of the blocking mode; it goes on after an error too. -/
def pollUntil : List PollResult → Option (PollResult × List PollResult)
  | [] => none
  | .completion wc :: polls => some (.completion wc, polls)
  | .empty :: polls => pollUntil polls
  | .error :: polls => pollUntil polls

/-- The part of `poll_next_receive_wc` behind its polling loops. -/
def afterPoll (posts : Nat → Bool) (ctx : ReceiveQueue) : PollResult → Int × ReceiveQueue
  | .empty => (-2, ctx)
  | .error => (-1, ctx)
  | .completion wc =>
    if wc.status ≠ .success then (-1, ctx)
    else if wc.opcode = .recv then
      let ctx := { ctx with routs := ctx.routs - 1 }
      if ctx.routs ≤ refillRwrThres then
        let (failed, ctx) := ppPostRecv posts ctx
        if failed ≠ 0 then (-1, ctx) else (0, ctx)
      else (0, ctx)
    else (-1, ctx)

/-- `poll_next_receive_wc` on a stream of poll results; `none` while it still polls. -/
def pollNextReceiveWc (blocking : Bool) (posts : Nat → Bool) (ctx : ReceiveQueue)
    (polls : List PollResult) : Option ((Int × ReceiveQueue) × List PollResult) :=
  if blocking then
    (pollUntil polls).map (fun p => (afterPoll posts ctx p.1, p.2))
  else
    match polls with
    | [] => none
    | p :: polls => some (afterPoll posts ctx p, polls)

/-- What `poll_n_send_wc(ctx, 1)` makes of the completion it takes. -/
def sendResult (wc : Wc) : Int :=
  if wc.status ≠ .success then 1
  else if wc.opcode = .send ∨ wc.opcode = .rdmaWrite ∨ wc.opcode = .rdmaRead then 0
  else 1

/-- The memory a pointer of the client leads to: the caller's constant value, or
a block of the client's heap. -/
inductive Buffer where
  | caller (bytes : List UInt8)
  | block (address : UInt64)
  deriving DecidableEq

structure LocalMr where
  handle : Nat
  start : Buffer
  size : UInt64
  deriving DecidableEq

inductive RdmaOpcode where
  | write
  | read
  deriving DecidableEq

def RdmaOpcode.wc : RdmaOpcode → WcOpcode
  | .write => .rdmaWrite
  | .read => .rdmaRead

structure RdmaRequest where
  opcode : RdmaOpcode
  addr : Buffer
  length : UInt32
  lkey : LocalMr
  remoteAddr : UInt64
  rkey : UInt32
  deriving DecidableEq

inductive WorkRequest where
  | send
  | rdma (request : RdmaRequest)
  deriving DecidableEq

/-- The temporary RDMA fields of a `pingpong_context`. -/
structure RdmaContext where
  mrRdma : Option LocalMr
  mrRdmaStartPtr : Option Buffer
  mrRdmaSize : UInt64
  remoteBufVa : UInt64
  remoteBufRkey : UInt32
  deriving DecidableEq

/-- The work request that `pp_post_rdma` builds. The 32-bit `length` of the
scatter/gather entry takes the low half of the size. -/
def rdmaRequest (ctx : RdmaContext) (mr : LocalMr) (start : Buffer) (opcode : RdmaOpcode) :
    RdmaRequest where
  opcode := opcode
  addr := start
  length := ctx.mrRdmaSize.toUInt32
  lkey := mr
  remoteAddr := bswap64 ctx.remoteBufVa
  rkey := ntohl ctx.remoteBufRkey

theorem postLoop_le (posts : Nat → Bool) (m i : Nat) :
    i ≤ (postLoop posts m i).1 ∧ (postLoop posts m i).1 ≤ i + m := by
  induction m generalizing i with
  | zero => simp [postLoop]
  | succ m ih =>
    cases hp : posts i with
    | false => simp [postLoop, hp]
    | true =>
      have h := ih (i + 1)
      rw [postLoop, if_pos hp]
      omega

theorem postLoop_fst (posts : Nat → Bool) (m i : Nat) (h : (postLoop posts m i).2 = true) :
    (postLoop posts m i).1 = i + m := by
  induction m generalizing i with
  | zero => rfl
  | succ m ih =>
    cases hp : posts i with
    | false => simp [postLoop, hp] at h
    | true =>
      rw [postLoop, if_pos hp] at h ⊢
      rw [ih (i + 1) h]
      omega

theorem postLoop_snd (posts : Nat → Bool) (m i : Nat) :
    (postLoop posts m i).2 = false ↔ ∃ k < m, posts (i + k) = false := by
  induction m generalizing i with
  | zero => simp [postLoop]
  | succ m ih =>
    cases hp : posts i with
    | false =>
      rw [postLoop, if_neg (by simp [hp])]
      exact iff_of_true rfl ⟨0, Nat.succ_pos m, hp⟩
    | true =>
      rw [postLoop, if_pos hp, ih]
      constructor
      · rintro ⟨k, hk, hf⟩
        refine ⟨k + 1, by omega, ?_⟩
        rwa [show i + (k + 1) = i + 1 + k by omega]
      · rintro ⟨k, hk, hf⟩
        cases k with
        | zero => rw [Nat.add_zero, hp] at hf; cases hf
        | succ k => exact ⟨k, by omega, by rwa [show i + 1 + k = i + (k + 1) by omega]⟩

/-- The number that the loop counts is the number of requests that it put into the queue. -/
theorem postRecvs_eq (posts : Nat → Bool) (m i held : Nat) :
    (postRecvs posts m i held).1 = (postLoop posts m i).1 ∧
      (postRecvs posts m i held).2 + i = held + (postLoop posts m i).1 := by
  induction m generalizing i held with
  | zero => exact ⟨rfl, rfl⟩
  | succ m ih =>
    cases hp : posts i with
    | false => simp [postRecvs, ibvPostRecv, postLoop, hp]
    | true =>
      obtain ⟨hcount, hheld⟩ := ih (i + 1) (held + 1)
      simp only [postRecvs, ibvPostRecv, postLoop, hp, ↓reduceIte, ne_eq, not_true_eq_false]
      exact ⟨hcount, by omega⟩

theorem postRecvs_of_ppPostRecv {posts : Nat → Bool} {ctx : ReceiveQueue}
    (h : (ppPostRecv posts ctx).1 = 0)
    (held : Nat) : (postRecvs posts (ctx.rxDepth - ctx.routs).toNat 0 held).2 =
      held + (ctx.rxDepth - ctx.routs).toNat := by
  have hall : (postLoop posts (ctx.rxDepth - ctx.routs).toNat 0).2 = true := by
    by_contra hno
    rw [ppPostRecv, if_neg hno] at h
    exact absurd h Int.one_ne_zero
  have hcount := postLoop_fst posts _ 0 hall
  have hheld := (postRecvs_eq posts (ctx.rxDepth - ctx.routs).toNat 0 held).2
  omega

theorem postLoop_true {posts : Nat → Bool} (h : ∀ i, posts i = true) (n i : Nat) :
    (postLoop posts n i).2 = true := by
  induction n generalizing i with
  | zero => rfl
  | succ n ih => simpa [postLoop, h i] using ih (i + 1)

theorem afterPoll_recv {posts : Nat → Bool} (h : ∀ i, posts i = true) (ctx : ReceiveQueue) :
    (afterPoll posts ctx (.completion ⟨.success, .recv⟩)).1 = 0 := by
  by_cases hr : ctx.routs - 1 ≤ refillRwrThres <;> simp [afterPoll, hr, ppPostRecv, postLoop_true h]

/-- A message as it stands in the receive buffer: all of `buf` is transmitted, so
only bytes behind it are left of what the memory held before. -/
def received (old : List UInt8) (sent : ControlMessage) : List UInt8 :=
  sent.buf ++ old.drop sent.buf.length

/-- Every operation's arguments come back from the wire, whatever the two buffers
held before, and the encoder writes nothing behind them. An address and a key that
the server swapped reach the work request as the server's own. -/
theorem control_message_round_trip (operation : Operation) (args : List Argument)
    (messages : List (List UInt8)) (hk : args.map Argument.kind = operation.fields)
    (hp : Points args messages) (hl : (encode args).length ≤ controlMessageBufferSize)
    (my : ControlMessage) (old : List UInt8) :
    ∃ sent ptrs, setControlMessage operation messages my = some sent ∧
      sent.operation = operation ∧
      sent.buf = encode args ++ my.buf.drop (encode args).length ∧
      decodeControlMessageBuffer operation (received old sent) = some ptrs ∧
      List.Forall₂ (fun a p => a.ReadAt (received old sent) p) args ptrs ∧
      ∀ va rkey p q x y, (Argument.word64 (bswap64 va), p) ∈ args.zip ptrs →
        (Argument.word32 (htonl rkey), q) ∈ args.zip ptrs →
        word64At (received old sent) p = some x → word32At (received old sent) q = some y →
        ∀ (ctx : RdmaContext) mr start opcode,
          (rdmaRequest { ctx with remoteBufVa := x, remoteBufRkey := y } mr start opcode).remoteAddr = va ∧
          (rdmaRequest { ctx with remoteBufVa := x, remoteBufRkey := y } mr start opcode).rkey = rkey := by
  obtain ⟨sent, hs, ho, hb⟩ := setControlMessage_eq hk hp my hl
  have hr : received old sent =
      encode args ++ (my.buf.drop (encode args).length ++ old.drop sent.buf.length) := by
    rw [received, hb, List.append_assoc]
  have hd : decodeControlMessageBuffer operation (received old sent) = some (offsets 0 args) := by
    rw [hr, decode_encode hk]
  have ha : List.Forall₂ (fun a p => a.ReadAt (received old sent) p) args (offsets 0 args) := by
    rw [hr]
    exact offsets_readAt args [] _
  refine ⟨sent, offsets 0 args, hs, ho, hb, hd, ha, ?_⟩
  intro va rkey p q x y hva hrkey hx hy ctx mr start opcode
  have hva' : word64At (received old sent) p = some (bswap64 va) := List.forall₂_zip ha hva
  have hrkey' : word32At (received old sent) q = some (htonl rkey) := List.forall₂_zip ha hrkey
  rw [hva'] at hx
  rw [hrkey'] at hy
  obtain rfl := Option.some.inj hx
  obtain rfl := Option.some.inj hy
  exact ⟨bswap64_bswap64 va, ntohl_htonl rkey⟩

/-- A region of 5000 bytes is announced over a buffer that held other bytes. -/
theorem region_round_trip :
    ∃ sent ptrs, setControlMessage .serverKvGetRendezvous
        [u64Bytes 5000, u64Bytes (bswap64 4096), u32Bytes (htonl 7)] blank = some sent ∧
      decodeControlMessageBuffer .serverKvGetRendezvous (received [1, 2, 3] sent) = some ptrs ∧
      List.Forall₂ (fun (a : Argument) p => a.ReadAt (received [1, 2, 3] sent) p)
        [.word64 5000, .word64 (bswap64 4096), .word32 (htonl 7)] ptrs := by
  have hp : Points [.word64 5000, .word64 (bswap64 4096), .word32 (htonl 7)]
      [u64Bytes 5000, u64Bytes (bswap64 4096), u32Bytes (htonl 7)] :=
    List.Forall₂.cons (List.prefix_refl _) (List.Forall₂.cons (List.prefix_refl _)
      (List.Forall₂.cons (List.prefix_refl _) List.Forall₂.nil))
  obtain ⟨sent, ptrs, hs, -, -, hd, ha, -⟩ := control_message_round_trip .serverKvGetRendezvous _ _
    rfl hp (by simp [Argument.bytes, controlMessageBufferSize]) blank [1, 2, 3]
  exact ⟨sent, ptrs, hs, hd, ha⟩

end NetworkOptimization.Verbs
