import NetworkOptimization.Words

namespace NetworkOptimization.ControlMessages

open Words

def controlMessageBufferSize : Nat := 4096

inductive Operation where
  | shutDownServer
  | clientKvSetEager
  | clientKvSetRendezvous
  | serverKvSetRendezvous
  | clientKvGet
  | serverKvGetEager
  | serverKvGetRendezvous
  | serverKvGetKeyNotFound
  | serverInProgress
  | clientKvGetRendezvousFin
  | clientKvSetRendezvousFin
  | serverKvSetSuccessful
  | serverKvGetSuccessful
  deriving DecidableEq, Repr

/-- `memcpy(dst + off, src, size)`; it fails where it would leave one of the two objects. -/
def memcpy (dst : List UInt8) (off : Nat) (src : List UInt8) (size : Nat) : Option (List UInt8) :=
  if size ≤ src.length ∧ off + size ≤ dst.length then
    some (dst.take off ++ src.take size ++ dst.drop (off + size))
  else none

/-- The `messages_sizes` table of `set_control_message`. Each message is the
memory its pointer leads to. -/
def messagesSizes (operation : Operation) (messages : List (List UInt8)) : Option (List Nat) :=
  match operation with
  | .clientKvSetEager => do
    let keySize := (← strlen (← messages[0]?)) + 1
    let valueSize := (← strlen (← messages[2]?)) + 1
    some [keySize, 8, valueSize]
  | .clientKvSetRendezvous => do
    let keySize := (← strlen (← messages[0]?)) + 1
    some [keySize, 8]
  | .serverKvSetRendezvous => some [8, 4]
  | .clientKvGet | .serverKvGetEager | .clientKvGetRendezvousFin | .clientKvSetRendezvousFin => do
    let size := (← strlen (← messages[0]?)) + 1
    some [size]
  | .serverKvGetRendezvous => some [8, 8, 4]
  | .shutDownServer | .serverKvGetKeyNotFound | .serverInProgress | .serverKvSetSuccessful
  | .serverKvGetSuccessful => some []

/-- The copying loop of `set_control_message`, from `current_buf_ptr = off` on. -/
def copyMessages (mem : List UInt8) (off : Nat) : List (List UInt8 × Nat) → Option (List UInt8)
  | [] => some mem
  | (message, size) :: rest => do
    let mem' ← memcpy mem off message size
    copyMessages mem' (off + size) rest

/-- `set_control_message` on the memory that starts at `buf`. -/
def setBuffer (operation : Operation) (messages : List (List UInt8)) (mem : List UInt8) :
    Option (List UInt8) := do
  let sizes ← messagesSizes operation messages
  copyMessages mem 0 (messages.zip sizes)

/-- The `messages_sizes` table of `decode_control_message_buffer`; 0 is a string. -/
def decodeSizes : Operation → List Nat
  | .clientKvSetEager => [0, 8, 0]
  | .clientKvSetRendezvous => [0, 8]
  | .serverKvSetRendezvous => [8, 4]
  | .clientKvGet => [0]
  | .serverKvGetEager => [0]
  | .serverKvGetRendezvous => [8, 8, 4]
  | .clientKvGetRendezvousFin => [0]
  | .clientKvSetRendezvousFin => [0]
  | .shutDownServer | .serverKvGetKeyNotFound | .serverInProgress | .serverKvSetSuccessful
  | .serverKvGetSuccessful => []

/-- The decoding loop: the offset of each field, where a string is measured in place. -/
def decodeLoop (buf : List UInt8) (off : Nat) : List Nat → Option (List Nat)
  | [] => some []
  | size :: sizes => do
    let width ← if size = 0 then (strlen (buf.drop off)).map (· + 1) else some size
    let rest ← decodeLoop buf (off + width) sizes
    some (off :: rest)

/-- `decode_control_message_buffer`: the pointers it fills in, as offsets into `buf`.
A lone field is not measured. -/
def decodeControlMessageBuffer (operation : Operation) (buf : List UInt8) : Option (List Nat) :=
  if (decodeSizes operation).length = 1 then some [0] else decodeLoop buf 0 (decodeSizes operation)

def stringAt (buf : List UInt8) (off : Nat) : Option (List UInt8) := cstring (buf.drop off)

def word64At (buf : List UInt8) (off : Nat) : Option UInt64 :=
  if off + 8 ≤ buf.length then some (u64OfBytes ((buf.drop off).take 8)) else none

def word32At (buf : List UInt8) (off : Nat) : Option UInt32 :=
  if off + 4 ≤ buf.length then some (u32OfBytes ((buf.drop off).take 4)) else none

inductive Kind where
  | string
  | word64
  | word32
  deriving DecidableEq

inductive Argument where
  | string (s : CString)
  | word64 (x : UInt64)
  | word32 (x : UInt32)
  deriving DecidableEq

namespace Argument

def kind : Argument → Kind
  | .string _ => .string
  | .word64 _ => .word64
  | .word32 _ => .word32

def bytes : Argument → List UInt8
  | .string s => s.bytes
  | .word64 x => u64Bytes x
  | .word32 x => u32Bytes x

/-- The argument is what the C expression at `off` evaluates to. -/
def ReadAt (buf : List UInt8) (off : Nat) : Argument → Prop
  | .string s => stringAt buf off = some s.chars
  | .word64 x => word64At buf off = some x
  | .word32 x => word32At buf off = some x

theorem readAt_bytes (a : Argument) (pre rest : List UInt8) :
    a.ReadAt (pre ++ (a.bytes ++ rest)) pre.length := by
  cases a with
  | string s => simp [ReadAt, stringAt, bytes]
  | word64 x => simp [ReadAt, word64At, bytes]
  | word32 x => simp [ReadAt, word32At, bytes]

end Argument

def Operation.fields : Operation → List Kind
  | .clientKvSetEager => [.string, .word64, .string]
  | .clientKvSetRendezvous => [.string, .word64]
  | .serverKvSetRendezvous => [.word64, .word32]
  | .clientKvGet => [.string]
  | .serverKvGetEager => [.string]
  | .serverKvGetRendezvous => [.word64, .word64, .word32]
  | .clientKvGetRendezvousFin => [.string]
  | .clientKvSetRendezvousFin => [.string]
  | .shutDownServer | .serverKvGetKeyNotFound | .serverInProgress | .serverKvSetSuccessful
  | .serverKvGetSuccessful => []

def encode (args : List Argument) : List UInt8 := args.flatMap Argument.bytes

def Points (args : List Argument) (messages : List (List UInt8)) : Prop :=
  List.Forall₂ (fun a m => a.bytes <+: m) args messages

theorem strlen_of_prefix {s : CString} {m : List UInt8} (h : s.bytes <+: m) :
    strlen m = some s.strlen := by
  obtain ⟨rest, rfl⟩ := h
  exact s.strlen_bytes rest

theorem kinds_nil {args : List Argument} (h : args.map Argument.kind = []) : args = [] :=
  List.map_eq_nil_iff.mp h

theorem kinds_string {args : List Argument} {ks : List Kind}
    (h : args.map Argument.kind = .string :: ks) :
    ∃ s rest, args = .string s :: rest ∧ rest.map Argument.kind = ks := by
  obtain ⟨a, rest, rfl, ha, hr⟩ := List.map_eq_cons_iff.mp h
  cases a with
  | string s => exact ⟨s, rest, rfl, hr⟩
  | word64 x => cases ha
  | word32 x => cases ha

theorem kinds_word64 {args : List Argument} {ks : List Kind}
    (h : args.map Argument.kind = .word64 :: ks) :
    ∃ x rest, args = .word64 x :: rest ∧ rest.map Argument.kind = ks := by
  obtain ⟨a, rest, rfl, ha, hr⟩ := List.map_eq_cons_iff.mp h
  cases a with
  | string s => cases ha
  | word64 x => exact ⟨x, rest, rfl, hr⟩
  | word32 x => cases ha

theorem kinds_word32 {args : List Argument} {ks : List Kind}
    (h : args.map Argument.kind = .word32 :: ks) :
    ∃ x rest, args = .word32 x :: rest ∧ rest.map Argument.kind = ks := by
  obtain ⟨a, rest, rfl, ha, hr⟩ := List.map_eq_cons_iff.mp h
  cases a with
  | string s => cases ha
  | word64 x => cases ha
  | word32 x => exact ⟨x, rest, rfl, hr⟩

theorem Points.cons {a : Argument} {args : List Argument} {messages : List (List UInt8)}
    (h : Points (a :: args) messages) :
    ∃ m rest, messages = m :: rest ∧ a.bytes <+: m ∧ Points args rest := by
  cases h with
  | cons hm hr => exact ⟨_, _, rfl, hm, hr⟩

theorem messagesSizes_eq {operation : Operation} {args : List Argument}
    {messages : List (List UInt8)} (hk : args.map Argument.kind = operation.fields)
    (hp : Points args messages) :
    messagesSizes operation messages = some (args.map (fun a => a.bytes.length)) := by
  cases operation with
  | clientKvSetEager =>
    obtain ⟨key, args, rfl, h1⟩ := kinds_string hk
    obtain ⟨x, args, rfl, h2⟩ := kinds_word64 h1
    obtain ⟨value, args, rfl, h3⟩ := kinds_string h2
    obtain rfl := kinds_nil h3
    obtain ⟨m, messages, rfl, hm, hp⟩ := hp.cons
    obtain ⟨m₁, messages, rfl, -, hp⟩ := hp.cons
    obtain ⟨m₂, messages, rfl, hm₂, -⟩ := hp.cons
    simp [messagesSizes, strlen_of_prefix hm, strlen_of_prefix hm₂, Argument.bytes]
  | clientKvSetRendezvous =>
    obtain ⟨key, args, rfl, h1⟩ := kinds_string hk
    obtain ⟨x, args, rfl, h2⟩ := kinds_word64 h1
    obtain rfl := kinds_nil h2
    obtain ⟨m, messages, rfl, hm, hp⟩ := hp.cons
    simp [messagesSizes, strlen_of_prefix hm, Argument.bytes]
  | serverKvSetRendezvous =>
    obtain ⟨va, args, rfl, h1⟩ := kinds_word64 hk
    obtain ⟨rkey, args, rfl, h2⟩ := kinds_word32 h1
    obtain rfl := kinds_nil h2
    simp [messagesSizes, Argument.bytes]
  | serverKvGetRendezvous =>
    obtain ⟨size, args, rfl, h1⟩ := kinds_word64 hk
    obtain ⟨va, args, rfl, h2⟩ := kinds_word64 h1
    obtain ⟨rkey, args, rfl, h3⟩ := kinds_word32 h2
    obtain rfl := kinds_nil h3
    simp [messagesSizes, Argument.bytes]
  | clientKvGet | serverKvGetEager | clientKvGetRendezvousFin | clientKvSetRendezvousFin =>
    obtain ⟨s, args, rfl, h1⟩ := kinds_string hk
    obtain rfl := kinds_nil h1
    obtain ⟨m, messages, rfl, hm, hp⟩ := hp.cons
    simp [messagesSizes, strlen_of_prefix hm, Argument.bytes]
  | shutDownServer | serverKvGetKeyNotFound | serverInProgress | serverKvSetSuccessful
  | serverKvGetSuccessful =>
    obtain rfl := kinds_nil hk
    rfl

@[simp] theorem encode_nil : encode [] = [] := rfl

@[simp] theorem encode_cons (a : Argument) (args : List Argument) :
    encode (a :: args) = a.bytes ++ encode args := rfl

theorem memcpy_append {a : Argument} {m : List UInt8} (h : a.bytes <+: m) (pre rest : List UInt8)
    (hl : a.bytes.length ≤ rest.length) :
    memcpy (pre ++ rest) pre.length m a.bytes.length =
      some (pre ++ a.bytes ++ rest.drop a.bytes.length) := by
  have hc : a.bytes.length ≤ m.length ∧ pre.length + a.bytes.length ≤ (pre ++ rest).length := by
    rw [List.length_append]
    exact ⟨h.length_le, by omega⟩
  have ht : m.take a.bytes.length = a.bytes := (List.prefix_iff_eq_take.mp h).symm
  rw [memcpy, if_pos hc, ht, List.take_left, List.drop_length_add_append]

/-- The copying loop lays the arguments out one after the other and touches nothing else. -/
theorem copyMessages_eq {args : List Argument} {messages : List (List UInt8)}
    (hp : Points args messages) (pre rest : List UInt8) (hl : (encode args).length ≤ rest.length) :
    copyMessages (pre ++ rest) pre.length
        (messages.zip (args.map (fun a => a.bytes.length))) =
      some (pre ++ encode args ++ rest.drop (encode args).length) := by
  induction hp generalizing pre rest with
  | nil => simp [copyMessages]
  | @cons a m args messages hm _ ih =>
    rw [encode_cons, List.length_append] at hl
    have hn := ih (pre ++ a.bytes) (rest.drop a.bytes.length) (by rw [List.length_drop]; omega)
    rw [List.length_append] at hn
    rw [List.map_cons, List.zip_cons_cons, copyMessages, memcpy_append hm pre rest (by omega)]
    simpa [Nat.add_comm] using hn

theorem copyMessages_none {args : List Argument} {messages : List (List UInt8)}
    (hp : Points args messages) (mem : List UInt8) (off : Nat)
    (hl : mem.length < off + (encode args).length) :
    off ≤ mem.length →
    copyMessages mem off (messages.zip (args.map (fun a => a.bytes.length))) = none := by
  intro ho
  induction hp generalizing mem off with
  | nil => simp at hl; omega
  | @cons a m args messages hm _ ih =>
    rw [encode_cons, List.length_append] at hl
    rw [List.map_cons, List.zip_cons_cons, copyMessages]
    by_cases hf : off + a.bytes.length ≤ mem.length
    · obtain ⟨pre, rest, rfl, rfl⟩ : ∃ pre rest, pre ++ rest = mem ∧ pre.length = off :=
        ⟨mem.take off, mem.drop off, List.take_append_drop off mem, by simp [ho]⟩
      rw [List.length_append] at hl hf
      rw [memcpy_append hm pre rest (by omega)]
      exact ih _ _ (by simp; omega) (by simp)
    · have hc : ¬ (a.bytes.length ≤ m.length ∧ off + a.bytes.length ≤ mem.length) := fun h => hf h.2
      simp [memcpy, hc]

theorem setBuffer_eq {operation : Operation} {args : List Argument} {messages : List (List UInt8)}
    (hk : args.map Argument.kind = operation.fields) (hp : Points args messages)
    {mem : List UInt8} (hl : (encode args).length ≤ mem.length) :
    setBuffer operation messages mem = some (encode args ++ mem.drop (encode args).length) := by
  have h := copyMessages_eq hp [] mem hl
  simpa [setBuffer, messagesSizes_eq hk hp] using h

theorem setBuffer_none {operation : Operation} {args : List Argument}
    {messages : List (List UInt8)} (hk : args.map Argument.kind = operation.fields)
    (hp : Points args messages) {mem : List UInt8} (hl : mem.length < (encode args).length) :
    setBuffer operation messages mem = none := by
  have h := copyMessages_none hp mem 0 (by omega) (Nat.zero_le _)
  simpa [setBuffer, messagesSizes_eq hk hp] using h

def offsets (off : Nat) : List Argument → List Nat
  | [] => []
  | a :: args => off :: offsets (off + a.bytes.length) args

theorem offsets_readAt (args : List Argument) (pre rest : List UInt8) :
    List.Forall₂ (fun a p => a.ReadAt (pre ++ (encode args ++ rest)) p) args
      (offsets pre.length args) := by
  induction args generalizing pre with
  | nil => exact .nil
  | cons a args ih =>
    rw [encode_cons, List.append_assoc]
    refine .cons (a.readAt_bytes pre _) ?_
    have h := ih (pre ++ a.bytes)
    rwa [List.length_append, List.append_assoc] at h

def Kind.decodeSize : Kind → Nat
  | .string => 0
  | .word64 => 8
  | .word32 => 4

theorem decodeSizes_eq (operation : Operation) :
    decodeSizes operation = operation.fields.map Kind.decodeSize := by
  cases operation <;> rfl

theorem decodeLoop_eq (args : List Argument) (pre rest : List UInt8) :
    decodeLoop (pre ++ (encode args ++ rest)) pre.length
        ((args.map Argument.kind).map Kind.decodeSize) = some (offsets pre.length args) := by
  induction args generalizing pre with
  | nil => rfl
  | cons a args ih =>
    have h := ih (pre ++ a.bytes)
    rw [List.length_append, List.append_assoc] at h
    rw [encode_cons, List.append_assoc]
    cases a with
    | string s =>
      have hs : strlen ((pre ++ (s.bytes ++ (encode args ++ rest))).drop pre.length) =
          some s.strlen := by simp
      simp only [Argument.bytes, CString.bytes_length] at h
      simp only [List.map_cons, Argument.kind, Kind.decodeSize, Argument.bytes, decodeLoop, ↓reduceIte,
        hs, Option.map_some, Option.bind_eq_bind, Option.bind_some, h, offsets, CString.bytes_length]
    | word64 x | word32 x =>
      simp only [Argument.bytes, u64Bytes_length, u32Bytes_length] at h
      simp only [List.map_cons, Argument.kind, Kind.decodeSize, Argument.bytes, decodeLoop,
        OfNat.ofNat_ne_zero, ↓reduceIte, Option.bind_eq_bind, Option.bind_some, h, offsets,
        u64Bytes_length, u32Bytes_length]

/-- The decoder finds the fields the encoder laid out, also through its shortcut
for a lone field. -/
theorem decode_encode {operation : Operation} {args : List Argument}
    (hk : args.map Argument.kind = operation.fields) (rest : List UInt8) :
    decodeControlMessageBuffer operation (encode args ++ rest) = some (offsets 0 args) := by
  have hs : decodeSizes operation = (args.map Argument.kind).map Kind.decodeSize := by
    rw [hk, decodeSizes_eq]
  by_cases h1 : (decodeSizes operation).length = 1
  · have hl : args.length = 1 := by simpa [hs] using h1
    obtain ⟨a, rfl⟩ := List.length_eq_one_iff.mp hl
    simp [decodeControlMessageBuffer, h1, offsets]
  · have h := decodeLoop_eq args [] rest
    rw [decodeControlMessageBuffer, if_neg h1, hs]
    exact h

theorem decodeLoop_string {buf : List UInt8} {off : Nat} {sizes ptrs : List Nat}
    (h : decodeLoop buf off (0 :: sizes) = some ptrs) :
    ∃ s rest, stringAt buf off = some s ∧ ptrs = off :: rest ∧
      decodeLoop buf (off + (s.length + 1)) sizes = some rest := by
  obtain ⟨width, hw, hb⟩ := Option.bind_eq_some_iff.mp h
  obtain ⟨rest, hr, hp⟩ := Option.bind_eq_some_iff.mp hb
  obtain ⟨l, hl, rfl⟩ := Option.map_eq_some_iff.mp hw
  obtain ⟨s, hs, rfl⟩ := Option.map_eq_some_iff.mp hl
  exact ⟨s, rest, hs, (Option.some.inj hp).symm, hr⟩

theorem decodeLoop_fixed {buf : List UInt8} {off size : Nat} {sizes ptrs : List Nat}
    (h : decodeLoop buf off ((size + 1) :: sizes) = some ptrs) :
    ∃ rest, ptrs = off :: rest ∧ decodeLoop buf (off + (size + 1)) sizes = some rest := by
  obtain ⟨rest, hr, hp⟩ := Option.bind_eq_some_iff.mp h
  exact ⟨rest, (Option.some.inj hp).symm, hr⟩

theorem memcpy_length {dst src mem : List UInt8} {off size : Nat}
    (h : memcpy dst off src size = some mem) : mem.length = dst.length := by
  by_cases hc : size ≤ src.length ∧ off + size ≤ dst.length
  · rw [memcpy, if_pos hc] at h
    obtain rfl := Option.some.inj h
    simp only [List.length_append, List.length_take, List.length_drop]
    omega
  · rw [memcpy, if_neg hc] at h
    cases h

theorem copyMessages_length {mem mem' : List UInt8} {off : Nat} {ms : List (List UInt8 × Nat)}
    (h : copyMessages mem off ms = some mem') : mem'.length = mem.length := by
  induction ms generalizing mem off with
  | nil => exact congrArg List.length (Option.some.inj h).symm
  | cons m ms ih =>
    obtain ⟨mid, hm, hr⟩ := Option.bind_eq_some_iff.mp h
    exact (ih hr).trans (memcpy_length hm)

theorem setBuffer_length {operation : Operation} {messages : List (List UInt8)}
    {mem mem' : List UInt8} (h : setBuffer operation messages mem = some mem') :
    mem'.length = mem.length := by
  obtain ⟨sizes, -, hc⟩ := Option.bind_eq_some_iff.mp h
  exact copyMessages_length hc

structure ControlMessage where
  operation : Operation
  buf : List UInt8
  length_buf : buf.length = controlMessageBufferSize
  deriving DecidableEq

def zeroed (operation : Operation) (bytes : List UInt8)
    (h : bytes.length ≤ controlMessageBufferSize) : ControlMessage where
  operation := operation
  buf := bytes ++ List.replicate (controlMessageBufferSize - bytes.length) 0
  length_buf := by rw [List.length_append, List.length_replicate, Nat.add_sub_cancel' h]

def blank : ControlMessage := zeroed .shutDownServer [] (Nat.zero_le _)

/-- `set_control_message` on the message object that the send region holds. A copy
that would leave `buf` is undefined. -/
def setControlMessage (operation : Operation) (messages : List (List UInt8))
    (my : ControlMessage) : Option ControlMessage :=
  (setBuffer operation messages my.buf).pmap
    (fun buf h => ⟨operation, buf, h⟩) (fun _ h => (setBuffer_length h).trans my.length_buf)

/-- The message carries the arguments; behind them the buffer holds stale bytes. -/
def Carries (m : ControlMessage) (operation : Operation) (args : List Argument) : Prop :=
  m.operation = operation ∧ ∃ stale, m.buf = encode args ++ stale

theorem setControlMessage_eq {operation : Operation} {args : List Argument}
    {messages : List (List UInt8)} (hk : args.map Argument.kind = operation.fields)
    (hp : Points args messages) (my : ControlMessage)
    (hl : (encode args).length ≤ controlMessageBufferSize) :
    ∃ m, setControlMessage operation messages my = some m ∧ m.operation = operation ∧
      m.buf = encode args ++ my.buf.drop (encode args).length := by
  rw [← my.length_buf] at hl
  have hs := setBuffer_eq hk hp hl
  exact ⟨⟨operation, _, (setBuffer_length hs).trans my.length_buf⟩,
    by simp [setControlMessage, hs], rfl, rfl⟩

theorem setControlMessage_carries {operation : Operation} {args : List Argument}
    {messages : List (List UInt8)} (hk : args.map Argument.kind = operation.fields)
    (hp : Points args messages) (my : ControlMessage)
    (hl : (encode args).length ≤ controlMessageBufferSize) :
    ∃ m, setControlMessage operation messages my = some m ∧ Carries m operation args := by
  obtain ⟨m, hm, ho, hb⟩ := setControlMessage_eq hk hp my hl
  exact ⟨m, hm, ho, _, hb⟩

theorem setControlMessage_none {operation : Operation} {args : List Argument}
    {messages : List (List UInt8)} (hk : args.map Argument.kind = operation.fields)
    (hp : Points args messages) (my : ControlMessage)
    (hl : controlMessageBufferSize < (encode args).length) :
    setControlMessage operation messages my = none := by
  rw [← my.length_buf] at hl
  simp [setControlMessage, setBuffer_none hk hp hl]

theorem carries_of_set {operation : Operation} {args : List Argument}
    {messages : List (List UInt8)} {my m : ControlMessage}
    (hk : args.map Argument.kind = operation.fields) (hp : Points args messages)
    (h : setControlMessage operation messages my = some m) : Carries m operation args := by
  by_cases hl : (encode args).length ≤ controlMessageBufferSize
  · obtain ⟨m', hm, hc⟩ := setControlMessage_carries hk hp my hl
    rw [h] at hm
    cases hm
    exact hc
  · rw [setControlMessage_none hk hp my (Nat.lt_of_not_le hl)] at h
    cases h

theorem Carries.readAt {m : ControlMessage} {operation : Operation} {a : Argument}
    {args : List Argument} (h : Carries m operation (a :: args)) : a.ReadAt m.buf 0 := by
  obtain ⟨-, stale, hb⟩ := h
  rw [hb, encode_cons, List.append_assoc]
  exact a.readAt_bytes [] _

theorem Carries.decode {m : ControlMessage} {operation : Operation} {args : List Argument}
    (h : Carries m operation args) (hk : args.map Argument.kind = operation.fields) :
    decodeControlMessageBuffer operation m.buf = some (offsets 0 args) := by
  obtain ⟨-, stale, hb⟩ := h
  rw [hb, decode_encode hk]

end NetworkOptimization.ControlMessages
