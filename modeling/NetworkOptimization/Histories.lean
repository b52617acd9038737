import NetworkOptimization.Network

namespace NetworkOptimization.Histories

open Words ControlMessages DynamicArray Handlers Network

variable {n : Nat}

def author (c : Fin n) : List (Event n) → Option Nat
  | [] => none
  | .asked d j _ :: H => if d = c then some j else author c H
  | .answered _ _ _ :: H => author c H
  | .took _ _ _ :: H => author c H
  | .returned _ _ _ _ :: H => author c H

def lastAnswer (c : Fin n) : List (Event n) → Option (Option Nat × ControlMessage × ControlMessage)
  | [] => none
  | .answered d request reply :: H =>
    if d = c then some (author c H, request, reply) else lastAnswer c H
  | .asked _ _ _ :: H => lastAnswer c H
  | .took _ _ _ :: H => lastAnswer c H
  | .returned _ _ _ _ :: H => lastAnswer c H

def Refused (c : Fin n) (H : List (Event n)) : Prop :=
  ∃ j request reply, lastAnswer c H = some (j, request, reply) ∧ reply.operation = .serverInProgress

def Announces (reply : ControlMessage) (mr : Mr) : Prop :=
  Carries reply .serverKvSetRendezvous (regionArguments mr) ∨
    ∃ size, Carries reply .serverKvGetRendezvous (.word64 size :: regionArguments mr)

/-- In its call `j` the client was granted a region for the key, and the server has
answered no FIN of it since. -/
def Granted (H : List (Event n)) (c : Fin n) (j : Nat) (key : List UInt8) (mr : Mr) : Prop :=
  ∃ request reply, lastAnswer c H = some (some j, request, reply) ∧
    stringAt request.buf 0 = some key ∧ Announces reply mr

def sets (key : List UInt8) : Client.Call → Option CString
  | .kvSet k value => if k.chars = key then some value else none
  | .kvGet _ | .shutDownServer => none

section Programs

variable (programs : Fin n → List Request)

def setBy (c : Fin n) (key : List UInt8) (H : List (Event n)) : Option CString :=
  ((author c H).bind (callAt programs c)).bind (sets key)

/-- The value of the last `kv_set` on the key that the server reported successful. -/
def committed (key : List UInt8) : List (Event n) → Option CString
  | [] => none
  | .answered c _ reply :: H =>
    if reply.operation = .serverKvSetSuccessful then (setBy programs c key H).or (committed key H)
    else committed key H
  | .asked _ _ _ :: H => committed key H
  | .took _ _ _ :: H => committed key H
  | .returned _ _ _ _ :: H => committed key H

/-- The server accepted a `kv_set` on the key, at once or with a region for its value. -/
def Accepted (key : List UInt8) : List (Event n) → Prop
  | [] => False
  | .answered c _ reply :: H =>
    ((reply.operation = .serverKvSetSuccessful ∨ reply.operation = .serverKvSetRendezvous) ∧
      setBy programs c key H ≠ none) ∨ Accepted key H
  | .asked _ _ _ :: H => Accepted key H
  | .took _ _ _ :: H => Accepted key H
  | .returned _ _ _ _ :: H => Accepted key H

/-- In its call `j` the client asked for the key, and when the server handled that
request the last committed value was `value`. -/
def Promised (H : List (Event n)) (c : Fin n) (j : Nat) (key : List UInt8) (value : CString) : Prop :=
  ∃ later request reply earlier, H = later ++ .answered c request reply :: earlier ∧
    request.operation = .clientKvGet ∧ author c earlier = some j ∧
    committed programs key earlier = some value

end Programs

inductive Talk where
  | quiet
  | waiting (call : Nat) (request : ControlMessage)
  | told (call : Nat) (request reply : ControlMessage)
  | left
  deriving DecidableEq

/-- The rules of the conversation, `none` where they are broken: the client asks when
nothing is open, the server answers what was asked last, the client takes this very
answer in the same call, calls return when nothing is open, and after its request to
shut down the client asks nothing any more. -/
def talk (c : Fin n) : List (Event n) → Option Talk
  | [] => some .quiet
  | .asked d j request :: H =>
    if d = c then
      match talk c H with
      | some .quiet =>
        if request.operation = .shutDownServer then some .left else some (.waiting j request)
      | _ => none
    else talk c H
  | .answered d request reply :: H =>
    if d = c then
      match talk c H with
      | some (.waiting j asked) => if request = asked then some (.told j asked reply) else none
      | _ => none
    else talk c H
  | .took d j reply :: H =>
    if d = c then
      match talk c H with
      | some (.told j' _ told) => if j = j' ∧ reply = told then some .quiet else none
      | _ => none
    else talk c H
  | .returned d _ _ _ :: H =>
    if d = c then
      match talk c H with
      | some .quiet => some .quiet
      | some .left => some .left
      | _ => none
    else talk c H

def Event.client : Event n → Fin n
  | .asked c _ _ | .answered c _ _ | .took c _ _ | .returned c _ _ _ => c

variable {c : Fin n} {e : Event n} {H : List (Event n)}

theorem author_other (h : Event.client e ≠ c) : author c (e :: H) = author c H := by
  cases e with
  | asked d j q => exact if_neg h
  | answered d q r => rfl
  | took d j r => rfl
  | returned d j r v => rfl

theorem lastAnswer_other (h : Event.client e ≠ c) : lastAnswer c (e :: H) = lastAnswer c H := by
  cases e with
  | asked d j q => rfl
  | answered d q r => exact if_neg h
  | took d j r => rfl
  | returned d j r v => rfl

theorem talk_other (h : Event.client e ≠ c) : talk c (e :: H) = talk c H := by
  cases e <;> exact if_neg h

theorem Promised.later {programs : Fin n → List Request} {j : Nat} {key : List UInt8}
    {value : CString} (h : Promised programs H c j key value) (e : Event n) :
    Promised programs (e :: H) c j key value := by
  obtain ⟨later, request, reply, earlier, rfl, hrest⟩ := h
  exact ⟨e :: later, request, reply, earlier, rfl, hrest⟩

end NetworkOptimization.Histories
