import NetworkOptimization.Memory

namespace NetworkOptimization.DynamicArray

open Words Memory

inductive Access where
  | remoteWrite
  | remoteRead
  deriving DecidableEq

/-- A memory region the server registered for its clients. -/
structure Mr where
  addr : UInt64
  length : UInt64
  rkey : UInt32
  access : Access
  deriving DecidableEq

structure MrInfo where
  mr : Mr
  mrStartPtr : UInt64
  mrSize : UInt64
  deriving DecidableEq

structure KeyValueAddressPair where
  keyAddress : UInt64
  valueAddress : UInt64
  valueSize : UInt64
  mrRdma : Option MrInfo
  deriving DecidableEq

/-- `head` lists the allocated slots; a slot nobody wrote yet is `none`. -/
structure KeyValueAddressArray where
  head : List (Option KeyValueAddressPair)
  usedLength : Nat
  totalLength : Nat
  deriving DecidableEq

def initializeKeyValueAddressArray (initialSize : Nat) : KeyValueAddressArray where
  head := List.replicate initialSize none
  usedLength := 0
  totalLength := initialSize

/-- The loop over the used slots that `insert_to_array` and `get_KeyValueAddressPair`
share: the first index whose key compares equal. A read of a slot that does not
exist or was never written is undefined, as is a comparison that fails. -/
def scan (equal : UInt64 → Option Bool) (head : List (Option KeyValueAddressPair)) :
    Nat → Nat → Option (Option Nat)
  | 0, _ => some none
  | n + 1, i => do
    let slot ← head[i]?
    let pair ← slot
    if ← equal pair.keyAddress then some (some i) else scan equal head n (i + 1)

/-- The index stands for the pointer into `head`; `none` inside is the null result. -/
def getKeyValueAddressPair (h : Heap) (array : KeyValueAddressArray) (key : List UInt8) :
    Option (Option Nat) :=
  scan (fun a => (cstr h a).map (· == key)) array.head array.usedLength 0

def KeyValueAddressArray.set (array : KeyValueAddressArray) (i : Nat)
    (pair : KeyValueAddressPair) : KeyValueAddressArray :=
  { array with head := array.head.set i (some pair) }

/-- Double the array when it is full. `realloc` keeps the old slots. -/
def KeyValueAddressArray.grow (array : KeyValueAddressArray) : KeyValueAddressArray :=
  if array.usedLength = array.totalLength then
    let total := array.totalLength * 2
    { array with
      totalLength := total
      head := array.head.take total ++ List.replicate (total - array.head.length) none }
  else array

def insertToArray (kvMalloc : Nat) (h : Heap) (array : KeyValueAddressArray)
    (myEntry : KeyValueAddressPair) : Option (Heap × KeyValueAddressArray) := do
  let found ← scan (fun a => strcmp h a myEntry.keyAddress) array.head array.usedLength 0
  match found with
  | some i =>
    let old ← (← array.head[i]?)
    if old.keyAddress ≠ myEntry.keyAddress then
      let h ← if kvMalloc = 1 then do
          let h ← free h myEntry.keyAddress
          free h old.valueAddress
        else some h
      some (h, array.set i { myEntry with keyAddress := old.keyAddress })
    else some (h, array.set i myEntry)
  | none =>
    let array := array.grow
    if array.usedLength < array.head.length then
      some (h, { array.set array.usedLength myEntry with usedLength := array.usedLength + 1 })
    else none

def freePairs (h : Heap) (head : List (Option KeyValueAddressPair)) : Nat → Nat → Option Heap
  | 0, _ => some h
  | n + 1, i => do
    let pair ← (← head[i]?)
    let h ← free h pair.keyAddress
    let h ← free h pair.valueAddress
    freePairs h head n (i + 1)

/-- `free_array`, as far as the key and value blocks go. -/
def freeArray (kvMalloc : Nat) (h : Heap) (array : KeyValueAddressArray) : Option Heap :=
  if kvMalloc = 1 then freePairs h array.head array.usedLength 0 else some h

def KeyValueAddressArray.entries (array : KeyValueAddressArray) : List KeyValueAddressPair :=
  (array.head.take array.usedLength).filterMap id

/-- The array holds exactly these entries, in this order, inside its allocation. -/
def Holds (array : KeyValueAddressArray) (es : List KeyValueAddressPair) : Prop :=
  ∃ spare, array.head = es.map some ++ spare ∧ array.usedLength = es.length ∧
    array.totalLength = array.head.length ∧ 0 < array.totalLength

/-- Insertion on the list of entries; the entry that is there keeps its key block. -/
def upsert (same : KeyValueAddressPair → Bool) :
    List KeyValueAddressPair → KeyValueAddressPair → List KeyValueAddressPair
  | [], e => [e]
  | x :: xs, e => if same x then { e with keyAddress := x.keyAddress } :: xs else x :: upsert same xs e

theorem holds_initialize (n : Nat) (hn : 0 < n) : Holds (initializeKeyValueAddressArray n) [] :=
  ⟨List.replicate n none, by simp [initializeKeyValueAddressArray],
    by simp [initializeKeyValueAddressArray], by simp [initializeKeyValueAddressArray], hn⟩

theorem Holds.entries {array : KeyValueAddressArray} {es : List KeyValueAddressPair}
    (ha : Holds array es) : array.entries = es := by
  obtain ⟨spare, hh, hu, -, -⟩ := ha
  have ht : array.head.take array.usedLength = es.map some := by
    rw [hh, hu, List.take_left' (List.length_map some)]
  simp [KeyValueAddressArray.entries, ht, List.filterMap_map]

theorem scan_eq (equal : UInt64 → Option Bool) (p : KeyValueAddressPair → Bool)
    (pre es : List KeyValueAddressPair) (spare : List (Option KeyValueAddressPair))
    (he : ∀ e ∈ es, equal e.keyAddress = some (p e)) :
    scan equal (pre.map some ++ (es.map some ++ spare)) es.length pre.length =
      some ((es.findIdx? p).map (· + pre.length)) := by
  induction es generalizing pre with
  | nil => rfl
  | cons e es ih =>
    have hg : (pre.map some ++ ((e :: es).map some ++ spare))[pre.length]? = some (some e) := by
      simp
    have hn := ih (pre ++ [e]) (fun x hx => he x (by simp [hx]))
    simp only [List.map_append, List.map_cons, List.map_nil, List.append_assoc,
      List.singleton_append, List.length_append, List.length_cons, List.length_nil] at hn
    rw [List.length_cons, scan, hg]
    simp only [Option.bind_eq_bind, Option.bind_some, he e (by simp), List.findIdx?_cons]
    cases hp : p e with
    | true => simp
    | false =>
      simp only [Bool.false_eq_true, ↓reduceIte]
      rw [List.map_cons, List.cons_append, hn, Option.map_map]
      congr 2
      funext i
      simp only [Function.comp_apply]
      omega

theorem getKeyValueAddressPair_eq {h : Heap} {array : KeyValueAddressArray}
    {es : List KeyValueAddressPair} (ha : Holds array es)
    (hk : ∀ e ∈ es, (cstr h e.keyAddress).isSome) (key : List UInt8) :
    getKeyValueAddressPair h array key =
      some (es.findIdx? (fun e => cstr h e.keyAddress == some key)) := by
  obtain ⟨spare, hh, hu, -, -⟩ := ha
  have hs := scan_eq (fun a => (cstr h a).map (· == key))
    (fun e => cstr h e.keyAddress == some key) [] es spare (by
      intro e he
      obtain ⟨s, hs⟩ := Option.isSome_iff_exists.mp (hk e he)
      simp [hs])
  simpa [getKeyValueAddressPair, hh, hu] using hs

theorem Holds.get {array : KeyValueAddressArray} {es : List KeyValueAddressPair}
    (ha : Holds array es) {i : Nat} {e : KeyValueAddressPair} (he : es[i]? = some e) :
    array.head[i]? = some (some e) := by
  obtain ⟨spare, hh, -, -, -⟩ := ha
  have hi : i < es.length := (List.getElem?_eq_some_iff.mp he).1
  rw [hh, List.getElem?_append_left (by simpa using hi), List.getElem?_map, he, Option.map_some]

theorem Holds.set {array : KeyValueAddressArray} {es : List KeyValueAddressPair}
    (ha : Holds array es) {i : Nat} (hi : i < es.length) (e : KeyValueAddressPair) :
    Holds (array.set i e) (es.set i e) := by
  obtain ⟨spare, hh, hu, ht, hp⟩ := ha
  refine ⟨spare, ?_, by simpa [KeyValueAddressArray.set] using hu,
    by simpa [KeyValueAddressArray.set] using ht, hp⟩
  rw [KeyValueAddressArray.set, hh, List.set_append_left _ _ (by simpa using hi), List.map_set]

theorem Holds.grow {array : KeyValueAddressArray} {es : List KeyValueAddressPair}
    (ha : Holds array es) : Holds array.grow es ∧ es.length < array.grow.head.length := by
  obtain ⟨spare, hh, hu, ht, hp⟩ := ha
  have hl : array.head.length = es.length + spare.length := by rw [hh]; simp
  by_cases hf : array.usedLength = array.totalLength
  · have hk : array.head.take (array.totalLength * 2) = array.head :=
      List.take_of_length_le (by omega)
    have hlen : array.grow.head.length = array.totalLength * 2 := by
      rw [KeyValueAddressArray.grow, if_pos hf]
      simp only [hk, List.length_append, List.length_replicate]
      omega
    refine ⟨⟨spare ++ List.replicate (array.totalLength * 2 - array.head.length) none, ?_, ?_, ?_, ?_⟩,
      by omega⟩
    · rw [KeyValueAddressArray.grow, if_pos hf]
      simp only [hk]
      rw [← List.append_assoc, ← hh]
    · rw [KeyValueAddressArray.grow, if_pos hf]
      exact hu
    · rw [hlen, KeyValueAddressArray.grow, if_pos hf]
    · rw [KeyValueAddressArray.grow, if_pos hf]
      simp only
      omega
  · rw [KeyValueAddressArray.grow, if_neg hf]
    exact ⟨⟨spare, hh, hu, ht, hp⟩, by omega⟩

theorem Holds.push {array : KeyValueAddressArray} {es : List KeyValueAddressPair}
    (ha : Holds array es) (hl : es.length < array.head.length) (e : KeyValueAddressPair) :
    Holds { array.set array.usedLength e with usedLength := array.usedLength + 1 } (es ++ [e]) := by
  obtain ⟨spare, hh, hu, ht, hp⟩ := ha
  cases spare with
  | nil => rw [hh] at hl; simp at hl
  | cons x spare =>
    refine ⟨spare, ?_, by simp [hu], by simpa [KeyValueAddressArray.set] using ht, hp⟩
    simp only [KeyValueAddressArray.set, hh, hu]
    rw [List.set_append_right _ _ (by simp)]
    simp

theorem upsert_findIdx (same : KeyValueAddressPair → Bool) (es : List KeyValueAddressPair)
    (e : KeyValueAddressPair) :
    upsert same es e = match es.findIdx? same with
      | some i => (es[i]?.map (fun x => es.set i { e with keyAddress := x.keyAddress })).getD es
      | none => es ++ [e] := by
  induction es with
  | nil => rfl
  | cons x xs ih =>
    cases hs : same x with
    | true => simp [upsert, hs, List.findIdx?_cons]
    | false =>
      rw [upsert, hs, if_neg (by simp), ih, List.findIdx?_cons, hs]
      cases hf : xs.findIdx? same with
      | none => simp
      | some i =>
        have hi : i < xs.length := (List.findIdx?_eq_some_iff_getElem.mp hf).1
        simp [hi]

theorem scan_strcmp {h : Heap} {array : KeyValueAddressArray} {es : List KeyValueAddressPair}
    (ha : Holds array es) {e : KeyValueAddressPair} {key : List UInt8}
    (he : cstr h e.keyAddress = some key) (hk : ∀ x ∈ es, (cstr h x.keyAddress).isSome) :
    scan (fun a => strcmp h a e.keyAddress) array.head array.usedLength 0 =
      some (es.findIdx? (fun x => cstr h x.keyAddress == some key)) := by
  obtain ⟨spare, hh, hu, -, -⟩ := ha
  have hs := scan_eq (fun a => strcmp h a e.keyAddress)
    (fun x => cstr h x.keyAddress == some key) [] es spare (by
      intro x hx
      obtain ⟨s, hs⟩ := Option.isSome_iff_exists.mp (hk x hx)
      simp [strcmp, hs, he])
  simpa [hh, hu] using hs

/-- Without `kv_malloc` an insertion frees nothing; it is `upsert` on the entries. -/
theorem insertToArray_eq {kvMalloc : Nat} (hm : kvMalloc ≠ 1) {h : Heap}
    {array : KeyValueAddressArray} {es : List KeyValueAddressPair} (ha : Holds array es)
    {e : KeyValueAddressPair} {key : List UInt8} (he : cstr h e.keyAddress = some key)
    (hk : ∀ x ∈ es, (cstr h x.keyAddress).isSome) :
    ∃ array', insertToArray kvMalloc h array e = some (h, array') ∧
      Holds array' (upsert (fun x => cstr h x.keyAddress == some key) es e) := by
  have hs := scan_strcmp ha he hk
  rw [upsert_findIdx]
  simp only [insertToArray, hs, Option.bind_eq_bind, Option.bind_some]
  cases hf : es.findIdx? (fun x => cstr h x.keyAddress == some key) with
  | some i =>
    have hi : i < es.length := (List.findIdx?_eq_some_iff_getElem.mp hf).1
    have hx : es[i]? = some es[i] := List.getElem?_eq_getElem hi
    simp only [ha.get hx, Option.bind_some, hm, ↓reduceIte, hx, Option.map_some, Option.getD_some]
    by_cases hne : es[i].keyAddress = e.keyAddress
    · have hsame : { e with keyAddress := es[i].keyAddress } = e := by rw [hne]
      refine ⟨array.set i e, by simp [hne], ?_⟩
      rw [hsame]
      exact ha.set hi e
    · exact ⟨_, by simp [hne], ha.set hi _⟩
  | none =>
    obtain ⟨hg, hlt⟩ := ha.grow
    have hgu : array.grow.usedLength = es.length := hg.choose_spec.2.1
    refine ⟨_, by rw [if_pos (hgu ▸ hlt)], hg.push hlt e⟩

end NetworkOptimization.DynamicArray
