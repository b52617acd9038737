import NetworkOptimization.ControlMessages
import NetworkOptimization.Formats

namespace NetworkOptimization.Exchange

open Words ControlMessages Formats

structure Gid where
  raw : List UInt8
  length_raw : raw.length = 16
  deriving DecidableEq

namespace Gid

@[ext] theorem ext {g h : Gid} (hr : g.raw = h.raw) : g = h := by
  cases g
  cases h
  cases hr
  rfl

/-- `*(uint32_t *)(raw + i * 4)`. -/
def word (g : Gid) (i : Nat) : UInt32 := u32OfBytes ((g.raw.drop (i * 4)).take 4)

def setWord (g : Gid) (i : Nat) (v : UInt32) : Option Gid :=
  (memcpy g.raw (i * 4) (u32Bytes v) 4).pmap Gid.mk (fun _ h => (memcpy_length h).trans g.length_raw)

end Gid

/-- The four characters groups of a gid on the wire, from the `i`-th on; each `sprintf` also
writes its NUL. -/
def printWords (gid : Gid) : Nat → Nat → List UInt8 → Option (List UInt8)
  | 0, _, wgid => some wgid
  | n + 1, i, wgid => do
    let text ← sprintf [.hex 8] [.word (htonl (gid.word i))]
    let wgid' ← memcpy wgid (i * 8) (text ++ [0]) (text.length + 1)
    printWords gid n (i + 1) wgid'

def gidToWireGid (gid : Gid) (wgid : List UInt8) : Option (List UInt8) := printWords gid 4 0 wgid

/-- `v32` is uninitialised until the first scan stores it. -/
def scanWords (wgid : List UInt8) : Nat → Nat → Option UInt32 → Gid → Option Gid
  | 0, _, _, gid => some gid
  | n + 1, i, v32, gid => do
    let tmp ← memcpy (List.replicate 9 0) 0 (wgid.drop (i * 8)) 8
    let text ← cstring tmp
    let scanned := match sscanf [.hex 0] text with
      | .word x :: _ => some x
      | _ => v32
    let v ← scanned
    let gid' ← gid.setWord i (ntohl v)
    scanWords wgid n (i + 1) (some v) gid'

def wireGidToGid (wgid : List UInt8) (gid : Gid) : Option Gid := scanWords wgid 4 0 none gid

/-- The text of a destination with its NUL in `msg`, formatted over the array `wgid`. -/
def printDest (format : List Directive) (fields : List UInt8 → List Field) (gid : Gid)
    (msg wgid : List UInt8) : Option (List UInt8) := do
  let wgid' ← gidToWireGid gid wgid
  let word ← cstring wgid'
  let text ← sprintf format (fields word)
  memcpy msg 0 (text ++ [0]) (text.length + 1)

/-- The fields of a received text and the gid behind the `k` of them that come first. -/
def scanDest (format : List Directive) (k : Nat) (msg wgid : List UInt8) (gid : Gid) :
    Option (List Field × Gid) := do
  let text ← cstring msg
  let fields := sscanf format text
  let wgid' ← match fields[k]? with
    | some (.text s) => memcpy wgid 0 (s ++ [0]) (s.length + 1)
    | _ => some wgid
  let gid' ← wireGidToGid wgid' gid
  some (fields, gid')

/-- The `int` or `uint32_t` behind a `%x`, which keeps its value where nothing was stored. -/
def storeWord (fields : List Field) (k : Nat) (old : UInt32) : UInt32 :=
  match fields[k]? with
  | some (.word x) => x
  | _ => old

def storeLong (fields : List Field) (k : Nat) (old : UInt64) : UInt64 :=
  match fields[k]? with
  | some (.long x) => x
  | _ => old

def gidLength : Nat := 33

namespace LowLatency

/-- The `int` fields are printed and scanned as unsigned words. -/
structure PingpongDest where
  lid : UInt32
  qpn : UInt32
  psn : UInt32
  gid : Gid
  deriving DecidableEq

def msgSize : Nat := "0000:000000:000000:00000000000000000000000000000000".utf8ByteSize + 1

theorem msgSize_eq : msgSize = 52 := by decide

def sendFormat : List Directive := [.hex 4, .char 58, .hex 6, .char 58, .hex 6, .char 58, .text]

def receiveFormat : List Directive := [.hex 0, .char 58, .hex 0, .char 58, .hex 0, .char 58, .text]

def PingpongDest.fields (my : PingpongDest) (gid : List UInt8) : List Field :=
  [.word my.lid, .word my.qpn, .word my.psn, .text gid]

def PingpongDest.print (my : PingpongDest) (msg gid : List UInt8) : Option (List UInt8) :=
  printDest sendFormat my.fields my.gid msg gid

def PingpongDest.scan (rem : PingpongDest) (msg gid : List UInt8) : Option PingpongDest :=
  (scanDest receiveFormat 3 msg gid rem.gid).map (fun p =>
    ⟨storeWord p.1 0 rem.lid, storeWord p.1 1 rem.qpn, storeWord p.1 2 rem.psn, p.2⟩)

end LowLatency

namespace Optimization

structure PingpongDest where
  lid : UInt32
  qpn : UInt32
  psn : UInt32
  gid : Gid
  bufVa : UInt64
  bufRkey : UInt32
  deriving DecidableEq

def msgSize : Nat :=
  "0000:000000:000000:0000000000000000:00000000:00000000000000000000000000000000".utf8ByteSize + 1

theorem msgSize_eq : msgSize = 78 := by decide

def sendFormat : List Directive :=
  [.hex 4, .char 58, .hex 6, .char 58, .hex 6, .char 58, .longHex 16, .char 58, .hex 8, .char 58, .text]

def receiveFormat : List Directive :=
  [.hex 0, .char 58, .hex 0, .char 58, .hex 0, .char 58, .longHex 0, .char 58, .hex 0, .char 58, .text]

def PingpongDest.fields (my : PingpongDest) (gid : List UInt8) : List Field :=
  [.word my.lid, .word my.qpn, .word my.psn, .long my.bufVa, .word my.bufRkey, .text gid]

def PingpongDest.print (my : PingpongDest) (msg gid : List UInt8) : Option (List UInt8) :=
  printDest sendFormat my.fields my.gid msg gid

def PingpongDest.scan (rem : PingpongDest) (msg gid : List UInt8) : Option PingpongDest :=
  (scanDest receiveFormat 5 msg gid rem.gid).map (fun p =>
    ⟨storeWord p.1 0 rem.lid, storeWord p.1 1 rem.qpn, storeWord p.1 2 rem.psn, p.2,
      storeLong p.1 3 rem.bufVa, storeWord p.1 4 rem.bufRkey⟩)

/-- What `main` puts in for the region that the peer writes to. -/
def PingpongDest.withRegion (my : PingpongDest) (start : UInt64) (rkey : UInt32) : PingpongDest :=
  { my with bufVa := bswap64 start, bufRkey := htonl rkey }

structure WriteRequest where
  addr : UInt64
  length : UInt32
  lkey : UInt32
  isInline : Bool
  rkey : UInt32
  remoteAddr : UInt64

/-- `pp_post_rdma_write` of `messageSize` bytes, which is compared with `max_inline` as an
unsigned word. -/
def ppPostRdmaWrite (start : UInt64) (lkey maxInline messageSize : UInt32) (rem : PingpongDest) :
    WriteRequest where
  addr := start
  length := messageSize
  lkey := lkey
  isInline := messageSize ≤ maxInline
  rkey := ntohl rem.bufRkey
  remoteAddr := bswap64 rem.bufVa

end Optimization

theorem memcpy_over (pre src rest : List UInt8) (h : src.length ≤ rest.length) :
    memcpy (pre ++ rest) pre.length src src.length = some (pre ++ src ++ rest.drop src.length) := by
  have hc : src.length ≤ src.length ∧ pre.length + src.length ≤ (pre ++ rest).length := by
    rw [List.length_append]
    omega
  rw [memcpy, if_pos hc, List.take_left, List.take_length, List.drop_length_add_append]

def wireChars (gid : Gid) (n i : Nat) : List UInt8 :=
  (List.range' i n).flatMap (fun j => printHex 8 (htonl (gid.word j)).toNat)

theorem wireChars_succ (gid : Gid) (n i : Nat) :
    wireChars gid (n + 1) i = printHex 8 (htonl (gid.word i)).toNat ++ wireChars gid n (i + 1) := by
  rw [wireChars, List.range'_succ, List.flatMap_cons, wireChars]

theorem wordChars_length (x : UInt32) : (printHex 8 x.toNat).length = 8 :=
  printHex_length (by decide) (x.toNat_lt.trans_eq (by norm_num))

theorem wireChars_length (gid : Gid) (n i : Nat) : (wireChars gid n i).length = n * 8 := by
  induction n generalizing i with
  | zero => rfl
  | succ n ih =>
    rw [wireChars_succ, List.length_append, wordChars_length, ih]
    omega

theorem wireChars_nulFree (gid : Gid) (n i : Nat) : 0 ∉ wireChars gid n i := by
  intro h
  obtain ⟨j, -, hj⟩ := List.mem_flatMap.mp h
  exact printHex_nulFree _ _ hj

theorem wireChars_noSpace {gid : Gid} {n i : Nat} {c : UInt8} (h : c ∈ wireChars gid n i) :
    ¬ IsSpace c := by
  obtain ⟨j, -, hj⟩ := List.mem_flatMap.mp h
  exact printHex_noSpace hj

theorem sprintf_word (x : UInt32) : sprintf [.hex 8] [.word x] = some (printHex 8 x.toNat) := by
  simp [sprintf]

theorem printWords_eq (gid : Gid) {n i : Nat} {pre rest : List UInt8} (hpre : pre.length = i * 8)
    (hrest : n * 8 < rest.length) (hnul : n = 0 → rest.head? = some 0) :
    ∃ stale, printWords gid n i (pre ++ rest) = some (pre ++ (wireChars gid n i ++ 0 :: stale)) := by
  induction n generalizing i pre rest with
  | zero =>
    obtain ⟨stale, rfl⟩ := List.head?_eq_some_iff.mp (hnul rfl)
    exact ⟨stale, rfl⟩
  | succ n ih =>
    have hlen := wordChars_length (htonl (gid.word i))
    have hcopy := memcpy_over pre (printHex 8 (htonl (gid.word i)).toNat ++ [0]) rest (by
      rw [List.length_append, hlen, List.length_singleton]
      omega)
    rw [List.length_append, hlen, List.length_singleton] at hcopy
    obtain ⟨stale, hs⟩ := @ih (i + 1) (pre ++ printHex 8 (htonl (gid.word i)).toNat)
      ([0] ++ rest.drop 9) (by rw [List.length_append, hlen]; omega)
      (by rw [List.length_append, List.length_drop, List.length_singleton]; omega) (fun _ => rfl)
    refine ⟨stale, ?_⟩
    rw [printWords, sprintf_word, Option.bind_eq_bind, Option.bind_some, hlen, ← hpre]
    rw [hcopy, Option.bind_some, wireChars_succ]
    simp only [List.append_assoc] at hs ⊢
    exact hs

theorem gidToWireGid_eq (gid : Gid) {wgid : List UInt8} (hw : wgid.length = gidLength) :
    ∃ stale, gidToWireGid gid wgid = some (wireChars gid 4 0 ++ 0 :: stale) := by
  have h := @printWords_eq gid 4 0 [] wgid rfl (by rw [hw, gidLength]; omega)
    (fun h => absurd h (by decide))
  simp only [List.nil_append] at h
  exact h

theorem setWord_eq (g : Gid) {i : Nat} (hi : i < 4) (v : UInt32) : ∃ g', g.setWord i v = some g' ∧
    g'.raw = g.raw.take (i * 4) ++ u32Bytes v ++ g.raw.drop (i * 4 + 4) := by
  have hc : 4 ≤ (u32Bytes v).length ∧ i * 4 + 4 ≤ g.raw.length := by
    rw [u32Bytes_length, g.length_raw]
    omega
  have hm : memcpy g.raw (i * 4) (u32Bytes v) 4 =
      some (g.raw.take (i * 4) ++ u32Bytes v ++ g.raw.drop (i * 4 + 4)) := by
    rw [memcpy, if_pos hc, List.take_of_length_le (u32Bytes_length v).le]
  refine ⟨⟨_, (memcpy_length hm).trans g.length_raw⟩, ?_, rfl⟩
  rw [Gid.setWord]
  simp only [hm, Option.pmap_some]

theorem take_setWord {gid g g' : Gid} {i : Nat} (hi : i < 4)
    (ht : g.raw.take (i * 4) = gid.raw.take (i * 4))
    (hg : g'.raw = g.raw.take (i * 4) ++ u32Bytes (gid.word i) ++ g.raw.drop (i * 4 + 4)) :
    g'.raw.take ((i + 1) * 4) = gid.raw.take ((i + 1) * 4) := by
  have hword : ((gid.raw.drop (i * 4)).take 4).length = 4 := by
    rw [List.length_take, List.length_drop, gid.length_raw]
    omega
  have hlen : (g.raw.take (i * 4) ++ u32Bytes (gid.word i)).length = (i + 1) * 4 := by
    rw [List.length_append, List.length_take, g.length_raw, u32Bytes_length]
    omega
  rw [hg, ← hlen, List.take_left, hlen, ht, Gid.word, u32Bytes_u32OfBytes _ hword, ← List.take_add,
    ← Nat.succ_mul]

theorem scanWords_eq {gid g : Gid} {wgid : List UInt8} {n i : Nat} {v32 : Option UInt32}
    (hn : i + n = 4) (hg : g.raw.take (i * 4) = gid.raw.take (i * 4))
    (hw : ∃ stale, wgid.drop (i * 8) = wireChars gid n i ++ stale) :
    scanWords wgid n i v32 g = some gid := by
  induction n generalizing i v32 g with
  | zero =>
    obtain rfl : i = 4 := hn
    rw [List.take_of_length_le g.length_raw.le, List.take_of_length_le gid.length_raw.le] at hg
    rw [scanWords, Gid.ext hg]
  | succ n ih =>
    obtain ⟨stale, hs⟩ := hw
    rw [wireChars_succ, List.append_assoc] at hs
    have hlen := wordChars_length (htonl (gid.word i))
    have htmp : memcpy (List.replicate 9 0) 0 (wgid.drop (i * 8)) 8 =
        some (printHex 8 (htonl (gid.word i)).toNat ++ [0]) := by
      rw [hs, memcpy, if_pos (by rw [List.length_append, hlen, List.length_replicate]; omega)]
      rw [List.take_left' hlen, List.take_zero, List.nil_append]
      rfl
    have htext := cstring_append _ [] (printHex_nulFree 8 (htonl (gid.word i)).toNat)
    have hscan := sscanf_sprintf (sprintf_word (htonl (gid.word i))) ⟨trivial, trivial⟩
      (by simp [Field.Scannable])
    obtain ⟨g', hset, hraw⟩ := setWord_eq g (i := i) (by omega) (gid.word i)
    have hrest := @ih g' (i + 1) (some (htonl (gid.word i))) (by omega)
      (take_setWord (by omega) hg hraw) ⟨stale, by
        rw [Nat.succ_mul, ← List.drop_drop, hs, List.drop_left' hlen]⟩
    simp only [scanWords, htmp, htext, Option.bind_eq_bind, Option.bind_some]
    rw [show [Directive.hex 0] = [Directive.hex 8].map Directive.unpadded from rfl, hscan]
    simp only [Option.bind_some, ntohl_htonl, hset]
    exact hrest

theorem wireGidToGid_eq (gid g : Gid) (stale : List UInt8) :
    wireGidToGid (wireChars gid 4 0 ++ stale) g = some gid :=
  scanWords_eq rfl rfl ⟨stale, rfl⟩

section Messages

variable {format : List Directive} {gid : Gid} {text wgid : List UInt8}

theorem memcpy_whole {src dst : List UInt8} (h : src.length = dst.length) :
    memcpy dst 0 src src.length = some src := by
  have hc : src.length ≤ src.length ∧ 0 + src.length ≤ dst.length := by omega
  rw [memcpy, if_pos hc, List.take_length, List.take_zero, List.nil_append, Nat.zero_add, h,
    List.drop_length, List.append_nil]

theorem printDest_eq {fields : List UInt8 → List Field} {msg : List UInt8}
    (hw : wgid.length = gidLength) (ht : sprintf format (fields (wireChars gid 4 0)) = some text)
    (hfit : text.length + 1 = msg.length) : printDest format fields gid msg wgid = some (text ++ [0]) := by
  obtain ⟨stale, hprint⟩ := gidToWireGid_eq gid hw
  have hword := cstring_append _ stale (wireChars_nulFree gid 4 0)
  have hl : (text ++ [0]).length = text.length + 1 := by
    rw [List.length_append, List.length_singleton]
  have hcopy := memcpy_whole (hl.trans hfit)
  rw [hl] at hcopy
  simp only [printDest, hprint, hword, ht, hcopy, Option.bind_eq_bind, Option.bind_some]

/-- `%s` fills the array of the gid, and the words of the text are those of the sender. -/
theorem scanDest_eq {fields : List Field} {k : Nat} (g : Gid) (hw : wgid.length = gidLength)
    (hnul : 0 ∉ text) (hs : sscanf format text = fields)
    (hk : fields[k]? = some (.text (wireChars gid 4 0))) :
    scanDest format k (text ++ [0]) wgid g = some (fields, gid) := by
  have htext := cstring_append text [] hnul
  have hl : (wireChars gid 4 0 ++ [0]).length = (wireChars gid 4 0).length + 1 := by
    rw [List.length_append, List.length_singleton]
  have hfull : (wireChars gid 4 0).length + 1 = wgid.length := by
    rw [wireChars_length, hw, gidLength]
  have hcopy := memcpy_whole (hl.trans hfull)
  rw [hl] at hcopy
  simp only [scanDest, htext, hs, hk, hcopy, wireGidToGid_eq, Option.bind_eq_bind, Option.bind_some]

theorem wireChars_scannable (gid : Gid) : (Field.text (wireChars gid 4 0)).Scannable := by
  refine ⟨fun hnil => ?_, fun c hc => wireChars_noSpace hc⟩
  have hl := wireChars_length gid 4 0
  rw [hnil] at hl
  cases hl

end Messages

/-- The text of a destination fills `msg` to its end, and the peer reads the destination
back over whatever it and its array held. -/
def RoundTrip {Dest : Type} (size : Nat) (print : Dest → List UInt8 → List UInt8 → Option (List UInt8))
    (scan : Dest → List UInt8 → List UInt8 → Option Dest) (my : Dest) : Prop :=
  ∀ msg wgid : List UInt8, msg.length = size → wgid.length = gidLength →
    ∃ text, 0 ∉ text ∧ text.length + 1 = size ∧ print my msg wgid = some (text ++ [0]) ∧
      ∀ (rem : Dest) (wgid' : List UInt8), wgid'.length = gidLength →
        scan rem (text ++ [0]) wgid' = some my

section Programs

variable {lid qpn psn : UInt32} (gid : Gid)

theorem LowLatency.roundTrip (hlid : lid.toNat < 2 ^ 16) (hqpn : qpn.toNat < 2 ^ 24)
    (hpsn : psn.toNat < 2 ^ 24) :
    RoundTrip LowLatency.msgSize LowLatency.PingpongDest.print LowLatency.PingpongDest.scan
      ⟨lid, qpn, psn, gid⟩ := by
  intro msg wgid hm hw
  have hl := printHex_length (w := 4) (by decide) hlid
  have hq := printHex_length (w := 6) (by decide) hqpn
  have hp := printHex_length (w := 6) (by decide) hpsn
  have hg := wireChars_length gid 4 0
  let my : LowLatency.PingpongDest := ⟨lid, qpn, psn, gid⟩
  obtain ⟨text, ht⟩ : ∃ text, sprintf LowLatency.sendFormat (my.fields (wireChars gid 4 0)) = some text :=
    ⟨_, rfl⟩
  have htext := ht
  simp only [LowLatency.sendFormat, LowLatency.PingpongDest.fields, sprintf, Option.map_some,
    Option.some.injEq] at htext
  have hnul : 0 ∉ text := by
    rw [← htext]
    simp [my, printHex_nulFree, wireChars_nulFree]
  have hfit : text.length + 1 = LowLatency.msgSize := by
    rw [← htext]
    simp only [my, List.length_append, List.length_cons, List.length_nil, hl, hq, hp, hg,
      LowLatency.msgSize_eq]
  refine ⟨text, hnul, hfit, printDest_eq hw ht (hfit.trans hm.symm), fun rem wgid' hw' => ?_⟩
  have hscan : sscanf LowLatency.receiveFormat text = my.fields (wireChars gid 4 0) :=
    sscanf_sprintf ht (by simp [LowLatency.sendFormat, Separated, StartsOther, digitValue])
      (by simp [LowLatency.PingpongDest.fields, wireChars_scannable])
  rw [LowLatency.PingpongDest.scan, scanDest_eq rem.gid hw' hnul hscan rfl]
  rfl

theorem Optimization.roundTrip (bufVa : UInt64) (bufRkey : UInt32) (hlid : lid.toNat < 2 ^ 16)
    (hqpn : qpn.toNat < 2 ^ 24) (hpsn : psn.toNat < 2 ^ 24) :
    RoundTrip Optimization.msgSize Optimization.PingpongDest.print Optimization.PingpongDest.scan
      ⟨lid, qpn, psn, gid, bufVa, bufRkey⟩ := by
  intro msg wgid hm hw
  have hl := printHex_length (w := 4) (by decide) hlid
  have hq := printHex_length (w := 6) (by decide) hqpn
  have hp := printHex_length (w := 6) (by decide) hpsn
  have hv := printHex_length (w := 16) (by decide) (bufVa.toNat_lt.trans_eq (by norm_num))
  have hr := wordChars_length bufRkey
  have hg := wireChars_length gid 4 0
  let my : Optimization.PingpongDest := ⟨lid, qpn, psn, gid, bufVa, bufRkey⟩
  obtain ⟨text, ht⟩ : ∃ text, sprintf Optimization.sendFormat (my.fields (wireChars gid 4 0)) =
    some text :=
    ⟨_, rfl⟩
  have htext := ht
  simp only [Optimization.sendFormat, Optimization.PingpongDest.fields, sprintf, Option.map_some,
    Option.some.injEq] at htext
  have hnul : 0 ∉ text := by
    rw [← htext]
    simp [my, printHex_nulFree, wireChars_nulFree]
  have hfit : text.length + 1 = Optimization.msgSize := by
    rw [← htext]
    simp only [my, List.length_append, List.length_cons, List.length_nil, hl, hq, hp, hv, hr, hg,
      Optimization.msgSize_eq]
  refine ⟨text, hnul, hfit, printDest_eq hw ht (hfit.trans hm.symm), fun rem wgid' hw' => ?_⟩
  have hscan : sscanf Optimization.receiveFormat text = my.fields (wireChars gid 4 0) :=
    sscanf_sprintf ht (by simp [Optimization.sendFormat, Separated, StartsOther, digitValue])
      (by simp [Optimization.PingpongDest.fields, wireChars_scannable])
  rw [Optimization.PingpongDest.scan, scanDest_eq rem.gid hw' hnul hscan rfl]
  rfl

end Programs

/-- Both programs get back what the peer sent, and an RDMA write goes to the region that
the peer put in. -/
theorem exchange_round_trip (lid qpn psn : UInt32) (gid : Gid) (hlid : lid.toNat < 2 ^ 16)
    (hqpn : qpn.toNat < 2 ^ 24) (hpsn : psn.toNat < 2 ^ 24) :
    RoundTrip LowLatency.msgSize LowLatency.PingpongDest.print LowLatency.PingpongDest.scan
        ⟨lid, qpn, psn, gid⟩ ∧
      (∀ bufVa bufRkey, RoundTrip Optimization.msgSize Optimization.PingpongDest.print
        Optimization.PingpongDest.scan ⟨lid, qpn, psn, gid, bufVa, bufRkey⟩) ∧
      ∀ (my rem rem' : Optimization.PingpongDest) (start : UInt64) (rkey : UInt32)
        (msg wgid wgid' sent : List UInt8),
        my.lid = lid → my.qpn = qpn → my.psn = psn → my.gid = gid →
        msg.length = Optimization.msgSize → wgid.length = gidLength → wgid'.length = gidLength →
        (my.withRegion start rkey).print msg wgid = some sent → rem.scan sent wgid' = some rem' →
        ∀ addr lkey maxInline messageSize,
          (Optimization.ppPostRdmaWrite addr lkey maxInline messageSize rem').remoteAddr = start ∧
          (Optimization.ppPostRdmaWrite addr lkey maxInline messageSize rem').rkey = rkey := by
  refine ⟨LowLatency.roundTrip gid hlid hqpn hpsn,
    fun bufVa bufRkey => Optimization.roundTrip gid bufVa bufRkey hlid hqpn hpsn, ?_⟩
  intro my rem rem' start rkey msg wgid wgid' sent hl hq hp hg hm hw hw' hsent hscan _ _ _ _
  obtain ⟨text, -, -, hprint, hread⟩ :=
    Optimization.roundTrip gid (bswap64 start) (htonl rkey) hlid hqpn hpsn msg wgid hm hw
  have hmy : my.withRegion start rkey = ⟨lid, qpn, psn, gid, bswap64 start, htonl rkey⟩ := by
    rw [Optimization.PingpongDest.withRegion, ← hl, ← hq, ← hp, ← hg]
  rw [hmy, hprint] at hsent
  obtain rfl := Option.some.inj hsent
  rw [hread rem wgid' hw'] at hscan
  obtain rfl := Option.some.inj hscan
  exact ⟨bswap64_bswap64 start, ntohl_htonl rkey⟩

/-- A gid of sixteen different bytes, and arrays that hold other text. -/
theorem exchange_round_trip_counted :
    ∃ text, (⟨3, 17, 0xabcdef, ⟨leBytes 16 0x0f0e0d0c0b0a09080706050403020100, leBytes_length 16 _⟩⟩ :
        LowLatency.PingpongDest).print (List.replicate 52 1) (List.replicate 33 2) = some (text ++ [0]) ∧
      text.length + 1 = LowLatency.msgSize := by
  obtain ⟨text, -, hfit, hprint, -⟩ := (exchange_round_trip 3 17 0xabcdef
    ⟨leBytes 16 0x0f0e0d0c0b0a09080706050403020100, leBytes_length 16 _⟩ (by decide) (by decide)
    (by decide)).1 (List.replicate 52 1) (List.replicate 33 2)
      LowLatency.msgSize_eq.symm rfl
  exact ⟨text, hprint, hfit⟩

end NetworkOptimization.Exchange
