import Mathlib.Data.Nat.ModEq
import Mathlib.Tactic.Ring

namespace NetworkOptimization.Words

def leBytes : Nat → Nat → List UInt8
  | 0, _ => []
  | w + 1, n => UInt8.ofNat n :: leBytes w (n / 256)

def leNat : List UInt8 → Nat
  | [] => 0
  | b :: bs => b.toNat + 256 * leNat bs

@[simp] theorem leBytes_length (w n : Nat) : (leBytes w n).length = w := by
  induction w generalizing n with
  | zero => rfl
  | succ w ih => simp [leBytes, ih]

theorem leNat_leBytes (w n : Nat) : leNat (leBytes w n) = n % 256 ^ w := by
  induction w generalizing n with
  | zero => simp [leBytes, leNat, Nat.mod_one]
  | succ w ih =>
    have hb : (UInt8.ofNat n).toNat = n % 256 := by simp
    rw [leBytes, leNat, ih, hb, pow_succ', Nat.mod_mul]

theorem leNat_lt (bs : List UInt8) : leNat bs < 256 ^ bs.length := by
  induction bs with
  | nil => simp [leNat]
  | cons b bs ih =>
    have hb := b.toNat_lt
    rw [leNat, List.length_cons, pow_succ]
    omega

theorem leBytes_leNat (bs : List UInt8) : leBytes bs.length (leNat bs) = bs := by
  induction bs with
  | nil => rfl
  | cons b bs ih =>
    have hb := b.toNat_lt
    have hd : (b.toNat + 256 * leNat bs) / 256 = leNat bs := by omega
    have hm : UInt8.ofNat (b.toNat + 256 * leNat bs) = b := by
      apply UInt8.toNat.inj
      rw [UInt8.toNat_ofNat']
      omega
    rw [List.length_cons, leBytes, leNat, hd, ih, hm]

def u64Bytes (x : UInt64) : List UInt8 := leBytes 8 x.toNat

def u64OfBytes (bs : List UInt8) : UInt64 := UInt64.ofNat (leNat bs)

def u32Bytes (x : UInt32) : List UInt8 := leBytes 4 x.toNat

def u32OfBytes (bs : List UInt8) : UInt32 := UInt32.ofNat (leNat bs)

@[simp] theorem u64Bytes_length (x : UInt64) : (u64Bytes x).length = 8 := leBytes_length 8 _

@[simp] theorem u32Bytes_length (x : UInt32) : (u32Bytes x).length = 4 := leBytes_length 4 _

@[simp] theorem u64OfBytes_u64Bytes (x : UInt64) : u64OfBytes (u64Bytes x) = x := by
  have hx := x.toNat_lt
  apply UInt64.toNat.inj
  rw [u64OfBytes, u64Bytes, leNat_leBytes, UInt64.toNat_ofNat']
  omega

@[simp] theorem u32OfBytes_u32Bytes (x : UInt32) : u32OfBytes (u32Bytes x) = x := by
  have hx := x.toNat_lt
  apply UInt32.toNat.inj
  rw [u32OfBytes, u32Bytes, leNat_leBytes, UInt32.toNat_ofNat']
  omega

theorem u64Bytes_u64OfBytes (bs : List UInt8) (h : bs.length = 8) : u64Bytes (u64OfBytes bs) = bs := by
  have hl := leNat_lt bs
  rw [h] at hl
  have hn : (u64OfBytes bs).toNat = leNat bs := by
    rw [u64OfBytes, UInt64.toNat_ofNat']
    omega
  rw [u64Bytes, hn, ← h, leBytes_leNat]

theorem u32Bytes_u32OfBytes (bs : List UInt8) (h : bs.length = 4) : u32Bytes (u32OfBytes bs) = bs := by
  have hl := leNat_lt bs
  rw [h] at hl
  have hn : (u32OfBytes bs).toNat = leNat bs := by
    rw [u32OfBytes, UInt32.toNat_ofNat']
    omega
  rw [u32Bytes, hn, ← h, leBytes_leNat]

/-- `bswap_64` of byteswap.h: the eight bytes in the opposite order. -/
def bswap64 (x : UInt64) : UInt64 := u64OfBytes (u64Bytes x).reverse

/-- `htonl` of a little-endian host. -/
def htonl (x : UInt32) : UInt32 := u32OfBytes (u32Bytes x).reverse

def ntohl (x : UInt32) : UInt32 := u32OfBytes (u32Bytes x).reverse

@[simp] theorem bswap64_bswap64 (x : UInt64) : bswap64 (bswap64 x) = x := by
  have h : u64Bytes (bswap64 x) = (u64Bytes x).reverse :=
    u64Bytes_u64OfBytes _ (by simp)
  rw [bswap64, h, List.reverse_reverse, u64OfBytes_u64Bytes]

@[simp] theorem ntohl_htonl (x : UInt32) : ntohl (htonl x) = x := by
  have h : u32Bytes (htonl x) = (u32Bytes x).reverse :=
    u32Bytes_u32OfBytes _ (by simp)
  rw [ntohl, h, List.reverse_reverse, u32OfBytes_u32Bytes]

/-- The string that starts a piece of memory: the bytes before the first NUL.
It fails when the memory ends before a NUL, where `strlen` would run past it. -/
def cstring : List UInt8 → Option (List UInt8)
  | [] => none
  | b :: bs => if b = 0 then some [] else (cstring bs).map (b :: ·)

def strlen (mem : List UInt8) : Option Nat := (cstring mem).map List.length

theorem cstring_append (s rest : List UInt8) (h : 0 ∉ s) : cstring (s ++ 0 :: rest) = some s := by
  induction s with
  | nil => rfl
  | cons b s ih =>
    have hb : b ≠ 0 := fun hb => h (by simp [hb])
    have hs : 0 ∉ s := fun hs => h (by simp [hs])
    simp [cstring, hb, ih hs]

theorem cstring_some {mem s : List UInt8} (h : cstring mem = some s) :
    0 ∉ s ∧ ∃ rest, mem = s ++ 0 :: rest := by
  induction mem generalizing s with
  | nil => simp [cstring] at h
  | cons b mem ih =>
    by_cases hb : b = 0
    · simp only [cstring, hb, ↓reduceIte, Option.some.injEq] at h
      subst h
      exact ⟨by simp, mem, by simp [hb]⟩
    · simp only [cstring, hb, ↓reduceIte, Option.map_eq_some_iff] at h
      obtain ⟨t, ht, rfl⟩ := h
      obtain ⟨hn, rest, rfl⟩ := ih ht
      exact ⟨by simp [hn, Ne.symm hb], rest, rfl⟩

/-- A string of the C program: its characters hold no NUL, and with the
terminator it is no larger than an object can be, so sizes do not wrap. -/
structure CString where
  chars : List UInt8
  nulFree : 0 ∉ chars
  short : chars.length + 1 < 2 ^ 63
  deriving DecidableEq

namespace CString

@[ext] theorem ext {s t : CString} (h : s.chars = t.chars) : s = t := by
  cases s
  cases t
  cases h
  rfl

def bytes (s : CString) : List UInt8 := s.chars ++ [0]

def strlen (s : CString) : Nat := s.chars.length

def size (s : CString) : UInt64 := UInt64.ofNat (s.strlen + 1)

@[simp] theorem bytes_length (s : CString) : s.bytes.length = s.strlen + 1 := by
  simp [bytes, strlen]

@[simp] theorem size_toNat (s : CString) : s.size.toNat = s.strlen + 1 := by
  have h := s.short
  simp only [size, strlen, UInt64.toNat_ofNat']
  omega

@[simp] theorem cstring_bytes (s : CString) (rest : List UInt8) :
    cstring (s.bytes ++ rest) = some s.chars := by
  simpa [bytes] using cstring_append s.chars rest s.nulFree

@[simp] theorem strlen_bytes (s : CString) (rest : List UInt8) :
    Words.strlen (s.bytes ++ rest) = some s.strlen := by
  simp [Words.strlen, strlen]

def repeated (b : UInt8) (hb : b ≠ 0) (len : Nat) (hl : len + 1 < 2 ^ 63) : CString where
  chars := List.replicate len b
  nulFree := by simp [List.mem_replicate, hb.symm]
  short := by rw [List.length_replicate]; exact hl

@[simp] theorem strlen_repeated (b : UInt8) (hb : b ≠ 0) (len : Nat) (hl : len + 1 < 2 ^ 63) :
    (repeated b hb len hl).strlen = len :=
  List.length_replicate

end CString

end NetworkOptimization.Words
