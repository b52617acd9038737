import Mathlib.Logic.Function.Basic
import NetworkOptimization.Words

namespace NetworkOptimization.Memory

open Words

/-- Memory blocks by address. `place` and `junk` stand for the allocator: the address
its `count`-th answer gives and the bytes that fresh memory happens to hold. -/
structure Heap where
  blocks : UInt64 → Option (List UInt8)
  count : Nat
  place : Nat → UInt64
  junk : Nat → Nat → UInt8

def fresh (h : Heap) (size : Nat) : List UInt8 := (List.range size).map (h.junk h.count)

/-- `malloc`; `none` is its null result, through which its callers write. -/
def malloc (h : Heap) (size : Nat) : Option (UInt64 × Heap) :=
  let a := h.place h.count
  if a = 0 ∨ (h.blocks a).isSome then none
  else some (a, { h with
    blocks := Function.update h.blocks a (some (fresh h size))
    count := h.count + 1 })

/-- `free`; undefined on an address that is not live. -/
def free (h : Heap) (a : UInt64) : Option Heap :=
  if (h.blocks a).isSome then some { h with blocks := Function.update h.blocks a none } else none

def cstr (h : Heap) (a : UInt64) : Option (List UInt8) := (h.blocks a).bind cstring

def write (h : Heap) (a : UInt64) (bs : List UInt8) : Heap :=
  { h with blocks := Function.update h.blocks a (some bs) }

/-- `strcpy` of a string into a block; undefined where it does not fit. -/
def strcpy (h : Heap) (a : UInt64) (s : List UInt8) : Option Heap := do
  let bs ← h.blocks a
  if s.length + 1 ≤ bs.length then some (write h a (s ++ 0 :: bs.drop (s.length + 1))) else none

def strcmp (h : Heap) (a b : UInt64) : Option Bool := do
  let s ← cstr h a
  let t ← cstr h b
  some (s == t)

@[simp] theorem fresh_length (h : Heap) (size : Nat) : (fresh h size).length = size := by
  simp [fresh]

theorem malloc_eq_some {h h' : Heap} {size : Nat} {a : UInt64}
    (hm : malloc h size = some (a, h')) :
    a ≠ 0 ∧ h.blocks a = none ∧ h'.blocks = Function.update h.blocks a (some (fresh h size)) := by
  by_cases hc : h.place h.count = 0 ∨ (h.blocks (h.place h.count)).isSome
  · simp [malloc, hc] at hm
  · simp only [malloc, hc, ↓reduceIte, Option.some.injEq, Prod.mk.injEq] at hm
    obtain ⟨rfl, rfl⟩ := hm
    simp only [not_or, Option.not_isSome_iff_eq_none] at hc
    exact ⟨hc.1, hc.2, rfl⟩

theorem strcpy_eq_some {h h' : Heap} {a : UInt64} {s : List UInt8}
    (hs : strcpy h a s = some h') :
    ∃ bs, h.blocks a = some bs ∧ s.length + 1 ≤ bs.length ∧
      h' = write h a (s ++ 0 :: bs.drop (s.length + 1)) := by
  obtain ⟨bs, hb, hc⟩ := Option.bind_eq_some_iff.mp hs
  by_cases hl : s.length + 1 ≤ bs.length
  · rw [if_pos hl] at hc
    exact ⟨bs, hb, hl, (Option.some.inj hc).symm⟩
  · rw [if_neg hl] at hc
    cases hc

@[simp] theorem write_self (h : Heap) (a : UInt64) (bs : List UInt8) :
    (write h a bs).blocks a = some bs := by
  simp [write]

@[simp] theorem write_other {a b : UInt64} (hab : b ≠ a) (h : Heap) (bs : List UInt8) :
    (write h a bs).blocks b = h.blocks b := by
  simp [write, hab]

theorem cstr_congr {h h' : Heap} {a : UInt64} (hb : h'.blocks a = h.blocks a) :
    cstr h' a = cstr h a := by
  rw [cstr, cstr, hb]

/-- A new block that holds a copy of a string, as the handlers and `kv_get` make it. -/
def strdup (h : Heap) (size : Nat) (s : List UInt8) : Option (UInt64 × Heap) := do
  let (a, h) ← malloc h size
  let h ← strcpy h a s
  some (a, h)

theorem strdup_eq_some {h h' : Heap} {size : Nat} {a : UInt64} {s : List UInt8}
    (hd : strdup h size s = some (a, h')) :
    a ≠ 0 ∧ h.blocks a = none ∧ s.length + 1 ≤ size ∧ ∃ rest, rest.length = size - (s.length + 1) ∧
      h'.blocks = Function.update h.blocks a (some (s ++ 0 :: rest)) := by
  obtain ⟨⟨b, g⟩, hm, hc⟩ := Option.bind_eq_some_iff.mp hd
  obtain ⟨h₂, hs, hr⟩ := Option.bind_eq_some_iff.mp hc
  obtain ⟨ha, hf, hb⟩ := malloc_eq_some hm
  obtain ⟨bs, hbs, hl, rfl⟩ := strcpy_eq_some hs
  simp only [Option.some.injEq, Prod.mk.injEq] at hr
  obtain ⟨rfl, rfl⟩ := hr
  rw [hb, Function.update_self] at hbs
  obtain rfl := Option.some.inj hbs
  rw [fresh_length] at hl
  exact ⟨ha, hf, hl, (fresh h size).drop (s.length + 1), by simp, by simp [write, hb]⟩

end NetworkOptimization.Memory
