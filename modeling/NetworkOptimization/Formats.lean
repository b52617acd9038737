import Mathlib.Data.List.TakeWhile
import Mathlib.Data.Nat.Digits.Lemmas

namespace NetworkOptimization.Formats

def digitChar (d : Nat) : UInt8 := if d < 10 then UInt8.ofNat (48 + d) else UInt8.ofNat (87 + d)

def digitValue (c : UInt8) : Option Nat :=
  if 48 ≤ c ∧ c ≤ 57 then some (c.toNat - 48)
  else if 97 ≤ c ∧ c ≤ 102 then some (c.toNat - 87)
  else if 65 ≤ c ∧ c ≤ 70 then some (c.toNat - 55)
  else none

def IsSpace (c : UInt8) : Prop := c = 32 ∨ (9 ≤ c ∧ c ≤ 13)

instance : DecidablePred IsSpace := fun c => inferInstanceAs (Decidable (c = 32 ∨ (9 ≤ c ∧ c ≤ 13)))

def hexDigits (n : Nat) : List Nat := if n = 0 then [0] else (Nat.digits 16 n).reverse

def padded (w n : Nat) : List Nat := List.leftpad w 0 (hexDigits n)

def printHex (w n : Nat) : List UInt8 := (padded w n).map digitChar

def spanDigits : List UInt8 → List Nat × List UInt8
  | [] => ([], [])
  | c :: cs => match digitValue c with
    | some d => (d :: (spanDigits cs).1, (spanDigits cs).2)
    | none => ([], c :: cs)

def skipSpaces (text : List UInt8) : List UInt8 := text.dropWhile (fun c => IsSpace c)

def skipSign : List UInt8 → Bool × List UInt8
  | [] => (false, [])
  | c :: cs => if c = 45 then (true, cs) else if c = 43 then (false, cs) else (false, c :: cs)

def skipPrefix : List UInt8 → List UInt8
  | a :: b :: cs => if a = 48 ∧ (b = 120 ∨ b = 88) then cs else a :: b :: cs
  | cs => cs

/-- `%lx` of a scanner: blanks, a sign, `0x`, and at least one digit. A number that 64 bits
do not hold becomes the largest one. -/
def scanHex (text : List UInt8) : Option (UInt64 × List UInt8) :=
  let (negative, unsigned) := skipSign (skipSpaces text)
  let (digits, rest) := spanDigits (skipPrefix unsigned)
  if digits = [] then none
  else
    let n := Nat.ofDigits 16 digits.reverse
    if 2 ^ 64 ≤ n then some (UInt64.ofNat (2 ^ 64 - 1), rest)
    else some (if negative then - UInt64.ofNat n else UInt64.ofNat n, rest)

def scanWord (text : List UInt8) : Option (List UInt8 × List UInt8) :=
  let word := (skipSpaces text).takeWhile (fun c => ¬ IsSpace c)
  if word = [] then none else some (word, (skipSpaces text).dropWhile (fun c => ¬ IsSpace c))

/-- A piece of a format. The widths are those of `sprintf`; a scanning format has none and
says 0. A `char` is not blank. -/
inductive Directive where
  | hex (width : Nat)
  | longHex (width : Nat)
  | text
  | char (c : UInt8)

inductive Field where
  | word (x : UInt32)
  | long (x : UInt64)
  | text (s : List UInt8)
  deriving DecidableEq

/-- The characters that `sprintf` writes before the NUL; `none` where the arguments are not
those of the format. -/
def sprintf : List Directive → List Field → Option (List UInt8)
  | [], [] => some []
  | .char c :: ds, fs => (sprintf ds fs).map (c :: ·)
  | .hex w :: ds, .word x :: fs => (sprintf ds fs).map (printHex w x.toNat ++ ·)
  | .longHex w :: ds, .long x :: fs => (sprintf ds fs).map (printHex w x.toNat ++ ·)
  | .text :: ds, .text s :: fs => (sprintf ds fs).map (s ++ ·)
  | _, _ => none

/-- The fields that `sscanf` stores before the text stops to match. -/
def sscanf : List Directive → List UInt8 → List Field
  | [], _ => []
  | .char _ :: _, [] => []
  | .char c :: ds, b :: rest => if b = c then sscanf ds rest else []
  | .hex _ :: ds, text => match scanHex text with
    | some (x, rest) => .word x.toUInt32 :: sscanf ds rest
    | none => []
  | .longHex _ :: ds, text => match scanHex text with
    | some (x, rest) => .long x :: sscanf ds rest
    | none => []
  | .text :: ds, text => match scanWord text with
    | some (s, rest) => .text s :: sscanf ds rest
    | none => []

def EndsNumber (text : List UInt8) : Prop :=
  ∀ c ∈ text.head?, digitValue c = none ∧ c ≠ 120 ∧ c ≠ 88

theorem digitChar_spec {d : Nat} (hd : d < 16) : digitValue (digitChar d) = some d ∧
    ¬ IsSpace (digitChar d) ∧ digitChar d ≠ 0 ∧ digitChar d ≠ 45 ∧ digitChar d ≠ 43 ∧
      digitChar d ≠ 120 ∧ digitChar d ≠ 88 := by
  revert d
  decide

theorem hexDigits_lt {n d : Nat} (hd : d ∈ hexDigits n) : d < 16 := by
  rw [hexDigits] at hd
  split_ifs at hd with hn
  · rw [List.mem_singleton] at hd
    omega
  · exact Nat.digits_lt_base (by decide) (List.mem_reverse.mp hd)

theorem padded_lt {w n d : Nat} (hd : d ∈ padded w n) : d < 16 := by
  rw [padded, List.leftpad, List.mem_append, List.mem_replicate] at hd
  cases hd with
  | inl hz => omega
  | inr hd => exact hexDigits_lt hd

theorem padded_ne_nil (w n : Nat) : padded w n ≠ [] := by
  have hdigits : hexDigits n ≠ [] := by
    rw [hexDigits]
    split_ifs with hn
    · exact List.cons_ne_nil _ _
    · rw [ne_eq, List.reverse_eq_nil_iff, Nat.digits_eq_nil_iff_eq_zero]
      exact hn
  exact List.append_ne_nil_of_right_ne_nil _ hdigits

theorem padded_value (w n : Nat) : Nat.ofDigits 16 (padded w n).reverse = n := by
  have hvalue : Nat.ofDigits 16 (hexDigits n).reverse = n := by
    rw [hexDigits]
    split_ifs with hn
    · rw [List.reverse_singleton, Nat.ofDigits_singleton, hn]
    · rw [List.reverse_reverse, Nat.ofDigits_digits]
  rw [padded, List.leftpad, List.reverse_append, List.reverse_replicate,
    Nat.ofDigits_append_replicate_zero, hvalue]

theorem hexDigits_length_le {w n : Nat} (hw : 0 < w) (hn : n < 16 ^ w) : (hexDigits n).length ≤ w := by
  rw [hexDigits]
  split_ifs
  · exact hw
  · rw [List.length_reverse]
    exact (Nat.digits_length_le_iff (by decide) n).mpr hn

theorem printHex_length {w n : Nat} (hw : 0 < w) (hn : n < 16 ^ w) : (printHex w n).length = w := by
  have hl := hexDigits_length_le hw hn
  rw [printHex, List.length_map, padded, List.leftpad, List.length_append, List.length_replicate]
  omega

theorem printHex_nulFree (w n : Nat) : 0 ∉ printHex w n := by
  intro h
  obtain ⟨d, hd, hz⟩ := List.mem_map.mp h
  exact (digitChar_spec (padded_lt hd)).2.2.1 hz

theorem printHex_noSpace {w n : Nat} {c : UInt8} (hc : c ∈ printHex w n) : ¬ IsSpace c := by
  obtain ⟨d, hd, rfl⟩ := List.mem_map.mp hc
  exact (digitChar_spec (padded_lt hd)).2.1

theorem spanDigits_append {digits : List Nat} {rest : List UInt8} (hd : ∀ d ∈ digits, d < 16)
    (hr : EndsNumber rest) : spanDigits (digits.map digitChar ++ rest) = (digits, rest) := by
  induction digits with
  | nil =>
    cases rest with
    | nil => rfl
    | cons c cs =>
      have hc := (hr c rfl).1
      simp only [List.map_nil, List.nil_append, spanDigits, hc]
  | cons d digits ih =>
    have hc := (digitChar_spec (hd d (List.mem_cons_self ..))).1
    have ht := ih (fun e he => hd e (List.mem_cons_of_mem _ he))
    simp only [List.map_cons, List.cons_append, spanDigits, hc, ht]

theorem skipPrefix_append {digits : List Nat} {rest : List UInt8} (hd : ∀ d ∈ digits, d < 16)
    (hn : digits ≠ []) (hr : EndsNumber rest) :
    skipPrefix (digits.map digitChar ++ rest) = digits.map digitChar ++ rest := by
  cases digits with
  | nil => exact absurd rfl hn
  | cons d digits =>
    have hnext : ∀ c ∈ (digits.map digitChar ++ rest).head?, c ≠ 120 ∧ c ≠ 88 := by
      cases digits with
      | nil => exact fun c hc => (hr c hc).2
      | cons e digits =>
        intro c hc
        obtain rfl : digitChar e = c := Option.some.inj hc
        exact (digitChar_spec (hd e (by simp))).2.2.2.2.2
    rw [List.map_cons, List.cons_append]
    cases htail : digits.map digitChar ++ rest with
    | nil => rfl
    | cons c cs =>
      rw [htail] at hnext
      obtain ⟨hx, hX⟩ := hnext c rfl
      rw [skipPrefix, if_neg]
      rintro ⟨-, hc⟩
      cases hc with
      | inl hc => exact hx hc
      | inr hc => exact hX hc

theorem skipSpaces_of_head {c : UInt8} {cs : List UInt8} (hc : ¬ IsSpace c) :
    skipSpaces (c :: cs) = c :: cs := by
  rw [skipSpaces, List.dropWhile_cons_of_neg (by simpa using hc)]

theorem scanHex_printHex (w : Nat) {n : Nat} {rest : List UInt8} (hn : n < 2 ^ 64)
    (hr : EndsNumber rest) : scanHex (printHex w n ++ rest) = some (UInt64.ofNat n, rest) := by
  have hd : ∀ d ∈ padded w n, d < 16 := fun d hd => padded_lt hd
  have hne := padded_ne_nil w n
  have hprefix := skipPrefix_append hd hne hr
  have hspan := spanDigits_append hd hr
  have hskip : skipSign (skipSpaces (printHex w n ++ rest)) = (false, printHex w n ++ rest) := by
    rw [printHex]
    cases hl : padded w n with
    | nil => exact absurd hl hne
    | cons d ds =>
      obtain ⟨-, hs, -, hminus, hplus, -⟩ := digitChar_spec (hd d (hl ▸ List.mem_cons_self ..))
      rw [List.map_cons, List.cons_append, skipSpaces_of_head hs, skipSign, if_neg hminus, if_neg hplus]
  rw [← printHex] at hprefix hspan
  simp only [scanHex, hskip, hprefix, hspan, hne, ↓reduceIte, padded_value, Nat.not_le.mpr hn,
    Bool.false_eq_true]

theorem scanWord_append {s : List UInt8} (hs : s ≠ []) (hc : ∀ c ∈ s, ¬ IsSpace c) :
    scanWord s = some (s, []) := by
  have hskip : skipSpaces s = s := by
    cases s with
    | nil => rfl
    | cons c cs => exact skipSpaces_of_head (hc c (by simp))
  have hall : ∀ c ∈ s, decide (¬ IsSpace c) = true := fun c h => decide_eq_true (hc c h)
  rw [scanWord, hskip, List.takeWhile_eq_self_iff.mpr hall, List.dropWhile_eq_nil_iff.mpr hall,
    if_neg hs]

def Directive.unpadded : Directive → Directive
  | .hex _ => .hex 0
  | .longHex _ => .longHex 0
  | .text => .text
  | .char c => .char c

/-- A directive that ends a number before it. -/
def StartsOther : List Directive → Prop
  | [] => True
  | .char c :: _ => digitValue c = none ∧ c ≠ 120 ∧ c ≠ 88
  | .hex _ :: _ | .longHex _ :: _ | .text :: _ => False

/-- Every number is followed by a character that ends it, and a text stands last. -/
def Separated : List Directive → Prop
  | [] => True
  | .char _ :: ds => Separated ds
  | .hex _ :: ds | .longHex _ :: ds => StartsOther ds ∧ Separated ds
  | .text :: ds => ds = []

/-- A text that `%s` reads to its end. -/
def Field.Scannable : Field → Prop
  | .text s => s ≠ [] ∧ ∀ c ∈ s, ¬ IsSpace c
  | .word _ | .long _ => True

@[simp] theorem Field.scannable_word (x : UInt32) : (Field.word x).Scannable := trivial

@[simp] theorem Field.scannable_long (x : UInt64) : (Field.long x).Scannable := trivial

variable {ds : List Directive} {fs : List Field} {text : List UInt8}

theorem endsNumber_of_sprintf (hs : StartsOther ds) (h : sprintf ds fs = some text) :
    EndsNumber text := by
  cases ds with
  | nil =>
    cases fs with
    | nil =>
      cases h
      exact fun c hc => absurd hc (by simp)
    | cons f fs => cases h
  | cons d ds =>
    cases d with
    | char c =>
      rw [sprintf, Option.map_eq_some_iff] at h
      obtain ⟨rest, -, rfl⟩ := h
      intro c' hc'
      obtain rfl : c = c' := Option.some.inj hc'
      exact hs
    | hex w | longHex w | text => exact hs.elim

theorem sscanf_sprintf (h : sprintf ds fs = some text) (hs : Separated ds)
    (hf : ∀ f ∈ fs, f.Scannable) : sscanf (ds.map Directive.unpadded) text = fs := by
  induction ds generalizing fs text with
  | nil =>
    cases fs with
    | nil => rfl
    | cons f fs => cases h
  | cons d ds ih =>
    cases d with
    | char c =>
      rw [sprintf, Option.map_eq_some_iff] at h
      obtain ⟨rest, hrest, rfl⟩ := h
      have hread := ih hrest hs hf
      simpa [Directive.unpadded, sscanf] using hread
    | hex w =>
      obtain _ | ⟨x | _ | _, fs⟩ := fs <;> simp only [sprintf, reduceCtorEq] at h
      obtain ⟨rest, hrest, rfl⟩ := Option.map_eq_some_iff.mp h
      have hread := ih hrest hs.2 (fun f hfs => hf f (List.mem_cons_of_mem _ hfs))
      have hx : x.toNat < 2 ^ 64 := x.toNat_lt.trans (by decide)
      have hscan := scanHex_printHex w hx (endsNumber_of_sprintf hs.1 hrest)
      simp [Directive.unpadded, sscanf, hscan, hread]
    | longHex w =>
      obtain _ | ⟨_ | x | _, fs⟩ := fs <;> simp only [sprintf, reduceCtorEq] at h
      obtain ⟨rest, hrest, rfl⟩ := Option.map_eq_some_iff.mp h
      have hread := ih hrest hs.2 (fun f hfs => hf f (List.mem_cons_of_mem _ hfs))
      have hscan := scanHex_printHex w x.toNat_lt (endsNumber_of_sprintf hs.1 hrest)
      simp [Directive.unpadded, sscanf, hscan, hread]
    | text =>
      obtain _ | ⟨_ | _ | s, fs⟩ := fs <;> simp only [sprintf, reduceCtorEq] at h
      obtain ⟨rest, hrest, rfl⟩ := Option.map_eq_some_iff.mp h
      obtain rfl : ds = [] := hs
      have hread := ih hrest trivial (fun f hfs => hf f (List.mem_cons_of_mem _ hfs))
      obtain ⟨hne, hspace⟩ := hf (.text s) (List.mem_cons_self ..)
      cases fs with
      | nil =>
        cases hrest
        simp [Directive.unpadded, sscanf, scanWord_append hne hspace]
      | cons f fs => cases hrest

end NetworkOptimization.Formats
