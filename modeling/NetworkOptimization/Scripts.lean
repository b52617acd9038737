import NetworkOptimization.ControlMessages
import NetworkOptimization.Scanning

namespace NetworkOptimization.Scripts

open Words Scanning ControlMessages
open Formats (IsSpace skipSpaces)

/-- At most `room` characters, and none behind a newline: the string that `fgets` leaves and
what is left of the file. -/
def fgetsLoop : Nat → List UInt8 → List UInt8 × List UInt8
  | 0, file => ([], file)
  | _ + 1, [] => ([], [])
  | room + 1, c :: file =>
    if c = 10 then ([c], file) else (c :: (fgetsLoop room file).1, (fgetsLoop room file).2)

/-- `fgets(line, size, file)`; the last byte of the buffer is for the NUL. -/
def fgets (size : Nat) (file : List UInt8) : List UInt8 × List UInt8 := fgetsLoop (size - 1) file

theorem fgets_shorter {file : List UInt8} (h : (fgets controlMessageBufferSize file).1 ≠ []) :
    (fgets controlMessageBufferSize file).2.length < file.length := by
  have hle : ∀ room file, (fgetsLoop room file).2.length ≤ file.length := by
    intro room file
    induction room generalizing file with
    | zero => exact Nat.le_refl _
    | succ room ih =>
      cases file with
      | nil => exact Nat.le_refl _
      | cons c file =>
        rw [fgetsLoop]
        have hrest := ih file
        split_ifs
        · exact Nat.le_succ _
        · exact Nat.le_succ_of_le hrest
  cases file with
  | nil => exact absurd rfl h
  | cons c file =>
    change (fgetsLoop 4095 (c :: file)).2.length < _
    rw [fgetsLoop]
    have hrest := hle 4094 file
    split_ifs
    · exact Nat.lt_succ_self _
    · exact Nat.lt_succ_of_le hrest

/-- The strings that the calls of `fgets` read one after the other, until it gives `NULL`. -/
def fgetsLines (file : List UInt8) : List (List UInt8) :=
  if _ : (fgets controlMessageBufferSize file).1 = [] then []
  else (fgets controlMessageBufferSize file).1 :: fgetsLines (fgets controlMessageBufferSize file).2
termination_by file.length
decreasing_by exact fgets_shorter ‹_›

/-- The 26 letters and the NUL of the string literal. -/
def charset : List UInt8 := (List.range 26).map (fun k => UInt8.ofNat (65 + k)) ++ [0]

/-- `rand() % sizeof(charset) - 1`, a `size_t` that is stored in an `int`. -/
def charIdx (rand : Nat) : Int := (UInt64.ofNat rand % 27 - 1).toUInt32.toInt32.toInt

/-- `charset[char_idx]`; undefined outside the array. -/
def charsetAt (charIdx : Int) : Option UInt8 := if 0 ≤ charIdx then charset[charIdx.toNat]? else none

/-- What the C library gives in a round of the loop: the sizes of which `malloc` has a block, and
what `rand()` returns. -/
structure Library where
  malloc : UInt64 → Bool
  rand : Nat

/-- The block that `generate_random_value` allocates and fills. The result of `malloc` is not
tested: `memset` writes through it, and neither that nor a letter from outside the array is
defined. -/
def generateRandomValue (l : Library) (valueLength : UInt64) : Option (List UInt8) :=
  if l.malloc valueLength then (charsetAt (charIdx l.rand)).map (List.replicate valueLength.toNat)
  else none

/-- `SET "%[^"]" %zu`. -/
def setFormat : List Directive :=
  literal [83, 69, 84] ++ [.blanks, .char 34, .upTo 34, .char 34, .blanks, .size]

/-- `GET "%[^"]"`. -/
def getFormat : List Directive := literal [71, 69, 84] ++ [.blanks, .char 34, .upTo 34, .char 34]

/-- `PRINT %[^\n]`. -/
def printFormat : List Directive := literal [80, 82, 73, 78, 84] ++ [.blanks, .upTo 10]

/-- What the loop does with a line: a call of `kv_set` with the value that was made for the
length, a call of `kv_get`, a text that is printed, or the report of a problem. Where no value
could be made, the code from there on is undefined. -/
inductive Event where
  | kvSet (key : List UInt8) (valueLength : UInt64) (value : Option (List UInt8))
  | kvGet (key : List UInt8)
  | print (text : List UInt8)
  | report
  deriving DecidableEq

def storedKey (key : List UInt8) : List Field → List UInt8
  | .text s :: _ => s
  | .size _ :: _ | [] => key

/-- What the call stores in `value_length`; it is read only where two fields were stored. -/
def storedLength : List Field → UInt64
  | _ :: .size n :: _ => n
  | _ :: .text _ :: _ | [_] | [] => 0

/-- The body of the loop of `execute_input_command`: what happens, and what it leaves in `key`. -/
def executeLine (l : Library) (key line : List UInt8) : Event × List UInt8 :=
  let scannedSet := sscanf setFormat line
  let key := storedKey key scannedSet.1
  if result scannedSet = 2 then
    (.kvSet key (storedLength scannedSet.1) (generateRandomValue l (storedLength scannedSet.1)), key)
  else
    let scannedGet := sscanf getFormat line
    let key := storedKey key scannedGet.1
    if result scannedGet = 1 then (.kvGet key, key)
    else
      let scannedPrint := sscanf printFormat line
      let key := storedKey key scannedPrint.1
      if result scannedPrint ≠ 0 then (.print key, key) else (.report, key)

/-- The rounds of the loop. `sscanf` reads a line up to its first NUL. -/
def executeLines (rounds : Nat → Library) : Nat → List UInt8 → List (List UInt8) → List Event
  | _, _, [] => []
  | i, key, line :: lines =>
    (executeLine (rounds i) key (line.takeWhile (· ≠ 0))).1 ::
      executeLines rounds (i + 1) (executeLine (rounds i) key (line.takeWhile (· ≠ 0))).2 lines

/-- `execute_input_command` on a file. `key` is what the buffer held before. -/
def executeInputCommand (rounds : Nat → Library) (key file : List UInt8) : List Event :=
  executeLines rounds 0 key (fgetsLines file)

def fileLines : List UInt8 → List (List UInt8)
  | [] => []
  | c :: file =>
    if c = 10 then [c] :: fileLines file
    else match fileLines file with
      | [] => [[c]]
      | line :: lines => (c :: line) :: lines

/-- What the three formats say of a line. The value of a set is a block of the length that the
line names. -/
inductive Means (line : List UInt8) : Event → Prop
  | kvSet {k rest block : List UInt8} {n : UInt64} (h : Reading setFormat line [.text k, .size n] rest)
      (hblock : block.length = n.toNat) : Means line (.kvSet k n (some block))
  | kvGet {k rest : List UInt8} (h : Reading getFormat line [.text k] rest) : Means line (.kvGet k)
  | print {text rest : List UInt8} (h : Reading printFormat line [.text text] rest) :
    Means line (.print text)
  | report (hset : ∀ fields rest, ¬ Reading setFormat line fields rest)
      (hget : ∀ fields rest, ¬ Reading getFormat line fields rest)
      (hprint : ∀ fields rest, ¬ Reading printFormat line fields rest) : Means line .report

/-- `GET` and a key behind an opening quote that nothing closes. -/
def Unclosed (line : List UInt8) : Prop :=
  ∃ blanks key, line = [71, 69, 84] ++ (blanks ++ 34 :: key) ∧ (∀ c ∈ blanks, IsSpace c) ∧ key ≠ [] ∧
    34 ∉ key

/-- `PRINT` or a beginning of it, with nothing but white space behind. -/
def Exhausted (line : List UInt8) : Prop :=
  line <+: [80, 82, 73, 78, 84] ∨
    ∃ blanks, line = [80, 82, 73, 78, 84] ++ blanks ∧ ∀ c ∈ blanks, IsSpace c

/-- Where the line is a set, there is a block of its length, and a letter to fill it with. -/
def Generated (l : Library) (line : List UInt8) : Prop :=
  ∀ k n rest, Reading setFormat line [.text k, .size n] rest → l.malloc n ∧ UInt64.ofNat l.rand % 27 ≠ 0

section Letters

variable {l : Library} {n : UInt64}

theorem remainder_lt (rand : Nat) : (UInt64.ofNat rand % 27).toNat < 27 := by
  rw [UInt64.toNat_mod]
  exact Nat.mod_lt _ (by decide)

/-- The index is one below the remainder, and -1 where the remainder is 0. -/
theorem charIdx_eq (rand : Nat) : charIdx rand = ((UInt64.ofNat rand % 27).toNat : Int) - 1 := by
  have hall : ∀ m < 27, (UInt64.ofNat m - 1).toUInt32.toInt32.toInt = (m : Int) - 1 := by decide
  have hm := hall _ (remainder_lt rand)
  rw [UInt64.ofNat_toNat] at hm
  exact hm

theorem generateRandomValue_letters {block : List UInt8} (h : generateRandomValue l n = some block) :
    ∃ letter ∈ charset, letter ≠ 0 ∧ block = List.replicate n.toNat letter := by
  rw [generateRandomValue] at h
  split_ifs at h
  obtain ⟨letter, hletter, rfl⟩ := Option.map_eq_some_iff.mp h
  have hidx := charIdx_eq l.rand
  have hlt := remainder_lt l.rand
  rw [charsetAt] at hletter
  split_ifs at hletter with hpos
  have hsmall : (charIdx l.rand).toNat < 26 := by omega
  have hletters : ∀ i < 26, charset[i]? ≠ some 0 := by decide
  exact ⟨letter, List.mem_of_getElem? hletter, fun h0 => hletters _ hsmall (h0 ▸ hletter), rfl⟩

theorem generateRandomValue_length {block : List UInt8} (h : generateRandomValue l n = some block) :
    block.length = n.toNat := by
  obtain ⟨letter, -, -, rfl⟩ := generateRandomValue_letters h
  exact List.length_replicate

theorem charsetAt_isSome (rand : Nat) :
    (charsetAt (charIdx rand)).isSome ↔ UInt64.ofNat rand % 27 ≠ 0 := by
  have hlt := remainder_lt rand
  have hzero : UInt64.ofNat rand % 27 = 0 ↔ (UInt64.ofNat rand % 27).toNat = 0 := UInt64.toNat_inj.symm
  rw [charIdx_eq, charsetAt, ne_eq, hzero]
  split_ifs with hpos
  · rw [List.getElem?_eq_getElem (by rw [show charset.length = 27 from rfl]; omega)]
    exact iff_of_true rfl (by omega)
  · exact iff_of_false Bool.false_ne_true (by omega)

theorem generateRandomValue_isSome :
    (generateRandomValue l n).isSome ↔ l.malloc n ∧ UInt64.ofNat l.rand % 27 ≠ 0 := by
  rw [generateRandomValue]
  split_ifs with hmalloc
  · rw [Option.isSome_map, charsetAt_isSome]
    exact ⟨fun h => ⟨hmalloc, h⟩, fun h => h.2⟩
  · exact iff_of_false Bool.false_ne_true (fun h => hmalloc h.1)

end Letters

section Formats

variable {line rest : List UInt8} {fields : List Field}

theorem reading_set (h : Reading setFormat line fields rest) :
    [83, 69, 84] <+: line ∧ ∃ k n, fields = [.text k, .size n] := by
  obtain ⟨_, rfl, h₁⟩ := reading_literal.mp h
  obtain ⟨_, _, _, _, rfl, ⟨-, -, rfl⟩, h₂, rfl⟩ := reading_cons.mp h₁
  obtain ⟨_, _, _, _, rfl, ⟨-, rfl⟩, h₃, rfl⟩ := reading_cons.mp h₂
  obtain ⟨k, _, _, _, rfl, ⟨-, -, -, rfl⟩, h₄, rfl⟩ := reading_cons.mp h₃
  obtain ⟨_, _, _, _, rfl, ⟨-, rfl⟩, h₅, rfl⟩ := reading_cons.mp h₄
  obtain ⟨_, _, _, _, rfl, ⟨-, -, rfl⟩, h₆, rfl⟩ := reading_cons.mp h₅
  obtain ⟨_, _, _, _, rfl, ⟨_, _, _, -, -, -, -, -, -, rfl⟩, h₇, rfl⟩ := reading_cons.mp h₆
  obtain ⟨rfl, rfl⟩ := reading_nil.mp h₇
  exact ⟨List.prefix_append _ _, k, _, rfl⟩

def openFormat : List Directive := literal [71, 69, 84] ++ [.blanks, .char 34, .upTo 34]

theorem reading_open (h : Reading openFormat line fields rest) :
    ∃ blanks k, line = [71, 69, 84] ++ (blanks ++ 34 :: (k ++ rest)) ∧ (∀ c ∈ blanks, IsSpace c) ∧ k ≠ [] ∧
      34 ∉ k ∧ (∀ b ∈ rest.head?, b = 34) ∧ fields = [.text k] := by
  obtain ⟨_, rfl, h₁⟩ := reading_literal.mp h
  obtain ⟨blanks, _, _, _, rfl, ⟨hblanks, -, rfl⟩, h₂, rfl⟩ := reading_cons.mp h₁
  obtain ⟨_, _, _, _, rfl, ⟨rfl, rfl⟩, h₃, rfl⟩ := reading_cons.mp h₂
  obtain ⟨k, _, _, _, rfl, ⟨hne, hk, hrest, rfl⟩, h₄, rfl⟩ := reading_cons.mp h₃
  obtain ⟨rfl, rfl⟩ := reading_nil.mp h₄
  exact ⟨blanks, k, rfl, hblanks, hne, fun hq => hk 34 hq rfl, hrest, rfl⟩

theorem reading_open_of {blanks k : List UInt8} (hblanks : ∀ c ∈ blanks, IsSpace c) (hne : k ≠ [])
    (hk : 34 ∉ k) (hrest : ∀ b ∈ rest.head?, b = 34) :
    Reading openFormat ([71, 69, 84] ++ (blanks ++ 34 :: (k ++ rest))) [.text k] rest := by
  refine reading_literal.mpr ⟨_, rfl, ?_⟩
  refine reading_cons.mpr ⟨blanks, _, [], [.text k], rfl, ⟨hblanks, ?_, rfl⟩, ?_, rfl⟩
  · intro c hc
    obtain rfl : 34 = c := Option.some.inj hc
    decide
  · refine reading_cons.mpr ⟨[34], _, [], [.text k], rfl, ⟨rfl, rfl⟩, ?_, rfl⟩
    refine reading_cons.mpr ⟨k, rest, [.text k], [], rfl, ⟨hne, ?_, hrest, rfl⟩, .done rest, rfl⟩
    exact fun b hb hq => hk (hq ▸ hb)

theorem reading_get_iff :
    Reading getFormat line fields rest ↔ Reading openFormat line fields (34 :: rest) := by
  rw [show getFormat = openFormat ++ [.char 34] from rfl, reading_append]
  constructor
  · rintro ⟨mid, fs, more, h, hquote, rfl⟩
    obtain ⟨_, _, _, _, rfl, ⟨rfl, rfl⟩, hnil, rfl⟩ := reading_cons.mp hquote
    obtain ⟨rfl, rfl⟩ := reading_nil.mp hnil
    rw [List.append_nil]
    exact h
  · intro h
    exact ⟨_, fields, [], h, reading_cons.mpr ⟨[34], rest, [], [], rfl, ⟨rfl, rfl⟩, .done rest, rfl⟩,
      (List.append_nil _).symm⟩

theorem unclosed_iff : Unclosed line ↔ ∃ k, Reading openFormat line [.text k] [] := by
  constructor
  · rintro ⟨blanks, k, rfl, hblanks, hne, hk⟩
    have h : Reading openFormat ([71, 69, 84] ++ (blanks ++ 34 :: (k ++ []))) [.text k] [] :=
      reading_open_of hblanks hne hk (by simp)
    rw [List.append_nil] at h
    exact ⟨k, h⟩
  · rintro ⟨k, h⟩
    obtain ⟨blanks, k', rfl, hblanks, hne, hk, -, -⟩ := reading_open h
    rw [List.append_nil]
    exact ⟨blanks, k', rfl, hblanks, hne, hk⟩

theorem result_set_iff : result (sscanf setFormat line) = 2 ↔
    ∃ k n rest, sscanf setFormat line = ([.text k, .size n], .done rest) := by
  have hresult := @result_eq_iff line setFormat (by simp [setFormat, literal, EndsConverting, conversions])
    (List.append_ne_nil_of_right_ne_nil _ (List.cons_ne_nil _ _))
  constructor
  · intro h
    obtain ⟨rest, hread⟩ := hresult.mp h
    obtain ⟨-, k, n, hfields⟩ := reading_set hread
    rw [hfields] at hread
    exact ⟨k, n, rest, reading_iff.mp hread⟩
  · rintro ⟨k, n, rest, hdone⟩
    rw [hdone]
    rfl

theorem result_get_iff : result (sscanf getFormat line) = 1 ↔
    ∃ k rest, (sscanf getFormat line).1 = [.text k] ∧ Reading openFormat line [.text k] rest := by
  have hfields : (sscanf getFormat line).1 = (sscanf openFormat line).1 :=
    sscanf_snoc_char openFormat 34 line
  have hresult := @result_eq_iff line openFormat
    (by simp [openFormat, literal, EndsConverting, conversions])
    (List.append_ne_nil_of_right_ne_nil _ (List.cons_ne_nil _ _))
  have hsame : result (sscanf getFormat line) = 1 ↔ result (sscanf openFormat line) = 1 := by
    have hget := result_eq_succ (sscanf getFormat line) 0
    have hopen := result_eq_succ (sscanf openFormat line) 0
    rw [hfields] at hget
    exact hget.trans hopen.symm
  rw [hsame, hfields]
  constructor
  · intro h
    obtain ⟨rest, hread⟩ := hresult.mp h
    obtain ⟨_, k, -, -, -, -, -, hk⟩ := reading_open hread
    exact ⟨k, rest, hk, hk ▸ hread⟩
  · rintro ⟨k, rest, -, hread⟩
    rw [reading_iff.mp hread]
    rfl

theorem exhausted_print {mid : List UInt8} :
    Exhausted ([80, 82, 73, 78, 84] ++ mid) ↔ skipSpaces mid = [] := by
  rw [skipSpaces, List.dropWhile_eq_nil_iff]
  simp only [decide_eq_true_eq]
  constructor
  · rintro (hp | ⟨blanks, heq, hblanks⟩)
    · have hlen := hp.length_le
      rw [List.length_append] at hlen
      obtain rfl : mid = [] := List.length_eq_zero_iff.mp (by simpa using hlen)
      exact fun c hc => absurd hc List.not_mem_nil
    · obtain rfl := List.append_cancel_left heq
      exact hblanks
  · exact fun hblanks => .inr ⟨mid, rfl, hblanks⟩

theorem scan_print (line : List UInt8) :
    (∃ text rest, sscanf printFormat line = ([.text text], .done rest) ∧ ¬ Exhausted line) ∨
      (sscanf printFormat line = ([], .ended) ∧ Exhausted line) ∨
      (sscanf printFormat line = ([], .mismatch) ∧ ¬ Exhausted line) := by
  by_cases hw : [80, 82, 73, 78, 84] <+: line
  · obtain ⟨mid, rfl⟩ := hw
    rw [exhausted_print, printFormat, sscanf_literal]
    by_cases hblank : skipSpaces mid = []
    · exact .inr (.inl ⟨by simp [sscanf, Directive.scan, hblank], hblank⟩)
    · have htext : (skipSpaces mid).takeWhile (· ≠ 10) ≠ [] := by
        have hhead := head_dropWhile (fun c => IsSpace c) mid
        rw [← skipSpaces] at hhead
        cases hmid : skipSpaces mid with
        | nil => exact absurd hmid hblank
        | cons c cs =>
          have hc : ¬ IsSpace c := by simpa using hhead c (by rw [hmid]; rfl)
          have hne : c ≠ 10 := fun h10 => hc (by rw [h10]; decide)
          rw [List.takeWhile_cons_of_pos (by simpa using hne)]
          exact List.cons_ne_nil _ _
      refine .inl ⟨(skipSpaces mid).takeWhile (· ≠ 10), (skipSpaces mid).dropWhile (· ≠ 10), ?_, hblank⟩
      have hscan : (Directive.upTo 10).scan (skipSpaces mid) =
          .read [.text ((skipSpaces mid).takeWhile (· ≠ 10))] ((skipSpaces mid).dropWhile (· ≠ 10)) := by
        rw [Directive.scan, if_neg hblank, if_neg htext]
      have hupTo : sscanf [.upTo 10] (skipSpaces mid) =
          ([.text ((skipSpaces mid).takeWhile (· ≠ 10))],
            .done ((skipSpaces mid).dropWhile (· ≠ 10))) := by
        simp only [sscanf, hscan, List.append_nil]
      exact hupTo
  · obtain ⟨hnone, hended⟩ := sscanf_not_literal hw [.blanks, .upTo 10]
    have hexhausted : Exhausted line ↔ line <+: [80, 82, 73, 78, 84] := by
      refine ⟨fun h => h.resolve_right ?_, .inl⟩
      rintro ⟨blanks, rfl, -⟩
      exact hw (List.prefix_append _ _)
    rw [← printFormat] at hnone hended
    rw [hexhausted, ← hended]
    cases hscan : sscanf printFormat line with
    | mk fields stop =>
      rw [hscan] at hnone
      obtain rfl : fields = [] := hnone
      cases stop with
      | done rest =>
        have hread := reading_iff.mpr hscan
        obtain ⟨mid, rfl, -⟩ := reading_literal.mp hread
        exact absurd (List.prefix_append _ _) hw
      | mismatch => exact .inr (.inr ⟨rfl, by simp⟩)
      | ended => exact .inr (.inl ⟨rfl, rfl⟩)

theorem not_exhausted {line word : List UInt8} {c : UInt8} (hc : c ≠ 80) (hw : c :: word <+: line) :
    ¬ Exhausted line := by
  obtain ⟨t, rfl⟩ := hw
  rintro (hp | ⟨blanks, heq, -⟩)
  · exact hc (List.cons_prefix_cons.mp hp).1
  · exact hc (List.cons.inj heq).1

theorem generated_of_ne {l : Library} (hset : result (sscanf setFormat line) ≠ 2) : Generated l line :=
  fun k n rest h => absurd (result_set_iff.mpr ⟨k, n, rest, reading_iff.mp h⟩) hset

variable {key : List UInt8} {l : Library}

theorem means_set_iff (hset : result (sscanf setFormat line) = 2) :
    Means line (executeLine l key line).1 ↔ ¬ Unclosed line ∧ ¬ Exhausted line ∧ Generated l line := by
  obtain ⟨k, n, rest, hdone⟩ := result_set_iff.mp hset
  have hread := reading_iff.mpr hdone
  have hevent : (executeLine l key line).1 = .kvSet k n (generateRandomValue l n) := by
    rw [executeLine, if_pos hset, hdone]
    rfl
  have hunclosed : ¬ Unclosed line := by
    obtain ⟨⟨t, rfl⟩, -⟩ := reading_set hread
    rintro ⟨blanks, k, heq, -⟩
    cases heq
  have hexhausted : ¬ Exhausted line := not_exhausted (by decide) (reading_set hread).1
  rw [hevent]
  constructor
  · intro h
    refine ⟨hunclosed, hexhausted, ?_⟩
    generalize hvalue : generateRandomValue l n = value at h
    intro k' n' rest' hread'
    obtain ⟨⟨-, hn⟩, -⟩ : (k = k' ∧ n = n') ∧ rest = rest' := by
      have heq := hdone.symm.trans (reading_iff.mp hread')
      simpa using heq
    subst hn
    cases h with
    | kvSet h hblock => exact generateRandomValue_isSome.mp (Option.isSome_iff_exists.mpr ⟨_, hvalue⟩)
  · rintro ⟨-, -, h⟩
    obtain ⟨block, hblock⟩ :=
      Option.isSome_iff_exists.mp (generateRandomValue_isSome.mpr (h k n rest hread))
    rw [hblock]
    exact .kvSet hread (generateRandomValue_length hblock)

theorem means_get_iff (hset : result (sscanf setFormat line) ≠ 2)
    (hget : result (sscanf getFormat line) = 1) :
    Means line (executeLine l key line).1 ↔ ¬ Unclosed line ∧ ¬ Exhausted line ∧ Generated l line := by
  obtain ⟨k, rest, hfields, hopen⟩ := result_get_iff.mp hget
  have hevent : (executeLine l key line).1 = .kvGet k := by
    rw [executeLine, if_neg hset]
    simp only [hget, ↓reduceIte, hfields, storedKey]
  have hexhausted : ¬ Exhausted line := by
    obtain ⟨_, _, rfl, -⟩ := reading_open hopen
    exact not_exhausted (by decide) (List.prefix_append _ _)
  rw [hevent]
  constructor
  · intro h
    refine ⟨fun hu => ?_, hexhausted, generated_of_ne hset⟩
    obtain ⟨k', hnothing⟩ := unclosed_iff.mp hu
    cases h with
    | kvGet h =>
      have hquote := reading_iff.mp (reading_get_iff.mp h)
      rw [reading_iff.mp hnothing] at hquote
      cases hquote
  · rintro ⟨hu, -⟩
    obtain ⟨_, _, -, -, -, -, hrest, -⟩ := reading_open hopen
    cases rest with
    | nil => exact absurd (unclosed_iff.mpr ⟨k, hopen⟩) hu
    | cons b rest =>
      obtain rfl := hrest b rfl
      exact .kvGet (reading_get_iff.mpr hopen)

theorem not_unclosed (hget : result (sscanf getFormat line) ≠ 1) : ¬ Unclosed line := by
  intro hu
  obtain ⟨k, hopen⟩ := unclosed_iff.mp hu
  refine hget (result_get_iff.mpr ⟨k, [], ?_, hopen⟩)
  rw [show getFormat = openFormat ++ [.char 34] from rfl, sscanf_snoc_char, reading_iff.mp hopen]

theorem means_report (hset : result (sscanf setFormat line) ≠ 2)
    (hget : result (sscanf getFormat line) ≠ 1) (hprint : sscanf printFormat line = ([], .mismatch)) :
    Means line .report := by
  refine .report ?_ ?_ ?_
  · intro fields rest h
    obtain ⟨-, k, n, rfl⟩ := reading_set h
    exact hset (result_set_iff.mpr ⟨k, n, rest, reading_iff.mp h⟩)
  · intro fields rest h
    have hopen := reading_get_iff.mp h
    obtain ⟨_, k, -, -, -, -, -, rfl⟩ := reading_open hopen
    have hfields := congrArg Prod.fst (reading_iff.mp h)
    exact hget (result_get_iff.mpr ⟨k, 34 :: rest, hfields, hopen⟩)
  · intro fields rest h
    rw [reading_iff.mp h] at hprint
    cases hprint

theorem means_print_iff (hset : result (sscanf setFormat line) ≠ 2)
    (hget : result (sscanf getFormat line) ≠ 1) :
    Means line (executeLine l key line).1 ↔ ¬ Unclosed line ∧ ¬ Exhausted line ∧ Generated l line := by
  have hunclosed := not_unclosed hget
  have hevent : (executeLine l key line).1 = if result (sscanf printFormat line) ≠ 0 then
      .print (storedKey (storedKey (storedKey key (sscanf setFormat line).1) (sscanf getFormat line).1)
        (sscanf printFormat line).1) else .report := by
    rw [executeLine, if_neg hset]
    simp only [hget, ↓reduceIte]
    split_ifs <;> rfl
  rw [hevent]
  obtain ⟨text, rest, hscan, hno⟩ | ⟨hscan, hyes⟩ | ⟨hscan, hno⟩ := scan_print line
  · rw [hscan]
    exact iff_of_true (.print (reading_iff.mpr hscan)) ⟨hunclosed, hno, generated_of_ne hset⟩
  · rw [hscan]
    refine iff_of_false (fun h => ?_) (fun h => h.2.1 hyes)
    -- what is printed then is what an earlier line left in the buffer
    cases h with
    | print h =>
      rw [reading_iff.mp h] at hscan
      cases hscan
  · have hreport := means_report hset hget hscan
    rw [hscan]
    exact iff_of_true hreport ⟨hunclosed, hno, generated_of_ne hset⟩

/-- A round does what its line means, but for a key that is not closed, a text that is not there
and a value that cannot be made. -/
theorem executeLine_means (l : Library) (key line : List UInt8) :
    Means line (executeLine l key line).1 ↔ ¬ Unclosed line ∧ ¬ Exhausted line ∧ Generated l line := by
  by_cases hset : result (sscanf setFormat line) = 2
  · exact means_set_iff hset
  · by_cases hget : result (sscanf getFormat line) = 1
    · exact means_get_iff hset hget
    · exact means_print_iff hset hget

end Formats

section Lines

variable {file line : List UInt8} {lines : List (List UInt8)}

theorem fileLines_flatten (file : List UInt8) : (fileLines file).flatten = file := by
  induction file with
  | nil => rfl
  | cons c file ih =>
    rw [fileLines]
    split_ifs with hc
    · rw [List.flatten_cons, ih]
      rfl
    · cases hlines : fileLines file with
      | nil =>
        rw [hlines] at ih
        rw [← ih]
        rfl
      | cons line lines =>
        rw [hlines] at ih
        rw [← ih]
        rfl

theorem fileLines_cons {c : UInt8} (h : fileLines (c :: file) = line :: lines) :
    (c = 10 ∧ line = [c] ∧ fileLines file = lines) ∨
      (c ≠ 10 ∧ file = [] ∧ line = [c] ∧ lines = []) ∨
      (c ≠ 10 ∧ ∃ more, fileLines file = more :: lines ∧ line = c :: more) := by
  rw [fileLines] at h
  split_ifs at h with hc
  · cases h
    exact .inl ⟨hc, rfl, rfl⟩
  · cases hlines : fileLines file with
    | nil =>
      rw [hlines] at h
      cases h
      have hfile := fileLines_flatten file
      rw [hlines] at hfile
      exact .inr (.inl ⟨hc, hfile.symm, rfl, rfl⟩)
    | cons more rest =>
      rw [hlines] at h
      cases h
      exact .inr (.inr ⟨hc, more, rfl, rfl⟩)

theorem fgetsLoop_short {room : Nat} (h : fileLines file = line :: lines) (hl : line.length ≤ room) :
    (fgetsLoop room file).1 = line ∧ fileLines (fgetsLoop room file).2 = lines := by
  induction room generalizing file line with
  | zero =>
    cases file with
    | nil => cases h
    | cons c file =>
      obtain ⟨-, rfl, -⟩ | ⟨-, -, rfl, -⟩ | ⟨-, _, -, rfl⟩ := fileLines_cons h <;> simp at hl
  | succ room ih =>
    cases file with
    | nil => cases h
    | cons c file =>
      rw [fgetsLoop]
      obtain ⟨hc, rfl, rfl⟩ | ⟨hc, rfl, rfl, rfl⟩ | ⟨hc, more, hmore, rfl⟩ := fileLines_cons h
      · rw [if_pos hc]
        exact ⟨rfl, rfl⟩
      · rw [if_neg hc]
        cases room <;> exact ⟨rfl, rfl⟩
      · rw [if_neg hc]
        obtain ⟨hline, hrest⟩ := ih hmore (by simpa using hl)
        exact ⟨congrArg (c :: ·) hline, hrest⟩

theorem fgetsLoop_long {room : Nat} (h : fileLines file = line :: lines) (hl : room < line.length) :
    fileLines (fgetsLoop room file).2 = line.drop room :: lines := by
  induction room generalizing file line with
  | zero => exact h
  | succ room ih =>
    cases file with
    | nil => cases h
    | cons c file =>
      rw [fgetsLoop]
      obtain ⟨-, rfl, -⟩ | ⟨-, -, rfl, -⟩ | ⟨hc, more, hmore, rfl⟩ := fileLines_cons h
      · simp at hl
      · simp at hl
      · rw [if_neg hc]
        exact ih hmore (by simpa using hl)

theorem fileLines_of_fgets (h : (fgets controlMessageBufferSize file).1 ≠ []) :
    ∃ line lines, fileLines file = line :: lines := by
  cases hlines : fileLines file with
  | nil =>
    have hfile := fileLines_flatten file
    rw [hlines] at hfile
    rw [← hfile] at h
    exact absurd rfl h
  | cons line lines => exact ⟨line, lines, rfl⟩

theorem fileLines_nil (h : (fgets controlMessageBufferSize file).1 = []) : fileLines file = [] := by
  cases file with
  | nil => rfl
  | cons c file =>
    change (fgetsLoop 4095 (c :: file)).1 = [] at h
    rw [fgetsLoop] at h
    split_ifs at h

theorem fgetsLines_short (file : List UInt8)
    (h : ∀ line ∈ fileLines file, line.length < controlMessageBufferSize) :
    fgetsLines file = fileLines file := by
  induction file using fgetsLines.induct with
  | case1 file hnil => rw [fgetsLines, dif_pos hnil, fileLines_nil hnil]
  | case2 file hne ih =>
    obtain ⟨line, lines, hlines⟩ := fileLines_of_fgets hne
    have hroom := h line (by rw [hlines]; exact List.mem_cons_self ..)
    obtain ⟨hline, hrest⟩ := fgetsLoop_short hlines (Nat.le_sub_one_of_lt hroom)
    rw [fgets, hrest] at ih
    rw [fgetsLines, dif_neg hne, fgets, hline, hlines, ih (fun l hl => h l ?_)]
    rw [hlines]
    exact List.mem_cons_of_mem _ hl

theorem fgetsLines_length (file : List UInt8) : (fileLines file).length ≤ (fgetsLines file).length ∧
    ((∃ line ∈ fileLines file, controlMessageBufferSize ≤ line.length) →
      (fileLines file).length < (fgetsLines file).length) := by
  induction file using fgetsLines.induct with
  | case1 file hnil =>
    rw [fileLines_nil hnil]
    exact ⟨Nat.zero_le _, fun ⟨_, hl, _⟩ => absurd hl List.not_mem_nil⟩
  | case2 file hne ih =>
    obtain ⟨line, lines, hlines⟩ := fileLines_of_fgets hne
    rw [fgetsLines, dif_neg hne, hlines, List.length_cons, List.length_cons]
    by_cases hroom : line.length < controlMessageBufferSize
    · obtain ⟨-, hrest⟩ := fgetsLoop_short hlines (Nat.le_sub_one_of_lt hroom)
      rw [fgets, hrest] at ih
      refine ⟨Nat.succ_le_succ ih.1, ?_⟩
      rintro ⟨l, hl, hlong⟩
      cases List.mem_cons.mp hl with
      | inl heq => exact absurd (heq ▸ hroom) (Nat.not_lt.mpr hlong)
      | inr hl => exact Nat.succ_lt_succ (ih.2 ⟨l, hl, hlong⟩)
    · have hsize : controlMessageBufferSize = 4096 := rfl
      have hrest := @fgetsLoop_long file line lines (controlMessageBufferSize - 1) hlines (by omega)
      rw [fgets, hrest, List.length_cons] at ih
      have hmore : lines.length + 1 < (fgetsLines (fgets controlMessageBufferSize file).2).length + 1 :=
        Nat.succ_lt_succ ih.1
      exact ⟨Nat.le_of_lt hmore, fun _ => hmore⟩

end Lines

/-- A script: no text file holds a NUL. -/
structure InputFile where
  bytes : List UInt8
  nulFree : 0 ∉ bytes

theorem executeLines_means (rounds : Nat → Library) {lines : List (List UInt8)}
    (hnul : ∀ line ∈ lines, 0 ∉ line) (i : Nat) (key : List UInt8) :
    List.Forall₂ Means lines (executeLines rounds i key lines) ↔ ∀ j line, lines[j]? = some line →
      ¬ Unclosed line ∧ ¬ Exhausted line ∧ Generated (rounds (i + j)) line := by
  induction lines generalizing i key with
  | nil => exact iff_of_true .nil (fun _ _ h => by cases h)
  | cons line lines ih =>
    have hline : line.takeWhile (· ≠ 0) = line := by
      refine List.takeWhile_eq_self_iff.mpr (fun c hc => decide_eq_true ?_)
      exact fun h0 => hnul line (List.mem_cons_self ..) (h0 ▸ hc)
    rw [executeLines, List.forall₂_cons, hline, executeLine_means,
      ih (fun l hl => hnul l (List.mem_cons_of_mem _ hl))]
    constructor
    · rintro ⟨hhead, htail⟩ j l hl
      cases j with
      | zero =>
        cases hl
        exact hhead
      | succ j =>
        have hj := htail j l hl
        rw [Nat.add_right_comm] at hj
        exact hj
    · intro h
      refine ⟨h 0 line rfl, fun j l hl => ?_⟩
      have hj := h (j + 1) l hl
      rw [← Nat.add_assoc, Nat.add_right_comm] at hj
      exact hj

/-- A script runs line by line exactly where each of its lines has room in the buffer, closes
the key of its `GET`, and has a text behind its `PRINT`, and a value can be made for each of its
`SET` in the round of its line. -/
theorem script_line_by_line_iff (rounds : Nat → Library) (key : List UInt8) (file : InputFile) :
    List.Forall₂ Means (fileLines file.bytes) (executeInputCommand rounds key file.bytes) ↔
      ∀ i line, (fileLines file.bytes)[i]? = some line →
        line.length < controlMessageBufferSize ∧ ¬ Unclosed line ∧ ¬ Exhausted line ∧
          Generated (rounds i) line := by
  have hnul : ∀ line ∈ fileLines file.bytes, 0 ∉ line := by
    intro line hline h0
    apply file.nulFree
    rw [← fileLines_flatten file.bytes]
    exact List.mem_flatten_of_mem hline h0
  have hrounds : ∀ lines i key, (executeLines rounds i key lines).length = lines.length := by
    intro lines
    induction lines with
    | nil => exact fun _ _ => rfl
    | cons line lines ih => exact fun i key => congrArg (· + 1) (ih (i + 1) _)
  by_cases hshort : ∀ line ∈ fileLines file.bytes, line.length < controlMessageBufferSize
  · rw [executeInputCommand, fgetsLines_short _ hshort, executeLines_means rounds hnul]
    simp only [Nat.zero_add]
    constructor
    · exact fun h i line hl => ⟨hshort line (List.mem_of_getElem? hl), h i line hl⟩
    · exact fun h i line hl => (h i line hl).2
  · refine iff_of_false (fun h => ?_) (fun h => hshort (fun line hl => ?_))
    · obtain ⟨line, hline⟩ := not_forall.mp hshort
      obtain ⟨hmem, hlong⟩ := Classical.not_imp.mp hline
      have hmore := (fgetsLines_length file.bytes).2 ⟨line, hmem, Nat.not_lt.mp hlong⟩
      have hlength := h.length_eq
      rw [executeInputCommand, hrounds] at hlength
      omega
    · obtain ⟨i, hi⟩ := List.mem_iff_getElem?.mp hl
      exact (h i line hi).1

/-- The script `GET "a` of one line calls `kv_get` with the rest of the line as the key. -/
theorem key_not_closed : ¬ ∀ rounds key, List.Forall₂ Means (fileLines [71, 69, 84, 32, 34, 97, 10])
    (executeInputCommand rounds key [71, 69, 84, 32, 34, 97, 10]) := by
  intro hall
  have hlines : fileLines [71, 69, 84, 32, 34, 97, 10] = [[71, 69, 84, 32, 34, 97, 10]] := by decide
  have hshort : fgetsLines [71, 69, 84, 32, 34, 97, 10] = [[71, 69, 84, 32, 34, 97, 10]] := by
    rw [fgetsLines_short _ (by rw [hlines]; decide), hlines]
  have hevents := hall (fun _ => ⟨fun _ => true, 1⟩) []
  rw [executeInputCommand, hshort, hlines, executeLines_means _ (by decide)] at hevents
  exact (hevents 0 _ rfl).1
    ⟨[32], [97, 10], rfl, by simp [IsSpace], List.cons_ne_nil _ _, by simp⟩

section Values

variable {key file k : List UInt8} {n : UInt64} {value : Option (List UInt8)} {l : Library}
  {rounds : Nat → Library}

theorem cstring_letters (letter : UInt8) (hletter : letter ≠ 0) (len : Nat) (beyond : List UInt8) :
    cstring (List.replicate len letter ++ beyond) =
    (cstring beyond).map (List.replicate len letter ++ ·) := by
  induction len with
  | zero => simp
  | succ len ih =>
    rw [List.replicate_succ, List.cons_append, cstring, if_neg hletter, ih, Option.map_map]
    rfl

theorem strlen_beyond {block : List UInt8} (h : generateRandomValue l n = some block)
    (beyond : List UInt8) : strlen (block ++ beyond) = (strlen beyond).map (n.toNat + ·) := by
  obtain ⟨letter, -, hletter, rfl⟩ := generateRandomValue_letters h
  rw [strlen, cstring_letters letter hletter, strlen, Option.map_map, Option.map_map]
  simp [Function.comp_def]

/-- A value that is a string inside its block, made of one letter. -/
def Terminated (value : Option (List UInt8)) : Prop :=
  ∃ block letter len, value = some block ∧ letter ∈ charset ∧ letter ≠ 0 ∧
    cstring block = some (List.replicate len letter)

/-- The values of `throughput_test` are such strings, with another letter. -/
def throughputValue (messageSize : Nat) : List UInt8 :=
  (List.replicate messageSize 97).set (messageSize - 1) 0

theorem cstring_throughputValue {messageSize : Nat} (h : 1 ≤ messageSize) :
    cstring (throughputValue messageSize) = some (List.replicate (messageSize - 1) 97) := by
  obtain ⟨len, rfl⟩ : ∃ len, messageSize = len + 1 := ⟨messageSize - 1, by omega⟩
  have hblock : throughputValue (len + 1) = List.replicate len 97 ++ [0] := by
    rw [throughputValue, List.replicate_succ', Nat.add_sub_cancel]
    simp
  rw [hblock, cstring_letters 97 (by decide)]
  simp [cstring]

theorem executeLine_value {line : List UInt8} (h : (executeLine l key line).1 = .kvSet k n value) :
    value = generateRandomValue l n := by
  rw [executeLine] at h
  dsimp only at h
  split_ifs at h
  cases h
  rfl

theorem executeLines_value {lines : List (List UInt8)} {i : Nat}
    (h : .kvSet k n value ∈ executeLines rounds i key lines) : ∃ l, value = generateRandomValue l n := by
  induction lines generalizing i key with
  | nil => exact absurd h List.not_mem_nil
  | cons line lines ih =>
    cases List.mem_cons.mp h with
    | inl heq => exact ⟨_, executeLine_value heq.symm⟩
    | inr h => exact ih h

/-- No value that a script sets is a string inside its block: either there is no block, or it is
read outside the charset, or it is letters to the end. -/
theorem scripted_value_unterminated (rounds : Nat → Library) (key file k : List UInt8) (n : UInt64)
    (value : Option (List UInt8)) (h : .kvSet k n value ∈ executeInputCommand rounds key file) :
    ¬ Terminated value := by
  rintro ⟨block, letter, len, hvalue, -, -, hstring⟩
  obtain ⟨l, hl⟩ := executeLines_value h
  obtain ⟨c, -, hc, rfl⟩ := generateRandomValue_letters (hl.symm.trans hvalue)
  have hnone := cstring_letters c hc n.toNat []
  rw [List.append_nil, hstring] at hnone
  cases hnone

end Values

theorem executeInputCommand_set :
    executeInputCommand (fun _ => ⟨fun _ => true, 1⟩) [] [83, 69, 84, 34, 97, 34, 53, 10] =
    [.kvSet [97] 5 (some [65, 65, 65, 65, 65])] := by
  have hlines : fileLines [83, 69, 84, 34, 97, 34, 53, 10] =
    [[83, 69, 84, 34, 97, 34, 53, 10]] := by decide
  rw [executeInputCommand, fgetsLines_short _ (by rw [hlines]; decide), hlines]
  decide +kernel

theorem five_letters_unterminated :
    .kvSet [97] 5 (some [65, 65, 65, 65, 65]) ∈
        executeInputCommand (fun _ => ⟨fun _ => true, 1⟩) [] [83, 69, 84, 34, 97, 34, 53, 10] ∧
      ¬ Terminated (some [65, 65, 65, 65, 65]) := by
  have hmem : .kvSet [97] 5 (some [65, 65, 65, 65, 65]) ∈
      executeInputCommand (fun _ => ⟨fun _ => true, 1⟩) [] [83, 69, 84, 34, 97, 34, 53, 10] := by
    rw [executeInputCommand_set]
    exact List.mem_singleton_self _
  exact ⟨hmem, scripted_value_unterminated _ _ _ _ _ _ hmem⟩

theorem five_letters : ¬ ∀ k n value, .kvSet k n value ∈
    executeInputCommand (fun _ => ⟨fun _ => true, 1⟩) [] [83, 69, 84, 34, 97, 34, 53, 10] →
    Terminated value := by
  intro hall
  obtain ⟨block, letter, len, hvalue, -, -, hstring⟩ := hall [97] 5 (some [65, 65, 65, 65, 65])
    (by rw [executeInputCommand_set]; exact List.mem_singleton_self _)
  cases hvalue
  have hnone : cstring [65, 65, 65, 65, 65] = none := by decide
  rw [hnone] at hstring
  cases hstring

end NetworkOptimization.Scripts
