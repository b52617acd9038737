import NetworkOptimization.Formats

namespace NetworkOptimization.Scanning

open Formats

/-- A piece of a scanning format: a character, white space, `%[^c]` or `%zu`. -/
inductive Directive where
  | char (c : UInt8)
  | blanks
  | upTo (c : UInt8)
  | size
  deriving DecidableEq

inductive Field where
  | text (s : List UInt8)
  | size (x : UInt64)
  deriving DecidableEq

def IsDigit (c : UInt8) : Prop := 48 ≤ c ∧ c ≤ 57

instance : DecidablePred IsDigit := fun c => inferInstanceAs (Decidable (48 ≤ c ∧ c ≤ 57))

/-- What a directive does with a text: it reads some of it, or the text does not match, or
it ended before the directive could read anything. -/
inductive Outcome where
  | read (fields : List Field) (rest : List UInt8)
  | mismatch
  | ended
  deriving DecidableEq

def sizeOfDigits (negative : Bool) (digits : List UInt8) : UInt64 :=
  let n := Nat.ofDigits 10 (digits.reverse.map (fun c => c.toNat - 48))
  if 2 ^ 64 ≤ n then UInt64.ofNat (2 ^ 64 - 1)
  else if negative then - UInt64.ofNat n else UInt64.ofNat n

def Directive.scan : Directive → List UInt8 → Outcome
  | .char _, [] => .ended
  | .char c, b :: rest => if b = c then .read [] rest else .mismatch
  | .blanks, text => .read [] (skipSpaces text)
  | .upTo c, text =>
    if text = [] then .ended
    else if text.takeWhile (· ≠ c) = [] then .mismatch
    else .read [.text (text.takeWhile (· ≠ c))] (text.dropWhile (· ≠ c))
  | .size, text =>
    if skipSpaces text = [] then .ended
    else
      let (negative, unsigned) := skipSign (skipSpaces text)
      if unsigned.takeWhile (fun c => IsDigit c) = [] then .mismatch
      else .read [.size (sizeOfDigits negative (unsigned.takeWhile (fun c => IsDigit c)))]
        (unsigned.dropWhile (fun c => IsDigit c))

/-- Where a format stops: behind its last directive, or at one that did not read. -/
inductive Stop where
  | done (rest : List UInt8)
  | mismatch
  | ended
  deriving DecidableEq

/-- The fields that `sscanf` stores and where it stops. -/
def sscanf : List Directive → List UInt8 → List Field × Stop
  | [], text => ([], .done text)
  | d :: ds, text => match d.scan text with
    | .read fields rest => (fields ++ (sscanf ds rest).1, (sscanf ds rest).2)
    | .mismatch => ([], .mismatch)
    | .ended => ([], .ended)

/-- What `sscanf` returns: the number of its fields, or `EOF` where the text ended before
there was one. -/
def result (scanned : List Field × Stop) : Int :=
  if scanned.1 = [] ∧ scanned.2 = .ended then -1 else scanned.1.length

/-- The texts that a directive reads: `s` before `rest` gives the fields. -/
def Directive.Reads : Directive → List UInt8 → List UInt8 → List Field → Prop
  | .char c, s, _, fields => s = [c] ∧ fields = []
  | .blanks, s, rest, fields => (∀ c ∈ s, IsSpace c) ∧ (∀ c ∈ rest.head?, ¬ IsSpace c) ∧ fields = []
  | .upTo c, s, rest, fields => s ≠ [] ∧ (∀ b ∈ s, b ≠ c) ∧ (∀ b ∈ rest.head?, b = c) ∧ fields = [.text s]
  | .size, s, rest, fields => ∃ blanks sign digits, s = blanks ++ (sign ++ digits) ∧
      (∀ c ∈ blanks, IsSpace c) ∧ (sign = [] ∨ sign = [45] ∨ sign = [43]) ∧ digits ≠ [] ∧
      (∀ c ∈ digits, IsDigit c) ∧ (∀ c ∈ rest.head?, ¬ IsDigit c) ∧
      fields = [.size (sizeOfDigits (decide (sign = [45])) digits)]

/-- The language of a format: a text that all directives read, the fields, and the rest. -/
inductive Reading : List Directive → List UInt8 → List Field → List UInt8 → Prop
  | done (rest : List UInt8) : Reading [] rest [] rest
  | next {d : Directive} {ds : List Directive} {s text rest : List UInt8} {fields more : List Field}
      (hd : d.Reads s text fields) (hds : Reading ds text more rest) :
      Reading (d :: ds) (s ++ text) (fields ++ more) rest

section Spans

variable {p : UInt8 → Bool} {s rest text : List UInt8}

theorem head_dropWhile (p : UInt8 → Bool) (text : List UInt8) :
    ∀ c ∈ (text.dropWhile p).head?, ¬ p c = true := by
  induction text with
  | nil => exact fun c hc => absurd hc (by simp)
  | cons b text ih =>
    by_cases hb : p b = true
    · rw [List.dropWhile_cons_of_pos hb]
      exact ih
    · rw [List.dropWhile_cons_of_neg hb]
      intro c hc
      obtain rfl : b = c := Option.some.inj hc
      exact hb

theorem span_append (hs : ∀ c ∈ s, p c = true) (hr : ∀ c ∈ rest.head?, ¬ p c = true) :
    (s ++ rest).takeWhile p = s ∧ (s ++ rest).dropWhile p = rest := by
  induction s with
  | nil =>
    cases rest with
    | nil => exact ⟨rfl, rfl⟩
    | cons b rest =>
      have hb := hr b rfl
      exact ⟨List.takeWhile_cons_of_neg hb, List.dropWhile_cons_of_neg hb⟩
  | cons b s ih =>
    have hb := hs b (List.mem_cons_self ..)
    obtain ⟨htake, hdrop⟩ := ih (fun c hc => hs c (List.mem_cons_of_mem _ hc))
    rw [List.cons_append, List.takeWhile_cons_of_pos hb, List.dropWhile_cons_of_pos hb, htake, hdrop]
    exact ⟨rfl, rfl⟩

theorem span_iff : ((∀ c ∈ s, p c = true) ∧ (∀ c ∈ rest.head?, ¬ p c = true) ∧ text = s ++ rest) ↔
    text.takeWhile p = s ∧ text.dropWhile p = rest := by
  constructor
  · rintro ⟨hs, hr, rfl⟩
    exact span_append hs hr
  · rintro ⟨rfl, rfl⟩
    exact ⟨fun c hc => List.mem_takeWhile_imp hc, head_dropWhile p text,
      (List.takeWhile_append_dropWhile).symm⟩

end Spans

variable {text rest : List UInt8} {fields : List Field}

theorem not_space_of_digit {c : UInt8} (hc : IsDigit c) : ¬ IsSpace c ∧ c ≠ 45 ∧ c ≠ 43 := by
  refine ⟨?_, ?_, ?_⟩
  · rintro (rfl | ⟨-, hle⟩)
    · exact absurd hc.1 (by decide)
    · exact absurd (UInt8.le_trans hc.1 hle) (by decide)
  · rintro rfl
    exact absurd hc.1 (by decide)
  · rintro rfl
    exact absurd hc.1 (by decide)

theorem skipSign_spec (text : List UInt8) : ∃ sign, text = sign ++ (skipSign text).2 ∧
    (sign = [] ∨ sign = [45] ∨ sign = [43]) ∧ (skipSign text).1 = decide (sign = [45]) := by
  cases text with
  | nil => exact ⟨[], rfl, .inl rfl, rfl⟩
  | cons c cs =>
    by_cases hm : c = 45
    · rw [skipSign, if_pos hm]
      exact ⟨[45], by rw [hm]; rfl, .inr (.inl rfl), rfl⟩
    · by_cases hp : c = 43
      · rw [skipSign, if_neg hm, if_pos hp]
        exact ⟨[43], by rw [hp]; rfl, .inr (.inr rfl), rfl⟩
      · rw [skipSign, if_neg hm, if_neg hp]
        exact ⟨[], rfl, .inl rfl, rfl⟩

theorem skipSign_append {sign unsigned : List UInt8} (hs : sign = [] ∨ sign = [45] ∨ sign = [43])
    (hu : ∀ c ∈ unsigned.head?, c ≠ 45 ∧ c ≠ 43) :
    skipSign (sign ++ unsigned) = (decide (sign = [45]), unsigned) := by
  obtain rfl | rfl | rfl := hs
  · cases unsigned with
    | nil => rfl
    | cons c cs =>
      obtain ⟨hm, hp⟩ := hu c rfl
      rw [List.nil_append, skipSign, if_neg hm, if_neg hp]
      rfl
  · rfl
  · rfl

theorem scan_char {c : UInt8} : (Directive.char c).scan text = .read fields rest ↔
    ∃ s, text = s ++ rest ∧ (Directive.char c).Reads s rest fields := by
  cases text with
  | nil =>
    refine iff_of_false (by simp [Directive.scan]) ?_
    rintro ⟨s, hs, rfl, -⟩
    cases hs
  | cons b cs =>
    rw [Directive.scan]
    split_ifs with hb
    · subst hb
      constructor
      · intro h
        cases h
        exact ⟨[b], rfl, rfl, rfl⟩
      · rintro ⟨s, hs, rfl, rfl⟩
        cases hs
        rfl
    · refine iff_of_false (by simp) ?_
      rintro ⟨s, hs, rfl, -⟩
      cases hs
      exact hb rfl

theorem scan_blanks : Directive.blanks.scan text = .read fields rest ↔
    ∃ s, text = s ++ rest ∧ Directive.blanks.Reads s rest fields := by
  have hsplit := @span_iff (fun c => IsSpace c)
  simp only [decide_eq_true_eq] at hsplit
  constructor
  · intro h
    cases h
    obtain ⟨hs, hr, htext⟩ := hsplit.mpr ⟨rfl, rfl⟩
    exact ⟨_, htext, hs, hr, rfl⟩
  · rintro ⟨s, htext, hs, hr, rfl⟩
    rw [Directive.scan, skipSpaces, (hsplit.mp ⟨hs, hr, htext⟩).2]

theorem scan_upTo {c : UInt8} : (Directive.upTo c).scan text = .read fields rest ↔
    ∃ s, text = s ++ rest ∧ (Directive.upTo c).Reads s rest fields := by
  have hsplit := @span_iff (· ≠ c)
  simp only [decide_eq_true_eq, ne_eq, not_not] at hsplit
  rw [Directive.scan]
  constructor
  · intro h
    split_ifs at h with hnil hempty
    cases h
    obtain ⟨hs, hr, htext⟩ := hsplit.mpr ⟨rfl, rfl⟩
    exact ⟨_, htext, hempty, hs, hr, rfl⟩
  · rintro ⟨s, htext, hne, hs, hr, rfl⟩
    obtain ⟨htake, hdrop⟩ := hsplit.mp ⟨hs, hr, htext⟩
    have hnil : text ≠ [] := by
      rw [htext]
      exact List.append_ne_nil_of_left_ne_nil hne _
    simp only [ne_eq, htake, hdrop, hnil, hne, ↓reduceIte]

theorem scan_size : Directive.size.scan text = .read fields rest ↔
    ∃ s, text = s ++ rest ∧ Directive.size.Reads s rest fields := by
  rw [Directive.scan]
  constructor
  · intro h
    split_ifs at h with hnil
    obtain ⟨sign, hsigned, hsign, hneg⟩ := skipSign_spec (skipSpaces text)
    simp only at h
    split_ifs at h with hempty
    cases h
    refine ⟨text.takeWhile (fun c => IsSpace c) ++ (sign ++
        (skipSign (skipSpaces text)).2.takeWhile (fun c => IsDigit c)), ?_, ?_⟩
    · rw [List.append_assoc, List.append_assoc, List.takeWhile_append_dropWhile, ← hsigned, skipSpaces,
        List.takeWhile_append_dropWhile]
    · refine ⟨_, sign, _, rfl, fun c hc => ?_, hsign, hempty, fun c hc => ?_, fun c hc => ?_, by rw [hneg]⟩
      · simpa using List.mem_takeWhile_imp hc
      · simpa using List.mem_takeWhile_imp hc
      · simpa using head_dropWhile _ _ c hc
  · rintro ⟨s, rfl, blanks, sign, digits, rfl, hblanks, hsign, hne, hdigits, hrest, rfl⟩
    have hhead : ∀ c ∈ (digits ++ rest).head?, IsDigit c := by
      cases digits with
      | nil => exact absurd rfl hne
      | cons d digits =>
        intro c hc
        obtain rfl : d = c := Option.some.inj hc
        exact hdigits d (List.mem_cons_self ..)
    have hskip : skipSpaces (blanks ++ (sign ++ digits) ++ rest) = sign ++ (digits ++ rest) := by
      rw [skipSpaces, List.append_assoc, List.append_assoc]
      refine (span_append (fun c hc => decide_eq_true (hblanks c hc)) (fun c hc => ?_)).2
      rw [decide_eq_true_eq]
      obtain rfl | rfl | rfl := hsign
      · exact (not_space_of_digit (hhead c hc)).1
      · obtain rfl : 45 = c := Option.some.inj hc
        decide
      · obtain rfl : 43 = c := Option.some.inj hc
        decide
    have hunsigned : skipSign (sign ++ (digits ++ rest)) = (decide (sign = [45]), digits ++ rest) :=
      skipSign_append hsign (fun c hc => (not_space_of_digit (hhead c hc)).2)
    obtain ⟨htake, hdrop⟩ := @span_append (fun c => IsDigit c) digits rest
      (fun c hc => decide_eq_true (hdigits c hc)) (fun c hc => by simpa using hrest c hc)
    have hnil : sign ++ (digits ++ rest) ≠ [] :=
      List.append_ne_nil_of_right_ne_nil _ (List.append_ne_nil_of_left_ne_nil hne _)
    simp only [hskip, hnil, hunsigned, htake, hdrop, hne, ↓reduceIte]

theorem scan_iff (d : Directive) : d.scan text = .read fields rest ↔
    ∃ s, text = s ++ rest ∧ d.Reads s rest fields := by
  cases d with
  | char c => exact scan_char
  | blanks => exact scan_blanks
  | upTo c => exact scan_upTo
  | size => exact scan_size

variable {ds : List Directive}

/-- The scanner comes to the end of a format exactly on the texts of its language. -/
theorem reading_iff : Reading ds text fields rest ↔ sscanf ds text = (fields, .done rest) := by
  constructor
  · intro h
    induction h with
    | done rest => rfl
    | @next d ds s text rest fields more hd hds ih =>
      have hscan := (scan_iff d).mpr ⟨s, rfl, hd⟩
      simp only [sscanf, hscan, ih]
  · intro h
    induction ds generalizing text fields with
    | nil =>
      cases h
      exact .done _
    | cons d ds ih =>
      rw [sscanf] at h
      cases hscan : d.scan text with
      | read fs mid =>
        simp only [hscan, Prod.mk.injEq] at h
        obtain ⟨rfl, hstop⟩ := h
        obtain ⟨s, rfl, hd⟩ := (scan_iff d).mp hscan
        exact .next hd (ih (Prod.ext rfl hstop))
      | mismatch => simp [hscan] at h
      | ended => simp [hscan] at h

def conversions : List Directive → Nat
  | [] => 0
  | .upTo _ :: ds | .size :: ds => conversions ds + 1
  | .char _ :: ds | .blanks :: ds => conversions ds

def EndsConverting : List Directive → Prop
  | [] => True
  | d :: ds => 0 < conversions (d :: ds) ∧ EndsConverting ds

theorem conversions_cons {d : Directive} {mid : List UInt8} (h : d.scan text = .read fields mid)
    (ds : List Directive) : conversions (d :: ds) = fields.length + conversions ds := by
  obtain ⟨s, -, hd⟩ := (scan_iff d).mp h
  cases d with
  | char c =>
    rw [hd.2]
    exact (Nat.zero_add _).symm
  | blanks =>
    rw [hd.2.2]
    exact (Nat.zero_add _).symm
  | upTo c =>
    rw [hd.2.2.2]
    exact Nat.add_comm _ _
  | size =>
    obtain ⟨_, _, _, -, -, -, -, -, -, hfields⟩ := hd
    rw [hfields]
    exact Nat.add_comm _ _

theorem length_sscanf (h : sscanf ds text = (fields, .done rest)) : fields.length = conversions ds := by
  induction ds generalizing text fields with
  | nil =>
    cases h
    rfl
  | cons d ds ih =>
    rw [sscanf] at h
    cases hscan : d.scan text with
    | read fs mid =>
      simp only [hscan, Prod.mk.injEq] at h
      obtain ⟨rfl, hstop⟩ := h
      rw [List.length_append, ih (Prod.ext rfl hstop), conversions_cons hscan]
    | mismatch => simp [hscan] at h
    | ended => simp [hscan] at h

theorem done_of_length (hc : EndsConverting ds) (h : (sscanf ds text).1.length = conversions ds) :
    ∃ rest, (sscanf ds text).2 = .done rest := by
  induction ds generalizing text with
  | nil => exact ⟨text, rfl⟩
  | cons d ds ih =>
    rw [sscanf] at h ⊢
    cases hscan : d.scan text with
    | read fs mid =>
      simp only [hscan, conversions_cons hscan, List.length_append] at h ⊢
      exact ih hc.2 (by omega)
    | mismatch =>
      simp only [hscan, List.length_nil] at h
      exact absurd hc.1 (by omega)
    | ended =>
      simp only [hscan, List.length_nil] at h
      exact absurd hc.1 (by omega)

/-- The result that counts all fields is given exactly on the texts of the format. -/
theorem result_eq_iff (hc : EndsConverting ds) (hne : ds ≠ []) :
    result (sscanf ds text) = conversions ds ↔ ∃ rest, Reading ds text (sscanf ds text).1 rest := by
  have hpos : 0 < conversions ds := by
    cases ds with
    | nil => exact absurd rfl hne
    | cons d ds => exact hc.1
  constructor
  · intro h
    have hlen : (sscanf ds text).1.length = conversions ds := by
      rw [result] at h
      split_ifs at h
      omega
    obtain ⟨rest, hrest⟩ := done_of_length hc hlen
    exact ⟨rest, reading_iff.mpr (Prod.ext rfl hrest)⟩
  · rintro ⟨rest, h⟩
    have hdone := reading_iff.mp h
    rw [result, if_neg (fun hended => by rw [hdone] at hended; cases hended.2),
      length_sscanf (hdone.trans rfl)]

theorem result_eq_succ (scanned : List Field × Stop) (k : Nat) :
    result scanned = (k + 1 : Nat) ↔ scanned.1.length = k + 1 := by
  rw [result]
  split_ifs with h
  · refine iff_of_false (fun heq => ?_) (fun hlen => ?_)
    · omega
    · rw [h.1, List.length_nil] at hlen
      omega
  · exact Int.natCast_inj

theorem reading_cons {d : Directive} : Reading (d :: ds) text fields rest ↔
    ∃ s mid fs more, text = s ++ mid ∧ d.Reads s mid fs ∧ Reading ds mid more rest ∧
    fields = fs ++ more := by
  constructor
  · intro h
    cases h with
    | @next _ _ s mid _ fs more hd hds => exact ⟨s, mid, fs, more, rfl, hd, hds, rfl⟩
  · rintro ⟨s, mid, fs, more, rfl, hd, hds, rfl⟩
    exact .next hd hds

theorem reading_nil : Reading [] text fields rest ↔ fields = [] ∧ text = rest := by
  constructor
  · intro h
    cases h with
    | done => exact ⟨rfl, rfl⟩
  · rintro ⟨rfl, rfl⟩
    exact .done text

theorem reading_append {ds' : List Directive} : Reading (ds ++ ds') text fields rest ↔
    ∃ mid fs more, Reading ds text fs mid ∧ Reading ds' mid more rest ∧ fields = fs ++ more := by
  constructor
  · intro h
    induction ds generalizing text fields with
    | nil => exact ⟨text, [], fields, .done text, h, rfl⟩
    | cons d ds ih =>
      obtain ⟨s, next, fs, more, rfl, hd, hds, rfl⟩ := reading_cons.mp h
      obtain ⟨mid, gs, last, hfirst, hlast, rfl⟩ := ih hds
      exact ⟨mid, fs ++ gs, last, .next hd hfirst, hlast, (List.append_assoc ..).symm⟩
  · rintro ⟨mid, fs, more, hfirst, hlast, rfl⟩
    induction hfirst with
    | done => exact hlast
    | next hd _ ih =>
      rw [List.append_assoc]
      exact .next hd (ih hlast)

theorem sscanf_snoc_char (ds : List Directive) (c : UInt8) (text : List UInt8) :
    (sscanf (ds ++ [.char c]) text).1 = (sscanf ds text).1 := by
  induction ds generalizing text with
  | nil =>
    cases text with
    | nil => rfl
    | cons b text => by_cases hb : b = c <;> simp [sscanf, Directive.scan, hb]
  | cons d ds ih =>
    rw [List.cons_append, sscanf, sscanf]
    cases hscan : d.scan text with
    | read fs mid => simp only [ih]
    | mismatch => rfl
    | ended => rfl

def literal (word : List UInt8) : List Directive := word.map .char

theorem sscanf_literal (word mid : List UInt8) (ds : List Directive) :
    sscanf (literal word ++ ds) (word ++ mid) = sscanf ds mid := by
  induction word with
  | nil => rfl
  | cons b word ih =>
    rw [literal, List.map_cons, List.cons_append, List.cons_append, sscanf, Directive.scan, if_pos rfl]
    exact ih

theorem sscanf_not_literal {word : List UInt8} (h : ¬ word <+: text) (ds : List Directive) :
    (sscanf (literal word ++ ds) text).1 = [] ∧
      ((sscanf (literal word ++ ds) text).2 = .ended ↔ text <+: word) := by
  induction word generalizing text with
  | nil => exact absurd List.nil_prefix h
  | cons b word ih =>
    rw [literal, List.map_cons, List.cons_append, sscanf]
    cases text with
    | nil => exact ⟨rfl, iff_of_true rfl List.nil_prefix⟩
    | cons c text =>
      by_cases hc : c = b
      · subst hc
        rw [List.prefix_cons_inj] at h
        simp only [Directive.scan, ↓reduceIte, List.nil_append, List.prefix_cons_inj]
        exact ih h
      · simp only [Directive.scan, hc, ↓reduceIte, List.cons_prefix_cons, false_and, reduceCtorEq,
          and_self]

theorem reading_literal {word : List UInt8} : Reading (literal word ++ ds) text fields rest ↔
    ∃ mid, text = word ++ mid ∧ Reading ds mid fields rest := by
  constructor
  · intro h
    by_cases hw : word <+: text
    · obtain ⟨mid, rfl⟩ := hw
      rw [reading_iff, sscanf_literal] at h
      exact ⟨mid, rfl, reading_iff.mpr h⟩
    · exfalso
      induction word generalizing text with
      | nil => exact hw List.nil_prefix
      | cons b word ih =>
        obtain ⟨s, mid, fs, more, rfl, ⟨rfl, rfl⟩, hds, rfl⟩ := reading_cons.mp h
        refine ih hds (fun hp => hw ?_)
        exact (List.prefix_cons_inj b).mpr hp
  · rintro ⟨mid, rfl, h⟩
    rw [reading_iff, sscanf_literal]
    exact reading_iff.mp h

end NetworkOptimization.Scanning
