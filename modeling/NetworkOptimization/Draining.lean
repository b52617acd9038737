import Mathlib.Data.List.Basic

namespace NetworkOptimization.Draining

/-- What one call that takes items from a queue gives: an error, or the items, and there
are at most as many as it asked for. -/
inductive Poll (α : Type) where
  | error
  | batch (items : List α)
  deriving DecidableEq

/-- The body of a loop that handles items one by one and counts those that it accepts. At
an item that it does not accept the loop ends, in the state that `Except.error` carries. -/
structure Consumer (σ α : Type) where
  step : σ → α → Except σ σ
  count : σ → Int
  count_step : ∀ s a t, step s a = .ok t → count t = count s + 1

/-- How a loop ended: whether it failed, its state, the items it looked at and those it took
from the queue, how many each poll asked for, and the polls that it left. -/
structure Drained (σ α : Type) where
  failed : Bool
  state : σ
  seen : List α
  taken : List α
  asked : List Int
  rest : List (Poll α)

variable {σ α : Type}

/-- The items of a stream of polls in their order; `none` is an error. -/
def events : List (Poll α) → List (Option α)
  | [] => []
  | .error :: polls => none :: events polls
  | .batch items :: polls => items.map some ++ events polls

def request (size left : Int) : Int := if size > left then left else size

/-- The loop over one batch: the items that it looks at, and how it ends. -/
def examine (c : Consumer σ α) : σ → List α → List α × Except σ σ
  | s, [] => ([], .ok s)
  | s, a :: items => match c.step s a with
    | .error t => ([a], .error t)
    | .ok t => (a :: (examine c t items).1, (examine c t items).2)

def Drained.after (r : Drained σ α) (asked : Int) (items : List α) : Drained σ α :=
  { r with seen := items ++ r.seen, taken := items ++ r.taken, asked := asked :: r.asked }

def Drained.idle (s : σ) (polls : List (Poll α)) : Drained σ α := ⟨false, s, [], [], [], polls⟩

/-- Poll until `n` items are counted, at most `size` at once. `none` while the stream has
given too few. An empty batch changes nothing, so the next poll asks for the same number. -/
def drain (c : Consumer σ α) (size n : Int) : σ → List (Poll α) → Option (Drained σ α)
  | s, [] => if c.count s < n then none else some (.idle s [])
  | s, .error :: polls =>
    if c.count s < n then some ⟨true, s, [], [], [request size (n - c.count s)], polls⟩
    else some (.idle s (.error :: polls))
  | s, .batch items :: polls =>
    if c.count s < n then
      match (examine c s items).2 with
      | .error t => some ⟨true, t, (examine c s items).1, items, [request size (n - c.count s)], polls⟩
      | .ok t => (drain c size n t polls).map (·.after (request size (n - c.count s)) items)
    else some (.idle s (.batch items :: polls))

/-- No poll of the loop gives more items than it asked for. -/
def Fits (c : Consumer σ α) (size n : Int) : σ → List (Poll α) → Prop
  | _, [] => True
  | _, .error :: _ => True
  | s, .batch items :: polls => c.count s < n → (items.length : Int) ≤ request size (n - c.count s) ∧
      ∀ t, (examine c s items).2 = .ok t → Fits c size n t polls

/-- The same loop on a queue that gives its items one by one, with `n` items left. -/
def serve (c : Consumer σ α) : Nat → σ → List (Option α) → Option (Bool × σ)
  | 0, s, _ => some (false, s)
  | _ + 1, _, [] => none
  | _ + 1, s, none :: _ => some (true, s)
  | n + 1, s, some a :: es => match c.step s a with
    | .error t => some (true, t)
    | .ok t => serve c n t es

/-- The events provide what the loop waits for: `n` items, or before them an error or an
item that is not accepted. -/
def Provides (c : Consumer σ α) (n : Nat) (s : σ) (es : List (Option α)) : Prop :=
  (serve c n s es).isSome

section Batches

variable {c : Consumer σ α} {size n : Int} {s t : σ} {items : List α}

theorem request_le_size (size left : Int) : request size left ≤ size := by
  rw [request]
  split_ifs <;> omega

theorem request_le_left (size left : Int) : request size left ≤ left := by
  rw [request]
  split_ifs <;> omega

theorem examine_ok (h : (examine c s items).2 = .ok t) :
    (examine c s items).1 = items ∧ c.count t = c.count s + items.length := by
  induction items generalizing s with
  | nil =>
    cases h
    exact ⟨rfl, by simp⟩
  | cons a items ih =>
    cases ha : c.step s a with
    | error u => simp [examine, ha] at h
    | ok u =>
      simp only [examine, ha] at h ⊢
      obtain ⟨hseen, hcount⟩ := ih h
      have hstep := c.count_step s a u ha
      refine ⟨by rw [hseen], ?_⟩
      rw [List.length_cons]
      push_cast
      omega

theorem examine_start (c : Consumer σ α) (s : σ) (items : List α) : (examine c s items).1 <+: items := by
  induction items generalizing s with
  | nil => exact List.prefix_refl _
  | cons a items ih =>
    cases ha : c.step s a with
    | error u =>
      simp only [examine, ha]
      exact List.prefix_iff_eq_take.mpr rfl
    | ok u =>
      simp only [examine, ha]
      exact List.prefix_cons_inj a |>.mpr (ih u)

theorem serve_batch (h : (examine c s items).2 = .ok t) (k : Nat) (es : List (Option α)) :
    serve c (items.length + k) s (items.map some ++ es) = serve c k t es := by
  induction items generalizing s with
  | nil =>
    cases h
    rw [List.length_nil, Nat.zero_add]
    rfl
  | cons a items ih =>
    rw [List.length_cons, Nat.add_right_comm, List.map_cons, List.cons_append, serve]
    cases ha : c.step s a with
    | error u => simp [examine, ha] at h
    | ok u =>
      simp only [examine, ha] at h
      exact ih h

theorem serve_bad (h : (examine c s items).2 = .error t) (k : Nat) (es : List (Option α)) :
    serve c (items.length + k) s (items.map some ++ es) = some (true, t) := by
  induction items generalizing s with
  | nil => cases h
  | cons a items ih =>
    rw [List.length_cons, Nat.add_right_comm, List.map_cons, List.cons_append, serve]
    cases ha : c.step s a with
    | error u =>
      simp only [examine, ha] at h
      cases h
      rfl
    | ok u =>
      simp only [examine, ha] at h
      exact ih h

theorem serve_all {k : Nat} {es : List (Option α)} (h : serve c k s es = some (false, t)) :
    ∃ items, items.length = k ∧ items.map some <+: es ∧ (examine c s items).2 = .ok t := by
  induction k generalizing s es with
  | zero =>
    cases h
    exact ⟨[], rfl, List.nil_prefix, rfl⟩
  | succ k ih =>
    cases es with
    | nil => cases h
    | cons e es =>
      cases e with
      | none => cases h
      | some a =>
        rw [serve] at h
        cases ha : c.step s a with
        | error u =>
          rw [ha] at h
          cases h
        | ok u =>
          rw [ha] at h
          obtain ⟨items, hl, hp, hx⟩ := ih h
          refine ⟨a :: items, by rw [List.length_cons, hl], ?_, by simpa [examine, ha] using hx⟩
          rw [List.map_cons]
          exact (List.prefix_cons_inj _).mpr hp

end Batches

variable {c : Consumer σ α} {size n : Int} {s : σ} {polls : List (Poll α)} {r : Drained σ α}

theorem left_succ (hn : c.count s < n) : ∃ k, (n - c.count s).toNat = k + 1 :=
  ⟨(n - c.count s).toNat - 1, by omega⟩

theorem drain_idle (hn : n ≤ c.count s) (polls : List (Poll α)) :
    drain c size n s polls = some (.idle s polls) := by
  cases polls with
  | nil => rw [drain, if_neg (Int.not_lt.mpr hn)]
  | cons p polls =>
    cases p with
    | error | batch => rw [drain, if_neg (Int.not_lt.mpr hn)]

/-- What holds of every loop that ends: of one that does not poll any more, of one that an
error or a bad item ends, and of one that goes on behind a good batch. -/
theorem drain_induction {P : σ → List (Poll α) → Drained σ α → Prop}
    (idle : ∀ s polls, n ≤ c.count s → P s polls (.idle s polls))
    (error : ∀ s polls, c.count s < n →
      P s (.error :: polls) ⟨true, s, [], [], [request size (n - c.count s)], polls⟩)
    (bad : ∀ s items polls t, c.count s < n → (examine c s items).2 = .error t →
      P s (.batch items :: polls)
      ⟨true, t, (examine c s items).1, items, [request size (n - c.count s)], polls⟩)
    (good : ∀ s items polls t r, c.count s < n → (examine c s items).2 = .ok t → P t polls r →
      P s (.batch items :: polls) (r.after (request size (n - c.count s)) items))
    (h : drain c size n s polls = some r) : P s polls r := by
  induction polls generalizing s r with
  | nil =>
    rw [drain] at h
    split_ifs at h with hn
    cases h
    exact idle s [] (Int.not_lt.mp hn)
  | cons p polls ih =>
    by_cases hn : c.count s < n
    · cases p with
      | error =>
        rw [drain, if_pos hn] at h
        cases h
        exact error s polls hn
      | batch items =>
        rw [drain, if_pos hn] at h
        cases hx : (examine c s items).2 with
        | error t =>
          rw [hx] at h
          cases h
          exact bad s items polls t hn hx
        | ok t =>
          rw [hx] at h
          obtain ⟨r', hr', rfl⟩ := Option.map_eq_some_iff.mp h
          exact good s items polls t r' hn hx (ih hr')
    · rw [drain_idle (Int.not_lt.mp hn)] at h
      cases h
      exact idle s _ (Int.not_lt.mp hn)

theorem fits_singles (hsize : 1 ≤ size) (hone : ∀ items, Poll.batch items ∈ polls → items.length ≤ 1) :
    Fits c size n s polls := by
  induction polls generalizing s with
  | nil => trivial
  | cons p polls ih =>
    cases p with
    | error => trivial
    | batch items =>
      intro hn
      have hlen := hone items (List.mem_cons_self ..)
      refine ⟨?_, fun t _ => ih (fun items hi => hone items (List.mem_cons_of_mem _ hi))⟩
      rw [request]
      split_ifs <;> omega

/-- How a loop ends does not depend on the batches, only on the items and the errors. -/
theorem drain_eq_serve (hf : Fits c size n s polls) :
    (drain c size n s polls).map (fun r => (r.failed, r.state)) =
      serve c (n - c.count s).toNat s (events polls) := by
  induction polls generalizing s with
  | nil =>
    by_cases hn : c.count s < n
    · obtain ⟨k, hk⟩ := left_succ hn
      rw [drain, if_pos hn, hk]
      rfl
    · rw [drain_idle (Int.not_lt.mp hn), show (n - c.count s).toNat = 0 by omega]
      rfl
  | cons p polls ih =>
    by_cases hn : c.count s < n
    · obtain ⟨k, hk⟩ := left_succ hn
      cases p with
      | error =>
        rw [drain, if_pos hn, hk]
        rfl
      | batch items =>
        obtain ⟨hle, hrest⟩ := hf hn
        have hleft := request_le_left size (n - c.count s)
        have hlen : items.length + ((n - c.count s).toNat - items.length) =
          (n - c.count s).toNat := by omega
        cases hx : (examine c s items).2 with
        | error t =>
          have hserve := serve_bad hx ((n - c.count s).toNat - items.length) (events polls)
          rw [hlen] at hserve
          rw [events, hserve, drain, if_pos hn, hx]
          rfl
        | ok t =>
          have hserve := serve_batch hx ((n - c.count s).toNat - items.length) (events polls)
          have hcount := (examine_ok hx).2
          have hnext := ih (hrest t hx)
          rw [show (n - c.count t).toNat = (n - c.count s).toNat - items.length by omega] at hnext
          rw [hlen] at hserve
          rw [events, hserve, drain, if_pos hn, hx, ← hnext]
          exact Option.map_map ..
    · rw [drain_idle (Int.not_lt.mp hn), show (n - c.count s).toNat = 0 by omega, serve]
      rfl

theorem drain_isSome (hf : Fits c size n s polls) :
    (drain c size n s polls).isSome ↔ Provides c (n - c.count s).toNat s (events polls) := by
  rw [Provides, ← drain_eq_serve hf, Option.isSome_map]

theorem drain_one (hf : Fits c size 1 s polls) (hs : c.count s = 0) (h : drain c size 1 s polls = some r) :
    ∃ e es, events polls = e :: es ∧ r.seen = e.toList ∧ events r.rest = es := by
  refine (drain_induction (P := fun s polls r => Fits c size 1 s polls →
    (c.count s = 0 → ∃ e es, events polls = e :: es ∧ r.seen = e.toList ∧ events r.rest = es) ∧
      (c.count s = 1 → r.seen = [] ∧ r.rest = polls)) ?_ ?_ ?_ ?_ h hf).1 hs
  · exact fun s polls hn _ => ⟨fun h0 => by omega, fun _ => ⟨rfl, rfl⟩⟩
  · exact fun s polls _ _ => ⟨fun _ => ⟨none, _, rfl, rfl, rfl⟩, fun h1 => by omega⟩
  · intro s items polls t hn hx hf
    refine ⟨fun h0 => ?_, fun h1 => by omega⟩
    have hle := (hf hn).1
    have hleft := request_le_left size (1 - c.count s)
    cases items with
    | nil => cases hx
    | cons a items =>
      rw [List.length_cons] at hle
      obtain rfl := List.length_eq_zero_iff.mp (show items.length = 0 by omega)
      cases ha : c.step s a with
      | error u => exact ⟨some a, _, rfl, by simp [examine, ha], rfl⟩
      | ok u => simp [examine, ha] at hx
  · intro s items polls t r hn hx ih hf
    refine ⟨fun h0 => ?_, fun h1 => by omega⟩
    obtain ⟨hle, hrest⟩ := hf hn
    have hleft := request_le_left size (1 - c.count s)
    have hcount := (examine_ok hx).2
    cases items with
    | nil =>
      cases hx
      exact (ih (hrest s rfl)).1 h0
    | cons a items =>
      rw [List.length_cons] at hle hcount
      obtain rfl := List.length_eq_zero_iff.mp (show items.length = 0 by omega)
      obtain ⟨hseen, hpolls⟩ := (ih (hrest t hx)).2 (by simpa [h0] using hcount)
      refine ⟨some a, events polls, rfl, ?_, congrArg events hpolls⟩
      rw [Drained.after, hseen]
      rfl

theorem drain_asked (h : drain c size n s polls = some r) : ∀ k ∈ r.asked, k ≤ size := by
  have hone : ∀ s, ∀ k ∈ [request size (n - c.count s)], k ≤ size := by
    intro s k hk
    rw [List.mem_singleton.mp hk]
    exact request_le_size _ _
  refine drain_induction (P := fun _ _ r => ∀ k ∈ r.asked, k ≤ size) ?_ ?_ ?_ ?_ h
  · exact fun s polls _ k hk => absurd hk List.not_mem_nil
  · exact fun s polls _ => hone s
  · exact fun s items polls t _ _ => hone s
  · intro s items polls t r _ _ ih k hk
    cases List.mem_cons.mp hk with
    | inl hk => exact hone s k (List.mem_singleton.mpr hk)
    | inr hk => exact ih k hk

theorem examine_append {t u : σ} {items more : List α} (h : (examine c s items).2 = .ok t)
    (h' : (examine c t more).2 = .ok u) : (examine c s (items ++ more)).2 = .ok u := by
  induction items generalizing s with
  | nil =>
    cases h
    exact h'
  | cons a items ih =>
    cases ha : c.step s a with
    | error v => simp [examine, ha] at h
    | ok v =>
      simp only [examine, ha] at h
      simpa only [List.cons_append, examine, ha] using ih h

theorem coded_iff {x : Option (Drained σ α)} {code : Int} :
    x.map (fun r => ((if r.failed then 1 else 0 : Int), r)) = some (code, r) ↔
      x = some r ∧ code = if r.failed then 1 else 0 := by
  rw [Option.map_eq_some_iff]
  constructor
  · rintro ⟨r', hr, heq⟩
    cases heq
    exact ⟨hr, rfl⟩
  · rintro ⟨hr, rfl⟩
    exact ⟨r, hr, rfl⟩

theorem not_failed_of_code (h : (0 : Int) = if r.failed then 1 else 0) : r.failed = false := by
  cases hfail : r.failed with
  | false => rfl
  | true =>
    rw [hfail] at h
    cases h

/-- A loop that did not fail took the next items of the stream, looked at each of them and
accepted each. -/
theorem drain_exact (h : drain c size n s polls = some r) (ho : r.failed = false) :
    events polls = r.taken.map some ++ events r.rest ∧ r.seen = r.taken ∧
      (examine c s r.taken).2 = .ok r.state := by
  refine drain_induction (P := fun s polls r => r.failed = false →
    events polls = r.taken.map some ++ events r.rest ∧ r.seen = r.taken ∧
      (examine c s r.taken).2 = .ok r.state) ?_ ?_ ?_ ?_ h ho
  · exact fun s polls _ _ => ⟨rfl, rfl, rfl⟩
  · exact fun s polls _ ho => absurd ho (by simp)
  · exact fun s items polls t _ _ ho => absurd ho (by simp)
  · intro s items polls t r _ hx ih ho
    obtain ⟨hevents, hseen, hstate⟩ := ih ho
    refine ⟨?_, congrArg (items ++ ·) hseen, examine_append hx hstate⟩
    rw [events, hevents, ← List.append_assoc, ← List.map_append]
    rfl

theorem drain_count (hf : Fits c size n s polls) (hs : c.count s ≤ n)
    (h : drain c size n s polls = some r) (ho : r.failed = false) : c.count r.state = n := by
  refine drain_induction (P := fun s polls r => Fits c size n s polls → c.count s ≤ n → r.failed = false →
    c.count r.state = n) ?_ ?_ ?_ ?_ h hf hs ho
  · exact fun s polls hn _ hs _ => Int.le_antisymm hs hn
  · exact fun s polls _ _ _ ho => absurd ho (by simp)
  · exact fun s items polls t _ _ _ _ ho => absurd ho (by simp)
  · intro s items polls t r hn hx ih hf hs ho
    obtain ⟨hle, hrest⟩ := hf hn
    have hcount := (examine_ok hx).2
    have hleft := request_le_left size (n - c.count s)
    exact ih (hrest t hx) (by omega) ho

/-- Where the loop comes to when the next `n` events are all good items; an item that ends the
loop may only be the last of them. -/
def supply (c : Consumer σ α) (good : α → Bool) : Nat → σ → List (Option α) → Option σ
  | 0, s, _ => some s
  | _ + 1, _, [] => none
  | _ + 1, _, none :: _ => none
  | n + 1, s, some a :: es =>
    if good a then
      match c.step s a with
      | .ok t => supply c good n t es
      | .error t => if n = 0 then some t else none
    else none

section Supply

variable {good : α → Bool} {t : σ} {items : List α} {k : Nat} {es : List (Option α)}

theorem examine_good (hgood : ∀ s a t, c.step s a = .ok t → good a = true)
    (h : (examine c s items).2 = .ok t) : items.countP good = items.length := by
  induction items generalizing s with
  | nil => rfl
  | cons a items ih =>
    cases ha : c.step s a with
    | error u => simp [examine, ha] at h
    | ok u =>
      simp only [examine, ha] at h
      rw [List.countP_cons_of_pos (hgood s a u ha), ih h, List.length_cons]

theorem supply_batch (hgood : ∀ s a t, c.step s a = .ok t → good a = true)
    (h : (examine c s items).2 = .ok t) (k : Nat) (es : List (Option α)) :
    supply c good (items.length + k) s (items.map some ++ es) = supply c good k t es := by
  induction items generalizing s with
  | nil =>
    cases h
    rw [List.length_nil, Nat.zero_add]
    rfl
  | cons a items ih =>
    rw [List.length_cons, Nat.add_right_comm, List.map_cons, List.cons_append, supply]
    cases ha : c.step s a with
    | error u => simp [examine, ha] at h
    | ok u =>
      simp only [examine, ha] at h
      rw [if_pos (hgood s a u ha)]
      exact ih h

theorem supply_bad (hgood : ∀ s a t, c.step s a = .ok t → good a = true)
    (h : (examine c s items).2 = .error t) (hk : items.length ≤ k) (es : List (Option α)) :
    supply c good k s (items.map some ++ es) =
      if (examine c s items).1.countP good = k then some t else none := by
  induction items generalizing s k with
  | nil => cases h
  | cons a items ih =>
    obtain ⟨k, rfl⟩ : ∃ j, k = j + 1 := ⟨k - 1, by rw [List.length_cons] at hk; omega⟩
    rw [List.map_cons, List.cons_append, supply]
    cases ha : c.step s a with
    | error u =>
      simp only [examine, ha] at h ⊢
      cases h
      by_cases hg : good a = true <;> simp [hg, eq_comm]
    | ok u =>
      simp only [examine, ha] at h ⊢
      have hg := hgood s a u ha
      have hrest := ih h (by simpa using hk)
      rw [if_pos hg, hrest, List.countP_cons_of_pos hg]
      simp only [Nat.add_right_cancel_iff]

/-- What a loop saw of a stream: at most as many good items as it waited for, and as many
exactly when the events supply it. -/
structure Supplied (c : Consumer σ α) (good : α → Bool) (n : Int) (s : σ) (polls : List (Poll α))
    (r : Drained σ α) : Prop where
  most : r.seen.countP good ≤ (n - c.count s).toNat
  full : r.seen.countP good = (n - c.count s).toNat →
    supply c good (n - c.count s).toNat s (events polls) = some r.state ∧
      events r.rest = (events polls).drop (n - c.count s).toNat ∧
      r.seen.map some = (events polls).take (n - c.count s).toNat
  whole : ∀ t, supply c good (n - c.count s).toNat s (events polls) = some t →
    r.seen.countP good = (n - c.count s).toNat

theorem supplied_idle (hn : n ≤ c.count s) (polls : List (Poll α)) :
    Supplied c good n s polls (.idle s polls) := by
  have hzero : (n - c.count s).toNat = 0 := by omega
  refine ⟨Nat.zero_le _, fun _ => ?_, fun _ _ => hzero.symm⟩
  rw [hzero]
  exact ⟨rfl, rfl, rfl⟩

theorem supplied_error (hn : c.count s < n) (asked : List Int) :
    Supplied c good n s (.error :: polls) ⟨true, s, [], [], asked, polls⟩ := by
  obtain ⟨k, hk⟩ := left_succ hn
  refine ⟨Nat.zero_le _, fun h0 => ?_, fun t ht => ?_⟩
  · rw [hk] at h0
    cases h0
  · rw [hk] at ht
    cases ht

theorem supplied_bad (hgood : ∀ s a t, c.step s a = .ok t → good a = true)
    (hle : items.length ≤ (n - c.count s).toNat) (hx : (examine c s items).2 = .error t)
    (asked : List Int) :
    Supplied c good n s (.batch items :: polls) ⟨true, t, (examine c s items).1, items, asked, polls⟩ := by
  have hstart := examine_start c s items
  have hlen := hstart.length_le
  have hshort : (examine c s items).1.countP good ≤ (examine c s items).1.length := List.countP_le_length
  have hsupply := supply_bad hgood hx hle (events polls)
  refine ⟨Nat.le_trans hshort (Nat.le_trans hlen hle), fun hall => ?_, fun u hu => ?_⟩
  · have hall' : (examine c s items).1.countP good = (n - c.count s).toNat := hall
    have hsame : (examine c s items).1 = items := hstart.eq_of_length (by omega)
    have htotal : items.length = (n - c.count s).toNat := by omega
    rw [if_pos hall'] at hsupply
    refine ⟨hsupply, ?_, ?_⟩
    · rw [events, ← htotal, List.drop_left' (List.length_map ..)]
    · change (examine c s items).1.map some = _
      rw [hsame, events, ← htotal, List.take_left' (List.length_map ..)]
  · by_contra hne
    rw [events, hsupply, if_neg hne] at hu
    cases hu

theorem supplied_good {r : Drained σ α} (hgood : ∀ s a t, c.step s a = .ok t → good a = true)
    (hle : items.length ≤ (n - c.count s).toNat) (hx : (examine c s items).2 = .ok t)
    (h : Supplied c good n t polls r) (asked : Int) :
    Supplied c good n s (.batch items :: polls) (r.after asked items) := by
  have hcount := (examine_ok hx).2
  have hitems := examine_good hgood hx
  obtain ⟨hmost, hfull, hwhole⟩ := h
  obtain ⟨k, hk⟩ : ∃ k, (n - c.count s).toNat = items.length + k :=
    ⟨(n - c.count s).toNat - items.length, by omega⟩
  rw [show (n - c.count t).toNat = k by omega] at hmost hfull hwhole
  have hsum : (r.after asked items).seen.countP good = items.length + r.seen.countP good := by
    rw [Drained.after, List.countP_append, hitems]
  have hsupply := supply_batch hgood hx k (events polls)
  refine ⟨by omega, fun hall => ?_, fun u hu => ?_⟩
  · obtain ⟨hstate, hleft, hseen⟩ := hfull (by omega)
    rw [hk]
    refine ⟨hsupply.trans hstate, ?_, ?_⟩
    · rw [events, List.drop_append, List.length_map, List.drop_eq_nil_of_le (by simp),
        Nat.add_sub_cancel_left]
      exact hleft
    · rw [Drained.after, events, List.map_append, List.take_append, List.length_map,
        List.take_of_length_le (by simp), Nat.add_sub_cancel_left, hseen]
  · rw [hk] at hu
    have hrest := hwhole u (hsupply.symm.trans hu)
    omega

theorem drain_supply (hgood : ∀ s a t, c.step s a = .ok t → good a = true) (hf : Fits c size n s polls)
    (h : drain c size n s polls = some r) : Supplied c good n s polls r := by
  refine drain_induction (P := fun s polls r => Fits c size n s polls → Supplied c good n s polls r)
    ?_ ?_ ?_ ?_ h hf
  · exact fun s polls hn _ => supplied_idle hn polls
  · exact fun s polls hn _ => supplied_error hn _
  · intro s items polls t hn hx hf
    have hle := (hf hn).1
    have hleft := request_le_left size (n - c.count s)
    exact supplied_bad hgood (by omega) hx _
  · intro s items polls t r hn hx ih hf
    obtain ⟨hle, hrest⟩ := hf hn
    have hleft := request_le_left size (n - c.count s)
    exact supplied_good hgood (by omega) hx (ih (hrest t hx)) _

end Supply

end NetworkOptimization.Draining
