import Mathlib.Logic.Relation

namespace NetworkOptimization.Runs

variable {S T L I : Type}

/-- The states a labelled transition system reaches by steps that are all allowed. -/
inductive Reach (init : S → Prop) (step : S → L → S → Prop) (allowed : S → L → Prop) : S → Prop
  | start {s : S} (h : init s) : Reach init step allowed s
  | next {s t : S} {l : L} (h : Reach init step allowed s) (hl : allowed s l)
      (hs : step s l t) : Reach init step allowed t

variable {init : S → Prop} {step : S → L → S → Prop} {allowed : S → L → Prop}

theorem Reach.invariant {P : S → Prop} (hinit : ∀ s, init s → P s)
    (hstep : ∀ s l t, P s → allowed s l → step s l t → P t)
    {s : S} (h : Reach init step allowed s) : P s := by
  induction h with
  | start h => exact hinit _ h
  | next _ hl hs ih => exact hstep _ _ _ ih hl hs

def run (move : S → L → Option S) : S → List L → Option S
  | s, [] => some s
  | s, l :: ls => (move s l).bind (fun t => run move t ls)

theorem Reach.run {move : S → L → Option S} {ls : List L} {s t : S}
    (h : Reach init (fun s l t => move s l = some t) allowed s) (hl : ∀ l ∈ ls, ∀ s, allowed s l)
    (hr : run move s ls = some t) : Reach init (fun s l t => move s l = some t) allowed t := by
  induction ls generalizing s with
  | nil =>
    cases hr
    exact h
  | cons l ls ih =>
    obtain ⟨u, hm, hr⟩ := Option.bind_eq_some_iff.mp hr
    exact ih (h.next (hl l (List.mem_cons_self ..) s) hm) (fun k hk => hl k (List.mem_cons_of_mem l hk)) hr

theorem Reach.run_checked {move : S → L → Option S} {ok : S → L → Bool} {ls : List L} {s t : S}
    (hok : ∀ s l, ok s l = true → allowed s l) (h : Reach init (fun s l t => move s l = some t) allowed s)
    (hr : Runs.run (fun s l => if ok s l then move s l else none) s ls = some t) :
    Reach init (fun s l t => move s l = some t) allowed t := by
  induction ls generalizing s with
  | nil =>
    cases hr
    exact h
  | cons l ls ih =>
    obtain ⟨u, hm, hr⟩ := Option.bind_eq_some_iff.mp hr
    obtain ⟨hl, hm⟩ := Option.ite_none_right_eq_some.mp hm
    exact ih (h.next (hok s l hl) hm) hr

/-- A deterministic machine on inputs keeps `P` as long as it goes on: `P` holds
of each input at the state that meets it, until the machine stops. -/
def Along (move : S → I → Option S) (P : S → I → Prop) : S → List I → Prop
  | _, [] => True
  | s, i :: is => P s i ∧ ∀ t, move s i = some t → Along move P t is

variable {move : S → I → Option S} {P Q : S → I → Prop} (Inv : S → Prop) (Allowed : I → Prop)

/-- Two properties agree along every run of allowed inputs if they agree at each
state of an invariant that the first of them, where it holds, preserves. -/
theorem along_iff (hstep : ∀ s i, Inv s → Allowed i → (P s i ↔ Q s i))
    (hinv : ∀ s i t, Inv s → Allowed i → P s i → move s i = some t → Inv t) :
    ∀ is s, (∀ i ∈ is, Allowed i) → Inv s → (Along move P s is ↔ Along move Q s is) := by
  intro is
  induction is with
  | nil => exact fun _ _ _ => Iff.rfl
  | cons i is ih =>
    intro s ha hs
    have hi : Allowed i := ha i (List.mem_cons_self)
    have ht : ∀ j ∈ is, Allowed j := fun j hj => ha j (List.mem_cons_of_mem i hj)
    constructor
    · rintro ⟨hp, hr⟩
      exact ⟨(hstep s i hs hi).mp hp,
        fun t h => (ih t ht (hinv s i t hs hi hp h)).mp (hr t h)⟩
    · rintro ⟨hq, hr⟩
      have hp := (hstep s i hs hi).mpr hq
      exact ⟨hp, fun t h => (ih t ht (hinv s i t hs hi hp h)).mpr (hr t h)⟩

end NetworkOptimization.Runs
