import NetworkOptimization.ServerLoop

namespace NetworkOptimization.Resources

open Words Memory ControlMessages DynamicArray Verbs SequentialCode Calls Server Handlers Tables Runs
open ServerLoop

variable {n : Nat} {answer : (verb : Verb) → verb.Answer}

theorem finish_posting {rec : Recording} (h : answer .pollNSendWc = (0 : Int))
    (s : ServerMemory n) :
    (posting rec next).finish answer s =
      (settle (rec.code >>= next) s).bind (fun p => p.2.finish answer p.1) := by
  change execute answer (afterPost rec.code (answer (.ibvPostSend .send)) >>= next) s = _
  rw [execute_settle, settle_afterPost]
  change execute answer (afterConfirm rec.code (answer .pollNSendWc) >>= next) s = _
  rw [h, afterConfirm_zero, execute_settle]

theorem finish_posting_failed {rec : Recording} (h : answer .pollNSendWc ≠ (0 : Int))
    (s : ServerMemory n) : (posting rec next).finish answer s = some (s, .continue) := by
  change execute answer (afterPost rec.code (answer (.ibvPostSend .send)) >>= next) s = _
  rw [execute_settle, settle_afterPost]
  change execute answer (afterConfirm rec.code (answer .pollNSendWc) >>= next) s = _
  rw [execute_settle, settle_afterConfirm_failed rec.code h]
  rfl

def table (s : ServerMemory n) : List UInt8 → Option Slot := slots s.heap s.database.entries

def Free (s : ServerMemory n) (key : List UInt8) : Prop :=
  ∀ sl, table s key = some sl → sl.mrRdma = none

/-- The message is a set that the server accepts for a key that has a value. -/
def Overwrites (s : ServerMemory n) (msg : ControlMessage) : Prop :=
  (msg.operation = .clientKvSetEager ∨ msg.operation = .clientKvSetRendezvous) ∧
    ∃ key sl, stringAt msg.buf 0 = some key ∧ table s key = some sl ∧ sl.mrRdma = none

/-- The message is a request that the server answers with a region. -/
def Grants (s : ServerMemory n) (msg : ControlMessage) : Prop :=
  ∃ key, stringAt msg.buf 0 = some key ∧ ((msg.operation = .clientKvSetRendezvous ∧ Free s key) ∨
    (msg.operation = .clientKvGet ∧ ∃ sl, table s key = some sl ∧ sl.mrRdma = none ∧
      controlMessageBufferSize ≤ sl.size.toNat))

/-- What one dispatched message does to blocks, regions and entries, when every
deregistration succeeds. -/
inductive Passed (s : ServerMemory n) (msg : ControlMessage) (sent : Int) :
    ServerMemory n → LoopExit → Prop
  | unchanged {t exit} (hheap : t.heap = s.heap) (hregions : t.regions = s.regions)
      (hentries : t.database.entries = s.database.entries)
      (ho : ¬ Overwrites s msg) (hg : ¬ Grants s msg) : Passed s msg sent t exit
  | stored {t key a b x y size} (hop : msg.operation = .clientKvSetEager)
      (hkey : stringAt msg.buf 0 = some key) (hfree : Free s key)
      (hadd : Adds s.heap t.heap a x b y) (hregions : t.regions = s.regions)
      (hentries : t.database.entries =
        upsert (fun e => cstr t.heap e.keyAddress == some key) s.database.entries ⟨a, b, size, none⟩)
      (htable : table t = Function.update (table s) key (some ⟨b, size, none⟩)) :
      Passed s msg sent t .continue
  | granted_set {t key a b x y size mr} (hop : msg.operation = .clientKvSetRendezvous)
      (hkey : stringAt msg.buf 0 = some key) (hfree : Free s key) (hsent : sent = 0)
      (hadd : Adds s.heap t.heap a x b y) (hregions : t.regions = insert mr s.regions)
      (hentries : t.database.entries = upsert (fun e => cstr t.heap e.keyAddress == some key)
        s.database.entries ⟨a, b, size, some ⟨mr, b, size⟩⟩)
      (htable : table t = Function.update (table s) key (some ⟨b, size, some ⟨mr, b, size⟩⟩)) :
      Passed s msg sent t .continue
  | granted_get {t key sl mr} (hop : msg.operation = .clientKvGet)
      (hkey : stringAt msg.buf 0 = some key) (hsl : table s key = some sl) (hfree : sl.mrRdma = none)
      (hsent : sent = 0) (hheap : t.heap = s.heap) (hregions : t.regions = insert mr s.regions)
      (hrefs : refs t.database.entries = refs s.database.entries)
      (htable : table t =
        Function.update (table s) key (some ⟨sl.address, sl.size, some ⟨mr, sl.address, sl.size⟩⟩)) :
      Passed s msg sent t .continue
  | unsent {t mr} (hg : Grants s msg) (hsent : sent ≠ 0) (hmr : mr ∉ s.regions)
      (hregions : t.regions = insert mr s.regions) (htable : table t = table s) :
      Passed s msg sent t .continue
  | released {t key sl info} (ho : ¬ Overwrites s msg) (hg : ¬ Grants s msg)
      (hsl : table s key = some sl) (hinfo : sl.mrRdma = some info) (hheap : t.heap = s.heap)
      (hregions : t.regions = s.regions.erase info.mr)
      (hrefs : refs t.database.entries = refs s.database.entries)
      (htable : table t = Function.update (table s) key (some ⟨sl.address, sl.size, none⟩)) :
      Passed s msg sent t .continue

theorem finish_nothing (s : ServerMemory n) :
    (posting .nothing next).finish answer s = some (s, .continue) := by
  by_cases h : answer .pollNSendWc = (0 : Int)
  · rw [finish_posting h]
    rfl
  · exact finish_posting_failed h s

variable {s t : ServerMemory n} {es : List KeyValueAddressPair} {msg : ControlMessage}
  {key : List UInt8}

theorem table_eq (hv : Valid s es) : table s = slots s.heap es := by
  rw [table, hv.holds.entries]

theorem table_of_find (hv : Valid s es) {idx : Nat} {e : KeyValueAddressPair}
    (hf : find s.heap es key = some idx) (he : es[idx]? = some e) : table s key = some (slot e) := by
  rw [table_eq hv, slots_of_find hf he]

theorem free_of_find (hv : Valid s es) (hfree : ∀ idx e, find s.heap es key = some idx →
    es[idx]? = some e → e.mrRdma = none) : Free s key := by
  intro sl hsl
  rw [table_eq hv] at hsl
  obtain ⟨idx, e, hf, he, rfl, -⟩ := find_of_slots hsl
  exact hfree idx e hf he

theorem not_accepted {sl : Slot} (hkey : stringAt msg.buf 0 = some key)
    (hsl : table s key = some sl) (hbusy : sl.mrRdma.isSome) : ¬ Overwrites s msg ∧ ¬ Grants s msg := by
  constructor
  · rintro ⟨-, key', sl', hk', hsl', hm⟩
    rw [hkey] at hk'
    cases hk'
    rw [hsl] at hsl'
    cases hsl'
    simp [hm] at hbusy
  · rintro ⟨key', hk', ⟨-, hf⟩ | ⟨-, sl', hsl', hm, -⟩⟩ <;> rw [hkey] at hk' <;> cases hk'
    · simp [hf sl hsl] at hbusy
    · rw [hsl] at hsl'
      cases hsl'
      simp [hm] at hbusy

theorem not_accepted_operation (s : ServerMemory n) (msg : ControlMessage)
    (h₁ : msg.operation ≠ .clientKvSetEager) (h₂ : msg.operation ≠ .clientKvSetRendezvous)
    (h₃ : msg.operation ≠ .clientKvGet) :
    ¬ Overwrites s msg ∧ ¬ Grants s msg := by
  constructor
  · rintro ⟨h | h, -⟩
    · exact h₁ h
    · exact h₂ h
  · rintro ⟨-, -, ⟨h, -⟩ | ⟨h, -⟩⟩
    · exact h₂ h
    · exact h₃ h

theorem not_accepted_fin (s : ServerMemory n) (h : msg.operation = .clientKvSetRendezvousFin ∨
    msg.operation = .clientKvGetRendezvousFin) : ¬ Overwrites s msg ∧ ¬ Grants s msg := by
  obtain h | h := h <;>
    exact not_accepted_operation s msg (by simp [h]) (by simp [h]) (by simp [h])

theorem passed_served {i : Fin n} {s' : ServerMemory n} {rec : Recording} {exit : LoopExit}
    (hv : Valid s es) (hs : Served i msg s es s' rec)
    (hf : (posting rec next).finish answer s' = some (t, exit)) :
    exit = .continue ∧ Passed s msg (answer .pollNSendWc) t exit ∧ ∃ es', Valid t es' := by
  cases hs with
  | @refused key idx e r hop hkey hfind he hbusy hr =>
    rw [finish_nothing] at hf
    cases hf
    obtain ⟨ho, hg⟩ := not_accepted hkey (table_of_find hv hfind he) hbusy
    exact ⟨rfl, .unchanged rfl rfl rfl ho hg, es, hv.setSend i r⟩
  | @stored key size value a b h₁ h₂ h₃ database r hop hkey hsize hvalue hfree ha hb hi hr =>
    rw [finish_nothing] at hf
    cases hf
    obtain ⟨es', rest, hv', hadd, -, hes', hslots⟩ := hv.stored (stringAt_nulFree hkey) ha hb hi
    have htable : table (((s.setHeap h₃).setDatabase database).setSend i r) =
        Function.update (table s) key (some ⟨b, size, none⟩) := by
      rw [table_eq hv, table_eq (hv'.setSend i r)]
      exact hslots
    refine ⟨rfl, .stored hop hkey (free_of_find hv hfree) hadd rfl ?_ htable, es', hv'.setSend i r⟩
    rw [hv.holds.entries]
    exact hv'.holds.entries.trans hes'
  | @granted_set key size a b h₁ h₂ mr s₂ r hop hkey hsize hfree ha hb hreg hr =>
    obtain ⟨rfl, haddr, hlength, -, hv', hready, y, hy, hadd⟩ :=
      hv.granted_set (stringAt_nulFree hkey) ha hb hreg
    have hfree' := free_of_find hv hfree
    by_cases hsent : answer .pollNSendWc = (0 : Int)
    · obtain ⟨database, hsettle, -, hv'', hslots⟩ := Ready.settle (hv'.setSend i r) hready next
      rw [finish_posting hsent] at hf
      obtain ⟨p, hp, hf⟩ := Option.bind_eq_some_iff.mp hf
      cases hsettle p hp
      cases hf
      have htable : table ((((s.setHeap h₂).insertRegion mr).setSend i r).setDatabase database) =
          Function.update (table s) key (some ⟨b, size, some ⟨mr, b, size⟩⟩) := by
        rw [table_eq hv, table_eq hv'', ← hadd.slots_eq hv.sound]
        exact hslots
      refine ⟨rfl, .granted_set hop hkey hfree' hsent hadd rfl ?_ htable, _, hv''⟩
      rw [hv.holds.entries, hv''.holds.entries, apply]
      cases hready with
      | insert hfr => rw [← hfr.key]; rfl
    · rw [finish_posting_failed hsent] at hf
      cases hf
      refine ⟨rfl, .unsent ⟨key, hkey, .inl ⟨hop, hfree'⟩⟩ hsent ?_ rfl ?_, es, hv'.setSend i r⟩
      · intro hm
        obtain ⟨-, -, -, hk, -⟩ := ibvRegMr_eq_some hreg
        exact hk (Finset.mem_image_of_mem _ hm)
      · rw [table_eq hv, table_eq (hv'.setSend i r)]
        exact hadd.slots_eq hv.sound
  | @not_found key r hop hkey hfind hr =>
    rw [finish_nothing] at hf
    cases hf
    have hnone : table s key = none := by rw [table_eq hv, slots_of_none hfind]
    refine ⟨rfl, .unchanged rfl rfl rfl ?_ ?_, es, hv.setSend i r⟩
    · rintro ⟨h | h, -⟩ <;> rw [hop] at h <;> cases h
    · rintro ⟨key', hk', ⟨h, -⟩ | ⟨-, sl, hsl, -⟩⟩
      · rw [hop] at h
        cases h
      · rw [hkey] at hk'
        cases hk'
        rw [hnone] at hsl
        cases hsl
  | @value key idx e block r hop hkey hfind he hfree hsmall hb hr =>
    rw [finish_nothing] at hf
    cases hf
    have hsl := table_of_find hv hfind he
    refine ⟨rfl, .unchanged rfl rfl rfl ?_ ?_, es, hv.setSend i r⟩
    · rintro ⟨h | h, -⟩ <;> rw [hop] at h <;> cases h
    · rintro ⟨key', hk', ⟨h, -⟩ | ⟨-, sl, hsl', -, hlarge⟩⟩
      · rw [hop] at h
        cases h
      · rw [hkey] at hk'
        cases hk'
        rw [hsl] at hsl'
        cases hsl'
        exact absurd hlarge (Nat.not_le_of_lt hsmall)
  | @granted_get key idx e mr s₂ r hop hkey hfind he hfree hlarge hreg hr =>
    obtain ⟨x, hx, hxk⟩ := find_some hfind
    rw [he] at hx
    cases hx
    obtain ⟨rfl, haddr, hlength, -, hv', hready⟩ := hv.granted_get he hxk hreg
    have hsl := table_of_find hv hfind he
    by_cases hsent : answer .pollNSendWc = (0 : Int)
    · obtain ⟨database, hsettle, -, hv'', hslots⟩ := Ready.settle (hv'.setSend i r) hready next
      rw [finish_posting hsent] at hf
      obtain ⟨p, hp, hf⟩ := Option.bind_eq_some_iff.mp hf
      cases hsettle p hp
      cases hf
      refine ⟨rfl, .granted_get hop hkey hsl hfree hsent rfl rfl ?_ ?_, _, hv''⟩
      · rw [hv.holds.entries, hv''.holds.entries, apply, he]
        exact refs_mark he _
      · rw [table_eq hv, table_eq hv'']
        exact hslots
    · rw [finish_posting_failed hsent] at hf
      cases hf
      refine ⟨rfl, .unsent ⟨key, hkey, .inr ⟨hop, _, hsl, hfree, hlarge⟩⟩ hsent ?_ rfl ?_, es,
        hv'.setSend i r⟩
      · intro hm
        obtain ⟨-, -, -, hk, -⟩ := ibvRegMr_eq_some hreg
        exact hk (Finset.mem_image_of_mem _ hm)
      · rw [table_eq hv, table_eq (hv'.setSend i r)]
        rfl

/-- The summary is right for every message, once every deregistration succeeds. The
server returns at the last of the shut-down messages and nowhere else. -/
theorem passed_dispatch {i : Fin n} {exit : LoopExit} (hv : Valid s es)
    (hdereg : answer .ibvDeregMr = (0 : Int))
    (h : execute answer (dispatch i msg) s = some (t, exit)) :
    Passed s msg (answer .pollNSendWc) t exit ∧ (∃ es', Valid t es') ∧
      (exit = .return ↔
        msg.operation = .shutDownServer ∧ s.numShutDownServerRequest + 1 = n) := by
  rw [execute_settle] at h
  obtain ⟨⟨s', stop⟩, hs, hf⟩ := Option.bind_eq_some_iff.mp h
  have hcontinue : msg.operation ≠ .shutDownServer → (LoopExit.continue = .return ↔
      msg.operation = .shutDownServer ∧ s.numShutDownServerRequest + 1 = n) :=
    fun hop => iff_of_false (by simp) (fun h => hop h.1)
  cases dispatch_eq_some hv.wellFormed hs with
  | served hserved =>
    obtain ⟨rfl, hp, hv'⟩ := passed_served hv hserved hf
    refine ⟨hp, hv', hcontinue ?_⟩
    cases hserved with
    | refused hop => obtain hop | hop | hop := hop <;> simp [hop]
    | stored hop | granted_set hop | not_found hop | value hop | granted_get hop => simp [hop]
  | @unlocked key idx e successful r hop hkey hfind he hfree hr =>
    rw [finish_nothing] at hf
    cases hf
    have hops : msg.operation = .clientKvSetRendezvousFin ∨ msg.operation = .clientKvGetRendezvousFin :=
      hop.imp And.left And.left
    obtain ⟨ho, hg⟩ := not_accepted_fin s hops
    exact ⟨.unchanged rfl rfl rfl ho hg, ⟨es, hv.setSend i r⟩,
      hcontinue (by rcases hops with h | h <;> simp [h])⟩
  | @release key idx e info successful hop hkey hfind he hlock =>
    have hops : msg.operation = .clientKvSetRendezvousFin ∨ msg.operation = .clientKvGetRendezvousFin :=
      hop.imp And.left And.left
    obtain ⟨ho, hg⟩ := not_accepted_fin s hops
    have hfields : successful.fields = [] := by
      obtain ⟨-, rfl⟩ | ⟨-, rfl⟩ := hop <;> rfl
    obtain ⟨x, hx, hxk⟩ := find_some hfind
    rw [he] at hx
    cases hx
    change execute answer (afterDereg i successful idx info.mr next (answer .ibvDeregMr)) s = _ at hf
    rw [hdereg, execute_settle] at hf
    obtain ⟨⟨s₂, stop₂⟩, hs₂, hf⟩ := Option.bind_eq_some_iff.mp hf
    obtain ⟨r, hr, rfl, rfl⟩ := afterDereg_zero hfields hv.wellFormed he hs₂
    rw [finish_nothing] at hf
    cases hf
    obtain ⟨hv', hslots⟩ := hv.release he hxk hlock
    refine ⟨.released ho hg (table_of_find hv hfind he) hlock rfl rfl ?_ ?_, ⟨_, hv'.setSend i r⟩,
      hcontinue (by rcases hops with h | h <;> simp [h])⟩
    · rw [hv.holds.entries, (hv'.setSend i r).holds.entries]
      exact refs_mark he none
    · rw [table_eq hv, table_eq (hv'.setSend i r)]
      exact hslots
  | shut_down hop hcount =>
    cases hf
    obtain ⟨ho, hg⟩ := not_accepted_operation s msg (by simp [hop]) (by simp [hop]) (by simp [hop])
    exact ⟨.unchanged rfl rfl rfl ho hg, ⟨es, hv.countShutDown⟩, by simp [hop, hcount]⟩
  | last_shut_down hop hcount =>
    cases hf
    obtain ⟨ho, hg⟩ := not_accepted_operation s msg (by simp [hop]) (by simp [hop]) (by simp [hop])
    exact ⟨.unchanged rfl rfl rfl ho hg, ⟨es, hv.countShutDown⟩, by simp [hop, hcount]⟩
  | ignored hop =>
    cases hf
    obtain ⟨h₀, h₁, h₂, h₃, -⟩ := hop
    obtain ⟨ho, hg⟩ := not_accepted_operation s msg h₁ h₂ h₃
    exact ⟨.unchanged rfl rfl rfl ho hg, ⟨es, hv⟩, hcontinue h₀⟩

/-- Every live block is referenced by the database, and there only once. -/
def Balanced (s : ServerMemory n) : Prop :=
  (refs s.database.entries).Nodup ∧ ∀ a, s.heap.blocks a ≠ none ↔ a ∈ refs s.database.entries

theorem mem_refs_upsert {h : Heap} {e : KeyValueAddressPair} {a : UInt64}
    (hnew : find h es key = none) :
    a ∈ refs (upsert (fun x => cstr h x.keyAddress == some key) es e) ↔
      a ∈ refs es ∨ a = e.keyAddress ∨ a = e.valueAddress := by
  rw [find] at hnew
  rw [upsert_findIdx, hnew]
  simp only [refs, List.map_append, List.map_cons, List.map_nil, List.mem_append, List.mem_singleton]
  tauto

theorem key_not_mem_refs_upsert {h : Heap} {e : KeyValueAddressPair} {idx : Nat}
    (hnew : find h es key = some idx) (hk : e.keyAddress ∉ refs es)
    (hne : e.keyAddress ≠ e.valueAddress) :
    e.keyAddress ∉ refs (upsert (fun x => cstr h x.keyAddress == some key) es e) := by
  obtain ⟨x, hx, -⟩ := find_some hnew
  rw [find] at hnew
  rw [upsert_findIdx, hnew]
  simp only [hx, Option.map_some, Option.getD_some]
  have hkk : e.keyAddress ∉ es.map KeyValueAddressPair.keyAddress :=
    fun hm => hk (List.mem_append_left _ hm)
  have hkv : e.keyAddress ∉ es.map KeyValueAddressPair.valueAddress :=
    fun hm => hk (List.mem_append_right _ hm)
  rw [refs, map_set_same KeyValueAddressPair.keyAddress hx { e with keyAddress := x.keyAddress } rfl,
    List.map_set]
  intro hm
  obtain hm | hm := List.mem_append.mp hm
  · exact hkk hm
  · obtain hm | hm := List.mem_or_eq_of_mem_set hm
    · exact hkv hm
    · exact hne hm

/-- Two new blocks are accounted for exactly when the key is new. -/
theorem balanced_upsert {e : KeyValueAddressPair} {x y : List UInt8} (hv : Valid s es)
    (hb : Balanced s) (hv' : Valid t (upsert (fun x => cstr t.heap x.keyAddress == some key) es e))
    (hadd : Adds s.heap t.heap e.keyAddress x e.valueAddress y) :
    Balanced t ↔ table s key = none := by
  obtain ⟨hnd, hlive⟩ := hb
  rw [hv.holds.entries] at hnd hlive
  have hfind : find t.heap es key = find s.heap es key :=
    find_congr (fun z hz => hadd.cstr_old (hv.sound.keys z hz)) key
  have hkr : e.keyAddress ∉ refs es := fun hm => hv.sound.ref_live hm hadd.newKey
  have hblocks : ∀ a, t.heap.blocks a ≠ none ↔
      s.heap.blocks a ≠ none ∨ a = e.keyAddress ∨ a = e.valueAddress := by
    intro a
    by_cases hak : a = e.keyAddress
    · simp [hak, hadd.key]
    · by_cases hav : a = e.valueAddress
      · simp [hav, hadd.value]
      · simp [hadd.blocks, hak, hav]
  cases hf : find s.heap es key with
  | none =>
    rw [hf] at hfind
    have hn : table s key = none := by rw [table_eq hv, slots_of_none hf]
    refine iff_of_true ⟨?_, fun a => ?_⟩ hn
    · rw [hv'.holds.entries]
      exact hv'.sound.refs
    · rw [hv'.holds.entries, hblocks, hlive]
      exact (mem_refs_upsert hfind).symm
  | some idx =>
    rw [hf] at hfind
    obtain ⟨z, hz, -⟩ := find_some hf
    have hs : table s key ≠ none := by
      rw [table_of_find hv hf hz]
      simp
    refine iff_of_false ?_ hs
    rintro ⟨-, hall⟩
    have hm := (hall e.keyAddress).mp (by simp [hadd.key])
    rw [hv'.holds.entries] at hm
    exact key_not_mem_refs_upsert hfind hkr hadd.ne hm

theorem overwrites_iff (hop : msg.operation = .clientKvSetEager ∨
    msg.operation = .clientKvSetRendezvous) (hkey : stringAt msg.buf 0 = some key)
    (hfree : Free s key) : ¬ Overwrites s msg ↔ table s key = none := by
  constructor
  · intro hno
    by_contra hne
    obtain ⟨sl, hsl⟩ := Option.ne_none_iff_exists'.mp hne
    exact hno ⟨hop, key, sl, hkey, hsl, hfree sl hsl⟩
  · rintro hnone ⟨-, key', sl, hk', hsl, -⟩
    rw [hkey] at hk'
    cases hk'
    rw [hnone] at hsl
    cases hsl

/-- Blocks and database stay in agreement exactly when no value is overwritten. -/
theorem balanced_passed {exit : LoopExit} (hv : Valid s es) (hb : Balanced s)
    (hp : Passed s msg 0 t exit) (hv' : ∃ es', Valid t es') :
    Balanced t ↔ ¬ Overwrites s msg := by
  obtain ⟨es', hv'⟩ := hv'
  obtain rfl := hv.holds.entries
  obtain rfl := hv'.holds.entries
  have hsame : t.heap = s.heap → refs t.database.entries = refs s.database.entries → Balanced t := by
    intro hheap hrefs
    rw [Balanced, hheap, hrefs]
    exact hb
  cases hp with
  | unchanged hheap hregions hentries ho hg => exact iff_of_true (hsame hheap (by rw [hentries])) ho
  | stored hop hkey hfree hadd hregions hentries htable =>
    rw [hentries] at hv'
    rw [balanced_upsert hv hb hv' hadd, overwrites_iff (.inl hop) hkey hfree]
  | granted_set hop hkey hfree hsent hadd hregions hentries htable =>
    rw [hentries] at hv'
    rw [balanced_upsert hv hb hv' hadd, overwrites_iff (.inr hop) hkey hfree]
  | granted_get hop hkey hsl hfree hsent hheap hregions hrefs htable =>
    refine iff_of_true (hsame hheap hrefs) ?_
    rintro ⟨h | h, -⟩ <;> rw [hop] at h <;> cases h
  | unsent hg hsent => exact absurd rfl hsent
  | released ho hg hsl hinfo hheap hregions hrefs => exact iff_of_true (hsame hheap hrefs) ho

def Succeeds : Loop.Input → Prop
  | .visit v => v.sent = 0 ∧ v.dereg = 0 ∧ ∀ k, v.posts k = true
  | .remoteWrite _ _ => True

/-- After each pass blocks and database agree; after the final clean-up no block is left. -/
def NoLeak (s : Loop n) : Loop.Input → Prop
  | .visit v => ∀ t exit, s.pass v = some (t, exit) →
    match exit with
    | .continue => Balanced t
    | .return => ∀ a, t.heap.blocks a = none
  | .remoteWrite _ _ => True

/-- No accepted set meets a value of its key, and the server is not shut down while
the database holds an entry. Where the pass is undefined nothing is asked. -/
def NothingReplaced (s : Loop n) : Loop.Input → Prop
  | .visit v => (s.pass v).isSome → s.polled v = 0 → ¬ Overwrites s.mem v.message ∧
    (v.message.operation = .shutDownServer → s.mem.numShutDownServerRequest + 1 = n →
      s.mem.database.entries = [])
  | .remoteWrite _ _ => True

theorem valid_start (place : Nat → UInt64) (junk : Nat → Nat → UInt8) (rkeys : Nat → UInt32)
    (records reallocs : Nat → Bool) (send : Fin n → ControlMessage) :
    Valid (runServerInit place junk rkeys records reallocs send) [] where
  holds := holds_initialize 20 (by decide)
  kvMalloc := rfl
  sound := ⟨by simp, by simp, by simp [refs], by simp, by simp [runServerInit, setKvMalloc], by simp,
    by simp, by simp [runServerInit, setKvMalloc]⟩

theorem balanced_start (place : Nat → UInt64) (junk : Nat → Nat → UInt8) (rkeys : Nat → UInt32)
    (records reallocs : Nat → Bool) (send : Fin n → ControlMessage) :
    Balanced (runServerInit place junk rkeys records reallocs send) := by
  have he := (valid_start place junk rkeys records reallocs send).holds.entries
  rw [Balanced, he]
  simp [refs, runServerInit, setKvMalloc]

theorem move_visit {s t : Loop n} {v : Visit} (h : s.move (.visit v) = some t) :
    s.pass v = some (t.mem, .continue) := by
  rw [Loop.move] at h
  split at h
  next mem hp =>
    cases h
    exact hp
  next => cases h

theorem move_remoteWrite {s t : Loop n} {mr : Mr} {bytes : List UInt8}
    (h : s.move (.remoteWrite mr bytes) = some t) :
    mr ∈ s.mem.regions ∧ bytes.length = mr.length.toNat ∧
      t.mem = s.mem.setHeap (write s.mem.heap mr.addr bytes) := by
  rw [Loop.move] at h
  split at h
  next hc =>
    cases h
    exact ⟨hc.1, hc.2.2, rfl⟩
  next => cases h

theorem balanced_write {mr : Mr} {bytes block : List UInt8} (hb : Balanced s)
    (hblock : s.heap.blocks mr.addr = some block) :
    Balanced (s.setHeap (write s.heap mr.addr bytes)) := by
  obtain ⟨hnd, hlive⟩ := hb
  refine ⟨hnd, fun a => (Iff.trans ?_ (hlive a))⟩
  by_cases ha : a = mr.addr
  · subst ha
    simp [ServerMemory.setHeap, hblock]
  · simp [ServerMemory.setHeap, ha]

theorem refs_eq_nil : refs es = [] ↔ es = [] := by
  simp [refs]

theorem pass_dispatch {s : Loop n} {v : Visit} {t : ServerMemory n} {exit : LoopExit}
    (hv : Valid s.mem es) (hdereg : v.dereg = 0) (h : s.pass v = some (t, exit)) :
    (s.polled v ≠ 0 ∧ t = s.mem ∧ exit = .continue) ∨
      (s.polled v = 0 ∧ Passed s.mem v.message v.sent t exit ∧ (∃ es', Valid t es') ∧
        (exit = .return ↔ v.message.operation = .shutDownServer ∧
          s.mem.numShutDownServerRequest + 1 = n)) := by
  by_cases hpoll : s.polled v = 0
  · rw [pass_taken hpoll] at h
    have hanswer : s.answer v .ibvDeregMr = (0 : Int) := hdereg
    exact .inr ⟨hpoll, passed_dispatch hv hanswer h⟩
  · rw [pass_idle hpoll] at h
    cases h
    exact .inl ⟨hpoll, rfl, rfl⟩

theorem valid_pass {s : Loop n} {v : Visit} {t : ServerMemory n} {exit : LoopExit}
    (hv : Valid s.mem es) (hdereg : v.dereg = 0) (h : s.pass v = some (t, exit)) :
    ∃ es', Valid t es' := by
  obtain ⟨-, rfl, -⟩ | ⟨-, -, hv', -⟩ := pass_dispatch hv hdereg h
  · exact ⟨es, hv⟩
  · exact hv'

theorem valid_remoteWrite {s t : Loop n} {mr : Mr} {bytes : List UInt8} (hv : Valid s.mem es)
    (h : s.move (.remoteWrite mr bytes) = some t) : Valid t.mem es := by
  obtain ⟨hmr, hlen, ht⟩ := move_remoteWrite h
  obtain ⟨block, hblock, hl⟩ := hv.sound.shared mr hmr
  rw [ht]
  exact hv.write hmr hblock (hlen.trans hl.symm)

theorem noLeak_visit {s : Loop n} {v : Visit} (hv : Valid s.mem es) (hb : Balanced s.mem)
    (hi : Succeeds (.visit v)) : NoLeak s (.visit v) ↔ NothingReplaced s (.visit v) := by
  obtain ⟨hsent, hdereg, -⟩ := hi
  cases hp : s.pass v with
  | none => simp [NoLeak, NothingReplaced, hp]
  | some out =>
    obtain ⟨t, exit⟩ := out
    simp only [NoLeak, NothingReplaced, hp, Option.some.injEq, Prod.mk.injEq, and_imp,
      forall_apply_eq_imp_iff, forall_eq', Option.isSome_some, forall_const]
    obtain ⟨hpoll, rfl, rfl⟩ | ⟨hpoll, hpassed, hv', hexit⟩ := pass_dispatch hv hdereg hp
    · exact iff_of_true hb (fun h => absurd h hpoll)
    · rw [hsent] at hpassed
      simp only [hpoll, forall_const]
      cases exit with
      | «continue» =>
        have hlast : v.message.operation = .shutDownServer →
            s.mem.numShutDownServerRequest + 1 ≠ n :=
          fun hop hcount => by simpa using hexit.mpr ⟨hop, hcount⟩
        rw [balanced_passed hv hb hpassed hv']
        exact ⟨fun h => ⟨h, fun hop hcount => absurd hcount (hlast hop)⟩, And.left⟩
      | «return» =>
        obtain ⟨hop, hcount⟩ := hexit.mp rfl
        cases hpassed with
        | unchanged hheap hregions hentries ho hg =>
          simp only [ho, not_false_eq_true, hop, hcount, forall_const, true_and]
          rw [← refs_eq_nil, List.eq_nil_iff_forall_not_mem, hheap]
          exact forall_congr' (fun a => by rw [← hb.2 a, not_not])

/-- Runs keep blocks and database in agreement, and end with no block left, exactly as
long as nothing is overwritten and the database is empty at the end. -/
theorem no_leak_iff (place : Nat → UInt64) (junk : Nat → Nat → UInt8) (rkeys : Nat → UInt32)
    (records reallocs : Nat → Bool) (send : Fin n → ControlMessage) (first : Fin n)
    (inputs : List Loop.Input)
    (hsucceed : ∀ i ∈ inputs, Succeeds i) :
    Along Loop.move NoLeak (.start place junk rkeys records reallocs send rxDepth first) inputs ↔
      Along Loop.move NothingReplaced (.start place junk rkeys records reallocs send rxDepth first)
      inputs := by
  refine along_iff (fun s => (∃ es, Valid s.mem es) ∧ Balanced s.mem) Succeeds ?_ ?_ inputs _
    hsucceed ⟨⟨[], valid_start place junk rkeys records reallocs send⟩,
      balanced_start place junk rkeys records reallocs send⟩
  · rintro s (v | ⟨mr, bytes⟩) ⟨⟨es, hv⟩, hb⟩ hi
    · exact noLeak_visit hv hb hi
    · exact Iff.rfl
  · rintro s (v | ⟨mr, bytes⟩) t ⟨⟨es, hv⟩, hb⟩ hi hp hm
    · have hpass := move_visit hm
      exact ⟨valid_pass hv hi.2.1 hpass, hp _ _ hpass⟩
    · obtain ⟨hmr, -, ht⟩ := move_remoteWrite hm
      obtain ⟨block, hblock, -⟩ := hv.sound.shared mr hmr
      refine ⟨⟨es, valid_remoteWrite hv hm⟩, ?_⟩
      rw [ht]
      exact balanced_write hb hblock

def store : Visit where
  poll := .completion ⟨.success, .recv⟩
  posts := fun _ => true
  message := zeroed .clientKvSetEager ([97, 0] ++ u64Bytes 2 ++ [98, 0]) (by decide)
  sent := 0
  dereg := 0

theorem no_leak_store : Along Loop.move NoLeak sample [.visit store] := by
  refine (no_leak_iff _ _ _ _ _ _ 0 [.visit store] ?_).mpr ⟨fun _ _ => ⟨?_, ?_⟩, fun _ _ => trivial⟩
  · intro i hi
    obtain rfl := List.mem_singleton.mp hi
    exact ⟨rfl, rfl, fun _ => rfl⟩
  · rintro ⟨-, key, sl, -, hsl, -⟩
    cases hsl
  · intro hop
    cases hop

/-- The second set of a key leaves the block of its own copy of the key behind. -/
theorem block_leaked : ¬ Along Loop.move NoLeak sample [.visit store, .visit store] := by
  have hrun : ((sample.move (.visit store)).bind (fun t => t.pass store)).map (fun p =>
      ((p.1.heap.blocks 3).isSome, decide (3 ∈ refs p.1.database.entries), decide (p.2 = .continue))) =
        some (true, false, true) := by decide +kernel
  rintro ⟨-, ht⟩
  obtain ⟨⟨mem, exit⟩, hp, heq⟩ := Option.map_eq_some_iff.mp hrun
  obtain ⟨t, hm, hp⟩ := Option.bind_eq_some_iff.mp hp
  simp only [Prod.mk.injEq, decide_eq_true_eq, decide_eq_false_iff_not] at heq
  obtain ⟨hlive, href, rfl⟩ := heq
  have hb := (ht t hm).1 mem .continue hp
  exact href ((hb.2 3).mp (Option.isSome_iff_ne_none.mp hlive))

def Recorded (s : ServerMemory n) (mr : Mr) : Prop :=
  ∃ e ∈ s.database.entries, ∃ info, e.mrRdma = some info ∧ info.mr = mr

def Marked (t : List UInt8 → Option Slot) (mr : Mr) : Prop :=
  ∃ key sl info, t key = some sl ∧ sl.mrRdma = some info ∧ info.mr = mr

theorem recorded_iff (hv : Valid s es) (mr : Mr) : Recorded s mr ↔ Marked (table s) mr := by
  rw [Recorded, hv.holds.entries, table_eq hv]
  constructor
  · rintro ⟨e, he, info, hi, hmr⟩
    obtain ⟨key, hk⟩ := Option.isSome_iff_exists.mp (hv.sound.keys e he)
    exact ⟨key, slot e, info, hv.sound.slots_of_mem he hk, hi, hmr⟩
  · rintro ⟨key, sl, info, hsl, hi, hmr⟩
    obtain ⟨idx, e, -, he, rfl, -⟩ := find_of_slots hsl
    exact ⟨e, List.mem_of_getElem? he, info, hi, hmr⟩

theorem marked_unique (hv : Valid s es) {key' : List UInt8} {sl sl' : Slot} {info info' : MrInfo}
    (h : table s key = some sl) (h' : table s key' = some sl') (hi : sl.mrRdma = some info)
    (hi' : sl'.mrRdma = some info') (hmr : info.mr = info'.mr) : key = key' := by
  rw [table_eq hv] at h h'
  obtain ⟨idx, e, -, he, rfl, hk⟩ := find_of_slots h
  obtain ⟨idx', e', -, he', rfl, hk'⟩ := find_of_slots h'
  have hm := List.mem_of_getElem? he
  have hm' := List.mem_of_getElem? he'
  obtain ⟨-, ha, -⟩ := hv.sound.recorded e hm info hi
  obtain ⟨-, ha', -⟩ := hv.sound.recorded e' hm' info' hi'
  obtain rfl := hv.sound.same_value hm hm' (by rw [← ha, ← ha', hmr])
  exact Option.some.inj (hk.symm.trans hk')

section Marked

variable {T : List UInt8 → Option Slot} {a size : UInt64} {mr : Mr}

theorem marked_update (hfree : ∀ sl, T key = some sl → sl.mrRdma = none) (m : Option MrInfo) :
    Marked (Function.update T key (some ⟨a, size, m⟩)) mr ↔
      (∃ info, m = some info ∧ info.mr = mr) ∨ Marked T mr := by
  constructor
  · rintro ⟨key', sl, info, hsl, hi, hmr⟩
    by_cases hk : key' = key
    · subst hk
      rw [Function.update_self] at hsl
      cases hsl
      exact .inl ⟨info, hi, hmr⟩
    · rw [Function.update_of_ne hk] at hsl
      exact .inr ⟨key', sl, info, hsl, hi, hmr⟩
  · rintro (⟨info, rfl, hmr⟩ | ⟨key', sl, info, hsl, hi, hmr⟩)
    · exact ⟨key, _, info, Function.update_self .., rfl, hmr⟩
    · have hk : key' ≠ key := by
        rintro rfl
        rw [hfree sl hsl] at hi
        cases hi
      exact ⟨key', sl, info, by rw [Function.update_of_ne hk, hsl], hi, hmr⟩

theorem marked_release {sl : Slot} {info : MrInfo} (hsl : T key = some sl)
    (hi : sl.mrRdma = some info)
    (hunique : ∀ key' sl' info', T key' = some sl' → sl'.mrRdma = some info' →
      info'.mr = info.mr → key' = key) :
    Marked (Function.update T key (some ⟨a, size, none⟩)) mr ↔ mr ≠ info.mr ∧ Marked T mr := by
  constructor
  · rintro ⟨key', sl', info', hsl', hi', rfl⟩
    have hk : key' ≠ key := by
      rintro rfl
      rw [Function.update_self] at hsl'
      cases hsl'
      cases hi'
    rw [Function.update_of_ne hk] at hsl'
    exact ⟨fun hmr => hk (hunique key' sl' info' hsl' hi' hmr), key', sl', info', hsl', hi', rfl⟩
  · rintro ⟨hne, key', sl', info', hsl', hi', rfl⟩
    have hk : key' ≠ key := by
      rintro rfl
      rw [hsl] at hsl'
      cases hsl'
      rw [hi] at hi'
      cases hi'
      exact hne rfl
    exact ⟨key', sl', info', by rw [Function.update_of_ne hk, hsl'], hi', rfl⟩

end Marked

theorem recorded_passed {sent : Int} {exit : LoopExit} (hv : Valid s es)
    (hr : ∀ mr, mr ∈ s.regions ↔ Recorded s mr) (hp : Passed s msg sent t exit)
    (hv' : ∃ es', Valid t es') :
    (∀ mr, mr ∈ t.regions ↔ Recorded t mr) ↔ (Grants s msg → sent = 0) := by
  obtain ⟨es', hv'⟩ := hv'
  simp only [recorded_iff hv] at hr
  simp only [recorded_iff hv']
  cases hp with
  | unchanged hheap hregions hentries ho hg =>
    refine iff_of_true (fun mr => ?_) (fun h => absurd h hg)
    rw [hregions, hr, table, table, hheap, hentries]
  | @stored key a b x y size hop hkey hfree hadd hregions hentries htable =>
    refine iff_of_true (fun mr => ?_) ?_
    · rw [hregions, hr, htable, marked_update hfree]
      simp
    · rintro ⟨-, -, ⟨h, -⟩ | ⟨h, -⟩⟩ <;> rw [hop] at h <;> cases h
  | @granted_set key a b x y size mr' hop hkey hfree hsent hadd hregions hentries htable =>
    refine iff_of_true (fun mr => ?_) (fun _ => hsent)
    rw [hregions, htable, marked_update hfree, Finset.mem_insert, hr]
    simp [eq_comm]
  | @granted_get key sl mr' hop hkey hsl hfree hsent hheap hregions hrefs htable =>
    refine iff_of_true (fun mr => ?_) (fun _ => hsent)
    have hfree' : ∀ sl', table s key = some sl' → sl'.mrRdma = none := by
      intro sl' hsl'
      rw [hsl] at hsl'
      cases hsl'
      exact hfree
    rw [hregions, htable, marked_update hfree', Finset.mem_insert, hr]
    simp [eq_comm]
  | @unsent mr' hg hsent hmr hregions htable =>
    refine iff_of_false (fun hall => ?_) (fun h => hsent (h hg))
    have hm := (hall mr').mp (by rw [hregions]; exact Finset.mem_insert_self mr' _)
    rw [htable] at hm
    exact hmr ((hr mr').mpr hm)
  | @released key sl info ho hg hsl hinfo hheap hregions hrefs htable =>
    refine iff_of_true (fun mr => ?_) (fun h => absurd h hg)
    have hunique : ∀ key' sl' info', table s key' = some sl' → sl'.mrRdma = some info' →
        info'.mr = info.mr → key' = key :=
      fun key' sl' info' h h' hmr => marked_unique hv h hsl h' hinfo hmr
    rw [hregions, htable, marked_release hsl hinfo hunique, Finset.mem_erase, hr]

/-- Every deregistration of the visit succeeds; the sends may fail. -/
def Deregisters : Loop.Input → Prop
  | .visit v => v.dereg = 0
  | .remoteWrite _ _ => True

/-- After each pass the registered regions are the recorded ones. -/
def RegionsRecorded (s : Loop n) : Loop.Input → Prop
  | .visit v => ∀ t exit, s.pass v = some (t, exit) → ∀ mr, mr ∈ t.regions ↔ Recorded t mr
  | .remoteWrite _ _ => True

/-- No send of a granted region fails. Where the pass is undefined nothing is asked. -/
def GrantsSent (s : Loop n) : Loop.Input → Prop
  | .visit v => (s.pass v).isSome → s.polled v = 0 → Grants s.mem v.message → v.sent = 0
  | .remoteWrite _ _ => True

theorem regionsRecorded_visit {s : Loop n} {v : Visit} (hv : Valid s.mem es)
    (hr : ∀ mr, mr ∈ s.mem.regions ↔ Recorded s.mem mr) (hi : Deregisters (.visit v)) :
    RegionsRecorded s (.visit v) ↔ GrantsSent s (.visit v) := by
  cases hp : s.pass v with
  | none => simp [RegionsRecorded, GrantsSent, hp]
  | some out =>
    obtain ⟨t, exit⟩ := out
    simp only [RegionsRecorded, GrantsSent, hp, Option.some.injEq, Prod.mk.injEq, and_imp,
      forall_apply_eq_imp_iff, forall_eq', Option.isSome_some, forall_const]
    obtain ⟨hpoll, rfl, -⟩ | ⟨hpoll, hpassed, hv', -⟩ := pass_dispatch hv hi hp
    · exact iff_of_true hr (fun h => absurd h hpoll)
    · simp only [hpoll, forall_const]
      exact recorded_passed hv hr hpassed hv'

/-- Runs keep registrations and database in agreement exactly as long as no send of a
granted region fails. -/
theorem regions_recorded_iff (place : Nat → UInt64) (junk : Nat → Nat → UInt8)
    (rkeys : Nat → UInt32) (records reallocs : Nat → Bool) (send : Fin n → ControlMessage) (first : Fin n)
    (inputs : List Loop.Input) (hderegister : ∀ i ∈ inputs, Deregisters i) :
    Along Loop.move RegionsRecorded (.start place junk rkeys records reallocs send rxDepth first) inputs ↔
      Along Loop.move GrantsSent (.start place junk rkeys records reallocs send rxDepth first) inputs := by
  have hv := valid_start place junk rkeys records reallocs send
  have hstart : ∀ mr, mr ∈ (runServerInit place junk rkeys records reallocs send).regions ↔
      Recorded (runServerInit place junk rkeys records reallocs send) mr := by
    intro mr
    rw [Recorded, hv.holds.entries]
    simp [runServerInit, setKvMalloc]
  refine along_iff (fun s => (∃ es, Valid s.mem es) ∧ ∀ mr, mr ∈ s.mem.regions ↔ Recorded s.mem mr)
    Deregisters ?_ ?_ inputs _ hderegister ⟨⟨[], hv⟩, hstart⟩
  · rintro s (v | ⟨mr, bytes⟩) ⟨⟨es, hv⟩, hr⟩ hi
    · exact regionsRecorded_visit hv hr hi
    · exact Iff.rfl
  · rintro s (v | ⟨mr, bytes⟩) t ⟨⟨es, hv⟩, hr⟩ hi hp hm
    · have hpass := move_visit hm
      exact ⟨valid_pass hv hi hpass, hp _ _ hpass⟩
    · obtain ⟨-, -, ht⟩ := move_remoteWrite hm
      refine ⟨⟨es, valid_remoteWrite hv hm⟩, fun r => ?_⟩
      rw [ht]
      exact hr r

/-- A client asks to set the key `a` to a value of 5000 bytes; `sent` is the outcome of the
answer. -/
def offer (sent : Int) : Visit where
  poll := .completion ⟨.success, .recv⟩
  posts := fun _ => true
  message := zeroed .clientKvSetRendezvous ([97, 0] ++ u64Bytes 5000) (by decide)
  sent := sent
  dereg := 0

theorem regions_recorded_offer : Along Loop.move RegionsRecorded sample [.visit (offer 0)] := by
  refine (regions_recorded_iff _ _ _ _ _ _ 0 [.visit (offer 0)] ?_).mpr
    ⟨fun _ _ _ => rfl, fun _ _ => trivial⟩
  intro i hi
  obtain rfl := List.mem_singleton.mp hi
  exact rfl

/-- The region stays open after its announcement failed, and no entry records it. -/
theorem region_forgotten : ¬ Along Loop.move RegionsRecorded sample [.visit (offer 1)] := by
  have hrun : (sample.pass (offer 1)).map (fun p =>
      (decide (⟨2, 5000, 0, .remoteWrite⟩ ∈ p.1.regions), p.1.database.entries)) =
        some (true, []) := by decide +kernel
  rintro ⟨hall, -⟩
  obtain ⟨⟨t, exit⟩, hp, heq⟩ := Option.map_eq_some_iff.mp hrun
  simp only [Prod.mk.injEq, decide_eq_true_eq] at heq
  obtain ⟨hmr, hes⟩ := heq
  obtain ⟨e, he, -⟩ := (hall t exit hp _).mp hmr
  rw [hes] at he
  cases he

end NetworkOptimization.Resources
