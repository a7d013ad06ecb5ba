import MiniMM.Spec.Frame

/-!
# Specifications of the page table

An entry stands for a reference, a mapping and, if it is locked, a pin of its frame. Each function
of the page table changes the handles of its caller as it changes the entries.
-/

namespace MiniMM

open Handle

theorem Pte.sites_eq (pte : Pte) : pte.sites =
    {ref pte.frame} + {map pte.frame} + if pte.flags.locked then {pin pte.frame} else 0 := rfl

namespace PageTable

variable {μ ν : Mode} {t t' : PageTable} {m : PageMap} {address : ℕ} {frame : FrameId}
  {protection : Prot} {flags set clear : PteFlags} {bad : Set ℕ} {s s' : Sys}

/-! ## Entries and their handles -/

theorem Represents.pte (h : t.Represents m) (p : ℕ) : t.pte p = m.lookup p := by
  rw [PageTable.pte, keyCount_eq]
  split_ifs with hp
  · exact h.entry p hp
  · exact (Finmap.lookup_eq_none.2 fun hmem ↦ hp (key_lt (h.user p hmem))).symm

theorem Represents.lookup_pte (h : t.Represents m) (address : ℕ) :
    t.lookup address = t.pte (address / pageSize) := by
  rw [h.lookup_eq, h.pte]

theorem Represents.key_lt (h : t.Represents m) {p : ℕ} {pte : Pte} (hp : t.pte p = some pte) :
    p < keyCount := by
  rw [h.pte] at hp
  rw [keyCount_eq]
  exact PageTable.key_lt (h.user p (Finmap.mem_of_lookup_eq_some hp))

theorem Represents.insert (h : t.Represents m) {p : ℕ} {pte : Pte}
    (h' : t'.Represents (m.insert p pte)) : Changed t t' p (some pte) where
  self := by rw [h'.pte, Finmap.lookup_insert]
  others q hq := by rw [h'.pte, h.pte, Finmap.lookup_insert_of_ne _ hq]

theorem Represents.remove (h : t.Represents m) {p : ℕ} (h' : t'.Represents (m.erase p)) :
    Changed t t' p none where
  self := by rw [h'.pte, Finmap.lookup_erase]
  others q hq := by rw [h'.pte, h.pte, Finmap.lookup_erase_ne hq]

theorem Changed.split {p : ℕ} {pte : Pte} {e : Option Pte} (h : Changed t t' p e)
    (hp : t.pte p = some pte) (hlt : p < keyCount) :
    t'.sites + pte.sites = t.sites + entrySites e := by
  have hs := h.sites hlt
  rwa [hp] at hs

/-! ## Locked entries -/

/-- The frames of locked entries are resident, with exceptions. -/
def LockedResident (μ : Mode) (s : Sys) (t : PageTable) (bad : Set ℕ) : Prop :=
  μ.prompt = true → ∀ p pte, t.pte p = some pte → pte.flags.locked = true → p ∉ bad →
    s.store.resident pte.frame = true

namespace LockedResident

theorem keeps {x : Multiset Handle} (h : LockedResident μ s t bad) (hk : Keeps x s s')
    (hx : t.sites ≤ x) : LockedResident μ s' t bad := by
  intro hμ p pte hp hl hb
  have hle := (Inv.pte_sites_le hp).trans hx
  exact hk.resident _ (Multiset.mem_of_le hle (Inv.ref_mem_sites pte))
    (.inl (Multiset.mem_of_le hle (Inv.pin_mem_sites hl))) (h hμ p pte hp hl hb)

theorem changed {p : ℕ} {e : Option Pte} (h : LockedResident μ s t bad) (ht : Changed t t' p e)
    (he : ∀ pte, e = some pte → μ.prompt = true → pte.flags.locked = true → p ∉ bad →
      s.store.resident pte.frame = true) : LockedResident μ s t' bad := by
  intro hμ q pte hq hl hb
  by_cases hqp : q = p
  · subst hqp
    rw [ht.self] at hq
    exact he pte hq hμ hl hb
  · rw [ht.others q hqp] at hq
    exact h hμ q pte hq hl hb

end LockedResident

/-! ## The functions -/

theorem grow_spec {n : ℕ} (r : Radix pageTableEntries Pte (n + 1)) (k : ℕ) :
    Triple μ 0 0 (fun _ ↦ True) (Radix.grow Code.malloc n r k) (fun _ ↦ 0)
      fun g _ ↦ Radix.Grown r k g := by
  intro s x w hK hat _
  refine Radix.wp_grow (I := At μ s x 0) (fun w' hat' ↦ ?_) n r k w hat
  exact Prog.wp_mono (malloc_spec s x w' hK hat' trivial) fun _ _ h ↦ h.1

/-- The entry that `minimm_page_table_map` makes. -/
def mappedPte (frame : FrameId) (protection : Prot) (flags : PteFlags) : Pte :=
  ⟨frame, effectiveProtection protection { flags with present := true },
    { flags with present := true }⟩

theorem map_spec (h : t.Represents m) {K : Multiset Handle} (href : ref frame ∈ K + t.sites)
    (hpin : ν.prompt = true → flags.locked = true → pin frame ∈ t.sites) :
    Triple μ K t.sites
      (fun s ↦ LockedResident ν s t bad ∧
        (ν.prompt = true → flags.locked = true → s.store.resident frame = true))
      (t.map address frame protection flags) (fun r ↦ r.2.sites)
      fun r s ↦ LockedResident ν s r.2 bad := by
  intro s x w hK hat ⟨hlock, hres⟩
  rw [PageTable.map]
  split_ifs with hvalid hsome
  · exact ⟨hat, hlock⟩
  · exact ⟨hat, hlock⟩
  rw [Bool.not_eq_false, pageAddressIsValid_iff] at hvalid
  have hmem : address / pageSize ∉ m := fun hm ↦
    hsome (by rw [h.lookup_eq]; exact Finmap.lookup_isSome.2 hm)
  have hown : ∀ {F : Multiset Handle}, t.sites ≤ F → {ref frame} ≤ F + x := fun hF ↦
    (Multiset.singleton_le.2 href).trans ((add_le_add hK hF).trans (add_comm _ _).le)
  -- what holds of the old table while handles are collected
  have hstep : ∀ {w w' : World} {F : Multiset Handle}, t.sites ≤ F → Keeps (F + x) w.sys w'.sys →
      (LockedResident ν w.sys t bad ∧
        (ν.prompt = true → flags.locked = true → w.sys.store.resident frame = true)) →
      LockedResident ν w'.sys t bad ∧
        (ν.prompt = true → flags.locked = true → w'.sys.store.resident frame = true) := by
    intro w w' F hF hk hw
    refine ⟨hw.1.keeps hk (hF.trans le_self_add), fun hμ hl ↦ ?_⟩
    exact hk.resident frame (Multiset.singleton_le.1 (hown hF))
      (.inl (Multiset.mem_of_le (hF.trans le_self_add) (hpin hμ hl))) (hw.2 hμ hl)
  refine (grow_spec t.root _).seq (F := t.sites) hat (zero_add _).symm zero_le trivial ?_
  rintro ⟨grown, root⟩ w1 hat1 hk1 hgrown
  have hw1 := hstep le_rfl hk1 ⟨hlock, hres⟩
  dsimp only at hgrown ⊢
  split_ifs with hg
  · have hroot := hgrown.failed hg
    dsimp only at hroot
    subst hroot
    exact ⟨hat1.congr (zero_add _), hw1.1⟩
  refine malloc_spec.seq (F := t.sites) hat1 rfl zero_le trivial fun allocated w2 hat2 hk2 _ ↦ ?_
  have hw2 := hstep le_rfl hk2 hw1
  split_ifs with ha
  · exact ⟨hat2.congr (zero_add _), hw2.1⟩
  refine retain_spec.seq (F := t.sites) hat2 rfl (hown le_rfl) trivial fun _ w3 hat3 hk3 _ ↦ ?_
  have hw3 := hstep le_rfl hk3 hw2
  have hwhen : Triple μ {ref frame} 0 (fun _ ↦ True)
      (Code.when flags.locked (Code.store (.pin .map frame)))
      (fun _ ↦ if flags.locked then {pin frame} else 0) fun _ _ ↦ True := by
    refine .when (fun hl ↦ ?_) fun hl ↦ ⟨by simp [hl], fun _ h ↦ h⟩
    rw [if_pos hl]
    exact (pin_spec .map).post fun _ _ _ ↦ trivial
  refine hwhen.seq (F := {ref frame} + t.sites) hat3 (zero_add _).symm
    (hown (le_add_left le_rfl)) trivial fun _ w4 hat4 hk4 _ ↦ ?_
  have hw4 := hstep (le_add_left le_rfl) hk4 hw3
  refine mapping_spec.seq (F := (if flags.locked then {pin frame} else 0) +
    ({ref frame} + t.sites)) hat4 (zero_add _).symm
    (hown ((le_add_left le_rfl).trans (le_add_left le_rfl))) trivial fun _ w5 hat5 hk5 _ ↦ ?_
  have hw5 := hstep ((le_add_left le_rfl).trans (le_add_left le_rfl)) hk5 hw4
  have hgrown' : grown = true := by simpa using hg
  have hrep := h.store { t with root := root, mappingCount := t.mappingCount + 1 }
    (mappedPte frame protection flags) hvalid.1 (hgrown.leaf hgrown') hgrown.get
    (hgrown.pruned hgrown' h.pruned _)
    (by
      rw [Represents.keys_insert, Finset.card_insert_of_notMem (fun hk ↦ hmem hk), h.count])
  have hch := h.insert hrep
  have hsites := hch.sites (by rw [keyCount_eq]; exact PageTable.key_lt (page_lt.2 hvalid.1))
  rw [h.pte, Finmap.lookup_eq_none.2 hmem] at hsites
  refine ⟨hat5.congr ?_, hw5.1.changed hch fun pte hpte hμ hl _ ↦ ?_⟩
  · refine Eq.trans ?_ ((add_zero _).symm.trans hsites).symm
    simp only [entrySites, mappedPte, Pte.sites_eq]
    abel
  · cases hpte
    exact hw5.2 hμ hl

theorem dropPte_spec (pte : Pte) :
    Spends μ 0 pte.sites (fun _ ↦ True) (dropPte pte) := by
  intro s x w hK hat _
  have hwhen : Spends μ {ref pte.frame} (if pte.flags.locked then {pin pte.frame} else 0)
      (fun _ ↦ True) (Code.when pte.flags.locked (Code.store (.unpin pte.frame))) := by
    refine .when (fun hl ↦ ?_) fun hl ↦ ⟨by simp [hl], fun _ h ↦ h⟩
    rw [if_pos hl]
    exact unpin_spec
  refine hwhen.seq (F := {ref pte.frame} + {Handle.map pte.frame}) hat
    (by rw [Pte.sites_eq, add_comm]) (le_self_add.trans le_self_add) trivial
    fun _ w1 hat1 _ _ ↦ ?_
  refine unmapping_spec.seq (F := {ref pte.frame}) hat1 (by rw [zero_add, add_comm]) le_self_add
    trivial fun _ w2 hat2 _ _ ↦ ?_
  exact release_spec.tail (F := 0) hat2 (by rw [add_zero]; exact zero_add _) zero_le trivial
    fun _ _ hat3 _ _ ↦ ⟨hat3, trivial⟩

/-- A table without the entry of an address. -/
def without (t : PageTable) (address : ℕ) : PageTable :=
  ⟨t.root.erase 3 (address / pageSize), t.mappingCount - 1, t.generation + 1⟩

section Entry

variable {pte : Pte}

theorem address_lt_keyCount (ha : address < userAddressLimit) : address / pageSize < keyCount := by
  rw [keyCount_eq]
  exact PageTable.key_lt (page_lt.2 ha)

theorem Represents.without (h : t.Represents m) (ha : address < userAddressLimit)
    (hpte : t.lookup address = some pte) :
    (t.without address).Represents (m.erase (address / pageSize)) := by
  refine h.erase ha (Finmap.mem_of_lookup_eq_some (b := pte) ?_)
  rw [← h.lookup_eq, hpte]

theorem Represents.sites_without (h : t.Represents m) (ha : address < userAddressLimit)
    (hpte : t.lookup address = some pte) : t.sites = (t.without address).sites + pte.sites := by
  have hs := (h.remove (h.without ha hpte)).split (by rw [← h.lookup_pte, hpte])
    (address_lt_keyCount ha)
  rw [hs, entrySites, add_zero]

theorem Represents.changed_without (h : t.Represents m) (ha : address < userAddressLimit)
    (hpte : t.lookup address = some pte) {new : Pte}
    (h' : t'.Represents (m.insert (address / pageSize) new)) :
    Changed (t.without address) t' (address / pageSize) (some new) := by
  have hw := h.without ha hpte
  refine ⟨by rw [h'.pte, Finmap.lookup_insert], fun q hq ↦ ?_⟩
  rw [h'.pte, hw.pte, Finmap.lookup_insert_of_ne _ hq, Finmap.lookup_erase_ne hq]

theorem Represents.sites_insert (h : t.Represents m) (ha : address < userAddressLimit)
    (hpte : t.lookup address = some pte) {new : Pte}
    (h' : t'.Represents (m.insert (address / pageSize) new)) :
    t'.sites = (t.without address).sites + new.sites := by
  have hs := (h.changed_without ha hpte h').sites (address_lt_keyCount ha)
  rw [(h.without ha hpte).pte, Finmap.lookup_erase] at hs
  exact (add_zero _).symm.trans hs

theorem LockedResident.without (h : LockedResident μ s t bad) (ht : t.Represents m)
    (ha : address < userAddressLimit) (hpte : t.lookup address = some pte) :
    LockedResident μ s (t.without address) bad :=
  h.changed (ht.remove (ht.without ha hpte)) fun _ hnone ↦ by cases hnone

end Entry

theorem unmap_spec (h : t.Represents m) :
    Triple μ 0 t.sites (fun s ↦ LockedResident μ s t bad) (t.unmap address) (fun r ↦ r.2.sites)
      fun r s ↦ LockedResident μ s r.2 bad := by
  intro s x w hK hat hlock
  rw [PageTable.unmap]
  split_ifs with hvalid
  · exact ⟨hat, hlock⟩
  rw [Bool.not_eq_false, pageAddressIsValid_iff] at hvalid
  split
  · exact ⟨hat, hlock⟩
  rename_i pte hget
  have hpte : t.lookup address = some pte := by rw [lookup_eq_get t hvalid.1, hget]
  refine (dropPte_spec pte).seq hat ((h.sites_without hvalid.1 hpte).trans (add_comm _ _)) zero_le
    trivial fun _ w1 hat1 hk1 _ ↦ ?_
  exact ⟨hat1.congr (zero_add _), (hlock.without h hvalid.1 hpte).keeps hk1 le_self_add⟩

theorem repin_spec (now later : Bool) (R : Sys → Prop) :
    Triple μ {ref frame} (if now then {pin frame} else 0)
      (fun s ↦ now = true → later = true → R s)
      (do
        Code.when (!now && later) (Code.store (.pin .commitAttributes frame))
        Code.when (now && !later) (Code.store (.unpin frame)))
      (fun _ ↦ if later then {pin frame} else 0) fun _ s ↦ now = true → later = true → R s := by
  intro s x w hK hat hR
  cases now <;> cases later
  · exact ⟨hat, hR⟩
  · refine (pin_spec .commitAttributes).seq (F := 0) hat rfl (by simpa using hK) trivial ?_
    exact fun _ _ hat' _ _ ↦ ⟨hat', nofun⟩
  · exact unpin_spec.tail (F := 0) hat rfl (by simpa using hK) trivial
      fun _ _ hat' _ _ ↦ ⟨hat', fun _ h ↦ nomatch h⟩
  · exact ⟨hat, hR⟩

theorem commitAttributes_spec (h : t.Represents m) {pte : Pte} (ha : address < userAddressLimit)
    (hpte : t.lookup address = some pte)
    (hbad : set.locked = true → address / pageSize ∈ bad) :
    Triple μ 0 t.sites (fun s ↦ LockedResident ν s t bad)
      (t.commitAttributes address pte protection set clear) (fun r ↦ r.2.sites)
      fun r s ↦ LockedResident ν s r.2 bad := by
  intro s x w hK hat hlock
  simp only [commitAttributes]
  split_ifs with hsame
  · exact ⟨hat, hlock⟩
  have hrep : Represents (t.store address _) _ :=
    h.replace ha hpte (revised pte pte.frame protection set clear)
  rw [← Prog.bind_assoc]
  refine (repin_spec pte.flags.locked (pte.flags.update set clear).locked fun s ↦
      ν.prompt = true → address / pageSize ∉ bad → s.store.resident pte.frame = true).seq
    (F := (t.without address).sites + {ref pte.frame} + {Handle.map pte.frame}) hat
    ?_ ?_ ?_ fun _ w1 hat1 hk1 hres ↦ ⟨hat1.congr ?_, ?_⟩
  · rw [h.sites_without ha hpte, Pte.sites_eq]
    abel
  · exact le_add_right ((le_add_left le_rfl).trans le_self_add)
  · exact fun hnow _ hμ hb ↦ hlock hμ _ pte (by rw [← h.lookup_pte, hpte]) hnow hb
  · refine Eq.trans ?_ (h.sites_insert ha hpte hrep).symm
    simp only [revised, Pte.sites_eq]
    abel
  · refine ((hlock.without h ha hpte).keeps hk1 ?_).changed (h.changed_without ha hpte hrep) ?_
    · exact le_add_right (le_add_right le_self_add)
    · intro new hnew hμ hl hb
      cases hnew
      refine hres ?_ hl hμ hb
      by_contra hnow
      simp only [revised, PteFlags.update, Bool.not_eq_true, Bool.and_eq_true, Bool.or_eq_true]
        at hl hnow
      exact hb (hbad (hl.1.resolve_left (by simp [hnow])))

theorem modify_spec {K : Multiset Handle} {P : Sys → Prop}
    {body : Pte → Code (Status × PageTable)}
    (hP : ∀ s, P s → LockedResident ν s t bad)
    (hbody : ∀ pte, address < userAddressLimit → t.lookup address = some pte →
      Triple μ K t.sites P (body pte) (fun r ↦ r.2.sites)
        fun r s ↦ LockedResident ν s r.2 bad) :
    Triple μ K t.sites P
      (if updateIsValid address set clear = false then pure (.invalidArgument, t)
      else
        match t.lookup address with
        | none => pure (.notFound, t)
        | some pte => body pte)
      (fun r ↦ r.2.sites) fun r s ↦ LockedResident ν s r.2 bad := by
  split_ifs with hvalid
  · exact .pure rfl hP
  have ha : address < userAddressLimit := by
    simp only [updateIsValid, Bool.not_eq_false, Bool.and_eq_true] at hvalid
    exact (pageAddressIsValid_iff.1 hvalid.1.1).1
  split
  · exact .pure rfl hP
  · exact hbody _ ha ‹_›

theorem updateAttributes_spec (h : t.Represents m)
    (hbad : set.locked = true → address / pageSize ∈ bad) :
    Triple μ 0 t.sites (fun s ↦ LockedResident ν s t bad)
      (t.updateAttributes address protection set clear) (fun r ↦ r.2.sites)
      fun r s ↦ LockedResident ν s r.2 bad :=
  modify_spec (fun _ hs ↦ hs) fun _ ha hpte ↦ commitAttributes_spec h ha hpte hbad

theorem updateFlags_spec (h : t.Represents m)
    (hbad : set.locked = true → address / pageSize ∈ bad) :
    Triple μ 0 t.sites (fun s ↦ LockedResident ν s t bad)
      (t.updateFlags address set clear) (fun r ↦ r.2.sites)
      fun r s ↦ LockedResident ν s r.2 bad :=
  modify_spec (fun _ hs ↦ hs) fun _ ha hpte ↦ commitAttributes_spec h ha hpte hbad

/-- A pin that an entry may have. -/
def pinIf (locked : Bool) (f : FrameId) : Multiset Handle := if locked then {pin f} else 0

theorem whenUnpin_spec (locked : Bool) :
    Spends μ {ref frame} (pinIf locked frame) (fun _ ↦ True)
      (Code.when locked (Code.store (.unpin frame))) := by
  cases locked with
  | false => exact .pure rfl fun _ h ↦ h
  | true => exact unpin_spec

theorem whenPin_spec (site : FrameStore.PinSite) (locked : Bool) :
    Triple μ {ref frame} 0 (fun _ ↦ True) (Code.when locked (Code.store (.pin site frame)))
      (fun _ ↦ pinIf locked frame) fun _ s ↦ site = .replaceFrame → μ.prompt = true →
        locked = true → s.store.resident frame = true := by
  cases locked with
  | false => exact .pure rfl fun _ _ _ _ hl ↦ nomatch hl
  | true => exact (pin_spec site).post fun _ _ hr h1 h2 _ ↦ hr h2 h1

/-- The mapping count moves from one frame to another. -/
def mapIf (different : Bool) (f : FrameId) : Multiset Handle :=
  if different then {Handle.map f} else 0

theorem whenMap_spec (different : Bool) :
    Triple μ {ref frame} 0 (fun _ ↦ True) (Code.when different (Code.store (.map frame)))
      (fun _ ↦ mapIf different frame) fun _ _ ↦ True := by
  cases different with
  | false => exact .pure rfl fun _ h ↦ h
  | true => exact mapping_spec

theorem whenUnmap_spec (different : Bool) :
    Spends μ {ref frame} (mapIf different frame) (fun _ ↦ True)
      (Code.when different (Code.store (.unmap frame))) := by
  cases different with
  | false => exact .pure rfl fun _ h ↦ h
  | true => exact unmapping_spec

theorem mapIf_add {different : Bool} {new old : FrameId} (h : different = decide (new ≠ old)) :
    mapIf different new + mapIf (!different) old = {Handle.map new} := by
  subst h
  by_cases heq : new = old <;> simp [mapIf, heq]

theorem exchange_spec {α : Type} {old new : FrameId} {K : Multiset Handle}
    (href : ref new ∈ K + {ref old}) (locked later : Bool) (a : α) :
    Triple μ K ({ref old} + {Handle.map old} + pinIf locked old) (fun _ ↦ True)
      (do
        frameRetain new
        Code.when later (Code.store (.pin .replaceFrame new))
        Code.when (new ≠ old) (Code.store (.map new))
        Code.when locked (Code.store (.unpin old))
        Code.when (new ≠ old) (Code.store (.unmap old))
        frameReleaseAt .replaceFrame old
        pure a)
      (fun _ ↦ {ref new} + {Handle.map new} + pinIf later new)
      fun r s ↦ r = a ∧ (μ.prompt = true → later = true → s.store.resident new = true) := by
  intro s x w hK hat _
  generalize hd : decide (new ≠ old) = d
  have hold : {ref new} ≤ {ref old} + {Handle.map old} + pinIf locked old + x :=
    (Multiset.singleton_le.2 href).trans ((add_comm _ _).le.trans
      (add_le_add (le_self_add.trans le_self_add) hK))
  -- once it is pinned, the new frame stays resident
  have hstep : ∀ {w w' : World} {F : Multiset Handle}, pinIf later new + {ref new} ≤ F →
      Keeps (F + x) w.sys w'.sys →
      (μ.prompt = true → later = true → w.sys.store.resident new = true) →
      μ.prompt = true → later = true → w'.sys.store.resident new = true := by
    intro w w' F hF hk hw hμ hl
    have hmem := hF.trans (le_self_add (b := x))
    refine hk.resident new ?_ (.inl ?_) (hw hμ hl)
    · exact Multiset.singleton_le.1 ((le_add_left le_rfl).trans hmem)
    · refine Multiset.mem_of_le (le_self_add.trans hmem) ?_
      simp [pinIf, hl]
  have hmap : mapIf d old + mapIf (!d) old = {Handle.map old} := by
    cases d <;> simp [mapIf]
  refine retain_spec.seq hat (zero_add _).symm hold trivial fun _ w1 hat1 _ _ ↦ ?_
  refine (whenPin_spec _ later).seq hat1 (zero_add _).symm (le_self_add.trans le_self_add) trivial
    fun _ w2 hat2 _ hres ↦ ?_
  have hres2 := hres rfl
  refine (whenMap_spec d).seq hat2 (zero_add _).symm
    ((le_self_add.trans (le_add_left le_rfl)).trans le_self_add) trivial fun _ w3 hat3 hk3 _ ↦ ?_
  have hres3 := hstep (add_le_add_right le_self_add _) hk3 hres2
  set N := mapIf d new + pinIf later new + {ref new} with hN
  have hpinN : pinIf later new + {ref new} ≤ N := by
    rw [hN, add_assoc]
    exact le_add_left le_rfl
  refine (whenUnpin_spec locked).seq (F := N + {ref old} + {Handle.map old}) hat3
    (by rw [hN]; ac_rfl)
    (le_add_right ((le_add_left le_rfl).trans le_self_add)) trivial fun _ w4 hat4 hk4 _ ↦ ?_
  have hres4 := hstep (hpinN.trans (le_self_add.trans le_self_add)) hk4 hres3
  refine (whenUnmap_spec d).seq (F := N + {ref old} + mapIf (!d) old) hat4 (by rw [← hmap]; abel)
    (le_add_right ((le_add_left le_rfl).trans le_self_add)) trivial fun _ w5 hat5 hk5 _ ↦ ?_
  have hres5 := hstep (hpinN.trans (le_self_add.trans le_self_add)) hk5 hres4
  refine (releaseAt_spec _).seq (F := N + mapIf (!d) old) hat5 (by abel) zero_le trivial
    fun _ w6 hat6 hk6 _ ↦ ?_
  have hres6 := hstep (hpinN.trans le_self_add) hk6 hres5
  refine ⟨hat6.congr ?_, rfl, hres6⟩
  rw [← mapIf_add hd.symm, hN]
  ac_rfl

theorem ref_mem_pte {pte : Pte} (h : ref frame ∈ pte.sites) : frame = pte.frame := by
  rw [Pte.sites_eq, Multiset.mem_add, Multiset.mem_add] at h
  rcases h with (h | h) | h
  · cases Multiset.mem_singleton.1 h
    rfl
  · cases Multiset.mem_singleton.1 h
  · split_ifs at h
    · cases Multiset.mem_singleton.1 h
    · exact absurd h (Multiset.notMem_zero _)

theorem replaceFrame_spec (h : t.Represents m) {K : Multiset Handle}
    (href : ref frame ∈ K + t.sites) :
    Triple μ K t.sites (fun s ↦ LockedResident μ s t bad)
      (t.replaceFrame address frame protection set clear) (fun r ↦ r.2.sites)
      fun r s ↦ LockedResident μ s r.2 bad := by
  refine modify_spec (fun _ hs ↦ hs) fun pte ha hpte ↦ ?_
  intro s x w hK hat hlock
  have hrep : Represents (t.store address _) _ :=
    h.replace ha hpte (revised pte frame protection set clear)
  have href' : ref frame ∈ (t.without address).sites + K + {ref pte.frame} := by
    rw [h.sites_without ha hpte, ← add_assoc, add_comm K, Multiset.mem_add] at href
    refine Multiset.mem_add.2 (href.imp_right fun hmem ↦ ?_)
    rw [ref_mem_pte hmem]
    exact Multiset.mem_singleton_self _
  refine (exchange_spec href' pte.flags.locked (pte.flags.update set clear).locked _).tail
    (F := (t.without address).sites) hat ?_ ?_ trivial ?_
  · rw [h.sites_without ha hpte, add_comm, Pte.sites_eq, pinIf]
  · exact add_le_add_right hK _
  · rintro r w1 hat1 hk1 ⟨rfl, hres⟩
    refine ⟨hat1.congr ?_, ?_⟩
    · exact ((h.sites_insert ha hpte hrep).trans (add_comm _ _)).symm
    · refine ((hlock.without h ha hpte).keeps hk1 le_self_add).changed
        (h.changed_without ha hpte hrep) fun new hnew hμ hl _ ↦ ?_
      cases hnew
      exact hres hμ hl

/-- The handles of a list of entries. -/
def entriesSites (entries : List (ℕ × Pte)) : Multiset Handle :=
  (entries.map fun e ↦ e.2.sites).sum

theorem Represents.sites_entries (h : t.Represents m) : t.sites = entriesSites t.entries := by
  have hnodup : (t.entries.map Prod.fst).Nodup := by
    rw [List.nodup_iff_pairwise_ne, List.pairwise_map]
    exact (Radix.entries_sorted t.root 0).imp fun hlt ↦ hlt.ne
  have hsum : entriesSites t.entries =
      ∑ p ∈ (t.entries.map Prod.fst).toFinset, entrySites (t.pte p) := by
    rw [List.sum_toFinset _ hnodup, List.map_map]
    refine congrArg List.sum (List.map_congr_left fun e he ↦ ?_)
    rw [Function.comp, h.pte, h.mem_entries.1 he, entrySites]
  rw [hsum, sites_eq]
  refine (Finset.sum_subset (fun p hp ↦ ?_) fun p _ hp ↦ ?_).symm
  · obtain ⟨e, he, rfl⟩ := List.mem_map.1 (List.mem_toFinset.1 hp)
    exact Finset.mem_range.2 (h.key_lt (by rw [h.pte, h.mem_entries.1 he]))
  · cases hpte : t.pte p with
    | none => rfl
    | some pte =>
      refine absurd (List.mem_toFinset.2 (List.mem_map.2 ⟨(p, pte), ?_, rfl⟩)) hp
      rw [h.mem_entries, ← h.pte, hpte]

theorem destroyEntries_spec (entries : List (ℕ × Pte)) :
    Spends μ 0 (entriesSites entries) (fun _ ↦ True) (destroyEntries entries) := by
  induction entries with
  | nil => exact .pure rfl fun _ h ↦ h
  | cons e rest ih =>
    intro s x w hK hat _
    refine (dropPte_spec e.2).seq (F := entriesSites rest) hat ?_ zero_le trivial ?_
    · rw [entriesSites, List.map_cons, List.sum_cons]
      rfl
    · intro _ w1 hat1 _ _
      exact ih s x w1 hK (hat1.congr (zero_add _)) trivial

end PageTable

end MiniMM
