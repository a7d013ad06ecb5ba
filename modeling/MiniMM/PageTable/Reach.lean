import MiniMM.PageTable
import MiniMM.Space

/-!
# Page tables as finite maps

The four levels of a table stand for a finite map from page numbers, over all sequences of
updates and whichever allocations fail.
-/

namespace MiniMM

/-- What a page table stands for. -/
abbrev PageMap := Finmap fun _ : ℕ ↦ Pte

namespace PageTable

/-- The functions that change a table. -/
inductive Update where
  | map (address : ℕ) (frame : FrameId) (protection : Prot) (flags : PteFlags)
  | unmap (address : ℕ)
  | updateAttributes (address : ℕ) (protection : Prot) (set clear : PteFlags)
  | updateFlags (address : ℕ) (set clear : PteFlags)
  | protect (address : ℕ) (protection : Prot)
  | replaceFrame (address : ℕ) (frame : FrameId) (protection : Prot) (set clear : PteFlags)

def Update.code (t : PageTable) : Update → Code (Status × PageTable)
  | .map address frame protection flags => t.map address frame protection flags
  | .unmap address => t.unmap address
  | .updateAttributes address protection set clear =>
    t.updateAttributes address protection set clear
  | .updateFlags address set clear => t.updateFlags address set clear
  | .protect address protection => t.protect address protection
  | .replaceFrame address frame protection set clear =>
    t.replaceFrame address frame protection set clear

/-- The tables that `minimm_page_table_create` and any sequence of updates leave, the failed ones
included. -/
inductive Reachable : PageTable → Prop where
  | create : Reachable empty
  | update {σ σ' : Sys} {t t' : PageTable} {u : Update} {status : Status} : Reachable t →
      (u.code t).run σ = .done (status, t') σ' → Reachable t'

/-! ## Updates of a finite map -/

/-- The entry with another frame, flags changed and a protection that the flags allow. -/
def revised (pte : Pte) (frame : FrameId) (protection : Prot) (set clear : PteFlags) : Pte :=
  ⟨frame, effectiveProtection protection (pte.flags.update set clear), pte.flags.update set clear⟩

/-- Change the entry of a page that has one. -/
def modify (m : PageMap) (address : ℕ) (set clear : PteFlags) (f : Pte → Pte) : Status × PageMap :=
  if updateIsValid address set clear = false then (.invalidArgument, m)
  else
    match m.lookup (address / pageSize) with
    | none => (.notFound, m)
    | some pte => (.ok, m.insert (address / pageSize) (f pte))

/-- What an update does to the map, if memory lasts. -/
def Update.perform (m : PageMap) : Update → Status × PageMap
  | .map address frame protection flags =>
    if pageAddressIsValid address = false then (.invalidArgument, m)
    else if address / pageSize ∈ m then (.addressInUse, m)
    else
      let flags := { flags with present := true }
      (.ok, m.insert (address / pageSize) ⟨frame, effectiveProtection protection flags, flags⟩)
  | .unmap address =>
    if pageAddressIsValid address = false then (.invalidArgument, m)
    else if address / pageSize ∈ m then (.ok, m.erase (address / pageSize))
    else (.notFound, m)
  | .updateAttributes address protection set clear =>
    modify m address set clear fun pte ↦ revised pte pte.frame protection set clear
  | .updateFlags address set clear =>
    modify m address set clear fun pte ↦ revised pte pte.frame pte.protection set clear
  | .protect address protection =>
    modify m address {} {} fun pte ↦ revised pte pte.frame protection {} {}
  | .replaceFrame address frame protection set clear =>
    modify m address set clear fun pte ↦ revised pte frame protection set clear

/-- Only `map` allocates. -/
def Update.isMap : Update → Bool
  | .map .. => true
  | _ => false

/-! ## Tables that represent a map -/

/-- The tree has the entries of the map and no empty node, and the map has no page beyond the user
addresses. -/
structure Represents (t : PageTable) (m : PageMap) : Prop where
  entry : ∀ p < pageTableEntries ^ 4, t.root.get 4 p = m.lookup p
  user : ∀ p ∈ m, p * pageSize < userAddressLimit
  count : t.mappingCount = m.keys.card
  pruned : Radix.Pruned 3 t.root

theorem key_lt {p : ℕ} (h : p * pageSize < userAddressLimit) : p < pageTableEntries ^ 4 := by
  simp only [pageSize, userAddressLimit, pageTableEntries] at *
  omega

theorem pageAddressIsValid_iff {address : ℕ} : pageAddressIsValid address = true ↔
    address < userAddressLimit ∧ address % pageSize = 0 := by
  simp [pageAddressIsValid]

theorem page_lt {address : ℕ} :
    address / pageSize * pageSize < userAddressLimit ↔ address < userAddressLimit := by
  simp only [pageSize, userAddressLimit]
  omega

theorem represents_empty : Represents empty ∅ :=
  ⟨fun _ _ ↦ rfl, fun _ hp ↦ absurd hp Finmap.notMem_empty, rfl, Radix.pruned_empty 3⟩

namespace Represents

variable {t : PageTable} {m : PageMap}

theorem lookup_eq (h : t.Represents m) (address : ℕ) :
    t.lookup address = m.lookup (address / pageSize) := by
  by_cases haddress : address < userAddressLimit
  · rw [lookup_eq_get t haddress]
    exact h.entry _ (key_lt (page_lt.2 haddress))
  · rw [lookup, if_pos (by omega)]
    have hnone : m.lookup (address / pageSize) = none :=
      Finmap.lookup_eq_none.2 fun hmem ↦ haddress (page_lt.1 (h.user _ hmem))
    exact hnone.symm

theorem mem_iff (h : t.Represents m) {address : ℕ} (ha : address < userAddressLimit) :
    address / pageSize ∈ m ↔ ∃ pte, t.root.get 4 (address / pageSize) = some pte := by
  rw [h.entry _ (key_lt (page_lt.2 ha)), Finmap.mem_iff]

theorem keys_insert (m : PageMap) (p : ℕ) (pte : Pte) :
    (m.insert p pte).keys = insert p m.keys := by
  ext q
  simp [Finmap.mem_keys]

theorem store (h : t.Represents m) (t' : PageTable) {address : ℕ} (pte : Pte)
    (ha : address < userAddressLimit) (hleaf : Radix.hasLeaf 3 t'.root (address / pageSize))
    (hget : ∀ p, t'.root.get 4 p = t.root.get 4 p)
    (hpruned : Radix.Pruned 3 (t'.root.write 3 (address / pageSize) (some pte)))
    (hcount : t'.mappingCount = (m.insert (address / pageSize) pte).keys.card) :
    (t'.store address pte).Represents (m.insert (address / pageSize) pte) := by
  have hpage := page_lt.2 ha
  refine ⟨fun p hp ↦ ?_, fun p hp ↦ ?_, hcount, hpruned⟩
  · by_cases heq : p = address / pageSize
    · rw [heq, Finmap.lookup_insert]
      exact Radix.get_write_self hleaf _
    · rw [Finmap.lookup_insert_of_ne _ heq, ← h.entry p hp, ← hget p]
      exact Radix.get_write_of_ne _ (key_lt hpage) hp fun heq' ↦ heq heq'.symm
  · rcases Finmap.mem_insert.1 hp with rfl | hmem
    · exact hpage
    · exact h.user p hmem

theorem replace (h : t.Represents m) {address : ℕ} {old : Pte} (ha : address < userAddressLimit)
    (hold : t.lookup address = some old) (pte : Pte) :
    (t.store address pte).Represents (m.insert (address / pageSize) pte) := by
  have hmem : m.lookup (address / pageSize) = some old := by rw [← h.lookup_eq, hold]
  have hget : t.root.get 4 (address / pageSize) = some old := by
    rw [h.entry _ (key_lt (page_lt.2 ha)), hmem]
  have hleaf := Radix.hasLeaf_of_get hget
  refine h.store t pte ha hleaf (fun _ ↦ rfl) (h.pruned.write hleaf pte) ?_
  rw [h.count, keys_insert,
    Finset.insert_eq_of_mem (Finmap.mem_keys.2 (Finmap.mem_of_lookup_eq_some hmem))]

theorem erase (h : t.Represents m) {address : ℕ} (ha : address < userAddressLimit)
    (hmem : address / pageSize ∈ m) :
    Represents ⟨t.root.erase 3 (address / pageSize), t.mappingCount - 1, t.generation + 1⟩
      (m.erase (address / pageSize)) := by
  refine ⟨fun p hp ↦ ?_, fun p hp ↦ h.user p (Finmap.mem_erase.1 hp).2, ?_, h.pruned.erase _⟩
  · by_cases heq : p = address / pageSize
    · rw [heq, Finmap.lookup_erase]
      exact Radix.get_erase_self _ _
    · rw [Finmap.lookup_erase_ne heq, ← h.entry p hp]
      exact Radix.get_erase_of_ne (key_lt (page_lt.2 ha)) hp fun heq' ↦ heq heq'.symm
  · rw [Finmap.keys_erase, Finset.card_erase_of_mem (Finmap.mem_keys.2 hmem), ← h.count]

end Represents

/-! ## Updates of a table -/

/-- What an update returns is what it does to the map, or it is out of memory and does nothing. -/
def Update.Follows (u : Update) (may : Bool → Prop) (m : PageMap) (r : Status × PageTable) : Prop :=
  (r.1 = (u.perform m).1 ∧ r.2.Represents (u.perform m).2) ∨
    (u.isMap = true ∧ (u.perform m).1 = .ok ∧ r.1 = .outOfMemory ∧ r.2.Represents m ∧ may false)

section Updates

variable {t : PageTable} {m : PageMap}

theorem map_follows {may : Bool → Prop} (h : t.Represents m) (address : ℕ) (frame : FrameId)
    (protection : Prot) (flags : PteFlags) :
    Code.Allocates may (t.map address frame protection flags)
      ((Update.map address frame protection flags).Follows may m) := by
  unfold PageTable.map Update.Follows
  simp only [Update.perform, Update.isMap]
  split
  · exact .inl ⟨rfl, h⟩
  rename_i hvalid
  rw [Bool.not_eq_false, pageAddressIsValid_iff] at hvalid
  have hmem : (t.lookup address).isSome = true ↔ address / pageSize ∈ m := by
    rw [h.lookup_eq, Finmap.lookup_isSome]
  by_cases hmapped : address / pageSize ∈ m
  · rw [if_pos (hmem.2 hmapped), if_pos hmapped]
    exact .inl ⟨rfl, h⟩
  rw [if_neg (fun hsome ↦ hmapped (hmem.1 hsome)), if_neg hmapped]
  have hmalloc : Code.Allocates may Code.malloc may := ⟨trivial, fun _ hb ↦ hb⟩
  refine (Radix.yields_grow hmalloc 3 t.root _).bind fun r hr ↦ ?_
  obtain ⟨⟨hfailed, hleaf, hget, hpruned⟩, hmay⟩ := hr
  cases hgrown : r.1 with
  | false =>
    refine .inr ⟨trivial, rfl, rfl, ?_, hmay hgrown⟩
    simpa only [hfailed hgrown] using h
  | true =>
    refine Code.Allocates.malloc (fun hb ↦ .inr ⟨trivial, rfl, rfl, h, hb⟩) ?_
    refine Code.Allocates.seq ⟨trivial, fun _ _ ↦ trivial⟩ fun _ ↦ ?_
    refine Code.Allocates.seq ?_ fun _ ↦ ?_
    · unfold Code.when
      split
      · exact ⟨trivial, fun _ _ ↦ trivial⟩
      · trivial
    refine Code.Allocates.seq ⟨trivial, fun _ _ ↦ trivial⟩ fun _ ↦ ?_
    refine .inl ⟨rfl, h.store _ _ hvalid.1 (hleaf hgrown) hget (hpruned hgrown h.pruned _) ?_⟩
    rw [Represents.keys_insert, Finset.card_insert_of_notMem (fun hk ↦ hmapped hk), h.count]

theorem unmap_follows (may : Bool → Prop) (h : t.Represents m) (address : ℕ) :
    Code.Returns (t.unmap address) ((Update.unmap address).Follows may m) := by
  unfold PageTable.unmap Update.Follows
  simp only [Update.perform, Update.isMap]
  split
  · exact .inl ⟨rfl, h⟩
  rename_i hvalid
  rw [Bool.not_eq_false, pageAddressIsValid_iff] at hvalid
  have hmem := h.mem_iff hvalid.1
  split
  · rw [if_neg (fun hm ↦ by simp_all)]
    exact .inl ⟨rfl, h⟩
  · have hm := hmem.2 ⟨_, ‹_›⟩
    rw [if_pos hm]
    exact Code.Returns.seq fun _ ↦ .inl ⟨rfl, h.erase hvalid.1 hm⟩

/-- The functions that change an entry differ in what they do once it is found. -/
theorem modify_follows (h : t.Represents m) (address : ℕ) (set clear : PteFlags) (f : Pte → Pte)
    {body : Pte → Code (Status × PageTable)}
    (hbody : ∀ pte, address < userAddressLimit → t.lookup address = some pte →
      Code.Returns (body pte)
        fun r ↦ r.1 = .ok ∧ r.2.Represents (m.insert (address / pageSize) (f pte))) :
    Code.Returns
      (if updateIsValid address set clear = false then pure (.invalidArgument, t)
      else
        match t.lookup address with
        | none => pure (.notFound, t)
        | some pte => body pte)
      fun r ↦ r.1 = (modify m address set clear f).1 ∧
        r.2.Represents (modify m address set clear f).2 := by
  unfold modify
  split
  · exact ⟨rfl, h⟩
  rename_i hvalid
  have haddress : address < userAddressLimit := by
    simp only [updateIsValid, Bool.not_eq_false, Bool.and_eq_true] at hvalid
    exact (pageAddressIsValid_iff.1 hvalid.1.1).1
  rw [← h.lookup_eq]
  split
  · exact ⟨rfl, h⟩
  · exact hbody _ haddress ‹_›

theorem commitAttributes_follows (h : t.Represents m) {address : ℕ} {pte : Pte}
    (ha : address < userAddressLimit) (hpte : t.lookup address = some pte) (protection : Prot)
    (set clear : PteFlags) :
    Code.Returns (t.commitAttributes address pte protection set clear) fun r ↦
      r.1 = .ok ∧ r.2.Represents
        (m.insert (address / pageSize) (revised pte pte.frame protection set clear)) := by
  simp only [commitAttributes]
  split
  · rename_i hsame
    have hrevised : revised pte pte.frame protection set clear = pte := by
      rw [revised, ← hsame.1, ← hsame.2]
    have hmap : m.insert (address / pageSize) pte = m := by
      refine Finmap.ext_lookup fun p ↦ ?_
      by_cases heq : p = address / pageSize
      · rw [heq, Finmap.lookup_insert, ← h.lookup_eq, hpte]
      · rw [Finmap.lookup_insert_of_ne _ heq]
    rw [hrevised, hmap]
    exact ⟨rfl, h⟩
  · exact Code.Returns.seq fun _ ↦ Code.Returns.seq fun _ ↦ ⟨rfl, h.replace ha hpte _⟩

theorem replaceFrame_follows (h : t.Represents m) (address : ℕ) (frame : FrameId)
    (protection : Prot) (set clear : PteFlags) :
    Code.Returns (t.replaceFrame address frame protection set clear) fun r ↦
      r.1 = ((Update.replaceFrame address frame protection set clear).perform m).1 ∧
        r.2.Represents ((Update.replaceFrame address frame protection set clear).perform m).2 := by
  refine modify_follows h address set clear _ fun pte ha hpte ↦ ?_
  iterate 6 refine Code.Returns.seq fun _ ↦ ?_
  exact ⟨rfl, h.replace ha hpte _⟩

theorem Update.follows (h : t.Represents m) {u : Update} {σ σ' : Sys} {r : Status × PageTable}
    (hrun : (u.code t).run σ = .done r σ') :
    u.Follows (fun b ↦ ∃ n, σ.store.host.alloc n = b) m r := by
  cases u with
  | map address frame protection flags =>
    exact (map_follows h address frame protection flags).result hrun
  | unmap address => exact (unmap_follows _ h address).result hrun
  | updateAttributes address protection set clear =>
    exact .inl ((modify_follows h address set clear _ fun pte ha hpte ↦
      commitAttributes_follows h ha hpte protection set clear).result hrun)
  | updateFlags address set clear =>
    exact .inl ((modify_follows h address set clear _ fun pte ha hpte ↦
      commitAttributes_follows h ha hpte pte.protection set clear).result hrun)
  | protect address protection =>
    exact .inl ((modify_follows h address {} {} _ fun pte ha hpte ↦
      commitAttributes_follows h ha hpte protection {} {}).result hrun)
  | replaceFrame address frame protection set clear =>
    exact .inl ((replaceFrame_follows h address frame protection set clear).result hrun)

theorem Reachable.represents (h : Reachable t) : ∃ m, t.Represents m := by
  induction h with
  | create => exact ⟨∅, represents_empty⟩
  | update _ hrun ih =>
    obtain ⟨m, hm⟩ := ih
    rcases Update.follows hm hrun with ⟨-, h⟩ | ⟨-, -, -, h, -⟩
    · exact ⟨_, h⟩
    · exact ⟨m, h⟩

end Updates

/-! ## Walks -/

theorem Represents.mem_entries {t : PageTable} {m : PageMap} (h : t.Represents m) {p : ℕ}
    {pte : Pte} : (p, pte) ∈ t.entries ↔ m.lookup p = some pte := by
  rw [entries, Radix.mem_entries]
  constructor
  · rintro ⟨r, hr, rfl, hget⟩
    rw [zero_add, ← h.entry r hr, hget]
  · intro hp
    have hlt := key_lt (h.user p (Finmap.mem_of_lookup_eq_some hp))
    exact ⟨p, hlt, (zero_add p).symm, by rw [h.entry p hlt, hp]⟩

/-- The lowest page of the map in `[start, stop)`. -/
structure IsNext (m : PageMap) (start stop p : ℕ) : Prop where
  mem : p ∈ m
  start_le : start ≤ p * pageSize
  lt_stop : p * pageSize < stop
  least : ∀ q ∈ m, start ≤ q * pageSize → p ≤ q

theorem Represents.findNext_eq {t : PageTable} {m : PageMap} (h : t.Represents m)
    {start stop : ℕ} (hle : start ≤ stop) (hlimit : stop ≤ userAddressLimit)
    (hstart : start % pageSize = 0) (hstop : stop % pageSize = 0) :
    (∃ p, t.findNext start stop = .ok (p * pageSize) ∧ IsNext m start stop p) ∨
      (t.findNext start stop = .error .notFound ∧
        ∀ p ∈ m, ¬ (start ≤ p * pageSize ∧ p * pageSize < stop)) := by
  have hvalid : ¬ (start > stop ∨ stop > userAddressLimit ∨ start % pageSize ≠ 0 ∨
      stop % pageSize ≠ 0) := by omega
  -- bounds on addresses are bounds on page numbers
  have hge : ∀ p, start / pageSize ≤ p ↔ start ≤ p * pageSize := by
    simp only [pageSize] at *
    omega
  have hlt : ∀ p, p < stop / pageSize ↔ p * pageSize < stop := by
    simp only [pageSize] at *
    omega
  rw [findNext, if_neg hvalid]
  by_cases hempty : start = stop
  · rw [if_pos hempty]
    exact .inr ⟨rfl, fun p _ h ↦ by omega⟩
  have hover : start / pageSize < 0 + pageTableEntries ^ 4 ∧ 0 < stop / pageSize := by
    simp only [pageSize, pageTableEntries, userAddressLimit] at *
    omega
  rw [if_neg hempty]
  split
  · rename_i hnone
    refine .inr ⟨rfl, fun p hp hin ↦ ?_⟩
    have hkey := key_lt (h.user p hp)
    have hget := Radix.findNext_eq_none hover hnone hkey
      (by rw [zero_add]; exact (hge p).2 hin.1) (by rw [zero_add]; exact (hlt p).2 hin.2)
    rw [h.entry p hkey] at hget
    exact Finmap.lookup_eq_none.1 hget hp
  · rename_i page hsome
    obtain ⟨r, hr, hpage, h1, h2, hget, hleast⟩ := Radix.findNext_eq_some hover hsome
    rw [zero_add] at hpage
    subst page
    rw [h.entry r hr, Finmap.lookup_isSome] at hget
    refine .inl ⟨r, rfl, hget, (hge r).1 h1, (hlt r).1 h2, fun q hq hstart' ↦ ?_⟩
    by_contra hlt'
    have hnone := hleast q (by omega) (by rw [zero_add]; exact (hge q).2 hstart')
    rw [h.entry q (key_lt (h.user q hq))] at hnone
    exact Finmap.lookup_eq_none.1 hnone hq

/-- A table left by any sequence of updates stands for a finite map: lookups, counts, walks and
searches are those of the map, no node below the root is empty, and an update of the table is the
update of the map. -/
theorem reachable_finiteMap {t : PageTable} (h : Reachable t) : ∃ m : PageMap,
    (∀ address, t.lookup address = m.lookup (address / pageSize)) ∧
    (∀ p ∈ m, p * pageSize < userAddressLimit) ∧
    t.mappingCount = m.keys.card ∧
    Radix.Pruned 3 t.root ∧
    (t.entries.Pairwise fun x y ↦ x.1 < y.1) ∧
    (∀ p pte, (p, pte) ∈ t.entries ↔ m.lookup p = some pte) ∧
    (∀ (S : Type) (visitor : ℕ → Pte → ExceptT Status (StateM S) Unit),
      t.forEach visitor = forM t.entries fun e ↦ visitor (e.1 * pageSize) e.2) ∧
    (∀ start stop, start ≤ stop → stop ≤ userAddressLimit → start % pageSize = 0 →
      stop % pageSize = 0 →
      (∃ p, t.findNext start stop = .ok (p * pageSize) ∧ IsNext m start stop p) ∨
        (t.findNext start stop = .error .notFound ∧
          ∀ p ∈ m, ¬ (start ≤ p * pageSize ∧ p * pageSize < stop))) ∧
    ∀ (u : Update) (σ σ' : Sys) (r : Status × PageTable), (u.code t).run σ = .done r σ' →
      u.Follows (fun b ↦ ∃ n, σ.store.host.alloc n = b) m r := by
  obtain ⟨m, hm⟩ := h.represents
  exact ⟨m, hm.lookup_eq, hm.user, hm.count, hm.pruned, Radix.entries_sorted t.root 0,
    fun _ _ ↦ hm.mem_entries, fun _ _ ↦ Radix.visit_eq _ t.root 0,
    fun _ _ ↦ hm.findNext_eq, fun _ _ _ _ ↦ Update.follows hm⟩

theorem reachable_onePage : ∃ t : PageTable, Reachable t ∧ t.mappingCount = 1 := by
  refine ⟨_, .update (σ := Sys.created .reliable (fun _ ↦ ⟨fun _ ↦ 0, .ok⟩) 1 1)
    (u := .map pageSize 1 {} {}) .create rfl, rfl⟩

theorem reachable_finiteMap_onePage : ∃ (t : PageTable) (m : PageMap), t.mappingCount = 1 ∧
    m.keys.card = 1 ∧ ∀ address, t.lookup address = m.lookup (address / pageSize) := by
  obtain ⟨t, ht, hcount⟩ := reachable_onePage
  obtain ⟨m, hlookup, -, hcard, -⟩ := reachable_finiteMap ht
  exact ⟨t, m, hcount, hcard ▸ hcount, hlookup⟩

end PageTable

end MiniMM
