import Yijinjing.Paged.Grants

/-!
# Mappings and counts

`fileAddrs` says where a page is mapped; the counts say who uses it.  For journal names without a slash
the two agree: a page is mapped exactly as long as it is counted, and every buffer has one path and is
released once, the one that a page took over from the temp page included.
-/

namespace Yijinjing.PageEngine

open Lib

variable {e t : PageEngine} {name : CStr} {info : PageClientInfo} {idx i addr : ℕ} {w : Bool} {k : PageKey}
  {path : CStr} {msg : PageCommMsg}

/-! ### The table of addresses -/

theorem dropAddr_lookup (e : PageEngine) (path q : CStr) :
    (e.dropAddr path).fileAddrs.lookup q = if q = path then none else e.fileAddrs.lookup q := by
  unfold dropAddr
  cases h : e.fileAddrs.lookup path with
  | none =>
    dsimp only
    split
    · rename_i hq
      rw [hq, h]
    · rfl
  | some addr =>
    dsimp only
    split
    · rename_i hq
      rw [hq, AList.lookup_erase]
    · rename_i hq
      rw [AList.lookup_erase_ne hq]

theorem setCounts_fileAddrs (e : PageEngine) (w : Bool) (c : AList fun _ : PageKey => ℤ) :
    (e.setCounts w c).fileAddrs = e.fileAddrs := by
  cases w <;> rfl

theorem setCounts_os (e : PageEngine) (w : Bool) (c : AList fun _ : PageKey => ℤ) :
    (e.setCounts w c).os = e.os := by
  cases w <;> rfl

theorem setCounts_units_other (e : PageEngine) (w : Bool) (c : AList fun _ : PageKey => ℤ) :
    (e.setCounts w c).counts (!w) = e.counts (!w) := by
  rw [counts_setCounts, if_neg (by cases w <;> simp)]

/-- What `release_page` does: it drops the page that nobody else uses. -/
theorem releasePage_eq (hp : Positive e) (msg : PageCommMsg) : e.releasePage msg =
    if e.units msg.isWriter msg.key = 0 then e
    else if e.units msg.isWriter msg.key = 1 then
      if e.units (!msg.isWriter) msg.key = 0 then
        (e.setCounts msg.isWriter ((e.counts msg.isWriter).erase msg.key)).dropAddr msg.path
      else e.setCounts msg.isWriter ((e.counts msg.isWriter).erase msg.key)
    else e.setCounts msg.isWriter ((e.counts msg.isWriter).insert msg.key
      (((e.counts msg.isWriter).lookup msg.key).getD 0 - 1)) := by
  unfold releasePage
  cases h : (e.counts msg.isWriter).lookup msg.key with
  | none => rw [if_pos ((lookup_none_iff hp).mp h)]
  | some n =>
    have hn := hp _ _ _ h
    have hu : e.units msg.isWriter msg.key = n.toNat := by
      unfold units
      rw [h]
      rfl
    dsimp only
    have hne : ¬ n.toNat = 0 := by omega
    rw [hu, if_neg hne]
    by_cases hone : n - 1 = 0
    · have hone' : n.toNat = 1 := by omega
      rw [if_pos hone, if_pos hone', setCounts_units_other]
      simp only [Option.isNone_iff_eq_none, lookup_none_iff hp]
    · have hone' : ¬ n.toNat = 1 := by omega
      rw [if_neg hone, if_neg hone']
      rfl

theorem releasePage_lookup (hp : Positive e) (msg : PageCommMsg) (q : CStr) :
    (e.releasePage msg).fileAddrs.lookup q =
      if q = msg.path ∧ e.units msg.isWriter msg.key = 1 ∧ e.units (!msg.isWriter) msg.key = 0 then none
      else e.fileAddrs.lookup q := by
  rw [releasePage_eq hp]
  by_cases hzero : e.units msg.isWriter msg.key = 0
  · rw [if_pos hzero, if_neg (by omega)]
  · rw [if_neg hzero]
    by_cases hone : e.units msg.isWriter msg.key = 1
    · rw [if_pos hone]
      by_cases hother : e.units (!msg.isWriter) msg.key = 0
      · rw [if_pos hother, dropAddr_lookup, setCounts_fileAddrs]
        simp only [hone, hother, and_self, and_true]
      · rw [if_neg hother, setCounts_fileAddrs, if_neg fun h => hother h.2.2]
    · rw [if_neg hone, setCounts_fileAddrs, if_neg fun h => hone h.2.1]

theorem releasePage_lookup_ne (hpath : path ≠ msg.path) (e : PageEngine) :
    (e.releasePage msg).fileAddrs.lookup path = e.fileAddrs.lookup path := by
  unfold releasePage
  split
  · rfl
  · split
    · dsimp only
      split
      · rw [dropAddr_lookup, if_neg hpath, setCounts_fileAddrs]
      · rw [setCounts_fileAddrs]
    · rw [setCounts_fileAddrs]

/-- Every buffer that is mapped has one path, and no buffer was released twice. -/
structure Addrs (e : PageEngine) : Prop where
  injective : ∀ p q addr, e.fileAddrs.lookup p = some addr → e.fileAddrs.lookup q = some addr → p = q
  mapped : ∀ addr, addr ∈ e.os.mapped ↔ ∃ p, e.fileAddrs.lookup p = some addr
  nodup : e.os.mapped.Nodup
  noBad : e.os.badReleases = 0

theorem Addrs.congr (ha : Addrs e) (hf : t.fileAddrs = e.fileAddrs) (hm : t.os.mapped = e.os.mapped)
    (hb : t.os.badReleases = e.os.badReleases) : Addrs t where
  injective := hf ▸ ha.injective
  mapped := hf ▸ hm ▸ ha.mapped
  nodup := hm ▸ ha.nodup
  noBad := hb ▸ ha.noBad

theorem Addrs.dropAddr (ha : Addrs e) (path : CStr) : Addrs (e.dropAddr path) := by
  cases h : e.fileAddrs.lookup path with
  | none =>
    unfold PageEngine.dropAddr
    rw [h]
    exact ha
  | some addr =>
    have hmem : addr ∈ e.os.mapped := (ha.mapped addr).mpr ⟨path, h⟩
    have hos : (e.dropAddr path).os = { e.os with mapped := e.os.mapped.erase addr } := by
      unfold PageEngine.dropAddr Os.releasePageBuffer
      rw [h]
      exact if_pos hmem
    have hl := dropAddr_lookup e path
    have old : ∀ p addr', (e.dropAddr path).fileAddrs.lookup p = some addr' →
        p ≠ path ∧ e.fileAddrs.lookup p = some addr' := by
      intro p addr' hp
      rw [hl] at hp
      split at hp
      · cases hp
      · rename_i hne
        exact ⟨hne, hp⟩
    refine ⟨fun p q addr' hp hq => ha.injective p q addr' (old p addr' hp).2 (old q addr' hq).2,
      fun addr' => ?_, hos ▸ ha.nodup.erase addr, hos ▸ ha.noBad⟩
    rw [hos, ha.nodup.mem_erase_iff, ha.mapped]
    constructor
    · rintro ⟨hne, p, hp⟩
      refine ⟨p, ?_⟩
      rw [hl, if_neg, hp]
      rintro rfl
      exact hne (Option.some.inj (hp.symm.trans h))
    · rintro ⟨p, hp⟩
      obtain ⟨hne, hp⟩ := old p addr' hp
      refine ⟨fun hadd => hne ?_, p, hp⟩
      rw [hadd] at hp
      exact ha.injective p path addr hp h

theorem Addrs.setCounts (ha : Addrs e) (w : Bool) (c : AList fun _ : PageKey => ℤ) : Addrs (e.setCounts w c) :=
  ha.congr (setCounts_fileAddrs e w c) (by rw [setCounts_os]) (by rw [setCounts_os])

theorem Addrs.releasePage (ha : Addrs e) (msg : PageCommMsg) : Addrs (e.releasePage msg) := by
  unfold PageEngine.releasePage
  split
  · exact ha
  · split
    · dsimp only
      split
      · exact (ha.setCounts _ _).dropAddr _
      · exact ha.setCounts _ _
    · exact ha.setCounts _ _

/-- A new path gets a buffer that no path has. -/
theorem Addrs.insert (ha : Addrs e) (hfree : ∀ p, e.fileAddrs.lookup p ≠ some addr)
    (hf : t.fileAddrs = e.fileAddrs.insert path addr) (hnew : e.fileAddrs.lookup path = none)
    (hm : t.os.mapped = addr :: e.os.mapped) (hb : t.os.badReleases = e.os.badReleases) : Addrs t := by
  have hl : ∀ q, t.fileAddrs.lookup q = if q = path then some addr else e.fileAddrs.lookup q := by
    intro q
    rw [hf]
    split
    · rename_i hq
      rw [hq, AList.lookup_insert]
    · rename_i hq
      rw [AList.lookup_insert_ne hq]
  refine ⟨fun p q addr' hp hq => ?_, fun addr' => ?_, ?_, hb ▸ ha.noBad⟩
  · rw [hl] at hp hq
    split at hp
    · split at hq
      · rename_i h h'
        rw [h, h']
      · obtain rfl := Option.some.inj hp
        exact absurd hq (hfree q)
    · split at hq
      · obtain rfl := Option.some.inj hq
        exact absurd hp (hfree p)
      · exact ha.injective p q addr' hp hq
  · rw [hm, List.mem_cons, ha.mapped]
    constructor
    · rintro (rfl | ⟨p, hp⟩)
      · exact ⟨path, by rw [hl, if_pos rfl]⟩
      · refine ⟨p, ?_⟩
        rw [hl, if_neg, hp]
        rintro rfl
        rw [hnew] at hp
        cases hp
    · rintro ⟨p, hp⟩
      rw [hl] at hp
      split at hp
      · exact .inl (Option.some.inj hp).symm
      · exact .inr ⟨p, hp⟩
  · rw [hm]
    exact List.nodup_cons.mpr ⟨fun hmem => (ha.mapped addr).mp hmem |>.elim fun p hp => hfree p hp, ha.nodup⟩

theorem Addrs.free (ha : Addrs e) (h : addr ∉ e.os.mapped) (p : CStr) : e.fileAddrs.lookup p ≠ some addr :=
  fun hp => h ((ha.mapped addr).mpr ⟨p, hp⟩)

theorem Addrs.loadPage (ha : Addrs e) (hfresh : addr ∉ e.os.mapped) (hnew : e.fileAddrs.lookup path = none)
    (isWriting : Bool) : Addrs (e.loadPage path isWriting addr) :=
  ha.insert (ha.free hfresh) rfl hnew rfl rfl

theorem rename_mapped {os os' : Os} {src dst : CStr} (h : os.rename src dst = some os') :
    os'.mapped = os.mapped ∧ os'.badReleases = os.badReleases := by
  unfold Os.rename at h
  split at h
  · cases h
    exact ⟨rfl, rfl⟩
  · cases h

theorem takeTemp_lookup (e : PageEngine) (path : CStr) (buffer : ℕ) (os : Os) (q : CStr) :
    (e.takeTemp path buffer os).fileAddrs.lookup q =
      if q = path then some buffer else if q = e.tempPath then none else e.fileAddrs.lookup q := by
  unfold takeTemp
  dsimp only
  by_cases hq : q = path
  · rw [if_pos hq, hq, AList.lookup_insert]
  · rw [if_neg hq, AList.lookup_insert_ne hq]
    by_cases hq' : q = e.tempPath
    · rw [if_pos hq', hq', AList.lookup_erase]
    · rw [if_neg hq', AList.lookup_erase_ne hq']

theorem Addrs.takeTemp (ha : Addrs e) {os : Os} {buffer : ℕ} (hnew : e.fileAddrs.lookup path = none)
    (ht : e.fileAddrs.lookup e.tempPath = some buffer) (hos : e.os.rename e.tempPath path = some os) :
    Addrs (e.takeTemp path buffer os) := by
  obtain ⟨hm, hb⟩ := rename_mapped hos
  have hl := takeTemp_lookup e path buffer os
  have hne : e.tempPath ≠ path := by
    intro h
    rw [h, hnew] at ht
    cases ht
  refine ⟨fun p q addr' hp hq => ?_, fun addr' => ?_, hm ▸ ha.nodup, hb ▸ ha.noBad⟩
  · -- the other paths have other buffers than the temp page
    have other : ∀ r, r ≠ path → (e.takeTemp path buffer os).fileAddrs.lookup r = some addr' →
        e.fileAddrs.lookup r = some addr' ∧ addr' ≠ buffer := by
      intro r hr hlr
      rw [hl, if_neg hr] at hlr
      split at hlr
      · cases hlr
      · rename_i htemp
        refine ⟨hlr, fun heq => htemp ?_⟩
        rw [heq] at hlr
        exact ha.injective r e.tempPath buffer hlr ht
    by_cases hpp : p = path
    · by_cases hqp : q = path
      · rw [hpp, hqp]
      · rw [hl, if_pos hpp] at hp
        exact absurd (Option.some.inj hp).symm (other q hqp hq).2
    · by_cases hqp : q = path
      · rw [hl, if_pos hqp] at hq
        exact absurd (Option.some.inj hq).symm (other p hpp hp).2
      · exact ha.injective p q addr' (other p hpp hp).1 (other q hqp hq).1
  · show addr' ∈ os.mapped ↔ _
    rw [hm, ha.mapped]
    constructor
    · rintro ⟨p, hp⟩
      by_cases htemp : p = e.tempPath
      · subst htemp
        obtain rfl := Option.some.inj (hp.symm.trans ht)
        exact ⟨path, by rw [hl, if_pos rfl]⟩
      · refine ⟨p, ?_⟩
        rw [hl, if_neg, if_neg htemp, hp]
        rintro rfl
        rw [hnew] at hp
        cases hp
    · rintro ⟨p, hp⟩
      rw [hl] at hp
      split at hp
      · exact ⟨e.tempPath, ht.trans hp⟩
      · split at hp
        · cases hp
        · exact ⟨p, hp⟩

/-! ### Mappings and counts -/

/-- A page is mapped exactly as long as it is counted. -/
structure Agrees (e : PageEngine) : Prop where
  /-- the temp page is no page of a journal -/
  temp : ∀ k : PageKey, '/' ∉ k.name → k.path ≠ e.tempPath
  named : ∀ w k, 0 < e.units w k → '/' ∉ k.name
  mapped_iff : ∀ path, path ≠ e.tempPath →
    ((e.fileAddrs.lookup path).isSome ↔ ∃ w k, k.path = path ∧ 0 < e.units w k)

theorem Agrees.congr (hg : Agrees e) (ht : t.tempPath = e.tempPath) (hc : t.counts = e.counts)
    (hf : ∀ path, path ≠ e.tempPath → (t.fileAddrs.lookup path).isSome = (e.fileAddrs.lookup path).isSome) :
    Agrees t where
  temp k hk := ht ▸ hg.temp k hk
  named w k h := hg.named w k (units_congr (w := w) (k := k) hc ▸ h)
  mapped_iff path hne := by
    rw [ht] at hne
    rw [hf path hne, hg.mapped_iff path hne]
    simp only [units_congr hc]

theorem Agrees.releasePage (hp : Positive e) (hg : Agrees e) (hname : '/' ∉ msg.name) :
    Agrees (e.releasePage msg) := by
  have hu := units_releasePage hp msg
  have htemp := (keeps_releasePage e msg).tempPath
  have old : ∀ w k, 0 < (e.releasePage msg).units w k → 0 < e.units w k := by
    intro w k h
    rw [hu] at h
    omega
  refine ⟨htemp ▸ hg.temp, fun w k h => hg.named w k (old w k h), fun path hne => ?_⟩
  rw [htemp] at hne
  rw [releasePage_lookup hp]
  split
  · rename_i hdrop
    obtain ⟨rfl, hone, hother⟩ := hdrop
    refine iff_of_false (by simp) ?_
    rintro ⟨w, k, hpath, hpos⟩
    obtain rfl : k = msg.key := PageKey.path_injective (hg.named w k (old w k hpos)) hname hpath
    rw [hu] at hpos
    by_cases hw : msg.isWriter = w
    · rw [if_pos ⟨hw, rfl⟩, ← hw] at hpos
      omega
    · have hw' : w = !msg.isWriter := by
        cases w <;> cases hm : msg.isWriter <;> simp_all
      rw [if_neg fun h => hw h.1, hw'] at hpos
      omega
  · rename_i hdrop
    rw [hg.mapped_iff path hne]
    constructor
    · rintro ⟨w, k, hpath, hpos⟩
      by_cases hkept : 0 < (e.releasePage msg).units w k
      · exact ⟨w, k, hpath, hkept⟩
      · -- the last unit on this side: the other side has some
        rw [hu] at hkept
        have hwk : msg.isWriter = w ∧ msg.key = k := by
          by_contra h
          rw [if_neg h] at hkept
          omega
        obtain ⟨rfl, rfl⟩ := hwk
        rw [if_pos ⟨rfl, rfl⟩] at hkept
        refine ⟨!msg.isWriter, msg.key, hpath, ?_⟩
        rw [hu, if_neg fun h => absurd h.1 (by simp), Nat.sub_zero]
        refine Nat.pos_of_ne_zero fun hother => hdrop ⟨hpath.symm, ?_, hother⟩
        omega
    · rintro ⟨w, k, hpath, hpos⟩
      exact ⟨w, k, hpath, old w k hpos⟩

theorem loadPage_lookup (e : PageEngine) (path : CStr) (isWriting : Bool) (addr : ℕ) (q : CStr) :
    (e.loadPage path isWriting addr).fileAddrs.lookup q =
      if q = path then some addr else e.fileAddrs.lookup q := by
  unfold loadPage
  dsimp only
  split
  · rename_i hq
    rw [hq, AList.lookup_insert]
  · rename_i hq
    rw [AList.lookup_insert_ne hq]

/-- The page is mapped, and the other pages as before. -/
theorem mapPage_lookup (h : e.mapPage msg addr = .ok t) {q : CStr} (hq : q ≠ e.tempPath) :
    (t.fileAddrs.lookup q).isSome ↔ q = msg.path ∨ (e.fileAddrs.lookup q).isSome := by
  have hm := maps e msg addr
  rw [h] at hm
  cases hm with
  | mapped hl =>
    refine ⟨.inr, ?_⟩
    rintro (rfl | hs)
    · exact hl
    · exact hs
  | loaded isWriting _ _ =>
    rw [loadPage_lookup]
    split
    · rename_i heq
      simp [heq]
    · rename_i hne
      simp [hne]
  | fromTemp buffer os _ _ _ _ =>
    rw [takeTemp_lookup, if_neg hq]
    split
    · rename_i heq
      simp [heq]
    · rename_i hne
      simp [hne]

theorem countPage_maps (e : PageEngine) (msg : PageCommMsg) :
    (e.countPage msg).2.fileAddrs = e.fileAddrs ∧ (e.countPage msg).2.os = e.os := by
  rcases e.counts_countPage msg with ⟨-, h, -⟩ | ⟨-, h, -⟩
  · rw [h]
    exact ⟨setCounts_fileAddrs .., setCounts_os ..⟩
  · rw [h]
    exact ⟨rfl, rfl⟩

/-- A page that was asked for and mapped is counted. -/
theorem countPage_pos (hp : Positive e) (msg : PageCommMsg) :
    0 < (e.countPage msg).2.units msg.isWriter msg.key := by
  have hu := units_countPage hp msg msg.isWriter msg.key
  rcases e.counts_countPage msg with ⟨hst, -, -⟩ | ⟨-, h, hw, hl⟩
  · rw [if_pos ⟨hst, rfl, rfl⟩] at hu
    omega
  · rw [h, hw]
    exact (lookup_isSome_iff hp).mp hl

theorem Agrees.initiatePage (hp : Positive e) (hg : Agrees e) (hname : '/' ∉ msg.name) (addr : ℕ) :
    Agrees (e.initiatePage msg addr).2 := by
  have htemp := (keeps_initiatePage e msg addr).tempPath
  unfold PageEngine.initiatePage at htemp ⊢
  cases h : e.mapPage msg addr with
  | error status => exact hg
  | ok e' =>
    rw [h] at htemp
    dsimp only at htemp ⊢
    have hc := counts_mapPage h
    have hp' : Positive e' := hp.congr hc
    have hu : ∀ w k, (e'.countPage msg).2.units w k = e.units w k +
        if (e'.countPage msg).1 = .allocated ∧ msg.isWriter = w ∧ msg.key = k then 1 else 0 := by
      intro w k
      rw [units_countPage hp', units_congr hc]
    have new : ∀ w k, 0 < (e'.countPage msg).2.units w k → 0 < e.units w k ∨ k = msg.key := by
      intro w k hpos
      by_cases hk : k = msg.key
      · exact .inr hk
      · rw [hu, if_neg fun h => hk h.2.2.symm] at hpos
        exact .inl hpos
    refine ⟨htemp ▸ hg.temp, fun w k hpos => ?_, fun path hne => ?_⟩
    · rcases new w k hpos with hold | rfl
      · exact hg.named w k hold
      · exact hname
    · rw [htemp] at hne
      rw [(e'.countPage_maps msg).1, mapPage_lookup h hne, hg.mapped_iff path hne]
      constructor
      · rintro (rfl | ⟨w, k, hpath, hpos⟩)
        · exact ⟨msg.isWriter, msg.key, rfl, countPage_pos hp' msg⟩
        · refine ⟨w, k, hpath, ?_⟩
          rw [hu]
          omega
      · rintro ⟨w, k, hpath, hpos⟩
        rcases new w k hpos with hold | rfl
        · exact .inr ⟨w, k, hpath, hold⟩
        · exact .inl hpath.symm

theorem Addrs.initiatePage (ha : Addrs e) (hfresh : addr ∉ e.os.mapped) (msg : PageCommMsg) :
    Addrs (e.initiatePage msg addr).2 := by
  have hm := maps e msg addr
  unfold PageEngine.initiatePage
  cases h : e.mapPage msg addr with
  | error status => exact ha
  | ok e' =>
    rw [h] at hm
    have ha' : Addrs e' := by
      cases hm with
      | mapped _ => exact ha
      | loaded isWriting hnew _ => exact ha.loadPage hfresh hnew isWriting
      | fromTemp buffer os hnew _ ht hos => exact ha.takeTemp hnew ht hos
    obtain ⟨hf, hos⟩ := e'.countPage_maps msg
    exact ha'.congr hf (by rw [hos]) (by rw [hos])

/-! ### Over whole runs -/

/-- The invariant of the mappings. -/
structure Mapped (e : PageEngine) : Prop where
  positive : Positive e
  addrs : Addrs e
  agrees : Agrees e
  /-- the slots name journals without a slash -/
  names : ∀ i, '/' ∉ (e.comm i).name

theorem Mapped.start (c : Setup) (htemp : ∀ k : PageKey, '/' ∉ k.name → k.path ≠ c.tempPath) :
    Mapped c.engine := by
  have hzero : ∀ w k, c.engine.units w k = 0 := by
    intro w k
    cases w <;> rfl
  refine ⟨Positive.start _ _ _, ⟨fun p q addr h => (by cases h), fun addr => ⟨fun h => (by cases h), ?_⟩,
    List.nodup_nil, rfl⟩, ⟨htemp, fun w k h => ?_, fun path _ => ⟨fun h => (by cases h), ?_⟩⟩,
    fun i => List.not_mem_nil⟩
  · rintro ⟨p, hp⟩
    cases hp
  · rw [hzero] at h
    cases h
  · rintro ⟨w, k, -, hpos⟩
    rw [hzero] at hpos
    cases hpos

/-- Counts and mappings are the same. -/
theorem Mapped.congr (hm : Mapped e) (ht : t.tempPath = e.tempPath) (hc : t.counts = e.counts)
    (hf : t.fileAddrs = e.fileAddrs) (hos : t.os.mapped = e.os.mapped)
    (hb : t.os.badReleases = e.os.badReleases) (hn : ∀ i, '/' ∉ (t.comm i).name) : Mapped t where
  positive := hm.positive.congr hc
  addrs := hm.addrs.congr hf hos hb
  agrees := hm.agrees.congr ht hc fun _ _ => by rw [hf]
  names := hn

theorem Mapped.setMsg (hm : Mapped e) (hname : '/' ∉ msg.name) : Mapped (e.setMsg idx msg) := by
  refine hm.congr rfl rfl rfl rfl rfl fun i => ?_
  by_cases h : i = idx
  · subst h
    rw [setMsg_comm_self]
    exact hname
  · rw [setMsg_comm_ne e msg h]
    exact hm.names i

theorem Mapped.releasePage (hm : Mapped e) (hname : '/' ∉ msg.name) : Mapped (e.releasePage msg) where
  positive := hm.positive.releasePage msg
  addrs := hm.addrs.releasePage msg
  agrees := hm.agrees.releasePage hm.positive hname
  names i := by
    rw [(keeps_releasePage e msg).comm]
    exact hm.names i

theorem Mapped.releaseLast (hm : Mapped e) (idx : ℕ) : Mapped (e.releaseLast idx) := by
  rw [releaseLast_eq]
  split
  · exact hm.releasePage (hm.names idx)
  · exact hm

theorem Mapped.initiatePage (hm : Mapped e) (hname : '/' ∉ msg.name) (hfresh : addr ∉ e.os.mapped) :
    Mapped (e.initiatePage msg addr).2 where
  positive := hm.positive.initiatePage msg addr
  addrs := hm.addrs.initiatePage hfresh msg
  agrees := hm.agrees.initiatePage hm.positive hname addr
  names i := by
    rw [(keeps_initiatePage e msg addr).comm]
    exact hm.names i

/-- The mappings after a release: the same, without some pages. -/
structure Unmaps (e t : PageEngine) : Prop where
  tempPath : t.tempPath = e.tempPath
  lookup : ∀ path, t.fileAddrs.lookup path = e.fileAddrs.lookup path ∨
    t.fileAddrs.lookup path = none ∧ path ≠ e.tempPath

theorem Unmaps.refl (e : PageEngine) : Unmaps e e := ⟨rfl, fun _ => .inl rfl⟩

theorem Unmaps.of_eq (h : t.fileAddrs = e.fileAddrs) (ht : t.tempPath = e.tempPath) : Unmaps e t :=
  ⟨ht, fun _ => .inl (by rw [h])⟩

theorem Unmaps.trans {u : PageEngine} (h : Unmaps e t) (h' : Unmaps t u) : Unmaps e u := by
  refine ⟨h'.tempPath.trans h.tempPath, fun path => ?_⟩
  rcases h'.lookup path with heq | ⟨hnone, hne⟩
  · rw [heq]
    exact h.lookup path
  · exact .inr ⟨hnone, h.tempPath ▸ hne⟩

theorem Mapped.unmaps_releasePage (hm : Mapped e) (hname : '/' ∉ msg.name) : Unmaps e (e.releasePage msg) := by
  refine ⟨(keeps_releasePage e msg).tempPath, fun path => ?_⟩
  rw [releasePage_lookup hm.positive]
  split
  · rename_i h
    exact .inr ⟨rfl, h.1 ▸ hm.agrees.temp msg.key hname⟩
  · exact .inl rfl

theorem Mapped.freeSlot (hm : Mapped e) (idx : ℕ) : Mapped (e.freeSlot idx) ∧ Unmaps e (e.freeSlot idx) := by
  unfold PageEngine.freeSlot
  dsimp only
  split
  · have hu := hm.unmaps_releasePage (hm.names idx)
    exact ⟨(hm.releasePage (hm.names idx)).setMsg (hm.names idx), hu.trans (.of_eq rfl rfl)⟩
  · exact ⟨hm.setMsg (hm.names idx), .of_eq rfl rfl⟩

theorem Mapped.freeSlots (l : List ℕ) {e : PageEngine} (hm : Mapped e) :
    Mapped (l.foldl PageEngine.freeSlot e) ∧ Unmaps e (l.foldl PageEngine.freeSlot e) := by
  induction l generalizing e with
  | nil => exact ⟨hm, .refl e⟩
  | cons j l ih =>
    obtain ⟨hm', hu⟩ := hm.freeSlot j
    obtain ⟨hm'', hu'⟩ := ih hm'
    exact ⟨hm'', hu.trans hu'⟩

theorem Mapped.exitClient (hm : Mapped e) (name : CStr) (hash : Int32) (check : Bool) :
    Mapped (e.exitClient name hash check) ∧ Unmaps e (e.exitClient name hash check) := by
  rcases e.exitClient_cases name hash check with h | ⟨info, -, -, h⟩
  · rw [h]
    exact ⟨hm, .refl e⟩
  · rw [h]
    obtain ⟨hm', hu⟩ := hm.freeSlots info.userIndexVec
    exact ⟨hm'.congr rfl rfl rfl rfl rfl hm'.names, hu.trans (.of_eq rfl rfl)⟩

theorem Mapped.pidCheck (hm : Mapped e) (dead : Int32 → Bool) :
    Mapped (e.pidCheck dead) ∧ Unmaps e (e.pidCheck dead) := by
  unfold PageEngine.pidCheck
  induction e.clientsToRemove dead generalizing e with
  | nil => exact ⟨hm, .refl e⟩
  | cons name names ih =>
    obtain ⟨hm', hu⟩ := hm.exitClient name 0 false
    obtain ⟨hm'', hu'⟩ := ih hm'
    exact ⟨hm'', hu.trans hu'⟩

theorem Mapped.tempPage (hm : Mapped e) (hfresh : addr ∉ e.os.mapped) : Mapped (e.tempPage addr) := by
  unfold PageEngine.tempPage
  split
  · exact hm
  · rename_i hnone
    refine ⟨hm.positive.congr rfl, hm.addrs.loadPage hfresh hnone true, ?_, hm.names⟩
    refine hm.agrees.congr rfl rfl fun path hne => ?_
    rw [loadPage_lookup, if_neg hne]

/-- The names of the journals that clients register have no slash. -/
def PlainNames (event : Event) : Prop := ∀ name idx dir jname, event = .hold name idx dir jname → '/' ∉ jname

theorem Mapped.apply (hm : Mapped e) {event : Event} (hn : PlainNames event) (h : e.apply event = some t) :
    Mapped t := by
  have hocc : ∀ idx i, '/' ∉ ((e.occupy idx).comm i).name := by
    intro idx i
    rw [occupy_comm]
    split
    · exact hm.names idx
    · exact hm.names i
  cases event with
  | regClient name pid isWriter nano =>
    obtain rfl := Option.some.inj h
    cases hl : e.clientJournals.lookup name with
    | none =>
      have hcomm := (regClient_none pid isWriter nano hl).2.1
      have hnames : ∀ i, '/' ∉ ((e.regClient name pid isWriter nano).2.comm i).name := by
        rw [hcomm]
        exact hm.names
      simp only [PageEngine.regClient, hl, Option.isSome_none, Bool.false_eq_true, if_false] at hnames ⊢
      exact hm.congr rfl rfl rfl rfl rfl hnames
    | some info =>
      rw [regClient_some hl]
      exact hm
  | regJournal name =>
    obtain rfl := Option.some.inj h
    rcases e.regJournal_cases name with ⟨-, hr⟩ | ⟨idx, -, -, hr⟩ | ⟨idx, info, -, -, hr⟩
    · rw [hr]
      exact hm
    · rw [hr]
      exact hm.congr rfl rfl rfl rfl rfl (hocc idx)
    · rw [hr]
      exact hm.congr rfl rfl rfl rfl rfl (hocc idx)
  | hold name idx dir jname =>
    obtain ⟨info, -, -, rfl⟩ := apply_hold h
    exact hm.setMsg (hn name idx dir jname rfl)
  | exitClient name hash check =>
    obtain rfl := Option.some.inj h
    exact (hm.exitClient name hash check).1
  | pidCheck dead =>
    obtain rfl := Option.some.inj h
    exact (hm.pidCheck dead).1
  | tempPage addr =>
    obtain ⟨hfresh, rfl⟩ := apply_tempPage h
    exact hm.tempPage hfresh
  | disk files folders =>
    obtain rfl := Option.some.inj h
    exact hm.congr rfl rfl rfl rfl rfl hm.names

/-- A release makes no buffer that is mapped. -/
theorem Unmaps.fresh (hu : Unmaps e t) (he : Addrs e) (ht : Addrs t) (h : addr ∉ e.os.mapped) :
    addr ∉ t.os.mapped := by
  intro hmem
  obtain ⟨p, hp⟩ := (ht.mapped addr).mp hmem
  rcases hu.lookup p with heq | ⟨hnone, -⟩
  · exact h ((he.mapped addr).mpr ⟨p, heq ▸ hp⟩)
  · rw [hnone] at hp
    cases hp

theorem Mapped.unmaps_releaseLast (hm : Mapped e) (idx : ℕ) : Unmaps e (e.releaseLast idx) := by
  rw [releaseLast_eq]
  split
  · exact hm.unmaps_releasePage (hm.names idx)
  · exact .refl e

theorem Mapped.answer (hm : Mapped e) (hfresh : addr ∉ e.os.mapped) (idx : ℕ) : Mapped (e.answer idx addr) := by
  have hm' := hm.releaseLast idx
  have hfresh' := (hm.unmaps_releaseLast idx).fresh hm.addrs hm'.addrs hfresh
  exact (hm'.initiatePage (hm.names idx) hfresh').setMsg (hm.names idx)

theorem Mapped.ask (hm : Mapped e) (idx : ℕ) (pageNum : Int16) : Mapped (e.ask idx pageNum) :=
  hm.setMsg (hm.names idx)

theorem Mapped.step (hm : Mapped e) {a : Action} (hn : ∀ event, a = .event event → PlainNames event)
    (h : e.step a = some t) : Mapped t := by
  cases a with
  | event event => exact hm.apply (hn event rfl) h
  | request idx pageNum addr =>
    obtain ⟨-, hfresh, rfl⟩ := step_request h
    exact (hm.ask idx pageNum).answer hfresh idx

/-! ### Releases -/

theorem mapped_initiatePage {x : ℕ} (h : x ∈ e.os.mapped) (msg : PageCommMsg) (addr : ℕ) :
    x ∈ (e.initiatePage msg addr).2.os.mapped := by
  have hm := maps e msg addr
  unfold initiatePage
  cases hmap : e.mapPage msg addr with
  | error status => exact h
  | ok e' =>
    rw [hmap] at hm
    dsimp only
    rw [(e'.countPage_maps msg).2]
    cases hm with
    | mapped _ => exact h
    | loaded isWriting _ _ => exact List.mem_cons_of_mem addr h
    | fromTemp buffer os _ _ _ hos =>
      show x ∈ os.mapped
      rw [(rename_mapped hos).1]
      exact h

/-- A buffer that a release takes away was the one of a page, which is not mapped any more. -/
theorem Unmaps.gone (hu : Unmaps e t) (ht : Addrs t) (hl : e.fileAddrs.lookup path = some addr)
    (h : addr ∉ t.os.mapped) : t.fileAddrs.lookup path = none ∧ path ≠ e.tempPath := by
  rcases hu.lookup path with heq | hgone
  · exact absurd ((ht.mapped addr).mpr ⟨path, heq.trans hl⟩) h
  · exact hgone

theorem Mapped.released_exit (ht : Mapped t) (hu : Unmaps e t)
    (hl : e.fileAddrs.lookup path = some addr) (h : addr ∉ t.os.mapped) (w : Bool) (hk : k.path = path) :
    t.units w k = 0 := by
  obtain ⟨hnone, hne⟩ := hu.gone ht.addrs hl h
  by_contra hpos
  have hs := (ht.agrees.mapped_iff path (hu.tempPath ▸ hne)).mpr ⟨w, k, hk, Nat.pos_of_ne_zero hpos⟩
  rw [hnone] at hs
  cases hs

/-- A request releases the page of the last request, which is not the one it asks for. -/
theorem Mapped.released_answer (hm : Mapped e) (hfresh : addr ∉ e.os.mapped) {x : ℕ}
    (hl : e.fileAddrs.lookup path = some x) (h : x ∉ (e.answer idx addr).os.mapped) (w : Bool)
    (hk : k.path = path) : (e.answer idx addr).units w k = 0 := by
  have hm' := hm.releaseLast idx
  have hu := hm.unmaps_releaseLast idx
  have h' : x ∉ (e.releaseLast idx).os.mapped := fun hmem => h (mapped_initiatePage hmem (e.comm idx) addr)
  obtain ⟨hnone, hne⟩ := hu.gone hm'.addrs hl h'
  have hfresh' := hu.fresh hm.addrs hm'.addrs hfresh
  have hmi : Mapped ((e.releaseLast idx).initiatePage (e.comm idx) addr).2 :=
    hm'.initiatePage (hm.names idx) hfresh'
  have hzero : ((e.releaseLast idx).initiatePage (e.comm idx) addr).2.units w k = 0 := by
    rw [units_initiatePage hm'.positive]
    have hbefore : (e.releaseLast idx).units w k = 0 := by
      by_contra hpos
      have hs := (hm'.agrees.mapped_iff path (hu.tempPath ▸ hne)).mpr ⟨w, k, hk, Nat.pos_of_ne_zero hpos⟩
      rw [hnone] at hs
      cases hs
    rw [hbefore, if_neg]
    -- the page asked for has another path
    rintro ⟨-, -, rfl⟩
    rw [releaseLast_eq] at hnone
    split at hnone
    · rename_i hd
      rw [releasePage_lookup hm.positive] at hnone
      split at hnone
      · rename_i hlast
        have hkey := PageKey.path_injective (hm.names idx) (hm.names idx) (hk.trans hlast.1)
        exact hd.2 (congrArg PageKey.pageNum hkey).symm
      · rw [hl] at hnone
        cases hnone
    · rw [hl] at hnone
      cases hnone
  exact hzero

/-- **Mappings match counts.**  A page is mapped exactly if it is counted, no two paths share a buffer,
the buffers that are mapped are those of the paths, none was released twice, and a step releases a buffer
only when its page is not counted any more. -/
structure MappingsMatch (e : PageEngine) : Prop where
  counts : ∀ w k n, (e.counts w).lookup k = some n → 1 ≤ n
  mapped : ∀ path, path ≠ e.tempPath → ((e.fileAddrs.lookup path).isSome ↔
    ∃ k : PageKey, k.path = path ∧
      ((e.fileWriterCounts.lookup k).isSome ∨ (e.fileReaderCounts.lookup k).isSome))
  injective : ∀ p q addr, e.fileAddrs.lookup p = some addr → e.fileAddrs.lookup q = some addr → p = q
  buffers : ∀ addr, addr ∈ e.os.mapped ↔ ∃ path, e.fileAddrs.lookup path = some addr
  once : e.os.mapped.Nodup ∧ e.os.badReleases = 0
  released : ∀ a t, e.step a = some t → ∀ path addr, e.fileAddrs.lookup path = some addr →
    addr ∉ t.os.mapped → ∀ k : PageKey, k.path = path →
      t.fileWriterCounts.lookup k = none ∧ t.fileReaderCounts.lookup k = none

theorem Mapped.released (hm : Mapped e) {a : Action} (h : e.step a = some t) {x : ℕ}
    (hl : e.fileAddrs.lookup path = some x) (hx : x ∉ t.os.mapped) (hk : k.path = path) :
    t.fileWriterCounts.lookup k = none ∧ t.fileReaderCounts.lookup k = none := by
  have hmem : x ∈ e.os.mapped := (hm.addrs.mapped x).mpr ⟨path, hl⟩
  have none_of : Positive t → (∀ w, t.units w k = 0) →
      t.fileWriterCounts.lookup k = none ∧ t.fileReaderCounts.lookup k = none := fun hp hz =>
    ⟨(lookup_none_iff (w := true) hp).mpr (hz true), (lookup_none_iff (w := false) hp).mpr (hz false)⟩
  cases a with
  | event event =>
    cases event with
    | regClient name pid isWriter nano =>
      obtain rfl := Option.some.inj h
      refine absurd ?_ hx
      unfold PageEngine.regClient
      split
      · exact hmem
      · exact hmem
    | regJournal name =>
      obtain rfl := Option.some.inj h
      rcases e.regJournal_cases name with ⟨-, hr⟩ | ⟨idx, -, -, hr⟩ | ⟨idx, info, -, -, hr⟩
      all_goals
        rw [hr] at hx
        exact absurd hmem hx
    | hold name idx dir jname =>
      obtain ⟨info, -, -, rfl⟩ := apply_hold h
      exact absurd hmem hx
    | exitClient name hash check =>
      obtain rfl := Option.some.inj h
      obtain ⟨ht, hu⟩ := hm.exitClient name hash check
      exact none_of ht.positive fun w => ht.released_exit hu hl hx w hk
    | pidCheck dead =>
      obtain rfl := Option.some.inj h
      obtain ⟨ht, hu⟩ := hm.pidCheck dead
      exact none_of ht.positive fun w => ht.released_exit hu hl hx w hk
    | tempPage addr =>
      obtain ⟨-, rfl⟩ := apply_tempPage h
      refine absurd ?_ hx
      unfold PageEngine.tempPage
      split
      · exact hmem
      · exact List.mem_cons_of_mem addr hmem
    | disk files folders =>
      obtain rfl := Option.some.inj h
      exact absurd hmem hx
  | request idx pageNum addr =>
    obtain ⟨-, hfresh, rfl⟩ := step_request h
    have hask := hm.ask idx pageNum
    exact none_of (hask.answer hfresh idx).positive fun w => hask.released_answer hfresh hl hx w hk

theorem Mapped.mappingsMatch (hm : Mapped e) : MappingsMatch e where
  counts w k n hl := hm.positive w k n hl
  mapped path hne := by
    rw [hm.agrees.mapped_iff path hne]
    constructor
    · rintro ⟨w, k, hpath, hpos⟩
      have hs := (lookup_isSome_iff hm.positive).mpr hpos
      cases w with
      | true => exact ⟨k, hpath, .inl hs⟩
      | false => exact ⟨k, hpath, .inr hs⟩
    · rintro ⟨k, hpath, hs | hs⟩
      · exact ⟨true, k, hpath, (lookup_isSome_iff hm.positive).mp hs⟩
      · exact ⟨false, k, hpath, (lookup_isSome_iff hm.positive).mp hs⟩
  injective := hm.addrs.injective
  buffers := hm.addrs.mapped
  once := ⟨hm.addrs.nodup, hm.addrs.noBad⟩
  released _ _ h _ _ hl hx _ hk := hm.released h hl hx hk

/-- **Mappings match counts in every reachable state**, when the journals have names without a slash and
the temp page is not a page of a journal. -/
theorem mappings_match (c : Setup) (htemp : ∀ k : PageKey, '/' ∉ k.name → k.path ≠ c.tempPath)
    (as : List Action)
    (hnames : ∀ name idx dir jname, .event (.hold name idx dir jname) ∈ as → '/' ∉ jname) :
    (service c).Always MappingsMatch c.engine as := by
  have hplain : ∀ a ∈ as, ∀ event, a = .event event → PlainNames event := by
    rintro a ha event rfl name idx dir jname rfl
    exact hnames name idx dir jname ha
  have heach := System.eachStep_of_forall (M := service c)
    (C := fun _ a => ∀ event, a = .event event → PlainNames event) as (fun a ha _ => hplain a ha) c.engine
  exact System.always_of_eachStep (I := Mapped) (fun _ _ _ hm hn h => hm.step hn h)
    (fun _ hm => hm.mappingsMatch) as (.start c htemp) heach

/-- A writer takes the temp page over and exits. -/
theorem mappings_match_writer : (service .bare).Always MappingsMatch Setup.bare.engine
    [.event (.disk [] [['d']]), .event (.tempPage 3), .event (.regClient ['a'] 1 true 0),
      .event (.regJournal ['a']), .event (.hold ['a'] 0 ['d'] ['j']), .request 0 1 4,
      .event (.exitClient ['a'] 0 false)] := by
  refine mappings_match .bare (fun k _ hk => ?_) _ fun name idx dir jname hmem => ?_
  · have hs : journalSuffix <:+ Setup.bare.tempPath := hk ▸ k.suffix_path
    exact absurd hs (by decide)
  · simp only [List.mem_cons, Action.event.injEq, Event.hold.injEq, List.not_mem_nil, reduceCtorEq,
      or_false, false_or] at hmem
    rw [hmem.2.2.2]
    decide

end Yijinjing.PageEngine
